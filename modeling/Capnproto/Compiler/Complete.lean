import Capnproto.Compiler.Emission

/-!
# No field is lost

Every slot of a struct is declared, read and written once, in its own cases and at one path,
when no group with slots is taken for an empty one, no union is in a struct of its own inside
a group that has other members, and the members of a union are together (`Fields.Regular`).
These are all the schemas for which it is so (`complete_iff`), among those whose groups keep their names.
-/

namespace Capnproto.Compiler

/-- A group that is skipped, or is a member of a union but not next to the others, has no slots; and
so has a union that gets a struct inside that of its group. -/
def Fields.Regular : Phase → Fields → Prop
  | _, .nil => True
  | ph, .slot f rest =>
    let ph := ph.next (inUnion f.discriminantValue)
    (ph = .after ∧ inUnion f.discriminantValue = true → f.type = .void) ∧ rest.Regular ph
  | ph, .group g body rest =>
    let ph := ph.next (inUnion g.discriminantValue)
    (g.skipped body = true ∨ ph = .after ∧ inUnion g.discriminantValue = true → body.slots g.node = []) ∧
      (g.twice body (ph = .union) = true →
        body.slotsOf g.node .union .before = [] ∧ body.slotsOf g.node .after .before = []) ∧
      (g.skipped body = true ∨ body.Regular .before) ∧ rest.Regular ph

/-! ## Schemas that are regular -/

theorem Phase.next_union {ph : Phase} {b : Bool} (h : ¬ (ph.next b = .after ∧ b = true)) :
    decide (ph.next b = .union) = b := by
  revert h
  cases ph <;> cases b <;> decide

/-- The members that one loop has are declared where they are read, and asked for. -/
def Fields.Matches (node : Text) (fs : Fields) (loop ph : Phase) : Prop :=
  fs.declsOf loop ph = (fs.readsOf node loop ph).map (fun m => (m.slot, m.path)) ∧
    (fs.readsOf node loop ph).map (fun m => (m.slot, m.cases)) = fs.slotsOf node loop ph

/-- Without slots there is nothing to declare. -/
theorem Fields.Matches.decls_nil {node : Text} {fs : Fields} {loop ph : Phase} (h : fs.Matches node loop ph)
    (h0 : fs.slotsOf node loop ph = []) : fs.declsOf loop ph = [] := by
  rw [← h.2, List.map_eq_nil_iff] at h0
  rw [h.1, h0]
  rfl

/-- A group whose members are declared where they are read, and asked for. -/
theorem group_matches {g : Group} {body : Fields}
    (h : g.skipped body = false → ∀ loop, body.Matches g.node loop .before) (enclose : Bool)
    (cases : List (List Label)) (hs : g.skipped body = true → body.slots g.node = [])
    (htw : g.twice body enclose = true →
      body.slotsOf g.node .union .before = [] ∧ body.slotsOf g.node .after .before = []) :
    g.decls body enclose = (g.reads body cases).map (fun m => (m.slot, m.path)) ∧
      (g.reads body cases).map (fun m => (m.slot, m.cases)) =
        (body.slots g.node).map fun x => (x.1, cases ++ x.2) := by
  rw [Group.decls, Group.reads, Group.around, Group.within]
  by_cases hsk : g.skipped body = true
  · rw [if_pos hsk, if_pos hsk, hs hsk]
    exact ⟨rfl, rfl⟩
  have h := h (Bool.not_eq_true _ ▸ hsk)
  rw [if_neg hsk, if_neg hsk]
  have hun : underAll (if g.twice body enclose then [escape g.name] else [])
      (body.declsOf .union .before ++ body.declsOf .after .before) =
        body.declsOf .union .before ++ body.declsOf .after .before := by
    by_cases ht : g.twice body enclose = true
    · rw [(h .union).decls_nil (htw ht).1, (h .after).decls_nil (htw ht).2]
      rfl
    · rw [if_neg ht, underAll_nil]
  constructor
  · rw [hun, (h .before).1, (h .union).1, (h .after).1, ← List.map_append, ← List.map_append, underAll, List.map_map,
      List.map_map]
    rfl
  · rw [Fields.slots, ← (h .before).2, ← (h .union).2, ← (h .after).2, ← List.map_append, ← List.map_append,
      List.map_map, List.map_map]
    rfl

theorem Fields.Regular.matches {fs : Fields} {ph : Phase} (h : fs.Regular ph) (node : Text) (loop : Phase) :
    fs.Matches node loop ph := by
  induction fs generalizing ph node loop with
  | nil => exact ⟨rfl, rfl⟩
  | slot f rest ih =>
    obtain ⟨hf, hrest⟩ := h
    obtain ⟨h1, h2⟩ := ih hrest node loop
    simp only [Matches, declsOf, readsOf, slotsOf, List.map_append, h1, h2]
    refine ⟨congrArg (· ++ _) ?_, congrArg (· ++ _) ?_⟩
    · rw [Slot.decls, Slot.reads]
      by_cases hp : ph.next (inUnion f.discriminantValue) = loop <;> by_cases hv : f.type = .void <;> simp [hp, hv]
    · rw [Slot.reads]
      by_cases hv : f.type = .void
      · simp [hv]
      · have hn : ¬ (ph.next (inUnion f.discriminantValue) = .after ∧ inUnion f.discriminantValue = true) :=
          fun hc => hv (hf hc)
        rw [if_neg hv, Phase.next_union hn]
        by_cases hp : ph.next (inUnion f.discriminantValue) = loop
        · rw [if_pos hp, if_pos ⟨hp, hv⟩]
          rfl
        · rw [if_neg hp, if_neg fun hc => hp hc.1]
          rfl
  | group g body rest ihb ih =>
    obtain ⟨hg, htw, hbody, hrest⟩ := h
    obtain ⟨h1, h2⟩ := ih hrest node loop
    by_cases hp : ph.next (inUnion g.discriminantValue) = loop
    · have hm := group_matches (fun hs => ihb (hbody.resolve_left (by rw [hs]; exact Bool.false_ne_true)) g.node)
        (decide (ph.next (inUnion g.discriminantValue) = .union))
        (caseOf node g.name (decide (ph.next (inUnion g.discriminantValue) = .union))) (fun hs => hg (.inl hs)) htw
      have hc : (body.slots g.node).map (fun x =>
          (x.1, caseOf node g.name (decide (ph.next (inUnion g.discriminantValue) = .union)) ++ x.2)) =
          (body.slots g.node).map fun x => (x.1, caseOf node g.name (inUnion g.discriminantValue) ++ x.2) := by
        by_cases hc : ph.next (inUnion g.discriminantValue) = .after ∧ inUnion g.discriminantValue = true
        · rw [hg (.inr hc)]
          rfl
        · rw [Phase.next_union hc]
      simp only [Matches, declsOf, readsOf, slotsOf, if_pos hp]
      rw [List.map_append, List.map_append, h1, h2]
      exact ⟨congrArg (· ++ _) hm.1, congrArg (· ++ _) (hm.2.trans hc)⟩
    · simp only [Matches, declsOf, readsOf, slotsOf, if_neg hp]
      rw [List.map_append, List.map_append, h1, h2]
      exact ⟨rfl, rfl⟩

/-! ## Schemas of which nothing is lost

The generator loses members and cases, and adds groups to paths, and does none of this the
other way: what it writes is never more than what is asked for (`Fits`). So where the numbers agree
for a whole struct they agree for each field (`Tight`).
-/

/-- The sum of `f`. -/
def total {α : Type} (f : α → Nat) (xs : List α) : Nat := (xs.map f).sum

@[simp] theorem total_nil {α : Type} (f : α → Nat) : total f [] = 0 := rfl

@[simp] theorem total_append {α : Type} (f : α → Nat) (xs ys : List α) :
    total f (xs ++ ys) = total f xs + total f ys := by
  rw [total, List.map_append, List.sum_append]
  rfl

theorem total_perm {α : Type} (f : α → Nat) {xs ys : List α} (h : xs.Perm ys) : total f xs = total f ys :=
  (h.map f).sum_nat

theorem total_map {α β : Type} (f : β → Nat) (g : α → β) (xs : List α) :
    total f (xs.map g) = total (fun x => f (g x)) xs := congrArg List.sum List.map_map

/-- A sum over elements each of which `g` makes larger by `c`. -/
theorem total_map_add {α β : Type} {f : β → Nat} {f' : α → Nat} {g : α → β} {c : Nat}
    (h : ∀ x, f (g x) = f' x + c) (xs : List α) : total f (xs.map g) = total f' xs + xs.length * c := by
  induction xs with
  | nil => rw [List.length_nil, Nat.zero_mul]; rfl
  | cons x xs ih =>
    simp only [total, List.map_cons, List.sum_cons, List.length_cons, Nat.add_one_mul] at ih ⊢
    rw [ih, h]
    omega

def Declared.size (x : Declared) : Nat := x.2.text.length
def Member.size (m : Member) : Nat := m.path.text.length
def Member.depth (m : Member) : Nat := m.cases.length
def caseDepth (x : Slot × List (List Label)) : Nat := x.2.length

theorem size_under (name : Text) (p : Path) : (p.under [name]).text.length = p.text.length + (name.length + 1) := by
  simp only [Path.text, Path.under, List.flatMap_cons, List.cons_append, List.nil_append,
    List.length_append, List.length_cons, List.length_nil]
  omega

/-- Slots are declared, read and asked for: what is read is at most what is declared and asked for. -/
structure Fits (ds : List Declared) (ms : List Member) (xs : List (Slot × List (List Label))) : Prop where
  count : ds.length = ms.length
  slots : ms.length ≤ xs.length
  cases : total Member.depth ms ≤ total caseDepth xs
  paths : total Member.size ms ≤ total Declared.size ds

/-- What is read is all that is declared and asked for. -/
structure Tight (ds : List Declared) (ms : List Member) (xs : List (Slot × List (List Label))) : Prop where
  slots : ms.length = xs.length
  cases : total Member.depth ms = total caseDepth xs
  paths : total Member.size ms = total Declared.size ds

section

variable {ds ds' : List Declared} {ms ms' : List Member} {xs xs' : List (Slot × List (List Label))}

theorem Fits.nil : Fits [] [] [] := ⟨rfl, Nat.le_refl _, Nat.le_refl _, Nat.le_refl _⟩

theorem Tight.nil : Tight [] [] [] := ⟨rfl, rfl, rfl⟩

theorem Fits.append (h : Fits ds ms xs) (h' : Fits ds' ms' xs') : Fits (ds ++ ds') (ms ++ ms') (xs ++ xs') where
  count := by rw [List.length_append, List.length_append, h.count, h'.count]
  slots := by
    rw [List.length_append, List.length_append]
    exact Nat.add_le_add h.slots h'.slots
  cases := by
    rw [total_append, total_append]
    exact Nat.add_le_add h.cases h'.cases
  paths := by
    rw [total_append, total_append]
    exact Nat.add_le_add h.paths h'.paths

theorem Fits.tight (_ : Fits ds ms xs) (hs : ms.length = xs.length) (hc : total Member.depth ms = total caseDepth xs)
    (hp : total Member.size ms = total Declared.size ds) : Tight ds ms xs := ⟨hs, hc, hp⟩

/-- Where the sums agree the summands do. -/
theorem Tight.split (ht : Tight (ds ++ ds') (ms ++ ms') (xs ++ xs')) (h : Fits ds ms xs) (h' : Fits ds' ms' xs') :
    Tight ds ms xs ∧ Tight ds' ms' xs' := by
  obtain ⟨hs, hc, hp⟩ := ht
  rw [List.length_append, List.length_append] at hs
  rw [total_append, total_append] at hc hp
  have h1 := h.slots
  have h2 := h'.slots
  have h3 := h.cases
  have h4 := h'.cases
  have h5 := h.paths
  have h6 := h'.paths
  exact ⟨⟨by omega, by omega, by omega⟩, ⟨by omega, by omega, by omega⟩⟩

end

/-- The fields of one loop. -/
def Fields.FitsOf (node : Text) (fs : Fields) (loop ph : Phase) : Prop :=
  Fits (fs.declsOf loop ph) (fs.readsOf node loop ph) (fs.slotsOf node loop ph)

def Fields.TightOf (node : Text) (fs : Fields) (loop ph : Phase) : Prop :=
  Tight (fs.declsOf loop ph) (fs.readsOf node loop ph) (fs.slotsOf node loop ph)

theorem caseOf_le (node name : Text) {a b : Bool} (h : a = true → b = true) :
    (caseOf node name a).length ≤ (caseOf node name b).length := by
  cases a with
  | false => exact Nat.zero_le _
  | true => exact Nat.le_of_eq (by rw [h rfl])

theorem Phase.union_of_next {ph : Phase} {b : Bool} (h : ph.next b = .union) : b = true := by
  revert h
  cases ph <;> cases b <;> decide

theorem slot_fits (node : Text) (f : Slot) {a b : Bool} (h : a = true → b = true) :
    Fits f.decls (f.reads node a) (if f.type ≠ .void then [(f, caseOf node f.name b)] else []) := by
  rw [Slot.decls, Slot.reads]
  by_cases hv : f.type = .void
  · rw [if_pos hv, if_pos hv, if_neg (not_not_intro hv)]
    exact .nil
  · rw [if_neg hv, if_neg hv, if_pos hv]
    exact ⟨rfl, Nat.le_refl _, Nat.add_le_add_right (caseOf_le node f.name h) 0, Nat.le_refl _⟩

/-- A group around its members: how the sums change. -/
theorem group_sums (g : Group) (body : Fields) (enclose : Bool) (cases : List (List Label))
    (hs : g.skipped body = false) :
    let union := body.declsOf .union .before ++ body.declsOf .after .before
    let ds := body.declsOf .before .before ++ union
    let ms := body.readsOf g.node .before .before ++
      (body.readsOf g.node .union .before ++ body.readsOf g.node .after .before)
    (g.decls body enclose).length = ds.length ∧ (g.reads body cases).length = ms.length ∧
      total Member.depth (g.reads body cases) = total Member.depth ms + ms.length * cases.length ∧
      total Member.size (g.reads body cases) = total Member.size ms + ms.length * ((escape g.name).length + 1) ∧
      total Declared.size (g.decls body enclose) = total Declared.size ds +
        union.length * (if g.twice body enclose then (escape g.name).length + 1 else 0) +
        ds.length * ((escape g.name).length + 1) := by
  intro union ds ms
  have hms : g.reads body cases = ms.map (Member.under (escape g.name) cases) := by
    rw [Group.reads, Group.within, if_neg (Bool.eq_false_iff.mp hs)]
  have hds : g.decls body enclose = underAll [escape g.name] (body.declsOf .before .before ++
      underAll (if g.twice body enclose then [escape g.name] else []) union) := by
    rw [Group.decls, Group.around, if_neg (Bool.eq_false_iff.mp hs)]
  have hun : ∀ ys : List Declared, total Declared.size (underAll [escape g.name] ys) =
      total Declared.size ys + ys.length * ((escape g.name).length + 1) :=
    total_map_add fun x => size_under _ x.2
  have hlen : ∀ (names : List Text) (ys : List Declared), (underAll names ys).length = ys.length :=
    fun names ys => List.length_map _
  refine ⟨?_, ?_, ?_, ?_, ?_⟩
  · rw [hds, hlen, List.length_append, hlen, ← List.length_append]
  · rw [hms, List.length_map]
  · rw [hms]
    refine total_map_add (fun m => ?_) ms
    simp only [Member.depth, Member.under, List.length_append]
    omega
  · rw [hms]
    have h : ∀ m, Member.size (Member.under (escape g.name) cases m) = m.size + ((escape g.name).length + 1) :=
      fun m => size_under _ m.path
    exact total_map_add h ms
  · rw [hds, hun, List.length_append, hlen, ← List.length_append, total_append]
    simp only [ds, total_append]
    split
    · rw [hun]
      omega
    · rw [underAll_nil]
      omega

theorem slots_sums (cases : List (List Label)) (xs : List (Slot × List (List Label))) :
    total caseDepth (xs.map fun x => (x.1, cases ++ x.2)) = total caseDepth xs + xs.length * cases.length := by
  refine total_map_add (fun x => ?_) xs
  simp only [caseDepth, List.length_append]
  omega

theorem group_fits {g : Group} {body : Fields} (h : ∀ loop, body.FitsOf g.node loop .before) (node : Text)
    {a b : Bool} (hab : a = true → b = true) :
    Fits (g.decls body a) (g.reads body (caseOf node g.name a))
      ((body.slots g.node).map fun x => (x.1, caseOf node g.name b ++ x.2)) := by
  have hb : Fits _ _ (body.slots g.node) := (h .before).append ((h .union).append (h .after))
  have hx := slots_sums (caseOf node g.name b) (body.slots g.node)
  by_cases hs : g.skipped body = true
  · rw [Group.decls, Group.reads, Group.around, Group.within, if_pos hs, if_pos hs]
    exact ⟨rfl, Nat.zero_le _, Nat.zero_le _, Nat.le_refl _⟩
  · obtain ⟨h1, h2, h3, h4, h5⟩ := group_sums g body a (caseOf node g.name a) (Bool.eq_false_iff.mpr hs)
    refine ⟨?_, ?_, ?_, ?_⟩
    · rw [h1, h2, hb.count]
    · rw [h2, List.length_map]
      exact hb.slots
    · rw [h3, hx]
      exact Nat.add_le_add hb.cases (Nat.mul_le_mul hb.slots (caseOf_le node g.name hab))
    · rw [h4, h5, hb.count]
      have hp := hb.paths
      omega

theorem Fields.fits (fs : Fields) (node : Text) (loop ph : Phase) : fs.FitsOf node loop ph := by
  induction fs generalizing node loop ph with
  | nil => exact .nil
  | slot f rest ih =>
    have hr := ih node loop (ph.next (inUnion f.discriminantValue))
    simp only [FitsOf, declsOf, readsOf, slotsOf] at hr ⊢
    refine Fits.append ?_ hr
    by_cases hp : ph.next (inUnion f.discriminantValue) = loop
    · rw [if_pos hp, if_pos hp, ite_and, if_pos hp]
      exact slot_fits node f fun h => Phase.union_of_next (of_decide_eq_true h)
    · rw [if_neg hp, if_neg hp, ite_and, if_neg hp]
      exact .nil
  | group g body rest ihb ih =>
    have hr := ih node loop (ph.next (inUnion g.discriminantValue))
    simp only [FitsOf, declsOf, readsOf, slotsOf] at hr ⊢
    refine Fits.append ?_ hr
    by_cases hp : ph.next (inUnion g.discriminantValue) = loop
    · rw [if_pos hp, if_pos hp, if_pos hp]
      exact group_fits (fun loop => ihb g.node loop .before) node
        fun h => Phase.union_of_next (of_decide_eq_true h)
    · rw [if_neg hp, if_neg hp, if_neg hp]
      exact .nil

/-- A slot behind the union, that is one of its members, loses its case. -/
theorem slot_regular {node : Text} {f : Slot} {a : Bool}
    (h : Tight f.decls (f.reads node a) (if f.type ≠ .void then [(f, caseOf node f.name true)] else [])) :
    a = true ∨ f.type = .void := by
  by_contra hc
  obtain ⟨ha, hv⟩ := not_or.mp hc
  have hcases := h.cases
  rw [Slot.reads, if_neg hv, if_pos hv, Bool.eq_false_iff.mpr ha] at hcases
  exact absurd hcases Nat.zero_ne_one

/-- What a group loses. -/
theorem group_regular {node : Text} {g : Group} {body : Fields} {a b : Bool} (hab : a = true → b = true)
    (h : Tight (g.decls body a) (g.reads body (caseOf node g.name a))
      ((body.slots g.node).map fun x => (x.1, caseOf node g.name b ++ x.2))) :
    (g.skipped body = true ∨ a ≠ b → body.slots g.node = []) ∧
      (g.twice body a = true → body.slotsOf g.node .union .before = [] ∧ body.slotsOf g.node .after .before = []) ∧
      (g.skipped body = true ∨ ∀ loop, body.TightOf g.node loop .before) := by
  have hlen := h.slots
  rw [List.length_map] at hlen
  by_cases hs : g.skipped body = true
  · rw [Group.reads, Group.within, if_pos hs] at hlen
    have h0 : body.slots g.node = [] := List.length_eq_zero_iff.mp hlen.symm
    refine ⟨fun _ => h0, fun _ => ?_, .inl hs⟩
    rw [Fields.slots, List.append_eq_nil_iff, List.append_eq_nil_iff] at h0
    exact h0.2
  obtain ⟨h1, h2, h3, h4, h5⟩ := group_sums g body a (caseOf node g.name a) (Bool.eq_false_iff.mpr hs)
  have fits := fun loop => body.fits g.node loop .before
  have hu := (fits .union).append (fits .after)
  have hb : Fits _ _ (body.slots g.node) := (fits .before).append hu
  have hcases := h.cases
  rw [h3, slots_sums] at hcases
  have hpaths := h.paths
  rw [h4, h5, hb.count] at hpaths
  generalize hz : (body.declsOf .union .before ++ body.declsOf .after .before).length *
    (if g.twice body a then (escape g.name).length + 1 else 0) = z at hpaths
  rw [h2] at hlen
  rw [hlen] at hcases
  have hle := Nat.mul_le_mul_left (body.slots g.node).length (caseOf_le node g.name hab)
  have hc := hb.cases
  have hp := hb.paths
  have ht := hb.tight hlen (by omega) (by omega)
  obtain ⟨t1, t2⟩ := Tight.split ht (fits .before) hu
  obtain ⟨t2, t3⟩ := Tight.split t2 (fits .union) (fits .after)
  refine ⟨?_, ?_, .inr fun loop => ?_⟩
  · rintro (hs' | hne)
    · exact absurd hs' hs
    · have hlt : (caseOf node g.name a).length < (caseOf node g.name b).length := by
        revert hab hne
        cases a <;> cases b <;> simp [caseOf]
      by_contra h0
      have := Nat.mul_lt_mul_of_pos_left hlt (List.length_pos_iff.mpr h0)
      omega
  · intro htw
    have h0 : z = 0 := by omega
    rw [if_pos htw, h0] at hz
    have h0 := (Nat.mul_eq_zero.mp hz).resolve_right (Nat.succ_ne_zero _)
    have hu' := hu.count
    rw [h0, List.length_append] at hu'
    have hs2 := t2.slots
    have hs3 := t3.slots
    exact ⟨List.length_eq_zero_iff.mp (by omega), List.length_eq_zero_iff.mp (by omega)⟩
  · cases loop with
    | before => exact t1
    | union => exact t2
    | after => exact t3

theorem Fields.regular {fs : Fields} {node : Text} {ph : Phase} (h : ∀ loop, fs.TightOf node loop ph) :
    fs.Regular ph := by
  induction fs generalizing node ph with
  | nil => trivial
  | slot f rest ih =>
    have hsplit : ∀ loop, (Fields.slot f .nil).TightOf node loop ph ∧
        rest.TightOf node loop (ph.next (inUnion f.discriminantValue)) := by
      intro loop
      have hf := (Fields.slot f .nil).fits node loop ph
      have hl := h loop
      simp only [FitsOf, TightOf, declsOf, readsOf, slotsOf, List.append_nil] at hf hl ⊢
      exact hl.split hf (rest.fits node loop _)
    refine ⟨?_, ih fun loop => (hsplit loop).2⟩
    rintro ⟨hp, hun⟩
    have hs := (hsplit .after).1
    simp only [TightOf, declsOf, readsOf, slotsOf, List.append_nil] at hs
    rw [if_pos hp, if_pos hp, ite_and, if_pos hp, hp, hun] at hs
    exact (slot_regular hs).resolve_left (by decide)
  | group g body rest ihb ih =>
    have hsplit : ∀ loop, (Fields.group g body .nil).TightOf node loop ph ∧
        rest.TightOf node loop (ph.next (inUnion g.discriminantValue)) := by
      intro loop
      have hf := (Fields.group g body .nil).fits node loop ph
      have hl := h loop
      simp only [FitsOf, TightOf, declsOf, readsOf, slotsOf, List.append_nil] at hf hl ⊢
      exact hl.split hf (rest.fits node loop _)
    have hs := (hsplit (ph.next (inUnion g.discriminantValue))).1
    simp only [TightOf, declsOf, readsOf, slotsOf, List.append_nil] at hs
    rw [if_pos trivial, if_pos trivial, if_pos trivial] at hs
    obtain ⟨h1, h2, h3⟩ := group_regular (fun h => Phase.union_of_next (of_decide_eq_true h)) hs
    refine ⟨fun hc => h1 (hc.imp_right fun hpu => ?_), h2, h3.imp_right ihb, ih fun loop => (hsplit loop).2⟩
    rw [hpu.1, hpu.2]
    decide

/-! ## Which schemas lose no field -/

theorem statements_of_reads {var : Text} {b : List Stmt} {ms : List Member}
    (h : Adds [] var [] b ms) : (statements b).Perm (ms.map (Member.stmt var)) := by
  obtain ⟨T, R, e, hr, hp⟩ := h
  have hs : statements T = R.map (Member.stmt var) := by
    rw [statements]
    show (T.foldl stmtStep ⟨[] ++ [], []⟩).found = _
    rw [hr]
    exact List.map_id _
  rw [e, List.nil_append, hs]
  exact hp.map _

/-- Where nothing is lost, what is read is all that is declared and asked for. -/
theorem Strings.Complete.tight {s : Strings} {n : Node} (h : s.Complete n) {ms : List Member}
    (hget : (statements s.get).Perm (ms.map (Member.stmt "s->".toList))) :
    Tight (declared s.decl) ms (n.fields.slots n.name) := by
  obtain ⟨ms', hdecl, hget', -, hslots⟩ := h
  have hstmt : (ms.map (Member.stmt "s->".toList)).Perm (ms'.map (Member.stmt "s->".toList)) := hget.symm.trans hget'
  have hsize : ∀ xs : List Member, total (fun x => x.2.1.length) (xs.map (Member.stmt "s->".toList)) =
      total Member.size xs + xs.length * 3 := by
    refine total_map_add fun m => ?_
    simp only [Member.stmt, Member.size, List.length_append]
    exact Nat.add_comm _ _
  have hlen := hstmt.length_eq
  rw [List.length_map, List.length_map] at hlen
  have hpaths := total_perm (fun x => x.2.1.length) hstmt
  rw [hsize, hsize, hlen] at hpaths
  have hcases : total Member.depth ms = total Member.depth ms' := by
    have hcases := total_perm (fun x => x.2.2.length) hstmt
    rw [total_map, total_map] at hcases
    exact hcases
  refine ⟨?_, ?_, ?_⟩
  · rw [hlen, hslots.length_eq, List.length_map]
  · rw [hcases, total_perm caseDepth hslots, total_map]
    rfl
  · rw [total_perm Declared.size hdecl, total_map]
    exact Nat.add_right_cancel hpaths

/-- **Exactly the regular schemas lose no field**, when the name of each group stays in the buffer
of `field_name` for as long as it is needed. -/
theorem complete_iff (codecgen : Bool) (n : Node) (buf : Text) (h : n.fields.Steady codecgen .before) :
    (defineStruct codecgen n buf).Complete n ↔ n.fields.Regular .before := by
  obtain ⟨⟨D, hD, hdecl⟩, hget, hset, -, -⟩ := defineStruct_emits codecgen n buf h
  have hdeclared : declared (defineStruct codecgen n buf).decl =
      n.fields.declsOf .before .before ++ (n.fields.declsOf .union .before ++ n.fields.declsOf .after .before) := by
    rw [hD, declared]
    show ((D.foldl declStep ([] :: [])).headD []) = _
    rw [hdecl]
    rfl
  have hget := statements_of_reads hget
  have hset := statements_of_reads hset
  constructor
  · intro hc
    have ht := hc.tight hget
    rw [hdeclared] at ht
    have fits := fun loop => n.fields.fits n.name loop .before
    obtain ⟨t1, t2⟩ := ht.split (fits .before) ((fits .union).append (fits .after))
    obtain ⟨t2, t3⟩ := t2.split (fits .union) (fits .after)
    refine @Fields.regular _ n.name _ fun loop => ?_
    cases loop with
    | before => exact t1
    | union => exact t2
    | after => exact t3
  · intro hreg
    have hm := hreg.matches n.name
    refine ⟨_, .of_eq ?_, hget, hset, .of_eq ?_⟩
    · rw [hdeclared, (hm .before).1, (hm .union).1, (hm .after).1, List.map_append, List.map_append]
    · rw [Fields.slots, ← (hm .before).2, ← (hm .union).2, ← (hm .after).2, List.map_append, List.map_append]

/-- A struct with a group, and a union next to it that has a slot, a void member and a group. -/
def shape : Node where
  name := "Shape".toList
  discriminantCount := 3
  fields :=
    .group { name := "origin".toList, node := "Shape_origin".toList }
      (.slot { name := "x".toList, type := .int32 } .nil)
      (.slot { name := "radius".toList, discriminantValue := 0, type := .float64 }
        (.slot { name := "empty".toList, discriminantValue := 1, type := .void }
          (.group { name := "box".toList, discriminantValue := 2, node := "Shape_box".toList }
            (.slot { name := "sides".toList, type := .list } .nil) .nil)))
  counted := rfl
  valid := ⟨rfl, trivial, rfl, trivial, trivial⟩

theorem shape_complete : (defineStruct false shape []).Complete shape := by
  have hplain : ∀ g last : Text, g ∉ reserved → ∀ name, changed g = some name → last = name := by
    intro g last hg name h
    rw [changed, if_neg hg] at h
    cases h
  exact (complete_iff false shape [] ⟨.inr ⟨.inr fun name => hplain _ _ (by decide) name, trivial⟩,
    .inr ⟨.inr fun name => hplain _ _ (by decide) name, trivial⟩, trivial⟩).mpr
    ⟨by decide, by decide, .inr ⟨by decide, trivial⟩, by decide, by decide, by decide, by decide,
      .inr ⟨by decide, trivial⟩, trivial⟩

/-- A struct with a group that has nothing but a group with a slot. -/
def nested : Node where
  name := "Nested".toList
  discriminantCount := 0
  fields :=
    .group { name := "outer".toList, node := "Nested_outer".toList }
      (.group { name := "inner".toList, node := "Nested_outer_inner".toList }
        (.slot { name := "x".toList, type := .int32 } .nil) .nil) .nil
  counted := rfl
  valid := ⟨rfl, ⟨rfl, trivial, trivial⟩, trivial⟩

/-- The outer group is taken for an empty one, and the slot is lost. -/
theorem nested_lost : ¬ (defineStruct false nested []).Complete nested := by
  rintro ⟨ms, hdecl, -, -, hslots⟩
  have hlen : 0 = ms.length := by
    rw [← List.length_map fun m : Member => (m.slot, m.path), ← hdecl.length_eq]
    decide
  have h := hslots.length_eq
  rw [List.length_map, ← hlen] at h
  revert h
  decide
end Capnproto.Compiler

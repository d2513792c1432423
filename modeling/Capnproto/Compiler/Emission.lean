import Capnproto.Compiler.Members
import Mathlib.Data.List.Perm.Basic

/-!
# What `define_group` writes

Each piece of the generator adds text with a known reading (`Emits`): from slots and
cases to the loops, by induction on the fields, with `define_group` as the step from the
loops over a group's own fields to the group (`defineGroup_emits`).
-/

namespace Capnproto.Compiler

/-! ## Text with a known reading -/

/-- The text declares `xs` behind the innermost open brace. -/
def Declares (ds : List Decl) (xs : List Declared) : Prop :=
  ∀ top st, ds.foldl declStep (top :: st) = (top ++ xs) :: st

/-- The text, in a `switch` whose labels are `pre`, has the statements `xs`. -/
def Reads (pre : List (List Label)) (ts : List Stmt) (xs : List (Slot × Text × List (List Label))) : Prop :=
  ∀ st found, ts.foldl stmtStep ⟨pre ++ st, found⟩ =
    ⟨pre ++ st, found ++ xs.map fun x => (x.1, x.2.1, st.reverse ++ x.2.2)⟩

theorem Declares.nil : Declares [] [] := by
  intro top st
  rw [List.append_nil]
  rfl

theorem Declares.append {ds ds' : List Decl} {xs xs' : List Declared} (h : Declares ds xs) (h' : Declares ds' xs') :
    Declares (ds ++ ds') (xs ++ xs') := by
  intro top st
  rw [List.foldl_append, h, h', List.append_assoc]

theorem Declares.slot (f : Slot) (name : Text) : Declares [.slot f name] [(f, ⟨[], name⟩)] := fun _ _ => rfl

theorem Declares.which (node : Text) (name : Option Text) : Declares [.which node name] [] := by
  intro top st
  rw [List.append_nil]
  rfl

theorem Declares.comment (name : Text) : Declares [.comment name] [] := by
  intro top st
  rw [List.append_nil]
  rfl

/-- A struct or union around declarations. -/
theorem Declares.wrap {ds : List Decl} {xs : List Declared} (h : Declares ds xs) {d : Decl}
    (hd : d = .struct ∨ d = .union) (name : Option Text) :
    Declares (d :: ds ++ [.close name]) (underAll name.toList xs) := by
  intro top st
  have e : declStep (top :: st) d = [] :: top :: st := by
    rcases hd with rfl | rfl <;> rfl
  rw [List.cons_append, List.foldl_cons, e, List.foldl_append, h]
  rfl

theorem Reads.nil (pre : List (List Label)) : Reads pre [] [] := by
  intro st found
  rw [List.map_nil, List.append_nil]
  rfl

theorem Reads.append {pre : List (List Label)} {ts ts' : List Stmt} {xs xs' : List (Slot × Text × List (List Label))}
    (h : Reads pre ts xs) (h' : Reads pre ts' xs') : Reads pre (ts ++ ts') (xs ++ xs') := by
  intro st found
  rw [List.foldl_append, h, h', List.map_append, List.append_assoc]

theorem Reads.member (f : Slot) (var : Text) : Reads [] [.member f var] [(f, var, [])] := by
  intro st found
  rw [List.map_singleton, List.append_nil]
  rfl

/-- A case. -/
theorem Reads.case {ts : List Stmt} {xs : List (Slot × Text × List (List Label))} (h : Reads [] ts xs)
    (node name : Text) : Reads [[]] ([.case node name] ++ ts ++ [.break])
      (xs.map fun x => (x.1, x.2.1, [(node, name)] :: x.2.2)) := by
  intro st found
  rw [List.foldl_append, List.foldl_append]
  show stmtStep (ts.foldl stmtStep ⟨[] ++ ([(node, name)] :: st), found⟩) .break = _
  rw [h, List.map_map]
  simp only [List.nil_append, stmtStep, List.reverse_cons, List.append_assoc, List.singleton_append]
  rfl

/-- A `switch` over the discriminant. -/
theorem Reads.switch {ts : List Stmt} {xs : List (Slot × Text × List (List Label))} (h : Reads [[]] ts xs)
    (tag node : Text) : Reads [] ([.which tag node, .switch tag] ++ ts ++ [.default, .break, .close]) xs := by
  intro st found
  rw [List.foldl_append, List.foldl_append]
  show List.foldl stmtStep (ts.foldl stmtStep ⟨[[]] ++ st, found⟩) _ = _
  rw [h]
  rfl

/-! ## Pieces of the generator -/

/-- What a member is read and written as, in a struct that `var` leads to. -/
def Member.stmt (var : Text) (m : Member) : Slot × Text × List (List Label) := (m.slot, var ++ m.path.text, m.cases)

/-- From `a` to `b`, statements for `ms` are added, in some order. -/
def Adds (pre : List (List Label)) (var : Text) (a b : List Stmt) (ms : List Member) : Prop :=
  ∃ (T : List Stmt) (R : List Member), b = a ++ T ∧ Reads pre T (R.map (Member.stmt var)) ∧ R.Perm ms

/-- From `s` to `s'` text is added that declares `ds` and reads and writes `ms`. -/
structure Emits (pre : List (List Label)) (s s' : Strings) (ds : List Declared) (ms : List Member)
    (last : Option Text) : Prop where
  decl : ∃ D, s'.decl = s.decl ++ D ∧ Declares D ds
  get : Adds pre s.var s.get s'.get ms
  set : Adds pre s.var s.set s'.set ms
  var : s'.var = s.var
  buf : s'.buf = last.getD s.buf

section

variable {pre : List (List Label)} {s s' s'' : Strings} {ds ds' : List Declared} {ms ms' : List Member}
  {last last' : Option Text}

theorem Adds.refl (pre : List (List Label)) (var : Text) (a : List Stmt) : Adds pre var a a [] :=
  ⟨[], [], (List.append_nil _).symm, .nil pre, .nil⟩

theorem Emits.refl (pre : List (List Label)) (s : Strings) : Emits pre s s [] [] none where
  decl := ⟨[], (List.append_nil _).symm, .nil⟩
  get := .refl pre s.var s.get
  set := .refl pre s.var s.set
  var := rfl
  buf := rfl

theorem Emits.perm (h : Emits pre s s' ds ms last) (hp : ms.Perm ms') : Emits pre s s' ds ms' last := by
  obtain ⟨hd, ⟨T, R, e, hr, hm⟩, ⟨T', R', e', hr', hm'⟩, hv, hb⟩ := h
  exact ⟨hd, ⟨T, R, e, hr, hm.trans hp⟩, ⟨T', R', e', hr', hm'.trans hp⟩, hv, hb⟩

theorem Adds.trans {v v' : Text} {a b c : List Stmt} (h : Adds pre v a b ms) (hv : v' = v) (h' : Adds pre v' b c ms') :
    Adds pre v a c (ms ++ ms') := by
  obtain ⟨T, R, rfl, hr, hm⟩ := h
  obtain ⟨T', R', rfl, hr', hm'⟩ := h'
  rw [hv] at hr'
  refine ⟨T ++ T', R ++ R', by rw [List.append_assoc], ?_, hm.append hm'⟩
  rw [List.map_append]
  exact hr.append hr'

theorem Emits.trans (h : Emits pre s s' ds ms last) (h' : Emits pre s' s'' ds' ms' last') :
    Emits pre s s'' (ds ++ ds') (ms ++ ms') (last'.or last) where
  decl := by
    obtain ⟨D, e, hd⟩ := h.decl
    obtain ⟨D', e', hd'⟩ := h'.decl
    exact ⟨D ++ D', by rw [e', e, List.append_assoc], hd.append hd'⟩
  get := h.get.trans h.var h'.get
  set := h.set.trans h.var h'.set
  var := h'.var.trans h.var
  buf := by
    rw [h'.buf, h.buf]
    cases last' <;> rfl

end

/-! ### Names -/

theorem fieldName_eq (name : Text) (s : Strings) :
    ∃ r, fieldName name s = (r, { s with buf := (changed name).getD s.buf }) ∧
      r.text { s with buf := (changed name).getD s.buf } = escape name ∧
      r = if changed name = none then .own (escape name) else .buf := by
  rw [fieldName, changed, escape]
  split
  · exact ⟨_, rfl, rfl, rfl⟩
  · exact ⟨_, rfl, rfl, rfl⟩

theorem changed_getD_getD (name buf : Text) : (changed name).getD ((changed name).getD buf) = (changed name).getD buf := by
  cases changed name <;> rfl

theorem declareSlot_eq (f : Slot) (s : Strings) : declareSlot f s =
    if f.type = .void then s
    else { s with decl := s.decl ++ [.slot f (escape f.name)], buf := (changed f.name).getD s.buf } := by
  obtain ⟨r, e, he, -⟩ := fieldName_eq f.name s
  rw [declareSlot]
  split
  · rfl
  · rw [e]
    simp only [he]
    rfl

theorem members_eq (f : Slot) (s : Strings) : members f s =
    { s with
      set := s.set ++ setMember f (s.var ++ escape f.name)
      get := s.get ++ getMember f (s.var ++ escape f.name)
      buf := (changed f.name).getD s.buf } := by
  obtain ⟨r, e, he, -⟩ := fieldName_eq f.name s
  rw [members, e]
  simp only [he]
  obtain ⟨r', e', he', -⟩ := fieldName_eq f.name
    { s with set := s.set ++ setMember f (s.var ++ escape f.name), buf := (changed f.name).getD s.buf }
  rw [e']
  simp only [changed_getD_getD] at he' ⊢
  rw [he']

theorem caseLabel_eq (node name : Text) (s : Strings) : caseLabel node name s =
    { s with
      get := s.get ++ [.case node (escape name)]
      set := s.set ++ [.case node (escape name)]
      buf := (changed name).getD s.buf } := by
  obtain ⟨r, e, he, -⟩ := fieldName_eq name s
  rw [caseLabel, e]
  simp only [he]
  rfl

/-! ### Slots -/

theorem reads_member (node : Text) (f : Slot) (var : Text) :
    Reads [] (setMember f (var ++ escape f.name)) ((f.reads node false).map (Member.stmt var)) ∧
      Reads [] (getMember f (var ++ escape f.name)) ((f.reads node false).map (Member.stmt var)) := by
  rw [setMember, getMember, Slot.reads]
  split
  · exact ⟨.nil _, .nil _⟩
  · exact ⟨.member _ _, .member _ _⟩

theorem reads_case (node : Text) (f : Slot) (var : Text) :
    ((f.reads node false).map (Member.stmt var)).map (fun x => (x.1, x.2.1, [(node, escape f.name)] :: x.2.2)) =
      (f.reads node true).map (Member.stmt var) := by
  rw [Slot.reads, Slot.reads]
  split <;> rfl

theorem declareSlot_emits (pre : List (List Label)) (f : Slot) (s : Strings) :
    Emits pre s (declareSlot f s) f.decls [] (if f.type = .void then none else changed f.name) := by
  rw [declareSlot_eq, Slot.decls]
  split
  · exact .refl pre s
  · exact ⟨⟨_, rfl, .slot _ _⟩, .refl _ _ _, .refl _ _ _, rfl, rfl⟩

theorem defineSlot_emits (node : Text) (f : Slot) (s : Strings) :
    Emits [] s (defineSlot f s) f.decls (f.reads node false) (changed f.name) := by
  have h := declareSlot_emits [] f s
  obtain ⟨hs, hg⟩ := reads_member node f s.var
  rw [defineSlot, members_eq]
  refine ⟨h.decl, ?_, ?_, h.var, ?_⟩
  · rw [h.var]
    have h' := h.get.trans h.var (c := (declareSlot f s).get ++ getMember f (s.var ++ escape f.name))
      ⟨_, f.reads node false, rfl, by rw [h.var]; exact hg, .refl _⟩
    exact h'
  · rw [h.var]
    have h' := h.set.trans h.var (c := (declareSlot f s).set ++ setMember f (s.var ++ escape f.name))
      ⟨_, f.reads node false, rfl, by rw [h.var]; exact hs, .refl _⟩
    exact h'
  · show (changed f.name).getD (declareSlot f s).buf = _
    rw [h.buf]
    split
    · rfl
    · exact changed_getD_getD _ _

theorem unionBlock_emits (node : Text) (f : Slot) (s : Strings) :
    Emits [[]] s (unionBlock f (caseLabel node f.name s)) [] (f.reads node true) (changed f.name) := by
  obtain ⟨hs, hg⟩ := reads_member node f s.var
  have hs' := hs.case node (escape f.name)
  have hg' := hg.case node (escape f.name)
  rw [reads_case] at hs' hg'
  rw [unionBlock, members_eq, caseLabel_eq]
  refine ⟨⟨[], (List.append_nil _).symm, .nil⟩, ⟨_, _, ?_, hg', .refl _⟩, ⟨_, _, ?_, hs', .refl _⟩, rfl,
    changed_getD_getD _ _⟩
  · simp only [Strings.addStmt, List.append_assoc]
  · simp only [Strings.addStmt, List.append_assoc]

/-! ### Groups -/

section

variable {pre : List (List Label)} {s s' : Strings} {ds : List Declared} {ms : List Member} {last : Option Text}

/-- A struct around what is declared. -/
theorem Emits.wrap (h : Emits pre (s.addDecl [.struct]) s' ds ms last) (name : Text) :
    Emits pre s (s'.addDecl [.close (some name)]) (underAll [name] ds) ms last where
  decl := by
    obtain ⟨D, e, hd⟩ := h.decl
    refine ⟨.struct :: D ++ [.close (some name)], ?_, hd.wrap (.inl rfl) (some name)⟩
    simp only [Strings.addDecl, e, List.append_assoc, List.cons_append, List.nil_append]
  get := h.get
  set := h.set
  var := h.var
  buf := h.buf

theorem stmt_under (var name : Text) (m : Member) :
    Member.stmt (var ++ name ++ ['.']) m = Member.stmt var (m.under name []) := by
  simp only [Member.stmt, Member.under, Path.text, Path.under, List.flatMap_cons,
    List.append_assoc, List.cons_append, List.nil_append]

theorem Adds.scope {var name : Text} {a b : List Stmt} (h : Adds pre (var ++ name ++ ['.']) a b ms) :
    Adds pre var a b (ms.map (Member.under name [])) := by
  obtain ⟨T, R, e, hr, hm⟩ := h
  refine ⟨T, R.map (Member.under name []), e, ?_, hm.map _⟩
  rw [List.map_map]
  have hf : Member.stmt var ∘ Member.under name [] = Member.stmt (var ++ name ++ ['.']) := by
    funext m
    exact (stmt_under var name m).symm
  rw [hf]
  exact hr

/-- The members of a group, whose name is added to `var` and taken off again. -/
theorem Emits.scope {name : Text} (h : Emits pre { s with var := s.var ++ name ++ ['.'] } s' ds ms last) :
    Emits pre s { s' with var := s'.var.take (s'.var.length - name.length - 1) } ds
      (ms.map (Member.under name [])) last where
  decl := h.decl
  get := h.get.scope
  set := h.set.scope
  var := by
    show s'.var.take (s'.var.length - name.length - 1) = s.var
    rw [h.var]
    have hlen : (s.var ++ name ++ ['.']).length - name.length - 1 = s.var.length := by
      simp only [List.length_append, List.length_singleton]
      omega
    rw [hlen, List.append_assoc, List.take_left']
    rfl
  buf := h.buf

theorem Adds.switch {ms' : List Member} {var tag node : Text} {a b : List Stmt} (h : Adds [[]] var (a ++ [.which tag node, .switch tag]) b ms)
    (hp : ms.Perm ms') : Adds [] var a (b ++ [.default, .break, .close]) ms' := by
  obtain ⟨T, R, rfl, hr, hm⟩ := h
  refine ⟨[.which tag node, .switch tag] ++ T ++ [.default, .break, .close], R, ?_, hr.switch tag node, hm.trans hp⟩
  simp only [List.append_assoc]

end

/-- What the loops over the fields of a node write. -/
structure Loops.Emit (b : Loops) (node : Text) (fs : Fields) : Prop where
  before : ∀ s, Emits [] s (b.before s) (fs.declsOf .before .before) (fs.readsOf node .before .before)
    (fs.lastOf .before .before)
  union : ∃ cs us, (cs ++ us).Perm (fs.readsOf node .union .before) ∧
    (∀ s, ∃ last, Emits [[]] s (b.cases s) [] cs last ∧ (last ≠ none → fs.lastOf .union .before ≠ none)) ∧
    ∀ s, Emits [[]] s (b.union s) (fs.declsOf .union .before) us (fs.lastOf .union .before)
  after : ∀ s, Emits [] s (b.after s) (fs.declsOf .after .before) (fs.readsOf node .after .before)
    (fs.lastOf .after .before)

theorem underAll_nil (xs : List Declared) : underAll [] xs = xs := List.map_id _

theorem underAll_append (names : List Text) (xs ys : List Declared) :
    underAll names (xs ++ ys) = underAll names xs ++ underAll names ys := List.map_append

/-- `do_union`, for a union whose name, if it has one, stays what it is. -/
theorem doUnion_emits {b : Loops} {node : Text} {fs : Fields} (h : b.Emit node fs) {s : Strings}
    {unionName : Option NameRef} {name : Option Text}
    (hn : ∀ s' : Strings, s'.buf = (fs.lastOf .union .before).getD s.buf → unionName.map (·.text s') = name) :
    Emits [] s (doUnion node b unionName s) (underAll name.toList (fs.declsOf .union .before))
      (fs.readsOf node .union .before) (fs.lastOf .union .before) := by
  obtain ⟨cs, us, hp, hcases, hunion⟩ := h.union
  unfold doUnion
  simp only []
  generalize unionTag unionName.isSome s.var = tag
  generalize hs1 : (s.addDecl [.which node (unionName.map (·.text s))]).addStmt [.which tag node, .switch tag] = s1
  obtain ⟨last, hc, hlast⟩ := hcases s1
  have hu := hunion ((b.cases s1).addDecl [.union])
  generalize hs2 : b.cases s1 = s2 at hc hu ⊢
  generalize hs4 : b.union (s2.addDecl [.union]) = s4 at hu ⊢
  have hbuf : s4.buf = (fs.lastOf .union .before).getD s.buf := by
    rw [hu.buf]
    show (fs.lastOf .union .before).getD s2.buf = _
    rw [hc.buf, ← hs1]
    cases hl : fs.lastOf .union .before with
    | some x => rfl
    | none =>
      have : last = none := by
        by_contra hne
        exact hlast hne hl
      rw [this]
      rfl
  have hs1v : s1.var = s.var := by
    rw [← hs1]
    rfl
  have hvar : s2.var = s.var := hc.var.trans hs1v
  rw [hn s4 hbuf]
  refine ⟨?_, ?_, ?_, hu.var.trans hvar, hbuf⟩
  · obtain ⟨Dc, ec, hdc⟩ := hc.decl
    obtain ⟨Du, eu, hdu⟩ := hu.decl
    refine ⟨[.which node (unionName.map (·.text s))] ++ (Dc ++ (.union :: Du ++ [.close name])), ?_,
      (Declares.which node (unionName.map (·.text s))).append (hdc.append (hdu.wrap (.inr rfl) name))⟩
    simp only [Strings.addStmt, Strings.addDecl, eu, ec, ← hs1, List.append_assoc, List.cons_append, List.nil_append]
  · have hg := hc.get.trans (hvar.trans hs1v.symm) hu.get
    rw [hs1v, ← hs1] at hg
    exact hg.switch hp
  · have hg := hc.set.trans (hvar.trans hs1v.symm) hu.set
    rw [hs1v, ← hs1] at hg
    exact hg.switch hp

/-- The loop has no fields. -/
structure Fields.Idle (loop ph : Phase) (fs : Fields) : Prop where
  decls : fs.declsOf loop ph = []
  reads : ∀ node, fs.readsOf node loop ph = []
  last : fs.lastOf loop ph = none

theorem Fields.unionCount_le (fs : Fields) : fs.unionCount ≤ fs.length := by
  induction fs with
  | nil => exact Nat.le_refl 0
  | slot f rest ih =>
    rw [unionCount, length]
    split <;> omega
  | group g body rest _ ih =>
    rw [unionCount, length]
    split <;> omega

/-- Without members of a union there is one loop. -/
theorem Fields.idle_of_none {fs : Fields} (h : fs.unionCount = 0) {loop : Phase} (hl : loop ≠ .before) :
    fs.Idle loop .before := by
  induction fs with
  | nil => exact ⟨rfl, fun _ => rfl, rfl⟩
  | slot f rest ih =>
    rw [unionCount] at h
    have hf : inUnion f.discriminantValue = false := by
      cases hf : inUnion f.discriminantValue with
      | false => rfl
      | true =>
        rw [hf] at h
        simp only [if_true] at h
        omega
    obtain ⟨hd, hr, hla⟩ := ih (by omega)
    have hph : Phase.before ≠ loop := hl.symm
    exact ⟨by simp [declsOf, hf, Phase.next, hph, hd], fun node => by simp [readsOf, hf, Phase.next, hph, hr],
      by simp [lastOf, hf, Phase.next, hph, hla]⟩
  | group g body rest _ ih =>
    rw [unionCount] at h
    have hf : inUnion g.discriminantValue = false := by
      cases hf : inUnion g.discriminantValue with
      | false => rfl
      | true =>
        rw [hf] at h
        simp only [if_true] at h
        omega
    obtain ⟨hd, hr, hla⟩ := ih (by omega)
    have hph : Phase.before ≠ loop := hl.symm
    exact ⟨by simp [declsOf, hf, Phase.next, hph, hd], fun node => by simp [readsOf, hf, Phase.next, hph, hr],
      by simp [lastOf, hf, Phase.next, hph, hla]⟩

/-- When all fields are members of the union there is one loop. -/
theorem Fields.idle_of_all {fs : Fields} (h : fs.unionCount = fs.length) {loop : Phase} (hl : loop ≠ .union)
    {ph : Phase} (hp : ph ≠ .after) : fs.Idle loop ph := by
  induction fs generalizing ph with
  | nil => exact ⟨rfl, fun _ => rfl, rfl⟩
  | slot f rest ih =>
    rw [unionCount, length] at h
    have hle := rest.unionCount_le
    have hf : inUnion f.discriminantValue = true := by
      cases hf : inUnion f.discriminantValue with
      | true => rfl
      | false =>
        rw [hf] at h
        simp only [Bool.false_eq_true, if_false] at h
        omega
    have hn : ph.next true = .union := by
      cases ph with
      | before => rfl
      | union => rfl
      | after => exact absurd rfl hp
    obtain ⟨hd, hr, hla⟩ := ih (by rw [hf] at h; simpa using h) (show Phase.union ≠ .after by decide)
    have hph : Phase.union ≠ loop := hl.symm
    exact ⟨by simp [declsOf, hf, hn, hph, hd], fun node => by simp [readsOf, hf, hn, hph, hr],
      by simp [lastOf, hf, hn, hph, hla]⟩
  | group g body rest _ ih =>
    rw [unionCount, length] at h
    have hle := rest.unionCount_le
    have hf : inUnion g.discriminantValue = true := by
      cases hf : inUnion g.discriminantValue with
      | true => rfl
      | false =>
        rw [hf] at h
        simp only [Bool.false_eq_true, if_false] at h
        omega
    have hn : ph.next true = .union := by
      cases ph with
      | before => rfl
      | union => rfl
      | after => exact absurd rfl hp
    obtain ⟨hd, hr, hla⟩ := ih (by rw [hf] at h; simpa using h) (show Phase.union ≠ .after by decide)
    have hph : Phase.union ≠ loop := hl.symm
    exact ⟨by simp [declsOf, hf, hn, hph, hd], fun node => by simp [readsOf, hf, hn, hph, hr],
      by simp [lastOf, hf, hn, hph, hla]⟩

section

variable {g : Group} {body : Fields} {b : Loops} {name : NameRef} {s : Strings}

/-- What `define_group` writes between the braces of a group that is no named union. -/
theorem struct_emits (h : b.Emit g.node body) (hcount : g.discriminantCount = body.unionCount) (enclose : Bool)
    (hn : ∀ s' : Strings, s'.buf = body.last.getD s.buf → name.text s' = escape g.name) :
    Emits [] s (groupFields g b none name enclose s)
      (body.declsOf .before .before ++
        underAll (if enclose && decide (0 < g.discriminantCount) then [escape g.name] else [])
          (body.declsOf .union .before ++ body.declsOf .after .before))
      (body.readsOf g.node .before .before ++
        (body.readsOf g.node .union .before ++ body.readsOf g.node .after .before)) body.last := by
  have hb := h.before s
  have hlast : body.last = ((body.lastOf .after .before).or (body.lastOf .union .before)).or
      (body.lastOf .before .before) := by
    rw [Fields.last, Option.or_assoc]
  rw [groupFields]
  by_cases hc : 0 < g.discriminantCount
  · simp only [if_pos hc, decide_eq_true hc, Bool.and_true]
    have hunion : ∀ t, Emits [] t (b.after (doUnion g.node b none t))
        (body.declsOf .union .before ++ body.declsOf .after .before)
        (body.readsOf g.node .union .before ++ body.readsOf g.node .after .before)
        ((body.lastOf .after .before).or (body.lastOf .union .before)) := by
      intro t
      have hu := @doUnion_emits _ _ _ h t none none (fun _ _ => rfl)
      rw [Option.toList_none, underAll_nil] at hu
      exact hu.trans (h.after _)
    cases enclose with
    | false =>
      rw [if_neg Bool.false_ne_true, if_neg Bool.false_ne_true, if_neg Bool.false_ne_true, underAll_nil, hlast]
      exact hb.trans (hunion _)
    | true =>
      rw [if_pos rfl, if_pos rfl, if_pos rfl, hlast]
      have ht := hb.trans ((hunion ((b.before s).addDecl [.struct])).wrap
        (name.text (b.after (doUnion g.node b none ((b.before s).addDecl [.struct])))))
      have hname := hn (b.after (doUnion g.node b none ((b.before s).addDecl [.struct]))) (by rw [hlast]; exact ht.buf)
      rw [hname] at ht ⊢
      exact ht
  · rw [if_neg hc, decide_eq_false hc, Bool.and_false, if_neg Bool.false_ne_true]
    have h0 : body.unionCount = 0 := by omega
    obtain ⟨hd, hr, hl⟩ := Fields.idle_of_none h0 (show Phase.union ≠ .before by decide)
    obtain ⟨hd', hr', hl'⟩ := Fields.idle_of_none h0 (show Phase.after ≠ .before by decide)
    rw [hlast, hd, hd', hr, hr', hl, hl', underAll_nil, List.append_nil, List.append_nil]
    simp only [Option.none_or, List.append_nil]
    exact hb

/-- What `define_group` writes inside the name of a group all whose members are in its union. -/
theorem named_emits (h : b.Emit g.node body) (hcount : g.discriminantCount = body.unionCount)
    (hnu : g.namedUnion body = true) (enclose : Bool)
    (hn : ∀ s' : Strings, s'.buf = body.last.getD s.buf → name.text s' = escape g.name) :
    Emits [] s (groupFields g b (if !enclose then some name else none) name enclose s)
      (underAll [escape g.name] (body.declsOf .before .before ++
        (body.declsOf .union .before ++ body.declsOf .after .before)))
      (body.readsOf g.node .before .before ++
        (body.readsOf g.node .union .before ++ body.readsOf g.node .after .before)) body.last := by
  rw [Group.namedUnion, Bool.and_eq_true, decide_eq_true_eq, decide_eq_true_eq] at hnu
  rw [groupFields, if_pos hnu.2]
  obtain ⟨hd, hr, hl⟩ := Fields.idle_of_all (hcount.symm.trans hnu.1) (show Phase.before ≠ .union by decide)
    (show Phase.before ≠ .after by decide)
  obtain ⟨hd', hr', hl'⟩ := Fields.idle_of_all (hcount.symm.trans hnu.1) (show Phase.after ≠ .union by decide)
    (show Phase.before ≠ .after by decide)
  have hlast : body.last = body.lastOf .union .before := by
    rw [Fields.last, hl, hl', Option.none_or, Option.or_none]
  have hb := h.before s
  have ha := fun t => h.after t
  simp only [hd, hr, hl, hd', hr', hl'] at hb ha
  rw [hd, hr, hd', hr', List.append_nil, List.append_nil, List.nil_append, List.nil_append]
  cases enclose with
  | false =>
    have hu := @doUnion_emits _ _ _ h (b.before s) (some name) (some (escape g.name)) (by
      intro s' hs'
      rw [Option.map_some, hn s' (by rw [hlast, hs', hb.buf]; rfl)])
    have ht := hb.trans (hu.trans (ha _))
    rw [List.append_nil, List.append_nil, List.nil_append, List.nil_append, Option.none_or, Option.or_none,
      ← hlast] at ht
    exact ht
  | true =>
    have hu := @doUnion_emits _ _ _ h ((b.before s).addDecl [.struct]) none none (fun _ _ => rfl)
    rw [Option.toList_none, underAll_nil] at hu
    have ht := hb.trans ((hu.trans (ha _)).wrap
      (name.text (b.after (doUnion g.node b none ((b.before s).addDecl [.struct])))))
    rw [List.append_nil, List.append_nil, List.nil_append, List.nil_append, Option.none_or, Option.or_none,
      ← hlast] at ht
    have hname := hn (b.after (doUnion g.node b none ((b.before s).addDecl [.struct]))) ht.buf
    rw [hname] at ht
    show Emits [] s ((b.after (doUnion g.node b none ((b.before s).addDecl [.struct]))).addDecl [.close (some
      (name.text (b.after (doUnion g.node b none ((b.before s).addDecl [.struct])))))]) _ _ _
    rw [hname]
    exact ht

theorem text_addDecl (r : NameRef) (s : Strings) (ds : List Decl) : r.text (s.addDecl ds) = r.text s := by
  cases r <;> rfl

/-- What a group declares, and what it is read and written as. -/
abbrev Group.decls (g : Group) (body : Fields) (enclose : Bool) : List Declared :=
  g.around body enclose (body.declsOf .before .before) (body.declsOf .union .before) (body.declsOf .after .before)

abbrev Group.reads (g : Group) (body : Fields) (cases : List (List Label)) : List Member :=
  g.within body cases (body.readsOf g.node .before .before) (body.readsOf g.node .union .before)
    (body.readsOf g.node .after .before)

/-- **`define_group`** writes the members of a group, whose name stays what it is. -/
theorem defineGroup_emits (h : g.skipped body = false → b.Emit g.node body) (hcount : g.discriminantCount = body.unionCount) (enclose : Bool)
    (h0 : name.text s = escape g.name)
    (hn : g.skipped body = false → ∀ s' : Strings, s'.buf = body.last.getD s.buf → name.text s' = escape g.name) :
    Emits [] s (defineGroup g body b name enclose s) (g.decls body enclose) (g.reads body [])
      (if g.skipped body then none else body.last) := by
  rw [defineGroup, Group.decls, Group.reads, Group.around, Group.within]
  by_cases hs : g.skipped body = true
  · rw [if_pos hs, if_pos hs, if_pos hs, if_pos hs]
    exact ⟨⟨_, rfl, .comment _⟩, .refl _ _ _, .refl _ _ _, rfl, rfl⟩
  · have hs' : g.skipped body = false := Bool.not_eq_true _ ▸ hs
    have hn := hn hs'
    have h := h hs'
    rw [if_neg hs, if_neg hs, if_neg hs, if_neg hs]
    -- The name at the end, behind what is written for the members.
    have hclose : ∀ {t u : Strings} {ds : List Declared} {ms : List Member}, Emits [] t u ds ms body.last → t.buf = s.buf →
        name.text u = escape g.name := by
      intro t u ds ms he ht
      exact hn u (by rw [he.buf, ht])
    cases hnu : g.namedUnion body with
    | true =>
      have htw : g.twice body enclose = false := by
        rw [Group.twice, hnu, Bool.not_true, Bool.and_false, Bool.false_and]
      have he := named_emits (s := { s with var := s.var ++ escape g.name ++ ['.'] }) h hcount hnu enclose hn
      have hc := hclose he rfl
      simp only [if_true, h0, Bool.true_and, htw, Bool.false_eq_true, if_false, underAll_nil]
      rw [hc]
      exact he.scope
    | false =>
      have htw : g.twice body enclose = (enclose && decide (0 < g.discriminantCount)) := by
        rw [Group.twice, hnu, Bool.not_false, Bool.and_true]
      have he := struct_emits h hcount enclose hn
        (s := { s.addDecl [.struct] with var := (s.addDecl [.struct]).var ++ escape g.name ++ ['.'] })
      have hc := hclose he rfl
      have hw := Emits.wrap (s := { s with var := s.var ++ escape g.name ++ ['.'] }) he (escape g.name)
      simp only [Bool.false_eq_true, if_false, text_addDecl, h0, Bool.false_and, htw]
      rw [hc]
      exact hw.scope

end

/-! ### Loops -/

theorem changed_escape {name : Text} : changed name = none ∧ escape name = name ∨ changed name = some (escape name) := by
  rw [changed, escape]
  split
  · exact .inr rfl
  · exact .inl ⟨rfl, rfl⟩

/-- Texts are told apart as strings. -/
theorem not_toList_mem {s : String} {words : List String} (h : s ∉ words) : s.toList ∉ words.map String.toList := by
  rw [List.mem_map]
  rintro ⟨w, hw, e⟩
  rw [String.toList_inj] at e
  exact h (e ▸ hw)

/-- No reserved word is empty. -/
theorem escape_nil : escape [] = [] := by
  have h : "".toList ∉ reserved := not_toList_mem (by decide)
  rw [String.toList_empty] at h
  rw [escape, if_neg h]

/-- `field_name` adds nothing. -/
theorem fieldName_emits (pre : List (List Label)) (name : Text) (s : Strings) :
    Emits pre s (fieldName name s).2 [] [] (changed name) := by
  obtain ⟨r, e, -⟩ := fieldName_eq name s
  rw [e]
  exact ⟨⟨[], (List.append_nil _).symm, .nil⟩, .refl _ _ _, .refl _ _ _, rfl, rfl⟩

/-- Statements in a case. -/
theorem Adds.case {var : Text} {a b : List Stmt} {ms : List Member} (node name : Text)
    (h : Adds [] var (a ++ [.case node name]) b ms) :
    Adds [[]] var a (b ++ [.break]) (ms.map fun m => { m with cases := [(node, name)] :: m.cases }) := by
  obtain ⟨T, R, rfl, hr, hm⟩ := h
  refine ⟨[.case node name] ++ T ++ [.break], R.map fun m => { m with cases := [(node, name)] :: m.cases }, ?_, ?_, hm.map _⟩
  · simp only [List.append_assoc]
  · have h' := hr.case node name
    rw [List.map_map] at h' ⊢
    exact h'

theorem reads_cases (g : Group) (body : Fields) (c : List Label) :
    (g.reads body []).map (fun m => { m with cases := c :: m.cases }) = g.reads body [c] := by
  rw [Group.reads, Group.reads, Group.within, Group.within]
  split
  · rfl
  · rw [List.map_map]
    rfl

/-- What the first loops of `do_union` read and write, with one of their masks. -/
def Fields.casesOf (node : Text) (mask : List TypeWhich) : Phase → Fields → List Member
  | _, .nil => []
  | ph, .slot f rest =>
    let ph := ph.next (inUnion f.discriminantValue)
    (if ph = .union ∧ f.hasDefault = false ∧ f.type ∈ mask then f.reads node true else []) ++ rest.casesOf node mask ph
  | ph, .group g _ rest => rest.casesOf node mask (ph.next (inUnion g.discriminantValue))

/-- What the last loop of `do_union` reads and writes. -/
def Fields.membersOf (node : Text) : Phase → Fields → List Member
  | _, .nil => []
  | ph, .slot f rest =>
    let ph := ph.next (inUnion f.discriminantValue)
    (if ph = .union ∧ f.hasDefault = true then f.reads node true else []) ++ rest.membersOf node ph
  | ph, .group g body rest =>
    let ph := ph.next (inUnion g.discriminantValue)
    (if ph = .union then g.reads body [[(node, escape g.name)]] else []) ++ rest.membersOf node ph

theorem unionCases_emits (node : Text) (mask : List TypeWhich) (fs : Fields) (ph : Phase) (s : Strings) :
    ∃ last, Emits [[]] s (unionCases node mask ph fs s) [] (fs.casesOf node mask ph) last ∧
      (last ≠ none → fs.lastOf .union ph ≠ none) := by
  induction fs generalizing ph s with
  | nil => exact ⟨none, .refl _ _, fun h => absurd rfl h⟩
  | slot f rest ih =>
    simp only [unionCases, Fields.casesOf, Fields.lastOf]
    generalize ph.next (inUnion f.discriminantValue) = ph
    by_cases h : ph = .union ∧ f.hasDefault = false ∧ f.type ∈ mask
    · rw [if_pos h, if_pos h, if_pos h.1]
      obtain ⟨last, he, hl⟩ := ih ph (unionBlock f (caseLabel node f.name s))
      refine ⟨last.or (changed f.name), (unionBlock_emits node f s).trans he, fun hne => ?_⟩
      rw [ne_eq, Option.or_eq_none_iff, not_and_or] at hne ⊢
      exact hne.imp hl id
    · rw [if_neg h, if_neg h, List.nil_append]
      obtain ⟨last, he, hl⟩ := ih ph s
      refine ⟨last, he, fun hne => ?_⟩
      rw [ne_eq, Option.or_eq_none_iff, not_and_or]
      exact .inl (hl hne)
  | group g body rest _ ih =>
    simp only [unionCases, Fields.casesOf, Fields.lastOf]
    obtain ⟨last, he, hl⟩ := ih (ph.next (inUnion g.discriminantValue)) s
    refine ⟨last, he, fun hne => ?_⟩
    rw [ne_eq, Option.or_eq_none_iff, not_and_or]
    exact .inl (hl hne)

theorem unionCases_all (node : Text) (fs : Fields) (ph : Phase) (ms : List (List TypeWhich)) (s : Strings) :
    ∃ last, Emits [[]] s (ms.foldl (fun s m => unionCases node m ph fs s) s) [] (ms.flatMap fun m => fs.casesOf node m ph)
      last ∧ (last ≠ none → fs.lastOf .union ph ≠ none) := by
  induction ms generalizing s with
  | nil => exact ⟨none, .refl _ _, fun h => absurd rfl h⟩
  | cons m ms ih =>
    obtain ⟨last, he, hl⟩ := unionCases_emits node m fs ph s
    obtain ⟨last', he', hl'⟩ := ih (unionCases node m ph fs s)
    refine ⟨last'.or last, he.trans he', fun hne => ?_⟩
    rw [ne_eq, Option.or_eq_none_iff, not_and_or] at hne
    exact hne.elim hl' hl

/-- A slot without a default is in one of the masks. -/
theorem masks_flatMap (node : Text) (f : Slot) :
    (masks.flatMap fun m => if f.type ∈ m then f.reads node true else []) = f.reads node true := by
  rw [Slot.reads]
  cases f.type <;> simp [masks]

theorem perm_interleave {α : Type} (a b c d : List α) : (a ++ b ++ (c ++ d)).Perm (a ++ c ++ (b ++ d)) := by
  rw [List.append_assoc, List.append_assoc]
  exact (List.perm_append_comm_assoc b c d).append_left a

/-- Between them, the loops of `do_union` read and write each member once. -/
theorem cases_perm (node : Text) (fs : Fields) (ph : Phase) :
    ((masks.flatMap fun m => fs.casesOf node m ph) ++ fs.membersOf node ph).Perm (fs.readsOf node .union ph) := by
  induction fs generalizing ph with
  | nil => exact .refl _
  | slot f rest ih =>
    simp only [Fields.casesOf, Fields.membersOf, Fields.readsOf]
    generalize ph.next (inUnion f.discriminantValue) = ph
    refine ((List.flatMap_append_perm masks _ _).symm.append_right _).trans ((perm_interleave _ _ _ _).trans ?_)
    refine .append (.of_eq ?_) (ih ph)
    by_cases hp : ph = .union
    · rw [if_pos hp, decide_eq_true hp]
      cases hd : f.hasDefault with
      | false =>
        simp only [hp, true_and, Bool.false_eq_true, and_false, if_false, List.append_nil]
        exact masks_flatMap node f
      | true => simp [hp]
    · simp [hp]
  | group g body rest _ ih =>
    simp only [Fields.casesOf, Fields.membersOf, Fields.readsOf]
    generalize ph.next (inUnion g.discriminantValue) = ph
    refine (List.perm_append_comm_assoc _ _ _).trans (.append (.of_eq ?_) (ih ph))
    by_cases hp : ph = .union
    · rw [if_pos hp, if_pos hp, decide_eq_true hp]
      rfl
    · rw [if_neg hp, if_neg hp]

/-- The loops of a node, from what is known of them separately. -/
theorem loops_emit {codecgen : Bool} {node : Text} {fs : Fields}
    (hf : ∀ loop, loop ≠ .union → ∀ s, Emits [] s (fieldLoop codecgen loop .before fs s) (fs.declsOf loop .before)
      (fs.readsOf node loop .before) (fs.lastOf loop .before))
    (hu : ∀ s, Emits [[]] s (unionLoop codecgen node .before fs s) (fs.declsOf .union .before)
      (fs.membersOf node .before) (fs.lastOf .union .before)) : (fs.loops codecgen node).Emit node fs where
  before := hf .before (by decide)
  union := ⟨_, _, cases_perm node fs .before, unionCases_all node fs .before masks, hu⟩
  after := hf .after (by decide)

/-- The name of a group that `define_group` gets is still there when the group is closed. -/
theorem name_stays {g : Group} {body : Fields} {codecgen : Bool} {s : Strings} {r : NameRef}
    (hr : r = if changed g.name = none then .own (escape g.name) else .buf) (hs : s.buf = (changed g.name).getD s.buf)
    (h : codecgen = true ∨ ∀ name, changed g.name = some name → body.last.getD name = name) :
    ∀ s' : Strings, s'.buf = body.last.getD s.buf →
      (if codecgen then .own (r.text s) else r : NameRef).text s' = escape g.name := by
  intro s' hs'
  rcases @changed_escape g.name with ⟨hc, -⟩ | hc
  · rw [if_pos hc] at hr
    rw [hr]
    cases codecgen <;> rfl
  · rw [if_neg (by rw [hc]; exact Option.some_ne_none _)] at hr
    rw [hc, Option.getD_some] at hs
    rw [hr]
    cases codecgen with
    | true => exact hs
    | false =>
      show s'.buf = _
      rw [hs', hs]
      exact (h.resolve_left Bool.false_ne_true) _ hc

theorem Emits.of_eq {pre : List (List Label)} {s s' : Strings} {ds ds' : List Declared} {ms ms' : List Member}
    {last last' : Option Text} (h : Emits pre s s' ds ms last) (hd : ds = ds') (hm : ms = ms') (hl : last = last') :
    Emits pre s s' ds' ms' last' := by
  rw [← hd, ← hm, ← hl]
  exact h

theorem Emits.enum {pre : List (List Label)} {s s' : Strings} {ds : List Declared} {ms : List Member}
    {last : Option Text} (h : Emits pre s s' ds ms last) (e : Text × Text × Nat) :
    Emits pre s { s' with enums := s'.enums ++ [e] } ds ms last :=
  ⟨h.decl, h.get, h.set, h.var, h.buf⟩

/-- A slot in the last loop of `do_union`. -/
theorem unionSlot_emits (node : Text) (f : Slot) (s : Strings) :
    Emits [[]] s
      (let (r, s) := fieldName f.name s
        let s := { s with enums := s.enums ++ [(node, r.text s, f.discriminantValue)] }
        let s := declareSlot f s
        if f.hasDefault then unionBlock f (caseLabel node f.name s) else s)
      f.decls (if f.hasDefault = true then f.reads node true else []) (changed f.name) := by
  obtain ⟨r, e, -⟩ := fieldName_eq f.name s
  have h0 := (fieldName_emits [[]] f.name s).enum
  rw [e] at h0 ⊢
  simp only []
  have h1 := (h0 (node, r.text { s with buf := (changed f.name).getD s.buf }, f.discriminantValue)).trans
    (declareSlot_emits [[]] f _)
  by_cases hd : f.hasDefault = true
  · rw [if_pos hd, if_pos hd]
    refine (h1.trans (unionBlock_emits node f _)).of_eq (List.append_nil _) rfl ?_
    cases changed f.name with
    | none => split <;> rfl
    | some x => rfl
  · rw [if_neg hd, if_neg hd]
    refine h1.of_eq rfl rfl ?_
    split
    · rfl
    · cases changed f.name <;> rfl

/-- A group in the last loop of `do_union`. -/
theorem unionGroup_emits {codecgen : Bool} {node : Text} {g : Group} {body : Fields}
    (hbody : g.skipped body = false → (body.loops codecgen g.node).Emit g.node body)
    (hcount : g.discriminantCount = body.unionCount)
    (hst : g.skipped body = false → ∀ name, changed g.name = some name → body.last.getD name = name) (s : Strings) :
    Emits [[]] s
      (let (r, s) := fieldName g.name s
        let s := { s with enums := s.enums ++ [(node, r.text s, g.discriminantValue)] }
        let s := caseLabel node g.name s
        let (r, s) := fieldName g.name s
        let s := defineGroup g body (body.loops codecgen g.node) r true s
        s.addStmt [.break])
      (g.decls body true) (g.reads body [[(node, escape g.name)]])
      ((if g.skipped body then none else body.last).or (changed g.name)) := by
  obtain ⟨r, e, -⟩ := fieldName_eq g.name s
  have h0 := (fieldName_emits [[]] g.name s).enum
  rw [e] at h0 ⊢
  simp only []
  have h0 := h0 (node, r.text { s with buf := (changed g.name).getD s.buf }, g.discriminantValue)
  generalize hs1 : ({ s with
    enums := s.enums ++ [(node, r.text { s with buf := (changed g.name).getD s.buf }, g.discriminantValue)]
    buf := (changed g.name).getD s.buf } : Strings) = s1 at h0 ⊢
  have hb1 : (changed g.name).getD s1.buf = s1.buf := by
    rw [← hs1]
    exact changed_getD_getD g.name s.buf
  rw [caseLabel_eq]
  obtain ⟨r', e', he', hr'⟩ := fieldName_eq g.name
    { s1 with
      get := s1.get ++ [.case node (escape g.name)]
      set := s1.set ++ [.case node (escape g.name)]
      buf := (changed g.name).getD s1.buf }
  rw [e']
  simp only [hb1] at he' ⊢
  generalize hs2 : ({ s1 with
    get := s1.get ++ [.case node (escape g.name)]
    set := s1.set ++ [.case node (escape g.name)] } : Strings) = s2 at he' ⊢
  have hb2 : s2.buf = s1.buf := by rw [← hs2]
  have hg := @defineGroup_emits g body (body.loops codecgen g.node) r' s2 hbody hcount true he' fun hs =>
    @name_stays g body false _ _ hr' (by rw [hb2, hb1]) (.inr (hst hs))
  have hd2 : s2.decl = s1.decl := by rw [← hs2]
  have hg2 : s2.get = s1.get ++ [.case node (escape g.name)] := by rw [← hs2]
  have ht2 : s2.set = s1.set ++ [.case node (escape g.name)] := by rw [← hs2]
  have hv2 : s2.var = s1.var := by rw [← hs2]
  have hw : Emits [[]] s1 ((defineGroup g body (body.loops codecgen g.node) r' true s2).addStmt [.break])
      (g.decls body true) (g.reads body [[(node, escape g.name)]]) (if g.skipped body then none else body.last) := by
    refine ⟨?_, ?_, ?_, hg.var.trans hv2, ?_⟩
    · rw [← hd2]
      exact hg.decl
    · have h := hg.get
      rw [hv2, hg2] at h
      rw [← reads_cases]
      exact h.case node (escape g.name)
    · have h := hg.set
      rw [hv2, ht2] at h
      rw [← reads_cases]
      exact h.case node (escape g.name)
    · rw [← hb2]
      exact hg.buf
  exact h0.trans hw

/-- A group in the loops over fields outside of the union. -/
theorem fieldGroup_emits {codecgen : Bool} {g : Group} {body : Fields}
    (hbody : g.skipped body = false → (body.loops codecgen g.node).Emit g.node body)
    (hcount : g.discriminantCount = body.unionCount)
    (hst : g.skipped body = false → codecgen = true ∨
      ∀ name, changed g.name = some name → body.last.getD name = name) (s : Strings) :
    Emits [] s
      (let (r, s) := fieldName g.name s
       defineGroup g body (body.loops codecgen g.node) (if codecgen then .own (r.text s) else r) false s)
      (g.decls body false) (g.reads body []) ((if g.skipped body then none else body.last).or (changed g.name)) := by
  obtain ⟨r, e, he, hr⟩ := fieldName_eq g.name s
  have h0 := fieldName_emits [] g.name s
  rw [e] at h0 ⊢
  simp only []
  have hbuf := changed_getD_getD g.name s.buf
  generalize ht : ({ s with buf := (changed g.name).getD s.buf } : Strings) = t at h0 he ⊢
  have hbuf' : t.buf = (changed g.name).getD t.buf := by
    rw [← ht]
    exact hbuf.symm
  have hname : (if codecgen then .own (r.text t) else r : NameRef).text t = escape g.name := by
    cases codecgen with
    | true => exact he
    | false => exact he
  exact h0.trans (defineGroup_emits hbody hcount false hname fun hs => name_stays hr hbuf' (hst hs))

theorem Fields.emits (codecgen : Bool) {fs : Fields} (hv : fs.Valid) (node : Text) (ph : Phase)
    (hst : fs.Steady codecgen ph) :
    (∀ loop, loop ≠ .union → ∀ s, Emits [] s (fieldLoop codecgen loop ph fs s) (fs.declsOf loop ph)
      (fs.readsOf node loop ph) (fs.lastOf loop ph)) ∧
    ∀ s, Emits [[]] s (unionLoop codecgen node ph fs s) (fs.declsOf .union ph) (fs.membersOf node ph)
      (fs.lastOf .union ph) := by
  induction fs generalizing node ph with
  | nil => exact ⟨fun _ _ s => .refl _ s, fun s => .refl _ s⟩
  | slot f rest ih =>
    obtain ⟨ihf, ihu⟩ := ih hv node (ph.next (inUnion f.discriminantValue)) hst
    simp only [fieldLoop, unionLoop, declsOf, readsOf, membersOf, lastOf]
    generalize ph.next (inUnion f.discriminantValue) = ph at ihf ihu ⊢
    refine ⟨fun loop hl s => ?_, fun s => ?_⟩
    · by_cases hp : ph = loop
      · rw [if_pos hp, if_pos hp, if_pos hp, if_pos hp, decide_eq_false (hp ▸ hl)]
        exact (defineSlot_emits node f s).trans (ihf loop hl _)
      · rw [if_neg hp, if_neg hp, if_neg hp, if_neg hp, Option.or_none]
        exact ihf loop hl s
    · rw [ite_and]
      by_cases hp : ph = .union
      · rw [if_pos hp, if_pos hp, if_pos hp, if_pos hp]
        exact (unionSlot_emits node f s).trans (ihu _)
      · rw [if_neg hp, if_neg hp, if_neg hp, if_neg hp, Option.or_none]
        exact ihu s
  | group g body rest ihb ih =>
    obtain ⟨hcount, hvb, hvr⟩ := hv
    obtain ⟨hsg, hsr⟩ := hst
    obtain ⟨ihf, ihu⟩ := ih hvr node (ph.next (inUnion g.discriminantValue)) hsr
    simp only [fieldLoop, unionLoop, declsOf, readsOf, membersOf, lastOf]
    generalize ph.next (inUnion g.discriminantValue) = ph at ihf ihu hsg ⊢
    have hsg : g.skipped body = false → ((codecgen = true ∧ ph ≠ .union) ∨
        ∀ name, changed g.name = some name → body.last.getD name = name) ∧ body.Steady codecgen .before :=
      fun hs => hsg.resolve_left (by rw [hs]; exact Bool.false_ne_true)
    have hbody : g.skipped body = false → (body.loops codecgen g.node).Emit g.node body := by
      intro hs
      obtain ⟨hf, hu⟩ := ihb hvb g.node .before (hsg hs).2
      exact loops_emit hf hu
    refine ⟨fun loop hl s => ?_, fun s => ?_⟩
    · by_cases hp : ph = loop
      · subst hp
        rw [if_pos rfl, if_pos rfl, if_pos rfl, if_pos rfl, decide_eq_false hl]
        exact (fieldGroup_emits hbody hcount (fun hs => (hsg hs).1.imp And.left id) s).trans (ihf ph hl _)
      · rw [if_neg hp, if_neg hp, if_neg hp, if_neg hp, Option.or_none]
        exact ihf loop hl s
    · by_cases hp : ph = .union
      · rw [if_pos hp, if_pos hp, if_pos hp, if_pos hp, decide_eq_true hp]
        have hg := @unionGroup_emits codecgen node g body hbody hcount
          (fun hs => (hsg hs).1.resolve_left fun h => h.2 hp) s
        exact hg.trans (ihu _)
      · rw [if_neg hp, if_neg hp, if_neg hp, if_neg hp, Option.or_none]
        exact ihu s

/-- **What is written for a struct**, when the names of its groups stay what they are. -/
theorem defineStruct_emits (codecgen : Bool) (n : Node) (buf : Text) (h : n.fields.Steady codecgen .before) :
    Emits [] { var := "s->".toList, buf := buf } (defineStruct codecgen n buf)
      (n.fields.declsOf .before .before ++ (n.fields.declsOf .union .before ++ n.fields.declsOf .after .before))
      (n.fields.readsOf n.name .before .before ++
        (n.fields.readsOf n.name .union .before ++ n.fields.readsOf n.name .after .before)) n.fields.last := by
  obtain ⟨hf, hu⟩ := Fields.emits codecgen n.valid n.name .before h
  have hl : (n.fields.loops codecgen n.name).Emit n.name n.fields := loops_emit hf hu
  have he := @struct_emits ⟨[], 0xFFFF, n.name, n.discriminantCount⟩ n.fields _ (.own [])
    { var := "s->".toList, buf := buf } hl n.counted false (fun _ _ => escape_nil.symm)
  rw [Bool.false_and, if_neg Bool.false_ne_true, underAll_nil] at he
  exact he

end Capnproto.Compiler

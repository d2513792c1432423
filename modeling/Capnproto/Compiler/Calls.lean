import Capnproto.Compiler.Agree

/-!
# The slots that codecs are written for

A run of the generator writes beside the codecs what it writes without them, and for each slot that is not
void, at any depth but in groups that it takes for empty, calls `encode_member`, `decode_member` and
`free_member` once each, for one path: that of the accessors (`codecStruct_ran`).
-/

namespace Capnproto.Compiler

/-! ## What is written for members -/

def CodecStmt.asMember : CodecStmt → Option (CodecSlot × List Piece)
  | .member f text => some (f, text)
  | _ => none

/-- The members of a codec. -/
def codecMembers (ts : List CodecStmt) : List (CodecSlot × List Piece) := ts.filterMap CodecStmt.asMember

def Stmt.asMember : Stmt → Option (Slot × Text)
  | .member f var => some (f, var)
  | _ => none

/-- The members of an accessor. -/
def stmtMembers (ts : List Stmt) : List (Slot × Text) := ts.filterMap Stmt.asMember

@[simp] theorem codecMembers_append (ts us : List CodecStmt) :
    codecMembers (ts ++ us) = codecMembers ts ++ codecMembers us := List.filterMap_append

@[simp] theorem stmtMembers_append (ts us : List Stmt) : stmtMembers (ts ++ us) = stmtMembers ts ++ stmtMembers us :=
  List.filterMap_append

/-- The calls for a slot: `s->var`, what `var2` is, and what they write. -/
structure Calls where
  slot : CodecSlot
  scope : Text
  var2 : Option Text
  encoder : List Piece
  decoder : List Piece
  freeup : List Piece

/-- The path of the slot in the struct. -/
def Calls.var (x : Calls) : Text := x.scope.drop 3 ++ escape x.slot.name

/-- The calls write this. -/
structure Calls.Made (x : Calls) : Prop where
  encoder : encodeMember x.slot x.var x.var2 = .ok x.encoder
  decoder : decodeMember x.slot x.var x.var2 = .ok x.decoder
  freeup : freeMember x.slot x.var x.var2 = .ok x.freeup

/-- From `c` to `c'` these calls write what there is about members. -/
structure Wrote (c c' : Codec) (xs : List Calls) : Prop where
  made : ∀ x ∈ xs, x.Made
  encoder : codecMembers c'.encoder = codecMembers c.encoder ++ xs.map fun x => (x.slot, x.encoder)
  decoder : codecMembers c'.decoder = codecMembers c.decoder ++ xs.map fun x => (x.slot, x.decoder)
  freeup : codecMembers c'.freeup = codecMembers c.freeup ++ xs.map fun x => (x.slot, x.freeup)
  set : stmtMembers c'.strings.set =
    stmtMembers c.strings.set ++ xs.map fun x => (x.slot.toSlot, x.scope ++ escape x.slot.name)
  get : stmtMembers c'.strings.get =
    stmtMembers c.strings.get ++ xs.map fun x => (x.slot.toSlot, x.scope ++ escape x.slot.name)

/-- A step from `c` that goes well leaves `s` in the other buffers, and calls for these slots. -/
def Ran (c : Codec) (r : Except Stop Codec) (s : Strings) (slots : List CodecSlot) : Prop :=
  ∀ c', r = .ok c' → c'.strings = s ∧ ∃ xs, Wrote c c' xs ∧ (xs.map (·.slot)).Perm slots

theorem Wrote.refl (c : Codec) : Wrote c c [] where
  made := fun _ hx => absurd hx List.not_mem_nil
  encoder := (List.append_nil _).symm
  decoder := (List.append_nil _).symm
  freeup := (List.append_nil _).symm
  set := (List.append_nil _).symm
  get := (List.append_nil _).symm

theorem Wrote.trans {c c' c'' : Codec} {xs ys : List Calls} (h : Wrote c c' xs) (h' : Wrote c' c'' ys) :
    Wrote c c'' (xs ++ ys) where
  made := fun x hx => (List.mem_append.mp hx).elim (h.made x) (h'.made x)
  encoder := by rw [h'.encoder, h.encoder, List.map_append, List.append_assoc]
  decoder := by rw [h'.decoder, h.decoder, List.map_append, List.append_assoc]
  freeup := by rw [h'.freeup, h.freeup, List.map_append, List.append_assoc]
  set := by rw [h'.set, h.set, List.map_append, List.append_assoc]
  get := by rw [h'.get, h.get, List.map_append, List.append_assoc]

section

variable {c c' : Codec} {r : Except Stop Codec} {f : Codec → Except Stop Codec} {s s' : Strings}
  {slots slots' : List CodecSlot}

theorem Ran.bind (h : Ran c r s slots) (h' : ∀ c1, c1.strings = s → Ran c1 (f c1) s' slots') :
    Ran c (r >>= f) s' (slots ++ slots') := by
  intro c' hc'
  obtain ⟨c1, h1, h2⟩ := bind_ok hc'
  obtain ⟨hs, xs, hw, hp⟩ := h c1 h1
  obtain ⟨hs', ys, hw', hp'⟩ := h' c1 hs c' h2
  refine ⟨hs', xs ++ ys, hw.trans hw', ?_⟩
  rw [List.map_append]
  exact hp.append hp'

theorem Ran.perm (h : Ran c r s slots) (hp : slots.Perm slots') : Ran c r s slots' := by
  intro c' hc'
  obtain ⟨hs, xs, hw, hp'⟩ := h c' hc'
  exact ⟨hs, xs, hw, hp'.trans hp⟩

theorem map_ok {α β : Type} {x : Except Stop α} {f : α → β} {b : β} (h : x.map f = .ok b) : ∃ a, x = .ok a ∧ f a = b := by
  cases x with
  | error e => cases h
  | ok a => exact ⟨a, rfl, Except.ok.inj h⟩

/-- Before text about no member. -/
theorem Ran.map {k : Codec → Codec} (h : Ran c r s slots)
    (hk : ∀ c1, c1.strings = s → Wrote c1 (k c1) [] ∧ (k c1).strings = s') : Ran c (r.map k) s' slots := by
  intro c' hc'
  obtain ⟨c1, h1, rfl⟩ := map_ok hc'
  obtain ⟨hs, xs, hw, hp⟩ := h c1 h1
  obtain ⟨hw', hs'⟩ := hk c1 hs
  refine ⟨hs', xs, ?_, hp⟩
  rw [← List.append_nil xs]
  exact hw.trans hw'

/-- Behind a value that is no codec. -/
theorem Ran.any {α : Type} {x : Except Stop α} {k : α → Except Stop Codec} (h : ∀ a, Ran c (k a) s slots) :
    Ran c (x >>= k) s slots := by
  intro c' hc'
  obtain ⟨a, -, ha⟩ := bind_ok hc'
  exact h a c' ha

/-- Behind text about no member. -/
theorem Ran.behind (hw : Wrote c c' []) (h : Ran c' r s slots) : Ran c r s slots := by
  intro c1 h1
  obtain ⟨hs, xs, hw', hp⟩ := h c1 h1
  exact ⟨hs, xs, hw.trans hw', hp⟩

/-- Text about no member. -/
theorem Ran.quiet (hw : Wrote c c' []) (hs : c'.strings = s) : Ran c (.ok c') s [] := by
  intro c1 h1
  cases h1
  exact ⟨hs, [], hw, .nil⟩

end

/-! ## Slots -/

/-- The slot, if it is not void. -/
def CodecSlot.reached (f : CodecSlot) : List CodecSlot := if f.type = .void then [] else [f]

theorem codecMember_ok {f : CodecSlot} {var : Text} {var2 : Option Text} {c c' : Codec}
    (h : codecMember f var var2 c = .ok c') :
    ∃ e d r, encodeMember f var var2 = .ok e ∧ decodeMember f var var2 = .ok d ∧ freeMember f var var2 = .ok r ∧
      c' = { c with
        encoder := c.encoder ++ memberStmt f e
        decoder := c.decoder ++ memberStmt f d
        freeup := c.freeup ++ memberStmt f r } := by
  obtain ⟨e, he, h⟩ := bind_ok h
  obtain ⟨d, hd, h⟩ := bind_ok h
  obtain ⟨r, hr, h⟩ := bind_ok h
  exact ⟨e, d, r, he, hd, hr, (Except.ok.inj h).symm⟩

/-- The calls for one slot, whatever else is written around them that is about no member. -/
theorem wrote_slot {f : CodecSlot} {scope : Text} {var2 : Option Text} {c c' : Codec} {e d r : List Piece}
    (he : encodeMember f (scope.drop 3 ++ escape f.name) var2 = .ok e)
    (hd : decodeMember f (scope.drop 3 ++ escape f.name) var2 = .ok d)
    (hr : freeMember f (scope.drop 3 ++ escape f.name) var2 = .ok r)
    (henc : codecMembers c'.encoder = codecMembers c.encoder ++ codecMembers (memberStmt f e))
    (hdec : codecMembers c'.decoder = codecMembers c.decoder ++ codecMembers (memberStmt f d))
    (hfree : codecMembers c'.freeup = codecMembers c.freeup ++ codecMembers (memberStmt f r))
    (hset : stmtMembers c'.strings.set =
      stmtMembers c.strings.set ++ stmtMembers (setMember f.toSlot (scope ++ escape f.name)))
    (hget : stmtMembers c'.strings.get =
      stmtMembers c.strings.get ++ stmtMembers (getMember f.toSlot (scope ++ escape f.name))) :
    ∃ xs, Wrote c c' xs ∧ (xs.map (·.slot)).Perm f.reached := by
  rw [memberStmt] at henc hdec hfree
  rw [setMember] at hset
  rw [getMember] at hget
  rw [CodecSlot.reached]
  split_ifs at henc hdec hfree hset hget ⊢
  · exact ⟨[], ⟨fun x hx => absurd hx List.not_mem_nil, henc, hdec, hfree, hset, hget⟩, .nil⟩
  · refine ⟨[⟨f, scope, var2, e, d, r⟩], ⟨fun x hx => ?_, henc, hdec, hfree, hset, hget⟩, .refl _⟩
    rw [List.mem_singleton] at hx
    rw [hx]
    exact ⟨he, hd, hr⟩

theorem fieldName_again (name : Text) {s : Strings} (h : (changed name).getD s.buf = s.buf) :
    ∃ r, fieldName name s = (r, s) ∧ r.text s = escape name := by
  obtain ⟨r, e, he, -⟩ := fieldName_eq name s
  rw [h] at e he
  exact ⟨r, e, he⟩

/-- `define_field` keeps `s->var`, and leaves the name of the slot in the buffer of `field_name`, if it is there. -/
theorem defineSlot_spec (f : Slot) (s : Strings) :
    (defineSlot f s).var = s.var ∧ (defineSlot f s).set = s.set ++ setMember f (s.var ++ escape f.name) ∧
      (defineSlot f s).get = s.get ++ getMember f (s.var ++ escape f.name) ∧
      (changed f.name).getD (defineSlot f s).buf = (defineSlot f s).buf := by
  rw [defineSlot, members_eq, declareSlot_eq]
  refine ⟨?_, ?_, ?_, changed_getD_getD _ _⟩
  · split_ifs <;> rfl
  · split_ifs <;> rfl
  · split_ifs <;> rfl

theorem codecSlot_ran (f : CodecSlot) (c : Codec) :
    Ran c (codecSlot f c) (defineSlot f.toSlot c.strings) f.reached := by
  intro c' h
  obtain ⟨mapname, -, h⟩ := bind_ok h
  obtain ⟨hvar, hset, hget, hbuf⟩ := defineSlot_spec f.toSlot c.strings
  obtain ⟨r, e, he⟩ := fieldName_again f.name (s := (c.on (defineSlot f.toSlot)).strings) hbuf
  simp only [e] at h
  rw [he] at h
  have hvar : (c.on (defineSlot f.toSlot)).strings.var = c.strings.var := hvar
  rw [hvar] at h
  obtain ⟨en, de, fr, hen, hde, hfr, rfl⟩ := codecMember_ok h
  refine ⟨rfl, wrote_slot hen hde hfr (codecMembers_append _ _) (codecMembers_append _ _) (codecMembers_append _ _) ?_ ?_⟩
  · rw [← stmtMembers_append]
    exact congrArg stmtMembers hset
  · rw [← stmtMembers_append]
    exact congrArg stmtMembers hget

theorem codecCase_eq (node name : Text) (c : Codec) :
    codecCase node name c = (c.on (caseLabel node name)).addAll [.case node (escape name)] := by
  have hbuf : (changed name).getD (caseLabel node name c.strings).buf = (caseLabel node name c.strings).buf := by
    rw [caseLabel_eq]
    exact changed_getD_getD _ _
  obtain ⟨r, e, he⟩ := fieldName_again name hbuf
  rw [codecCase]
  simp only [Codec.on, e]
  rw [he]

/-- A case of a union, with the labels, the accessors and the calls in either order. -/
theorem codecUnionMember_ok {f : CodecSlot} {c c' : Codec} (h : codecUnionMember f c = .ok c')
    (hbuf : (changed f.name).getD c.strings.buf = c.strings.buf) :
    ∃ var2 e d r, encodeMember f (c.strings.var.drop 3 ++ escape f.name) var2 = .ok e ∧
      decodeMember f (c.strings.var.drop 3 ++ escape f.name) var2 = .ok d ∧
      freeMember f (c.strings.var.drop 3 ++ escape f.name) var2 = .ok r ∧
      c' = { c with
        encoder := c.encoder ++ memberStmt f e ++ [.break]
        decoder := c.decoder ++ memberStmt f d ++ [.break]
        freeup := c.freeup ++ memberStmt f r ++ [.break] } := by
  obtain ⟨mapname, -, h⟩ := bind_ok h
  obtain ⟨r, e, he⟩ := fieldName_again f.name hbuf
  simp only [e] at h
  rw [he] at h
  obtain ⟨c1, h1, h⟩ := bind_ok h
  obtain ⟨en, de, fr, hen, hde, hfr, rfl⟩ := codecMember_ok h1
  exact ⟨_, en, de, fr, hen, hde, hfr, (Except.ok.inj h).symm⟩

/-- What a case of a union is for the accessors. -/
theorem unionBlock_spec (node : Text) (f : Slot) (s : Strings) :
    stmtMembers (unionBlock f (caseLabel node f.name s)).set =
        stmtMembers s.set ++ stmtMembers (setMember f (s.var ++ escape f.name)) ∧
      stmtMembers (unionBlock f (caseLabel node f.name s)).get =
        stmtMembers s.get ++ stmtMembers (getMember f (s.var ++ escape f.name)) ∧
      (unionBlock f (caseLabel node f.name s)).var = s.var ∧
      (changed f.name).getD (unionBlock f (caseLabel node f.name s)).buf =
        (unionBlock f (caseLabel node f.name s)).buf := by
  rw [unionBlock, members_eq, caseLabel_eq]
  refine ⟨?_, ?_, rfl, changed_getD_getD _ _⟩
  · simp [Strings.addStmt, stmtMembers, Stmt.asMember, List.filterMap_cons]
  · simp [Strings.addStmt, stmtMembers, Stmt.asMember, List.filterMap_cons]

/-- What a case adds to a codec: its labels, and the member. -/
theorem codecMembers_case (node name : Text) (ts us : List CodecStmt) :
    codecMembers (ts ++ [.case node name] ++ us ++ [.break]) = codecMembers ts ++ codecMembers us := by
  have h : codecMembers [.case node name] = [] ∧ codecMembers [.break] = [] := ⟨rfl, rfl⟩
  rw [codecMembers_append, codecMembers_append, codecMembers_append, h.1, h.2, List.append_nil, List.append_nil]

/-- A member without a default, in `union_cases`. -/
theorem codecCases_slot (node : Text) (f : CodecSlot) (c : Codec) :
    Ran c ((codecUnionMember f (codecCase node f.name c)).map (·.on (unionBlock f.toSlot)))
      (unionBlock f.toSlot (caseLabel node f.name c.strings)) f.reached := by
  intro c' h
  obtain ⟨c1, h1, rfl⟩ := map_ok h
  rw [codecCase_eq] at h1
  have hbuf : (changed f.name).getD (caseLabel node f.name c.strings).buf = (caseLabel node f.name c.strings).buf := by
    rw [caseLabel_eq]
    exact changed_getD_getD _ _
  obtain ⟨var2, e, d, r, he, hd, hr, rfl⟩ := codecUnionMember_ok h1 hbuf
  obtain ⟨hset, hget, -, -⟩ := unionBlock_spec node f.toSlot c.strings
  have hvar : (caseLabel node f.name c.strings).var = c.strings.var := by rw [caseLabel_eq]
  exact ⟨rfl, @wrote_slot f (caseLabel node f.name c.strings).var _ _ _ _ _ _ he hd hr (codecMembers_case _ _ _ _)
    (codecMembers_case _ _ _ _) (codecMembers_case _ _ _ _) (by rw [hvar]; exact hset) (by rw [hvar]; exact hget)⟩

/-- A member with a default, in the last loop of `do_union`. -/
theorem codecUnion_slot (node : Text) (f : CodecSlot) (c : Codec) :
    Ran c (codecUnionMember f ((codecCase node f.name c).on (unionBlock f.toSlot)))
      (unionBlock f.toSlot (caseLabel node f.name c.strings)) f.reached := by
  intro c' h
  rw [codecCase_eq] at h
  obtain ⟨hset, hget, hvar, hbuf⟩ := unionBlock_spec node f.toSlot c.strings
  obtain ⟨var2, e, d, r, he, hd, hr, rfl⟩ := codecUnionMember_ok h hbuf
  exact ⟨rfl, @wrote_slot f (unionBlock f.toSlot (caseLabel node f.name c.strings)).var _ _ _ _ _ _ he hd hr
    (codecMembers_case _ _ _ _) (codecMembers_case _ _ _ _) (codecMembers_case _ _ _ _) (by rw [hvar]; exact hset)
    (by rw [hvar]; exact hget)⟩

/-! ## Loops -/

/-- The slots that the fields of one loop have, at any depth, but in groups that are skipped. -/
def CodecFields.reachedOf (loop : Phase) : Phase → CodecFields → List CodecSlot
  | _, .nil => []
  | ph, .slot f rest =>
    let ph := ph.next (inUnion f.discriminantValue)
    (if ph = loop then f.reached else []) ++ rest.reachedOf loop ph
  | ph, .group g _ body rest =>
    let ph := ph.next (inUnion g.discriminantValue)
    (if ph = loop then
      if g.skipped body.plain then []
      else body.reachedOf .before .before ++ (body.reachedOf .union .before ++ body.reachedOf .after .before)
    else []) ++ rest.reachedOf loop ph

/-- The slots of a node that the generator gets to. -/
def CodecFields.reached (fs : CodecFields) : List CodecSlot :=
  fs.reachedOf .before .before ++ (fs.reachedOf .union .before ++ fs.reachedOf .after .before)

/-- The slots that `union_cases` has with one of the masks. -/
def CodecFields.casesOf (mask : List TypeWhich) : Phase → CodecFields → List CodecSlot
  | _, .nil => []
  | ph, .slot f rest =>
    let ph := ph.next (inUnion f.discriminantValue)
    (if ph = .union ∧ f.hasDefault = false ∧ f.type ∈ mask then f.reached else []) ++ rest.casesOf mask ph
  | ph, .group g _ _ rest => rest.casesOf mask (ph.next (inUnion g.discriminantValue))

/-- The slots of the last loop of `do_union`. -/
def CodecFields.membersOf : Phase → CodecFields → List CodecSlot
  | _, .nil => []
  | ph, .slot f rest =>
    let ph := ph.next (inUnion f.discriminantValue)
    (if ph = .union ∧ f.hasDefault = true then f.reached else []) ++ rest.membersOf ph
  | ph, .group g _ body rest =>
    let ph := ph.next (inUnion g.discriminantValue)
    (if ph = .union then if g.skipped body.plain then [] else body.reached else []) ++ rest.membersOf ph

theorem masks_reached (f : CodecSlot) : (masks.flatMap fun m => if f.type ∈ m then f.reached else []) = f.reached := by
  rw [CodecSlot.reached]
  cases f.type <;> simp [masks]

/-- Between them, the loops of `do_union` get to each slot once. -/
theorem codecCases_perm (fs : CodecFields) (ph : Phase) :
    ((masks.flatMap fun m => fs.casesOf m ph) ++ fs.membersOf ph).Perm (fs.reachedOf .union ph) := by
  induction fs generalizing ph with
  | nil => exact .refl _
  | slot f rest ih =>
    simp only [CodecFields.casesOf, CodecFields.membersOf, CodecFields.reachedOf]
    generalize ph.next (inUnion f.discriminantValue) = ph
    refine ((List.flatMap_append_perm masks _ _).symm.append_right _).trans ((perm_interleave _ _ _ _).trans ?_)
    refine .append (.of_eq ?_) (ih ph)
    by_cases hp : ph = .union
    · rw [if_pos hp]
      cases hd : f.hasDefault with
      | false =>
        simp only [hp, true_and, Bool.false_eq_true, and_false, if_false, List.append_nil]
        exact masks_reached f
      | true => simp [hp]
    · simp [hp]
  | group g annotations body rest _ ih =>
    simp only [CodecFields.casesOf, CodecFields.membersOf, CodecFields.reachedOf]
    generalize ph.next (inUnion g.discriminantValue) = ph
    refine (List.perm_append_comm_assoc _ _ _).trans (.append (.of_eq ?_) (ih ph))
    by_cases hp : ph = .union
    · rw [if_pos hp, if_pos hp]
      rfl
    · rw [if_neg hp, if_neg hp]

/-- Without members of a union there is one loop. -/
theorem reachedOf_none {fs : CodecFields} (h : fs.plain.unionCount = 0) {loop : Phase} (hl : loop ≠ .before) :
    fs.reachedOf loop .before = [] := by
  induction fs with
  | nil => rfl
  | slot f rest ih =>
    rw [CodecFields.plain, Fields.unionCount] at h
    have hf : inUnion f.discriminantValue = false := by
      by_contra hf
      rw [if_pos (Bool.not_eq_false _ ▸ hf)] at h
      omega
    have hph : Phase.before ≠ loop := hl.symm
    simp [CodecFields.reachedOf, hf, Phase.next, hph, ih (by omega)]
  | group g annotations body rest _ ih =>
    rw [CodecFields.plain, Fields.unionCount] at h
    have hf : inUnion g.discriminantValue = false := by
      by_contra hf
      rw [if_pos (Bool.not_eq_false _ ▸ hf)] at h
      omega
    have hph : Phase.before ≠ loop := hl.symm
    simp [CodecFields.reachedOf, hf, Phase.next, hph, ih (by omega)]

theorem codecCases_ran (node : Text) (mask : List TypeWhich) (fs : CodecFields) (ph : Phase) (c : Codec) :
    Ran c (codecCases node mask ph fs c) (unionCases node mask ph fs.plain c.strings) (fs.casesOf mask ph) := by
  induction fs generalizing ph c with
  | nil => exact .quiet (.refl c) rfl
  | slot f rest ih =>
    simp only [codecCases, CodecFields.plain, unionCases, CodecFields.casesOf]
    generalize ph.next (inUnion f.discriminantValue) = ph
    refine Ran.bind (s := if ph = .union ∧ f.hasDefault = false ∧ f.type ∈ mask then _ else _) ?_ fun c1 h1 => h1 ▸ ih ph c1
    split
    · exact codecCases_slot node f c
    · exact .quiet (.refl c) rfl
  | group g annotations body rest _ ih => exact ih _ c

theorem masks_ran (node : Text) (fs : CodecFields) (ph : Phase) (ms : List (List TypeWhich)) (c : Codec) :
    Ran c (ms.foldlM (fun c m => codecCases node m ph fs c) c)
      (ms.foldl (fun s m => unionCases node m ph fs.plain s) c.strings) (ms.flatMap fun m => fs.casesOf m ph) := by
  induction ms generalizing c with
  | nil => exact .quiet (.refl c) rfl
  | cons m ms ih =>
    rw [List.foldlM_cons, List.foldl_cons, List.flatMap_cons]
    exact (codecCases_ran node m fs ph c).bind fun c1 h1 => h1 ▸ ih c1

/-- What the loops over the fields of a node get to. -/
structure CodecLoops.Run (b : CodecLoops) (plain : Loops) (fs : CodecFields) : Prop where
  before : ∀ c, Ran c (b.before c) (plain.before c.strings) (fs.reachedOf .before .before)
  cases : ∀ c, Ran c (b.cases c) (plain.cases c.strings) (masks.flatMap fun m => fs.casesOf m .before)
  union : ∀ uniontag c, Ran c (b.union uniontag c) (plain.union c.strings) (fs.membersOf .before)
  after : ∀ c, Ran c (b.after c) (plain.after c.strings) (fs.reachedOf .after .before)

/-- Text that is about no member, in any of the buffers. -/
theorem wrote_quiet {c c' : Codec} (henc : codecMembers c'.encoder = codecMembers c.encoder)
    (hdec : codecMembers c'.decoder = codecMembers c.decoder) (hfree : codecMembers c'.freeup = codecMembers c.freeup)
    (hset : stmtMembers c'.strings.set = stmtMembers c.strings.set)
    (hget : stmtMembers c'.strings.get = stmtMembers c.strings.get) : Wrote c c' [] where
  made := fun _ hx => absurd hx List.not_mem_nil
  encoder := by rw [henc, List.map_nil, List.append_nil]
  decoder := by rw [hdec, List.map_nil, List.append_nil]
  freeup := by rw [hfree, List.map_nil, List.append_nil]
  set := by rw [hset, List.map_nil, List.append_nil]
  get := by rw [hget, List.map_nil, List.append_nil]

/-- Declarations are about no member. -/
theorem wrote_on {c : Codec} {f : Strings → Strings} (hset : (f c.strings).set = c.strings.set)
    (hget : (f c.strings).get = c.strings.get) : Wrote c (c.on f) [] :=
  wrote_quiet rfl rfl rfl (congrArg stmtMembers hset) (congrArg stmtMembers hget)

theorem quiet_append {ts us : List CodecStmt} (h : codecMembers us = []) :
    codecMembers (ts ++ us) = codecMembers ts := by
  rw [codecMembers_append, h, List.append_nil]

theorem quiet_stmts {ts us : List Stmt} (h : stmtMembers us = []) : stmtMembers (ts ++ us) = stmtMembers ts := by
  rw [stmtMembers_append, h, List.append_nil]

/-- Statements about no member, in all buffers. -/
theorem wrote_all {c : Codec} {ts : List Stmt} {us : List CodecStmt} (h : stmtMembers ts = [])
    (hu : codecMembers us = []) : Wrote c ((c.on fun s => s.addStmt ts).addAll us) [] :=
  wrote_quiet (quiet_append hu) (quiet_append hu) (quiet_append hu) (quiet_stmts h) (quiet_stmts h)

theorem codecUnion_ran {b : CodecLoops} {plain : Loops} {fs : CodecFields} (h : b.Run plain fs) (node : Text)
    (unionName : Option NameRef) (uniontag : Option Text) (c : Codec) :
    Ran c (codecUnion node b unionName uniontag c) (doUnion node plain unionName c.strings)
      (fs.reachedOf .union .before) := by
  refine Ran.perm ?_ (codecCases_perm fs .before)
  refine Ran.any fun arrow => Ran.behind (wrote_quiet ?_ ?_ ?_ ?_ ?_) ((h.cases _).bind fun c1 h1 => ?_)
  · exact quiet_append rfl
  · exact quiet_append rfl
  · exact quiet_append rfl
  · exact quiet_stmts rfl
  · exact quiet_stmts rfl
  · rw [← List.append_nil (fs.membersOf .before)]
    refine .behind (wrote_on (f := fun s => s.addDecl [.union]) rfl rfl) ((h.union uniontag _).bind fun c2 h2 => ?_)
    refine .behind (wrote_on (f := fun s => s.addDecl [.close (unionName.map (·.text s))]) rfl rfl)
      (.quiet (wrote_all rfl rfl) ?_)
    simp only [Codec.on, Codec.addAll, doUnion, h2, h1]

theorem codecFields_ran {b : CodecLoops} {plain : Loops} {fs : CodecFields} (h : b.Run plain fs) {g : Group}
    (hcount : g.discriminantCount = fs.plain.unionCount) (unionName : Option NameRef) (name : NameRef)
    (encloseUnions : Bool) (uniontag : Option Text) (c : Codec) :
    Ran c (codecFields g.node g.discriminantCount b unionName name encloseUnions uniontag c)
      (groupFields g plain unionName name encloseUnions c.strings) fs.reached := by
  refine (h.before c).bind fun c1 h1 => ?_
  rw [groupFields, ← h1]
  by_cases hc : 0 < g.discriminantCount
  · rw [if_pos hc]
    simp only [if_pos hc]
    cases encloseUnions with
    | false =>
      refine (codecUnion_ran h g.node unionName uniontag c1).bind fun c2 h2 => ?_
      rw [← List.append_nil (fs.reachedOf .after .before)]
      refine (h.after c2).bind fun c3 h3 => .quiet (.refl c3) ?_
      simp only [Bool.false_eq_true, if_false, h3, h2]
    | true =>
      refine .behind (wrote_on (f := fun s => s.addDecl [.struct]) rfl rfl)
        ((codecUnion_ran h g.node unionName uniontag _).bind fun c2 h2 => ?_)
      rw [← List.append_nil (fs.reachedOf .after .before)]
      refine (h.after c2).bind fun c3 h3 =>
        .quiet (wrote_on (f := fun s => s.addDecl [.close (some (name.text s))]) rfl rfl) ?_
      simp only [Codec.on, if_true, h3, h2]
  · rw [if_neg hc, reachedOf_none (by omega) (by decide), reachedOf_none (by omega) (by decide)]
    simp only [if_neg hc]
    exact .quiet (.refl c1) rfl

/-- **`define_group`** with codecs. -/
theorem codecGroup_ran {g : Group} {body : CodecFields} {b : CodecLoops} {plain : Loops}
    (h : g.skipped body.plain = false → b.Run plain body) (hcount : g.discriminantCount = body.plain.unionCount)
    (name : NameRef) (encloseUnions : Bool) (uniontag : Option Text) (c : Codec) :
    Ran c (codecGroup g body.plain b name encloseUnions uniontag c)
      (defineGroup g body.plain plain name encloseUnions c.strings)
      (if g.skipped body.plain then [] else body.reached) := by
  rw [codecGroup, defineGroup]
  by_cases hs : g.skipped body.plain = true
  · rw [if_pos hs, if_pos hs, if_pos hs]
    exact .quiet (wrote_on rfl rfl) rfl
  · rw [if_neg hs, if_neg hs, if_neg hs, ← List.append_nil body.reached]
    have h := h (Bool.not_eq_true _ ▸ hs)
    cases hn : g.namedUnion body.plain with
    | true =>
      refine .behind (wrote_on (f := fun s => { s with var := s.var ++ name.text s ++ ['.'] }) rfl rfl)
        ((codecFields_ran h hcount _ name encloseUnions uniontag _).bind fun c2 h2 => .quiet (wrote_on rfl rfl) ?_)
      simp only [Codec.on, if_true, h2]
    | false =>
      refine .behind ((wrote_on (f := fun s => s.addDecl [.struct]) rfl rfl).trans
        (wrote_on (f := fun s => { s with var := s.var ++ name.text s ++ ['.'] }) rfl rfl))
        ((codecFields_ran h hcount _ name encloseUnions uniontag _).bind fun c2 h2 => .quiet
          ((wrote_on (f := fun s => s.addDecl [.close (some (name.text s))]) rfl rfl).trans (wrote_on rfl rfl)) ?_)
      simp only [Codec.on, Bool.false_eq_true, if_false, h2]

theorem loops_run {fs : CodecFields} {node : Text}
    (hf : ∀ loop c, Ran c (codecFieldLoop loop .before fs c) (fieldLoop true loop .before fs.plain c.strings)
      (fs.reachedOf loop .before))
    (hu : ∀ uniontag c, Ran c (codecUnionLoop uniontag node .before fs c)
      (unionLoop true node .before fs.plain c.strings) (fs.membersOf .before)) :
    (fs.loops node).Run (fs.plain.loops true node) fs :=
  ⟨hf .before, masks_ran node fs .before masks, hu, hf .after⟩

theorem wrote_tag (c : Codec) (a b a' b' : Text) :
    Wrote c { c with encoder := c.encoder ++ [.which a b], decoder := c.decoder ++ [.which a' b'] } [] :=
  wrote_quiet (quiet_append rfl) (quiet_append rfl) rfl rfl rfl

/-- The tag of a named union is no member. -/
theorem codecTag_ran {g : Group} {annotations : List Annotation} {body : Fields} {name : Text} {c : Codec}
    {k : Codec × Option Text → Except Stop Codec} {s : Strings} {slots : List CodecSlot}
    (h : ∀ c1 uniontag, c1.strings = c.strings → Ran c1 (k (c1, uniontag)) s slots) :
    Ran c (codecTag g annotations body name c >>= k) s slots := by
  rw [codecTag]
  split
  · intro c' hc'
    obtain ⟨⟨c1, uniontag⟩, h1, h2⟩ := bind_ok hc'
    obtain ⟨tag, -, h1⟩ := bind_ok h1
    obtain ⟨rfl, rfl⟩ := Prod.mk.inj (Except.ok.inj h1)
    exact Ran.behind (wrote_tag c _ _ _ _) (h _ _ rfl) c' h2
  · exact h c none rfl

theorem Ran.of_eq {c : Codec} {r : Except Stop Codec} {s s' : Strings} {slots : List CodecSlot} (h : Ran c r s slots)
    (hs : s = s') : Ran c r s' slots := hs ▸ h

/-- Names are about no member. -/
theorem wrote_names {c : Codec} {s : Strings} (hset : s.set = c.strings.set) (hget : s.get = c.strings.get) :
    Wrote c { c with strings := s } [] :=
  wrote_on (f := fun _ => s) hset hget

/-- A slot in the last loop of `do_union`. -/
theorem unionSlot_ran (node : Text) (f : CodecSlot) (c : Codec) :
    Ran c
      (let (r, s) := fieldName f.name c.strings
        let s := { s with enums := s.enums ++ [(node, r.text s, f.discriminantValue)] }
        let c := { c with strings := declareSlot f.toSlot s }
        if f.hasDefault then codecUnionMember f ((codecCase node f.name c).on (unionBlock f.toSlot)) else .ok c)
      (let (r, s) := fieldName f.name c.strings
        let s := { s with enums := s.enums ++ [(node, r.text s, f.discriminantValue)] }
        let s := declareSlot f.toSlot s
        if f.hasDefault then unionBlock f.toSlot (caseLabel node f.name s) else s)
      (if f.hasDefault = true then f.reached else []) := by
  obtain ⟨r, e, -⟩ := fieldName_eq f.name c.strings
  rw [e]
  simp only []
  generalize hs0 : ({ c.strings with
    enums := c.strings.enums ++ [(node, r.text { c.strings with buf := (changed f.name).getD c.strings.buf },
      f.discriminantValue)]
    buf := (changed f.name).getD c.strings.buf } : Strings) = s0
  have h0 : s0.set = c.strings.set ∧ s0.get = c.strings.get := by
    rw [← hs0]
    exact ⟨rfl, rfl⟩
  have hd : (declareSlot f.toSlot s0).set = c.strings.set ∧ (declareSlot f.toSlot s0).get = c.strings.get := by
    rw [declareSlot_eq]
    split_ifs <;> exact h0
  refine .behind (wrote_names (s := declareSlot f.toSlot s0) hd.1 hd.2) ?_
  split
  · exact codecUnion_slot node f _
  · exact .quiet (.refl _) rfl

/-- A group in the loops over fields outside of the union. -/
theorem fieldGroup_ran {g : Group} {body : CodecFields} {b : CodecLoops} {plain : Loops}
    (h : g.skipped body.plain = false → b.Run plain body) (hcount : g.discriminantCount = body.plain.unionCount)
    (annotations : List Annotation) (c : Codec) :
    Ran c
      (let (r, s) := fieldName g.name c.strings;
        codecTag g annotations body.plain (r.text s) { c with strings := s } >>= fun p =>
          codecGroup g body.plain b (.own (r.text s)) false p.2 p.1)
      (let (r, s) := fieldName g.name c.strings;
        defineGroup g body.plain plain (.own (r.text s)) false s)
      (if g.skipped body.plain then [] else body.reached) := by
  obtain ⟨r, e, -⟩ := fieldName_eq g.name c.strings
  rw [e]
  refine .behind (wrote_names (s := { c.strings with buf := (changed g.name).getD c.strings.buf }) rfl rfl)
    (codecTag_ran fun c1 uniontag h1 => ?_)
  exact (codecGroup_ran h hcount _ false uniontag c1).of_eq (by rw [h1])

/-- A group in the last loop of `do_union`. -/
theorem unionGroup_ran {g : Group} {body : CodecFields} {b : CodecLoops} {plain : Loops}
    (h : g.skipped body.plain = false → b.Run plain body) (hcount : g.discriminantCount = body.plain.unionCount)
    (node : Text) (uniontag : Option Text) (c : Codec) :
    Ran c
      (let (r, s) := fieldName g.name c.strings
        let s := { s with enums := s.enums ++ [(node, r.text s, g.discriminantValue)] }
        let c := codecCase node g.name { c with strings := s }
        let (r, s) := fieldName g.name c.strings
        (codecGroup g body.plain b r true uniontag { c with strings := s }).map fun c =>
          (c.on fun s => s.addStmt [.break]).addAll [.break])
      (let (r, s) := fieldName g.name c.strings
        let s := { s with enums := s.enums ++ [(node, r.text s, g.discriminantValue)] }
        let s := caseLabel node g.name s
        let (r, s) := fieldName g.name s
        let s := defineGroup g body.plain plain r true s
        s.addStmt [.break])
      (if g.skipped body.plain then [] else body.reached) := by
  obtain ⟨r, e, -⟩ := fieldName_eq g.name c.strings
  rw [e]
  simp only [codecCase_eq]
  generalize hs0 : ({ c.strings with
    enums := c.strings.enums ++ [(node, r.text { c.strings with buf := (changed g.name).getD c.strings.buf },
      g.discriminantValue)]
    buf := (changed g.name).getD c.strings.buf } : Strings) = s0
  have h0 : s0.set = c.strings.set ∧ s0.get = c.strings.get := by
    rw [← hs0]
    exact ⟨rfl, rfl⟩
  obtain ⟨r', e', -⟩ := fieldName_eq g.name (caseLabel node g.name s0)
  have hfn : fieldName g.name ((({ c with strings := s0 } : Codec).on (caseLabel node g.name)).addAll
      [.case node (escape g.name)]).strings = fieldName g.name (caseLabel node g.name s0) := rfl
  rw [hfn, e']
  refine .behind (wrote_names (s := s0) h0.1 h0.2) (.behind (wrote_quiet (quiet_append rfl) (quiet_append rfl)
    (quiet_append rfl) ?_ ?_) ((codecGroup_ran h hcount r' true uniontag _).map fun c1 h1 => ⟨wrote_all rfl rfl, ?_⟩))
  · show stmtMembers (caseLabel node g.name s0).set = _
    rw [caseLabel_eq]
    exact quiet_stmts rfl
  · show stmtMembers (caseLabel node g.name s0).get = _
    rw [caseLabel_eq]
    exact quiet_stmts rfl
  · simp only [Codec.on, Codec.addAll, h1]

theorem CodecFields.ran {fs : CodecFields} (hv : fs.plain.Valid) (ph : Phase) :
    (∀ loop c, Ran c (codecFieldLoop loop ph fs c) (fieldLoop true loop ph fs.plain c.strings) (fs.reachedOf loop ph)) ∧
    ∀ node uniontag c, Ran c (codecUnionLoop uniontag node ph fs c) (unionLoop true node ph fs.plain c.strings)
      (fs.membersOf ph) := by
  induction fs generalizing ph with
  | nil => exact ⟨fun _ c => .quiet (.refl c) rfl, fun _ _ c => .quiet (.refl c) rfl⟩
  | slot f rest ih =>
    obtain ⟨ihf, ihu⟩ := ih hv (ph.next (inUnion f.discriminantValue))
    simp only [codecFieldLoop, codecUnionLoop, plain, fieldLoop, unionLoop, reachedOf, membersOf]
    generalize ph.next (inUnion f.discriminantValue) = ph at ihf ihu ⊢
    refine ⟨fun loop c => ?_, fun node uniontag c => ?_⟩
    · refine Ran.bind (s := if ph = loop then _ else _) ?_ fun c1 h1 => h1 ▸ ihf loop c1
      split
      · exact codecSlot_ran f c
      · exact .quiet (.refl c) rfl
    · refine Ran.bind (s := if ph = .union then _ else _) ?_ fun c1 h1 => h1 ▸ ihu node uniontag c1
      by_cases hp : ph = .union
      · rw [if_pos hp, if_pos hp, ite_and, if_pos hp]
        exact unionSlot_ran node f c
      · rw [if_neg hp, if_neg hp, if_neg fun h => hp h.1]
        exact .quiet (.refl c) rfl
  | group g annotations body rest ihb ih =>
    obtain ⟨hcount, hvb, hvr⟩ := hv
    obtain ⟨ihf, ihu⟩ := ih hvr (ph.next (inUnion g.discriminantValue))
    obtain ⟨hbf, hbu⟩ := ihb hvb .before
    have hbody : (body.loops g.node).Run (body.plain.loops true g.node) body := loops_run hbf (hbu g.node)
    simp only [codecFieldLoop, codecUnionLoop, plain, fieldLoop, unionLoop, reachedOf, membersOf]
    generalize ph.next (inUnion g.discriminantValue) = ph at ihf ihu ⊢
    refine ⟨fun loop c => ?_, fun node uniontag c => ?_⟩
    · refine Ran.bind (s := if ph = loop then _ else _) ?_ fun c1 h1 => h1 ▸ ihf loop c1
      split
      · exact fieldGroup_ran (fun _ => hbody) hcount annotations c
      · exact .quiet (.refl c) rfl
    · refine Ran.bind (s := if ph = .union then _ else _) ?_ fun c1 h1 => h1 ▸ ihu node uniontag c1
      split
      · exact unionGroup_ran (fun _ => hbody) hcount node uniontag c
      · exact .quiet (.refl c) rfl

/-- **A run of the generator** for a struct writes what it writes without codecs, and calls `encode_member`,
`decode_member` and `free_member` once for each slot that it gets to. -/
theorem codecStruct_ran {n : CodecNode} {buf : Text} {c : Codec} (h : codecStruct n buf = .ok c) :
    c.strings = defineStruct true n.plain buf ∧
      ∃ xs, Wrote { strings := { var := lit "s->", buf := buf } } c xs ∧ (xs.map (·.slot)).Perm n.fields.reached := by
  obtain ⟨hf, hu⟩ := CodecFields.ran n.valid .before
  have hl : (n.fields.loops n.name).Run (n.fields.plain.loops true n.name) n.fields := loops_run hf (hu n.name)
  have hg := fun c => @codecFields_ran (n.fields.loops n.name) (n.fields.plain.loops true n.name) n.fields hl
    ⟨[], 0xFFFF, n.name, n.discriminantCount⟩ n.counted none (.own []) false none c
  obtain ⟨c0, h0, h⟩ := bind_ok h
  have hc0 : c0.strings = { var := lit "s->", buf := buf } ∧
      Wrote { strings := { var := lit "s->", buf := buf } } c0 [] := by
    rw [codecNodeTag] at h0
    split at h0
    · obtain ⟨tag, -, h0⟩ := bind_ok h0
      cases h0
      exact ⟨rfl, wrote_tag _ _ _ _ _⟩
    · cases h0
      exact ⟨rfl, .refl _⟩
  have hr := Ran.behind hc0.2 (hg c0)
  rw [hc0.1] at hr
  exact hr c h

/-- A run of the generator writes these members into its buffers. -/
structure Codec.Has (c : Codec) (xs : List Calls) : Prop where
  encoder : codecMembers c.encoder = xs.map fun x => (x.slot, x.encoder)
  decoder : codecMembers c.decoder = xs.map fun x => (x.slot, x.decoder)
  freeup : codecMembers c.freeup = xs.map fun x => (x.slot, x.freeup)
  set : stmtMembers c.strings.set = xs.map fun x => (x.slot.toSlot, x.scope ++ escape x.slot.name)
  get : stmtMembers c.strings.get = xs.map fun x => (x.slot.toSlot, x.scope ++ escape x.slot.name)

/-- **Which lists the codecs of a struct agree on**: of those that the generator gets to, at any depth, the ones whose
elements are copied and that have an annotation with a name for their number, not that of the data. -/
theorem codecStruct_agrees_iff {n : CodecNode} {buf : Text} {c : Codec} (h : codecStruct n buf = .ok c) :
    ∃ xs, c.Has xs ∧ (xs.map (·.slot)).Perm n.fields.reached ∧ ∀ x ∈ xs, x.slot.type = .list →
      (Agree x.encoder x.decoder x.freeup ↔ Copied x.slot.element ∧
        ∃ count, getMaplistcount x.slot.annotations = .ok (some count) ∧ count ≠ x.slot.dataName x.var) := by
  obtain ⟨-, xs, hw, hp⟩ := codecStruct_ran h
  refine ⟨xs, ⟨hw.encoder, hw.decoder, hw.freeup, hw.set, hw.get⟩, hp, fun x hx hl => ?_⟩
  have hm := hw.made x hx
  exact list_agree_iff hl hm.encoder hm.decoder hm.freeup

theorem unionCount_slot {f : CodecSlot} (h : inUnion f.discriminantValue = false) :
    0 = (CodecFields.slot f .nil).plain.unionCount := by
  simp [CodecFields.plain, Fields.unionCount, h]

/-- `struct S { xs @0 :List(UInt16); }` with or without annotations. -/
def listNode (annotations : List Annotation) : CodecNode where
  name := lit "S"
  discriminantCount := 0
  fields := .slot { name := lit "xs", type := .list, annotations := annotations, element := .uint16 } .nil
  counted := unionCount_slot rfl
  valid := trivial

theorem codecStruct_agrees_iff_named :
    ∃ c xs, codecStruct (listNode [⟨ANNOTATION_MAPLISTCOUNT, { which := .text, str := some (lit "count") }⟩]) [] = .ok c ∧
      c.Has xs ∧ ∀ x ∈ xs, Agree x.encoder x.decoder x.freeup := by
  obtain ⟨c, hc⟩ : ∃ c, codecStruct (listNode [⟨ANNOTATION_MAPLISTCOUNT,
    { which := .text, str := some (lit "count") }⟩]) [] = .ok c := ⟨_, rfl⟩
  obtain ⟨xs, hh, hp, hl⟩ := codecStruct_agrees_iff hc
  refine ⟨c, xs, hc, hh, fun x hx => ?_⟩
  have hs := hp.mem_iff.mp (List.mem_map_of_mem hx)
  have hs : x.slot = _ := List.mem_singleton.mp hs
  refine (hl x hx (by rw [hs])).mpr ⟨by rw [hs]; decide, lit "count", by rw [hs]; rfl, fun hn => ?_⟩
  have hn : lit "count" = x.scope.drop 3 ++ ['x', 's'] := by
    rw [hn, Calls.var, hs]
    rfl
  have hlast := congrArg List.getLast? hn
  rw [List.getLast?_append] at hlast
  have hlast : some 't' = some 's' := hlast
  exact absurd hlast (by decide)

/-- Without annotations the decoder stores the number where the data is, and the encoder looks for it elsewhere. -/
theorem bareList_disagrees :
    ∃ c f e d r, codecStruct (listNode []) [] = .ok c ∧ f.type = .list ∧ codecMembers c.encoder = [(f, e)] ∧
      codecMembers c.decoder = [(f, d)] ∧ codecMembers c.freeup = [(f, r)] ∧
      counts e = [lit "n_xs", lit "n_xs"] ∧ counts d = [lit "xs"] ∧ counts r = [lit "xs"] ∧ ¬ Agree e d r := by
  refine ⟨_, _, _, _, _, rfl, rfl, rfl, rfl, rfl, rfl, rfl, rfl, ?_⟩
  rintro ⟨data, count, -, he, hd, -⟩
  have h1 : lit "n_xs" = count := he.count _ (List.mem_cons_self)
  have h2 : lit "xs" = count := hd.count _ (List.mem_cons_self)
  rw [← h2] at h1
  exact absurd h1 (by decide)

end Capnproto.Compiler

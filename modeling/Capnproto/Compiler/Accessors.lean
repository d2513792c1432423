import Capnproto.Compiler.Emission

/-!
# The accessors of single fields

With the `fieldgetset` option `define_group` writes a getter and a setter for a field, and for a
pointer a function that says whether it is set, in the loop over the fields before the union only. So
all the fields of a struct outside its union have them exactly if none of them, other than of type void,
comes after a member of the union (`accessible_iff`).
-/

namespace Capnproto.Compiler

/-! ## Library calls -/

/-- The call that gets or sets a slot, but for the variable: the function, the offset, the bit of a bool; and the
default, as what the value is xored or compared with, or as the number of the constant for a null pointer. -/
structure Access where
  call : Text
  offset : Nat
  bit : Nat := 0
  xor : Text := []
  constant : Option Int := none
deriving DecidableEq

/-- `%d`. -/
def dec (i : Int) : Text := (toString i).toList

/-- `%#x`. -/
def hex (n : Nat) : Text := if n = 0 then ['0'] else '0' :: 'x' :: Nat.toDigits 16 n

/-- `(int32_t)`. -/
def toInt32 (i : Int) : Int := (i + 2 ^ 31) % 2 ^ 32 - 2 ^ 31

/-- `(uint32_t)`. -/
def toUint32 (i : Int) : Nat := (i % 2 ^ 32).toNat

/-- `xor_member`. -/
def xorMember (f : Slot) : Text :=
  if f.intval = 0 then []
  else
    match f.value with
    | .int8 | .int16 | .int32 => " ^ ".toList ++ dec (toInt32 f.intval)
    | .uint8 => " ^ ".toList ++ dec (f.intval % 2 ^ 8) ++ ['u']
    | .uint16 | .enum => " ^ ".toList ++ dec (f.intval % 2 ^ 16) ++ ['u']
    | .uint32 => " ^ ".toList ++ dec (f.intval % 2 ^ 32) ++ ['u']
    | .float32 => " ^ ".toList ++ hex (toUint32 f.intval) ++ ['u']
    | .int64 =>
      " ^ ((int64_t)((uint64_t) ".toList ++ hex (toUint32 (f.intval / 2 ^ 32)) ++ "u << 32) ^ ".toList ++
        hex (toUint32 f.intval) ++ "u)".toList
    | .uint64 | .float64 =>
      " ^ ((uint64_t) ".toList ++ hex (toUint32 (f.intval / 2 ^ 32)) ++ "u << 32) ^ ".toList ++
        hex (toUint32 f.intval) ++ ['u']
    | _ => []

/-- What `get_member` writes for a slot; nothing for one of type void. -/
def Slot.fetch (f : Slot) : Option Access :=
  let constant := if f.intval = 0 then none else some f.intval
  match f.type with
  | .void => none
  | .bool => some { call := "capn_read8".toList, offset := f.offset / 8, bit := f.offset % 8, xor := dec f.intval }
  | .int8 | .uint8 => some { call := "capn_read8".toList, offset := f.offset, xor := xorMember f }
  | .int16 | .uint16 | .enum => some { call := "capn_read16".toList, offset := 2 * f.offset, xor := xorMember f }
  | .int32 | .uint32 => some { call := "capn_read32".toList, offset := 4 * f.offset, xor := xorMember f }
  | .int64 | .uint64 => some { call := "capn_read64".toList, offset := 8 * f.offset, xor := xorMember f }
  | .float32 => some { call := "capn_to_f32(capn_read32)".toList, offset := 4 * f.offset, xor := xorMember f }
  | .float64 => some { call := "capn_to_f64(capn_read64)".toList, offset := 8 * f.offset, xor := xorMember f }
  | .text => some { call := "capn_get_text".toList, offset := f.offset, constant := some f.intval }
  | .data => some { call := "capn_get_data".toList, offset := f.offset, constant }
  | .struct | .interface | .anyPointer | .list =>
    some { call := "capn_getp".toList, offset := f.offset, constant }

/-- What `set_member` writes for a slot; nothing for one of type void. -/
def Slot.store (f : Slot) : Option Access :=
  let constant := if f.intval = 0 then none else some f.intval
  match f.type with
  | .void => none
  | .bool => some { call := "capn_write1".toList, offset := f.offset, xor := dec f.intval }
  | .int8 | .uint8 => some { call := "capn_write8".toList, offset := f.offset, xor := xorMember f }
  | .int16 | .uint16 | .enum => some { call := "capn_write16".toList, offset := 2 * f.offset, xor := xorMember f }
  | .int32 | .uint32 => some { call := "capn_write32".toList, offset := 4 * f.offset, xor := xorMember f }
  | .int64 | .uint64 => some { call := "capn_write64".toList, offset := 8 * f.offset, xor := xorMember f }
  | .float32 => some { call := "capn_write32(capn_from_f32)".toList, offset := 4 * f.offset, xor := xorMember f }
  | .float64 => some { call := "capn_write64(capn_from_f64)".toList, offset := 8 * f.offset, xor := xorMember f }
  | .text =>
    some { call := "capn_set_text".toList, offset := f.offset, constant := if f.ptrval then some f.intval else none }
  | .data =>
    some { call := if f.intval = 0 then "capn_set_data".toList else "capn_setp".toList, offset := f.offset, constant }
  | .struct | .interface | .anyPointer | .list =>
    some { call := "capn_setp".toList, offset := f.offset, constant }

/-! ## Accessors -/

/-- `is_pointer_slot`. -/
def Slot.isPointer (f : Slot) : Bool := f.type ∈ [.text, .data, .struct, .interface, .list, .anyPointer]

/-- The function of a node about one field: its name is that of the node, `_get_`, `_set_` or `_has_`, and that of the
field; it gets or returns a value of type `tname`. What it gets or sets is a slot, with far pointers followed. -/
structure Accessor where
  node : Text
  name : Text
  tname : Text
  access : Option Access
deriving DecidableEq

/-- `pub_get` with `pub_get_header`, and `pub_set` with `pub_set_header`. -/
structure Accessors where
  getters : List Accessor := []
  has : List Accessor := []
  setters : List Accessor := []

/-- `define_getter_functions`. -/
def getter (node : Text) (f : Slot) : Accessor := ⟨node, escape f.name, f.tname, f.fetch⟩

/-- `define_has_function`. -/
def hasFunction (node : Text) (f : Slot) : Accessor :=
  ⟨node, escape f.name, "int".toList, some { call := "capn_getp".toList, offset := f.offset }⟩

/-- `define_setter_functions`. -/
def setter (node : Text) (f : Slot) : Accessor := ⟨node, escape f.name, f.tname, f.store⟩

/-- The accessors of a field. -/
def Accessors.of (node : Text) (f : Slot) : Accessors where
  getters := [getter node f]
  has := if f.isPointer then [hasFunction node f] else []
  setters := [setter node f]

def Accessors.append (a b : Accessors) : Accessors :=
  ⟨a.getters ++ b.getters, a.has ++ b.has, a.setters ++ b.setters⟩

/-- The first loop of `define_group` for a node that is not a group's, as far as `pub_get` and `pub_set` go: up to the
first member of the union, and of a group nothing, as its type is taken to be void. -/
def accessorLoop (node : Text) : Fields → Accessors
  | .nil => {}
  | .slot f rest =>
    if inUnion f.discriminantValue then {}
    else if f.type = .void then accessorLoop node rest
    else (Accessors.of node f).append (accessorLoop node rest)
  | .group g _ rest => if inUnion g.discriminantValue then {} else accessorLoop node rest

/-- The slots of a struct itself that are not void and not members of its union, in code order. -/
def Fields.plain : Fields → List Slot
  | .nil => []
  | .slot f rest => if inUnion f.discriminantValue = false ∧ f.type ≠ .void then f :: rest.plain else rest.plain
  | .group _ _ rest => rest.plain

/-- Those of them that come after a member of the union. -/
def Fields.trailing : Fields → List Slot
  | .nil => []
  | .slot f rest => if inUnion f.discriminantValue then rest.plain else rest.trailing
  | .group g _ rest => if inUnion g.discriminantValue then rest.plain else rest.trailing

/-- Every field of a struct outside its union has one getter and one setter, and one function that says whether it is
set if it is a pointer, which get and set what the functions for the whole struct do. -/
structure Node.Accessible (codecgen : Bool) (n : Node) (buf : Text) : Prop where
  getters : (accessorLoop n.name n.fields).getters.Perm (n.fields.plain.map (getter n.name))
  has : (accessorLoop n.name n.fields).has.Perm ((n.fields.plain.filter Slot.isPointer).map (hasFunction n.name))
  setters : (accessorLoop n.name n.fields).setters.Perm (n.fields.plain.map (setter n.name))
  read : ∀ f ∈ n.fields.plain, ∃ var, .member f var ∈ (defineStruct codecgen n buf).get
  write : ∀ f ∈ n.fields.plain, ∃ var, .member f var ∈ (defineStruct codecgen n buf).set

/-! ## The functions for the whole struct -/

/-- Nothing that `get` and `set` have is taken back. -/
structure Extends (s s' : Strings) : Prop where
  get : s.get <+: s'.get
  set : s.set <+: s'.set

theorem Extends.refl (s : Strings) : Extends s s := ⟨List.prefix_refl _, List.prefix_refl _⟩

theorem Extends.trans {s s' s'' : Strings} (h : Extends s s') (h' : Extends s' s'') : Extends s s'' :=
  ⟨h.get.trans h'.get, h.set.trans h'.set⟩

theorem Extends.addStmt (s : Strings) (ts : List Stmt) : Extends s (s.addStmt ts) :=
  ⟨List.prefix_append _ _, List.prefix_append _ _⟩

theorem Extends.fieldName (name : Text) (s : Strings) : Extends s (fieldName name s).2 := by
  obtain ⟨r, e, -⟩ := fieldName_eq name s
  rw [e]
  exact ⟨List.prefix_refl _, List.prefix_refl _⟩

theorem Extends.declareSlot (f : Slot) (s : Strings) : Extends s (declareSlot f s) := by
  rw [declareSlot_eq]
  split <;> exact ⟨List.prefix_refl _, List.prefix_refl _⟩

theorem Extends.members (f : Slot) (s : Strings) : Extends s (members f s) := by
  rw [members_eq]
  exact ⟨List.prefix_append _ _, List.prefix_append _ _⟩

theorem Extends.caseLabel (node name : Text) (s : Strings) : Extends s (caseLabel node name s) := by
  rw [caseLabel_eq]
  exact ⟨List.prefix_append _ _, List.prefix_append _ _⟩

theorem Extends.defineSlot (f : Slot) (s : Strings) : Extends s (defineSlot f s) :=
  (Extends.declareSlot f s).trans (.members f _)

theorem Extends.unionBlock (f : Slot) (s : Strings) : Extends s (unionBlock f s) :=
  (Extends.members f s).trans (.addStmt _ _)

theorem Extends.unionCases (node : Text) (mask : List TypeWhich) (fs : Fields) (ph : Phase) (s : Strings) :
    Extends s (unionCases node mask ph fs s) := by
  induction fs generalizing ph s with
  | nil => exact .refl s
  | slot f rest ih =>
    rw [Compiler.unionCases]
    refine Extends.trans ?_ (ih _ _)
    split
    · exact (Extends.caseLabel _ _ _).trans (.unionBlock _ _)
    · exact .refl s
  | group g body rest _ ih => exact ih _ _

/-- What the loops over the fields of a node do extends. -/
structure Loops.Extend (b : Loops) : Prop where
  before : ∀ s, Extends s (b.before s)
  cases : ∀ s, Extends s (b.cases s)
  union : ∀ s, Extends s (b.union s)
  after : ∀ s, Extends s (b.after s)

theorem Extends.masks (node : Text) (fs : Fields) (ms : List (List TypeWhich)) (s : Strings) :
    Extends s (ms.foldl (fun s m => Compiler.unionCases node m .before fs s) s) := by
  induction ms generalizing s with
  | nil => exact .refl s
  | cons m ms ih => exact (Extends.unionCases node m fs .before s).trans (ih _)

theorem Extends.doUnion {b : Loops} (hb : b.Extend) (node : Text) (u : Option NameRef) (s : Strings) :
    Extends s (doUnion node b u s) := by
  have hstart : Extends s ((s.addDecl [.which node (u.map (·.text s))]).addStmt
      [.which (unionTag u.isSome s.var) node, .switch (unionTag u.isSome s.var)]) :=
    ⟨List.prefix_append _ _, List.prefix_append _ _⟩
  have hcases := hb.cases ((s.addDecl [.which node (u.map (·.text s))]).addStmt
      [.which (unionTag u.isSome s.var) node, .switch (unionTag u.isSome s.var)])
  have hunion := hb.union ((b.cases ((s.addDecl [.which node (u.map (·.text s))]).addStmt
      [.which (unionTag u.isSome s.var) node, .switch (unionTag u.isSome s.var)])).addDecl [.union])
  refine hstart.trans (hcases.trans (Extends.trans ⟨?_, ?_⟩ (.addStmt _ _)))
  · exact hunion.get
  · exact hunion.set

theorem Extends.groupFields {b : Loops} (hb : b.Extend) (g : Group) (u : Option NameRef) (name : NameRef) (enclose : Bool)
    (s : Strings) : Extends s (groupFields g b u name enclose s) := by
  rw [Compiler.groupFields]
  refine (hb.before s).trans ?_
  generalize b.before s = s₁
  by_cases hd : 0 < g.discriminantCount
  · simp only [if_pos hd]
    have hopen : Extends s₁ (if enclose then s₁.addDecl [.struct] else s₁) := by
      split <;> exact ⟨List.prefix_refl _, List.prefix_refl _⟩
    have hinner := (Extends.doUnion hb g.node u (if enclose then s₁.addDecl [.struct] else s₁)).trans (hb.after _)
    refine hopen.trans (hinner.trans ?_)
    split <;> exact ⟨List.prefix_refl _, List.prefix_refl _⟩
  · simp only [if_neg hd]
    exact .refl s₁

theorem Extends.defineGroup {b : Loops} (hb : b.Extend) (g : Group) (body : Fields) (name : NameRef) (enclose : Bool)
    (s : Strings) : Extends s (defineGroup g body b name enclose s) := by
  rw [Compiler.defineGroup]
  by_cases hs : g.skipped body = true
  · simp only [if_pos hs]
    exact ⟨List.prefix_refl _, List.prefix_refl _⟩
  · simp only [if_neg hs]
    have hopen : Extends s (if g.namedUnion body then s else s.addDecl [.struct]) := by
      split <;> exact ⟨List.prefix_refl _, List.prefix_refl _⟩
    generalize (if g.namedUnion body then s else s.addDecl [.struct]) = s₁ at hopen ⊢
    have hfields := Extends.groupFields hb g (if g.namedUnion body && !enclose then some name else none) name enclose
      { s₁ with var := s₁.var ++ name.text s₁ ++ ['.'] }
    refine hopen.trans ⟨?_, ?_⟩
    · split <;> exact hfields.get
    · split <;> exact hfields.set

/-- The loops over the fields of a node, at any depth, only add to `get` and `set`. -/
theorem loops_extend (codecgen : Bool) (fs : Fields) (node : Text) (ph : Phase) :
    (∀ loop s, Extends s (fieldLoop codecgen loop ph fs s)) ∧ ∀ s, Extends s (unionLoop codecgen node ph fs s) := by
  induction fs generalizing node ph with
  | nil => exact ⟨fun _ s => .refl s, fun s => .refl s⟩
  | slot f rest ih =>
    obtain ⟨ihf, ihu⟩ := ih node (ph.next (inUnion f.discriminantValue))
    simp only [fieldLoop, unionLoop]
    refine ⟨fun loop s => Extends.trans ?_ (ihf loop _), fun s => Extends.trans ?_ (ihu _)⟩
    · split
      · exact .defineSlot f s
      · exact .refl s
    · split
      · have hname := Extends.fieldName f.name s
        generalize (fieldName f.name s).2 = s₁ at hname ⊢
        have hdecl := Extends.declareSlot f { s₁ with enums := s₁.enums ++ [(node, (fieldName f.name s).1.text s₁,
          f.discriminantValue)] }
        have hdecl' := hname.trans (⟨hdecl.get, hdecl.set⟩ : Extends s₁ _)
        split
        · exact hdecl'.trans ((Extends.caseLabel _ _ _).trans (.unionBlock _ _))
        · exact hdecl'
      · exact .refl s
  | group g body rest ihb ih =>
    obtain ⟨ihf, ihu⟩ := ih node (ph.next (inUnion g.discriminantValue))
    have hb : (body.loops codecgen g.node).Extend :=
      ⟨fun s => (ihb g.node .before).1 .before s, fun s => .masks g.node body masks s,
        fun s => (ihb g.node .before).2 s, fun s => (ihb g.node .before).1 .after s⟩
    simp only [fieldLoop, unionLoop]
    refine ⟨fun loop s => Extends.trans ?_ (ihf loop _), fun s => Extends.trans ?_ (ihu _)⟩
    · split
      · exact (Extends.fieldName g.name s).trans (.defineGroup hb g body _ _ _)
      · exact .refl s
    · split
      · have hname := Extends.fieldName g.name s
        generalize (fieldName g.name s).2 = s₁ at hname ⊢
        have hcase := Extends.caseLabel node g.name { s₁ with enums := s₁.enums ++
          [(node, (fieldName g.name s).1.text s₁, g.discriminantValue)] }
        have hcase' := hname.trans (⟨hcase.get, hcase.set⟩ : Extends s₁ _)
        exact hcase'.trans ((Extends.fieldName g.name _).trans ((Extends.defineGroup hb g body _ _ _).trans
          (.addStmt _ _)))
      · exact .refl s

theorem Fields.loops_extend (codecgen : Bool) (fs : Fields) (node : Text) : (fs.loops codecgen node).Extend :=
  ⟨fun s => (Compiler.loops_extend codecgen fs node .before).1 .before s, fun s => .masks node fs masks s,
    fun s => (Compiler.loops_extend codecgen fs node .before).2 s,
    fun s => (Compiler.loops_extend codecgen fs node .before).1 .after s⟩

/-- The statements about a slot that is not void. -/
theorem mem_defineSlot {f : Slot} (hv : f.type ≠ .void) (s : Strings) :
    (∃ var, .member f var ∈ (defineSlot f s).get) ∧ ∃ var, .member f var ∈ (defineSlot f s).set := by
  rw [defineSlot, members_eq, getMember, if_neg hv, setMember, if_neg hv]
  exact ⟨⟨_, List.mem_append_right _ List.mem_cons_self⟩, _, List.mem_append_right _ List.mem_cons_self⟩

/-- A field outside the union is in the first loop or in the last, and in the last only behind members of the union. -/
theorem mem_fieldLoop (codecgen : Bool) {f : Slot} {fs : Fields} (hf : f ∈ fs.plain) (ph : Phase) :
    ∃ loop, (loop = .before ∨ loop = .after ∧ (ph ≠ .before ∨ 0 < fs.unionCount)) ∧
      ∀ s, (∃ var, .member f var ∈ (fieldLoop codecgen loop ph fs s).get) ∧
        ∃ var, .member f var ∈ (fieldLoop codecgen loop ph fs s).set := by
  induction fs generalizing ph with
  | nil => cases hf
  | slot f' rest ih =>
    have hrest : f ∈ rest.plain → ∃ loop, (loop = .before ∨ loop = .after ∧
        (ph ≠ .before ∨ 0 < (Fields.slot f' rest).unionCount)) ∧
        ∀ s, (∃ var, .member f var ∈ (fieldLoop codecgen loop ph (.slot f' rest) s).get) ∧
          ∃ var, .member f var ∈ (fieldLoop codecgen loop ph (.slot f' rest) s).set := by
      intro hr
      obtain ⟨loop, hloop, hmem⟩ := ih hr (ph.next (inUnion f'.discriminantValue))
      refine ⟨loop, hloop.imp_right fun h => ⟨h.1, ?_⟩, fun s => hmem _⟩
      rw [Fields.unionCount]
      rcases h.2 with hne | hpos
      · cases hu : inUnion f'.discriminantValue with
        | true =>
          rw [if_pos rfl]
          exact .inr (Nat.succ_pos _)
        | false =>
          refine .inl fun hp => hne ?_
          rw [hp, hu]
          rfl
      · exact .inr (Nat.lt_of_lt_of_le hpos (Nat.le_add_right _ _))
    rw [Fields.plain] at hf
    split at hf
    · rename_i hplain
      rcases List.mem_cons.mp hf with rfl | hr
      · -- the field itself: in the loop of its phase
        refine ⟨ph.next (inUnion f.discriminantValue), ?_, fun s => ?_⟩
        · rw [hplain.1]
          cases ph with
          | before => exact .inl rfl
          | union | after => exact .inr ⟨rfl, .inl (by decide)⟩
        · obtain ⟨⟨v, hv⟩, v', hv'⟩ := mem_defineSlot hplain.2 s
          have hext := (loops_extend codecgen rest [] (ph.next (inUnion f.discriminantValue))).1
            (ph.next (inUnion f.discriminantValue)) (defineSlot f s)
          simp only [fieldLoop, if_true]
          exact ⟨⟨v, hext.get.subset hv⟩, v', hext.set.subset hv'⟩
      · exact hrest hr
    · exact hrest hf
  | group g body rest _ ih =>
    rw [Fields.plain] at hf
    obtain ⟨loop, hloop, hmem⟩ := ih hf (ph.next (inUnion g.discriminantValue))
    refine ⟨loop, hloop.imp_right fun h => ⟨h.1, ?_⟩, fun s => hmem _⟩
    rw [Fields.unionCount]
    rcases h.2 with hne | hpos
    · cases hu : inUnion g.discriminantValue with
      | true =>
        rw [if_pos rfl]
        exact .inr (Nat.succ_pos _)
      | false =>
        refine .inl fun hp => hne ?_
        rw [hp, hu]
        rfl
    · exact .inr (Nat.lt_of_lt_of_le hpos (Nat.le_add_right _ _))

/-- The functions for the whole struct read and write all its fields outside the union. -/
theorem mem_defineStruct (codecgen : Bool) (n : Node) (buf : Text) {f : Slot} (hf : f ∈ n.fields.plain) :
    (∃ var, .member f var ∈ (defineStruct codecgen n buf).get) ∧
      ∃ var, .member f var ∈ (defineStruct codecgen n buf).set := by
  have hb := n.fields.loops_extend codecgen n.name
  obtain ⟨loop, hloop, hmem⟩ := mem_fieldLoop codecgen hf .before
  rw [defineStruct]
  rcases hloop with rfl | ⟨rfl, hpos⟩
  · obtain ⟨⟨v, hv⟩, v', hv'⟩ := hmem { var := "s->".toList, buf := buf }
    split
    · have hext := (Extends.doUnion hb n.name none ((n.fields.loops codecgen n.name).before
        { var := "s->".toList, buf := buf })).trans (hb.after _)
      exact ⟨⟨v, hext.get.subset hv⟩, v', hext.set.subset hv'⟩
    · exact ⟨⟨v, hv⟩, v', hv'⟩
  · have hcount := hpos.resolve_left (not_not_intro rfl)
    rw [← n.counted] at hcount
    simp only [if_pos hcount]
    exact hmem _

/-! ## The accessors that are written -/

/-- The fields that the loop comes to are those that no member of the union comes before. -/
theorem accessorLoop_eq (node : Text) (fs : Fields) :
    ∃ fields, fs.plain = fields ++ fs.trailing ∧ accessorLoop node fs =
      ⟨fields.map (getter node), (fields.filter Slot.isPointer).map (hasFunction node), fields.map (setter node)⟩ := by
  induction fs with
  | nil => exact ⟨[], rfl, rfl⟩
  | slot f rest ih =>
    obtain ⟨fields, hplain, hloop⟩ := ih
    rw [Fields.plain, Fields.trailing, accessorLoop]
    by_cases hu : inUnion f.discriminantValue = true
    · refine ⟨[], ?_, by rw [if_pos hu]; rfl⟩
      rw [if_pos hu, if_neg fun h => by rw [hu] at h; exact nomatch h.1]
      rfl
    · have hu' : inUnion f.discriminantValue = false := Bool.eq_false_iff.mpr hu
      rw [if_neg hu, if_neg hu]
      by_cases hv : f.type = .void
      · refine ⟨fields, ?_, by rw [if_pos hv, hloop]⟩
        rw [if_neg fun h => h.2 hv, hplain]
      · refine ⟨f :: fields, ?_, ?_⟩
        · rw [if_pos ⟨hu', hv⟩, hplain]
          rfl
        · rw [if_neg hv, hloop, Accessors.of, Accessors.append, List.filter_cons]
          cases f.isPointer <;> rfl
  | group g body rest _ ih =>
    obtain ⟨fields, hplain, hloop⟩ := ih
    rw [Fields.plain, Fields.trailing, accessorLoop]
    by_cases hu : inUnion g.discriminantValue = true
    · exact ⟨[], by rw [if_pos hu]; rfl, by rw [if_pos hu]; rfl⟩
    · exact ⟨fields, by rw [if_neg hu, hplain], by rw [if_neg hu, hloop]⟩

/-- **Every field outside the union has its accessors** exactly if none comes after a member of the union. -/
theorem accessible_iff (codecgen : Bool) (n : Node) (buf : Text) :
    n.Accessible codecgen buf ↔ n.fields.trailing = [] := by
  obtain ⟨fields, hplain, hloop⟩ := accessorLoop_eq n.name n.fields
  constructor
  · intro h
    have hlen := h.getters.length_eq
    rw [hloop, hplain, List.length_map, List.length_map, List.length_append] at hlen
    exact List.length_eq_zero_iff.mp (by omega)
  · intro h
    rw [h, List.append_nil] at hplain
    refine ⟨?_, ?_, ?_, fun f hf => (mem_defineStruct codecgen n buf hf).1,
      fun f hf => (mem_defineStruct codecgen n buf hf).2⟩
    all_goals rw [hloop, hplain]

/-- A struct with a field behind its union. -/
def employee : Node where
  name := "Employee".toList
  discriminantCount := 2
  fields :=
    .slot { name := "id".toList, type := .uint32, tname := "uint32_t".toList, value := .uint32 }
      (.slot { name := "school".toList, discriminantValue := 0, type := .text, tname := "capn_text".toList, value := .text }
        (.slot { name := "unemployed".toList, discriminantValue := 1, type := .void, tname := "void".toList }
          (.slot { name := "salary".toList, offset := 1, type := .uint32, tname := "uint32_t".toList, value := .uint32 }
            .nil)))
  counted := rfl
  valid := trivial

/-- The field behind the union has no getter. -/
theorem employee_salary : ¬ employee.Accessible false [] := by
  intro h
  have hlen := h.getters.length_eq
  revert hlen
  decide

end Capnproto.Compiler

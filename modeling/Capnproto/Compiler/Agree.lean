import Capnproto.Compiler.Alone
import Capnproto.Compiler.Codec
import Capnproto.Compiler.Emission
import Mathlib.Data.List.TakeDrop
import Mathlib.Data.List.TakeWhile

/-!
# The members that `encode_X`, `decode_X` and `free_X` refer to

For a list the three name its data alike, but each of them makes up the name of its number of
elements: the encoder another one than the decoder and `free`, whatever the path. So they agree
(`Agree`) just where an annotation gives the name, and not that of the data (`list_agree_iff`). A run of
the generator calls the three once for each slot that it gets to (`codecStruct_ran`).
-/

namespace Capnproto.Compiler

/-! ## References to members -/

def Piece.asData : Piece → Option Text
  | .data name => some name
  | _ => none

def Piece.asCount : Piece → Option Text
  | .count name => some name
  | _ => none

/-- The members of the user's struct that the text names for data. -/
def datas (t : List Piece) : List Text := t.filterMap Piece.asData

/-- The members of the user's struct that the text names for a number of elements. -/
def counts (t : List Piece) : List Text := t.filterMap Piece.asCount

/-- The text refers to one member for the data of a list, and to one for the number of its elements. -/
structure RefersTo (t : List Piece) (data count : Text) : Prop where
  someData : datas t ≠ []
  data : ∀ x ∈ datas t, x = data
  someCount : counts t ≠ []
  count : ∀ x ∈ counts t, x = count

/-- The three texts refer to the same member for the data of a list, and to the same other member for the
number of its elements. -/
def Agree (encoder decoder freeup : List Piece) : Prop :=
  ∃ data count, data ≠ count ∧ RefersTo encoder data count ∧ RefersTo decoder data count ∧ RefersTo freeup data count

theorem RefersTo.unique {t : List Piece} {data count data' count' : Text} (h : RefersTo t data count)
    (h' : RefersTo t data' count') : data = data' ∧ count = count' := by
  obtain ⟨x, hx⟩ := List.exists_mem_of_ne_nil _ h.someData
  obtain ⟨y, hy⟩ := List.exists_mem_of_ne_nil _ h.someCount
  exact ⟨(h.data x hx).symm.trans (h'.data x hx), (h.count y hy).symm.trans (h'.count y hy)⟩

theorem not_refersTo_nil (data count : Text) : ¬ RefersTo [] data count := fun h => h.someData rfl

/-- There is code for lists of the elements: they are in the table, or structs. -/
def Copied (element : TypeWhich) : Prop := element ∈ listTypes.map (·.typeWhich) ∨ element = .struct

instance (element : TypeWhich) : Decidable (Copied element) := inferInstanceAs (Decidable (_ ∨ _))

theorem mkSimpleListEncoder_refers (listType setf : String) (dvar cvar svar : Text) :
    RefersTo (mkSimpleListEncoder listType setf dvar cvar svar) svar cvar := by
  rw [mkSimpleListEncoder]
  split_ifs <;> constructor <;> simp [datas, counts, Piece.asData, Piece.asCount]

theorem mkSimpleListDecoder_refers (listType getf : String) (dvar cvar svar : Text) :
    RefersTo (mkSimpleListDecoder listType getf dvar cvar svar) dvar cvar := by
  rw [mkSimpleListDecoder]
  split_ifs <;> constructor <;> simp [datas, counts, Piece.asData, Piece.asCount]

theorem mkSimpleListFree_refers (listType : String) (dvar cvar : Text) :
    RefersTo (mkSimpleListFree listType dvar cvar) dvar cvar := by
  rw [mkSimpleListFree]
  split_ifs <;> constructor <;> simp [datas, counts, Piece.asData, Piece.asCount]

theorem findListType_none {element : TypeWhich} (h : findListType element = none) :
    Copied element ↔ element = .struct := by
  revert h
  cases element <;> decide

theorem findListType_some {element : TypeWhich} {info : ListTypeInfo} (h : findListType element = some info) :
    Copied element := by
  refine .inl (List.mem_map.mpr ⟨info, List.mem_of_find?_eq_some h, ?_⟩)
  simpa using List.find?_some h

theorem withNode_ok {node : Option Text} {text : Text → List Piece} {t : List Piece} (h : withNode node text = .ok t) :
    ∃ n, t = text n := by
  cases node with
  | none => exact absurd h (by simp [withNode])
  | some n => exact ⟨n, (Except.ok.inj h).symm⟩

/-- What is written for a list refers to its arguments, if anything is written. -/
theorem genCall_refers {element : TypeWhich} {node : Option Text} {data count : Text} {t : List Piece}
    {simple : ListTypeInfo → List Piece} {call : Text → List Piece} (hs : ∀ info, RefersTo (simple info) data count)
    (hc : ∀ n, RefersTo (call n) data count)
    (h : (match findListType element with
      | some info => Except.ok (simple info)
      | none => if element = TypeWhich.struct then withNode node call else Except.ok []) = Except.ok t) :
    if Copied element then RefersTo t data count else t = [] := by
  split at h
  · rw [if_pos (findListType_some ‹_›), ← Except.ok.inj h]
    exact hs _
  · split at h
    · obtain ⟨n, rfl⟩ := withNode_ok h
      rw [if_pos (.inr ‹_›)]
      exact hc n
    · rw [if_neg (mt (findListType_none ‹_›).mp ‹_›)]
      exact (Except.ok.inj h).symm

theorem genCallListEncoder_refers {element : TypeWhich} {node : Option Text} {var count data : Text} {t : List Piece}
    (h : genCallListEncoder element node var count data = .ok t) :
    if Copied element then RefersTo t data count else t = [] := by
  refine genCall_refers (fun info => mkSimpleListEncoder_refers info.listType info.setf var count data) (fun n => ?_) h
  constructor <;> simp [datas, counts, Piece.asData, Piece.asCount]

theorem genCallListDecoder_refers {element : TypeWhich} {node : Option Text} {var count data : Text} {t : List Piece}
    (h : genCallListDecoder element node data count var = .ok t) :
    if Copied element then RefersTo t data count else t = [] := by
  refine genCall_refers (fun info => mkSimpleListDecoder_refers info.ctype info.getf data count var) (fun n => ?_) h
  constructor <;> simp [datas, counts, Piece.asData, Piece.asCount]

theorem genCallListFree_refers {element : TypeWhich} {node : Option Text} {count data : Text} {t : List Piece}
    (h : genCallListFree element node data count = .ok t) :
    if Copied element then RefersTo t data count else t = [] := by
  refine genCall_refers (fun info => mkSimpleListFree_refers info.ctype data count) (fun n => ?_) h
  constructor <;> simp [datas, counts, Piece.asData, Piece.asCount]

/-! ## Names -/

/-- The member with the data of a list: the annotation has all of its path. -/
def CodecSlot.dataName (f : CodecSlot) (var : Text) : Text :=
  match getMapname f.annotations with
  | .ok (some name) => name
  | _ => var

/-- The decoder's name is the path as far as the first dot. -/
theorem decoderCount_takeWhile (name : Text) :
    (decoderCount name).takeWhile (· ≠ '.') = name.takeWhile (· ≠ '.') := by
  rw [decoderCount, List.span_eq_takeWhile_dropWhile]
  have hself : (name.takeWhile (· ≠ '.')).takeWhile (· ≠ '.') = name.takeWhile (· ≠ '.') := by
    rw [List.takeWhile_takeWhile]
    simp
  split
  · rename_i a b heq
    rw [Prod.mk.injEq] at heq
    have ha : ∀ x ∈ a, decide (x ≠ '.') = true := by
      intro x hx
      rw [← heq.1] at hx
      exact List.mem_takeWhile_imp (p := fun x => decide (x ≠ '.')) hx
    show (a ++ lit ".n_" ++ b).takeWhile _ = _
    rw [List.append_assoc, List.takeWhile_append_of_pos ha, heq.1]
    exact List.append_nil a
  · rename_i a b _ heq
    rw [Prod.mk.injEq] at heq
    rw [← heq.1]
    exact hself

/-- The encoder never has the name that the decoder has: before the first dot it is two letters longer. -/
theorem encoderCount_ne (name : Text) : encoderCount name ≠ decoderCount name := by
  intro h
  have h := congrArg (fun t => (t.takeWhile (· ≠ '.')).length) h
  simp only [decoderCount_takeWhile] at h
  have he : (encoderCount name).takeWhile (· ≠ '.') = 'n' :: '_' :: name.takeWhile (· ≠ '.') := rfl
  rw [he, List.length_cons, List.length_cons] at h
  omega

/-! ## Lists -/

section

variable {f : CodecSlot} {var : Text} {var2 : Option Text} {t : List Piece}

/-- What is written for a list with a call that refers to its arguments. -/
theorem list_refers {call : Text → Text → Except Stop (List Piece)} {own : Text → Text}
    (hcall : ∀ {data count : Text}, call data count = .ok t → if Copied f.element then RefersTo t data count else t = [])
    (h : (if f.element = .void then .ok []
      else do
        let name := (← getMapname f.annotations).getD var
        let count := (← getMaplistcount f.annotations).getD (own name)
        call name count) = .ok t) :
    if Copied f.element then ∃ count, getMaplistcount f.annotations = .ok count ∧
      RefersTo t (f.dataName var) (count.getD (own (f.dataName var)))
    else t = [] := by
  split at h
  · rename_i hv
    rw [if_neg (by rw [hv]; decide)]
    exact (Except.ok.inj h).symm
  · obtain ⟨name, hname, h⟩ := bind_ok h
    obtain ⟨count, hcount, h⟩ := bind_ok h
    have hd : f.dataName var = name.getD var := by
      rw [CodecSlot.dataName, hname]
      cases name <;> rfl
    have hr := hcall h
    rw [← hd] at hr
    split_ifs at hr ⊢
    · exact ⟨count, hcount, hr⟩
    · exact hr

/-- Where elements are copied, what a list is encoded with refers to its data, and to the number of elements. -/
theorem encodeMember_list (hf : f.type = .list) (h : encodeMember f var var2 = .ok t) :
    if Copied f.element then ∃ count, getMaplistcount f.annotations = .ok count ∧
      RefersTo t (f.dataName var) (count.getD (encoderCount (f.dataName var)))
    else t = [] := by
  rw [encodeMember, hf] at h
  exact @list_refers f var t (fun name count => genCallListEncoder f.element f.node var count name) encoderCount
    genCallListEncoder_refers h

theorem decodeMember_list (hf : f.type = .list) (h : decodeMember f var var2 = .ok t) :
    if Copied f.element then ∃ count, getMaplistcount f.annotations = .ok count ∧
      RefersTo t (f.dataName var) (count.getD (decoderCount (f.dataName var)))
    else t = [] := by
  rw [decodeMember, hf] at h
  exact @list_refers f var t (fun name count => genCallListDecoder f.element f.node name count var) decoderCount
    genCallListDecoder_refers h

theorem freeMember_list (hf : f.type = .list) (h : freeMember f var var2 = .ok t) :
    if Copied f.element then ∃ count, getMaplistcount f.annotations = .ok count ∧
      RefersTo t (f.dataName var) (count.getD (decoderCount (f.dataName var)))
    else t = [] := by
  rw [freeMember, hf] at h
  exact @list_refers f var t (fun name count => genCallListFree f.element f.node name count) decoderCount
    genCallListFree_refers h

/-- **The functions agree on a list** just where its elements are copied and an annotation gives
a name for their number that is not the name of the data. -/
theorem list_agree_iff (hf : f.type = .list) {e d r : List Piece} (he : encodeMember f var var2 = .ok e)
    (hd : decodeMember f var var2 = .ok d) (hr : freeMember f var var2 = .ok r) :
    Agree e d r ↔ Copied f.element ∧ ∃ count, getMaplistcount f.annotations = .ok (some count) ∧
      count ≠ f.dataName var := by
  have he := encodeMember_list hf he
  have hd := decodeMember_list hf hd
  have hr := freeMember_list hf hr
  by_cases hc : Copied f.element
  · rw [if_pos hc] at he hd hr
    obtain ⟨count, hcount, he⟩ := he
    obtain ⟨count', hcount', hd⟩ := hd
    obtain ⟨count'', hcount'', hr⟩ := hr
    rw [hcount] at hcount' hcount''
    cases hcount'
    cases hcount''
    constructor
    · rintro ⟨data, number, hne, he', hd', -⟩
      refine ⟨hc, ?_⟩
      cases count with
      | some count =>
        obtain ⟨h1, h2⟩ := he.unique he'
        exact ⟨count, hcount, fun h => hne (h1.symm.trans (h.symm.trans h2))⟩
      | none =>
        have h := (he.unique he').2.trans (hd.unique hd').2.symm
        exact absurd h (encoderCount_ne _)
    · rintro ⟨-, name, hname, hne⟩
      rw [hcount] at hname
      cases hname
      exact ⟨_, _, hne.symm, he, hd, hr⟩
  · rw [if_neg hc] at he
    constructor
    · rintro ⟨data, number, -, he', -⟩
      rw [he] at he'
      exact absurd he' (not_refersTo_nil _ _)
    · rintro ⟨hc', -⟩
      exact absurd hc' hc

end

end Capnproto.Compiler

import Capnproto.Object.Access
import Capnproto.Object.Build
import Capnproto.Pointer.Chain

/-!
# Room for new objects

The constructors take room at the end of a segment, and accessors by index use the
fields of the pointer that a constructor gives. `Covers` says that the room is
enough: what the accessors touch is fresh, zero and aligned. Sizes are `int`s, and an
`int` that overflows is undefined (`NewCall.Defined`); of the fields, only the bytes
of a bit list can be too large for theirs.
-/

namespace Capnproto

/-- A call of a constructor. -/
inductive NewCall where
  | struct (datasz ptrs : Nat)
  | structList (sz datasz ptrs : Nat)
  | list (sz datasz ptrs : Nat)
  | list1 (sz : Nat)
  | ptrList (sz : Nat)
  | string (str : List UInt8)

/-- The session after the call, and the pointer. -/
def NewCall.run (c : Capn) (seg : Option Nat) : NewCall → Capn × Ptr
  | .struct datasz ptrs => capnNewStruct c seg datasz ptrs
  | .structList sz datasz ptrs => capnNewStructList c seg sz datasz ptrs
  | .list sz datasz ptrs => capnNewList c seg sz datasz ptrs
  | .list1 sz => capnNewList1 c seg sz
  | .ptrList sz => capnNewPtrList c seg sz
  | .string str => capnNewString c seg str

/-- Sizes that the fields of a pointer can hold, and counts that are `int`s. -/
def NewCall.Args : NewCall → Prop
  | .struct datasz ptrs => datasz ≤ 524280 ∧ ptrs ≤ 65535
  | .structList sz datasz ptrs | .list sz datasz ptrs => sz ≤ INT_MAX ∧ datasz ≤ 524280 ∧ ptrs ≤ 65535
  | .list1 sz | .ptrList sz => sz ≤ INT_MAX
  | .string str => str.length ≤ INT_MAX

/-- What the call stores into the object. -/
def NewCall.content : NewCall → List UInt8
  | .string str => str ++ [0]
  | _ => []

/-! ## Overflow -/

/-- The `int`s that `create` computes for `sz` bytes. -/
def createInts (sz : Nat) : List Nat := [sz + sizeofSegment, sz + sizeofSegment + (CAPN_CREATE_MIN_SZ - 1)]

/-- The `int`s of `new_data`. -/
def newDataInts (c : Capn) (sz : Nat) : List Nat :=
  if ∃ s ∈ c.segs, s.len + sz ≤ s.cap then [] else createInts sz

/-- The `int`s of `new_object`. -/
def newObjectInts (c : Capn) (seg : Option Nat) (bytes : Nat) : List Nat :=
  match seg with
  | none => []
  | some s =>
    if bytes = 0 then []
    else
      let rounded := (bytes + 7) / 8 * 8
      (bytes + 7) ::
        if (c.seg s).len + rounded ≤ (c.seg s).cap then [] else (rounded + 8) :: newDataInts c (rounded + 8)

/-- The bytes of a composite list. -/
def compositeBytes (sz datasz ptrs : Nat) : Nat := sz * ((datasz + 7) / 8 * 8 % 2 ^ 19 + 8 * (ptrs % 2 ^ 16)) + 8

/-- The bytes that a constructor asks `new_object` for. -/
def NewCall.bytes : NewCall → Nat
  | .struct datasz ptrs => (datasz + 7) / 8 * 8 % 2 ^ 19 + 8 * (ptrs % 2 ^ 16)
  | .structList sz datasz ptrs => compositeBytes sz datasz ptrs
  | .list sz datasz ptrs =>
    if ptrs ≠ 0 ∨ 8 < datasz then compositeBytes sz datasz ptrs
    else if 4 < datasz then sz * 8
    else if 2 < datasz then sz * 4
    else sz * datasz
  | .list1 sz => (sz + 7) / 8 % 2 ^ 19
  | .ptrList sz => sz * 8
  | .string str => str.length + 1

/-- What is rounded up before that. -/
def NewCall.rounded : NewCall → Nat
  | .struct datasz _ | .structList _ datasz _ | .list _ datasz _ => datasz + 7
  | .list1 sz => sz + 7
  | .ptrList _ | .string _ => 0

/-- No `int` overflows; the factors and partial sums are below the sums. -/
def NewCall.Defined (c : Capn) (seg : Option Nat) (call : NewCall) : Prop :=
  ∀ n ∈ call.rounded :: call.bytes :: newObjectInts c seg call.bytes, n ≤ INT_MAX

instance (c : Capn) (seg : Option Nat) (call : NewCall) : Decidable (call.Defined c seg) :=
  inferInstanceAs (Decidable (∀ n ∈ _, _))

/-- The call, unless it is undefined. -/
def NewCall.run? (c : Capn) (seg : Option Nat) (call : NewCall) : Option (Capn × Ptr) :=
  if call.Defined c seg then some (call.run c seg) else none

/-! ## Accesses by index -/

/-- An access to an object by an index. -/
inductive Index where
  /-- `capn_getN` and `capn_setN` -/
  | num (sz : SZ) (off : Int)
  /-- `capn_get1` and `capn_set1` -/
  | bit (off : Int)
  /-- `capn_getv1` and `capn_setv1` -/
  | bits (off n : Int)
  | getp (off : Int)
  | setp (off : Int) (tgt : Ptr)

/-- The index is in range. -/
def Index.InRange (p : Ptr) : Index → Prop
  | .num _ off | .bit off => 0 ≤ off ∧ off < p.len
  | .bits off n => 0 ≤ off ∧ 0 ≤ n ∧ off + n ≤ p.len
  | .getp off | .setp off _ => 0 ≤ off ∧ off < if p.type = .STRUCT then (p.ptrs : Int) else p.len

/-- The element `off` of a list. -/
def Ptr.element (p : Ptr) (off : Int) : Int := off * (p.datasz + 8 * p.ptrs)

/-- The pointer slot `off`, of a struct or a pointer list. -/
def Ptr.slotSpan (p : Ptr) (off : Int) : List (Int × Nat) :=
  match p.type with
  | .STRUCT => if (p.ptrs : Int) ≤ off then [] else [(p.datasz + 8 * off, 8)]
  | .PTR_LIST => if p.len ≤ off then [] else [(8 * off, 8)]
  | _ => []

/-- The bytes of an object that an access touches: where they start, from `data`, and
their number. Of a pointer list that is the pointer; what it points at is another
object. The pointers of an element that `capn_setp` stores are set one by one. -/
def Index.touches (p : Ptr) : Index → List (Int × Nat)
  | .num sz off =>
    if p.len ≤ off then []
    else
      match p.type with
      | .LIST => if p.datasz < sz.bytes then [] else [(p.element off, sz.bytes)]
      | .PTR_LIST => [(8 * off, 8)]
      | _ => []
  | .bit off =>
    if off < 0 ∨ p.len ≤ off then []
    else
      match p.type with
      | .BIT_LIST => [((off + p.ptrs) / 8, 1)]
      | .LIST => if p.datasz < 1 then [] else [(p.element off, 1)]
      | .PTR_LIST => [(8 * off, 8)]
      | _ => []
  | .bits off n => if refusesBits p off then [] else [(off.tdiv 8, (bitBytes p off n).2)]
  | .getp off => p.slotSpan off
  | .setp off tgt =>
    match p.type with
    | .LIST =>
      if p.len ≤ off ∨ tgt.type ≠ .STRUCT then []
      else
        let sz := min p.datasz tgt.datasz
        let n := min p.ptrs tgt.ptrs
        [(p.element off, sz), (p.element off + sz, p.datasz - sz),
          (p.element off + p.datasz + n, 8 * (p.ptrs - n)), (p.element off + p.datasz, 8 * p.ptrs)]
    | .BIT_LIST => if off < 0 ∨ p.len ≤ off then [] else [((off + p.ptrs) / 8, 1)]
    | _ => p.slotSpan off

/-- The bytes `lo` to `hi` of segment `s`, which a call reserved for the object `p`:
behind what the segment had and the tags of the object, aligned, zero but for
`content`, and enough for each access. -/
structure Space (c c' : Capn) (content : List UInt8) (p : Ptr) (s lo hi : Nat) : Prop where
  seg : p.seg = some s
  data : p.data = some ⟨s, lo⟩
  fresh : (c.seg s).len + (if p.hasPtrTag then 8 else 0) + p.lead ≤ lo
  used : hi ≤ (c'.seg s).len
  aligned : 8 ∣ lo
  bytes : ∀ o : Int, lo ≤ o → o < hi → (c'.seg s).data o = content.getD (o - lo).toNat 0
  inside : ∀ a : Index, a.InRange p → ∀ x ∈ a.touches p, x.2 = 0 ∨ 0 ≤ x.1 ∧ lo + x.1 + x.2 ≤ hi

/-- A call gives a null pointer, or an object in a space of its own. -/
def Covers (c : Capn) (content : List UInt8) (r : Capn × Ptr) : Prop :=
  r.2 = {} ∨ ∃ s lo hi, Space c r.1 content r.2 s lo hi

/-! ## Blank segments -/

/-- The bytes that are not in use are zero, as `calloc` gives them. -/
def Blank (c : Capn) : Prop := ∀ (i : Nat) (o : Int), ((c.seg i).len : Int) ≤ o → (c.seg i).data o = 0

/-- A session whose segments are fit and blank. -/
structure Tidy (c : Capn) : Prop where
  fit : Fit c
  blank : Blank c

theorem tidy_init : Tidy capnInitMalloc := ⟨fit_init, fun _ _ _ => rfl⟩

/-- Stores within a segment's used bytes. -/
theorem Tidy.write {c : Capn} (h : Tidy c) {a : Addr} {bs : List UInt8}
    (hin : a.off + bs.length ≤ (c.seg a.seg).len) : Tidy (c.write a bs) := by
  refine ⟨fit_write h.fit _ _, fun i o ho => ?_⟩
  rw [Capn.len_write] at ho
  rw [Capn.write, Capn.seg_setSeg]
  split
  · rename_i hi
    obtain ⟨rfl, -⟩ := hi
    refine (Mem.write_apply_of_ge ?_).trans (h.blank _ o ho)
    omega
  · exact h.blank i o ho

theorem bump_len {c : Capn} {s : Nat} (hs : s < c.segs.length) (n : Nat) :
    ((bump c s n).seg s).len = (c.seg s).len + n := by
  rw [bump, Capn.seg_setSeg_self _ hs]

theorem bump_data (c : Capn) (s n k : Nat) : ((bump c s n).seg k).data = (c.seg k).data := by
  rw [bump, Capn.seg_setSeg]
  split <;> rfl

theorem Blank.bump {c : Capn} (h : Blank c) (s n : Nat) : Blank (bump c s n) := by
  intro i o ho
  rw [Capnproto.bump, Capn.seg_setSeg] at ho ⊢
  split
  · rename_i hi
    rw [if_pos hi] at ho
    refine h i o ?_
    have : ((c.seg i).len + n : Nat) ≤ o := ho
    omega
  · rename_i hi
    rw [if_neg hi] at ho
    exact h i o ho

theorem Blank.append {c : Capn} (h : Blank c) {t : Segment} (ht : ∀ o, t.data o = 0) :
    Blank (capnAppendSegment c t) := by
  intro i o ho
  rcases Nat.lt_trichotomy i c.segs.length with hi | rfl | hi
  · rw [seg_append_lt hi] at ho ⊢
    exact h i o ho
  · rw [seg_append_self]
    exact ht o
  · rw [Capn.seg_of_ge (by simp [capnAppendSegment]; omega)]
    rfl

theorem create_zero {id sz : Nat} {s : Segment} (h : create id sz = some s) : s.data = Mem.zero := by
  simp only [create] at h
  split at h
  · cases h
  · cases h
    rfl

/-- Room from `new_data`: `n` bytes at the end of a segment. -/
theorem newData_room {c c' : Capn} (h : Tidy c) {n s : Nat} {a : Addr} (hn : 8 ∣ n) (h8 : 8 ≤ n)
    (e : newData c n = some (c', s, a)) :
    Tidy c' ∧ a = ⟨s, (c.seg s).len⟩ ∧ (c'.seg s).len = (c.seg s).len + n ∧ s < c'.segs.length ∧
      ∀ o : Int, (c.seg s).len ≤ o → (c'.seg s).data o = 0 := by
  have hfit := fit_newData h.fit hn h8 e
  rcases newData_cases e with ⟨hs, -, rfl, rfl⟩ | ⟨create, t, hc, ht, rfl, rfl, rfl⟩
  · exact ⟨⟨hfit, h.blank.bump _ _⟩, rfl, bump_len hs n, by simpa [bump] using hs,
      fun o ho => by rw [bump_data]; exact h.blank s o ho⟩
  · have hcr := Option.some.inj (h.fit.create.symm.trans hc)
    subst hcr
    have h0 := (create_spec ht).1
    have hlt : c.segs.length < (capnAppendSegment c t).segs.length := by simp [capnAppendSegment]
    have hold : (c.seg c.segs.length).len = 0 := by rw [Capn.seg_of_ge (Nat.le_refl _)]
    have hz : ∀ o, t.data o = 0 := fun o => by rw [create_zero ht]; rfl
    refine ⟨⟨hfit, (h.blank.append hz).bump _ _⟩, by rw [h0, hold], ?_, by simpa [bump] using hlt, fun o _ => ?_⟩
    · rw [bump_len hlt, seg_append_self, h0, hold]
    · rw [bump_data, seg_append_self]
      exact hz o

/-- `new_data` finds room if its `int`s do not overflow. -/
theorem newData_defined {c : Capn} (h : Fit c) {n : Nat} (hd : ∀ k ∈ newDataInts c n, k ≤ INT_MAX) :
    ∃ r, newData c n = some r := by
  simp only [newData]
  split
  · exact ⟨_, rfl⟩
  · rename_i hnone
    have hroom : ¬ ∃ s ∈ c.segs, s.len + n ≤ s.cap := by
      rintro ⟨s, hs, hle⟩
      have := List.findIdx?_eq_none_iff.mp hnone s hs
      simp [hle] at this
    rw [newDataInts, if_neg hroom] at hd
    have hmax : n + sizeofSegment + (CAPN_CREATE_MIN_SZ - 1) ≤ INT_MAX := hd _ (by simp [createInts])
    rw [h.create]
    simp only [create, if_neg (Nat.not_lt.mpr hmax)]
    exact ⟨_, rfl⟩

/-! ## `new_object` -/

/-- What `new_object` makes of `p`: an object at `lo` of segment `s`, behind what was
there, with `n` whole words. -/
structure Placed (c c' : Capn) (p q : Ptr) (n s lo : Nat) : Prop where
  ptr : q = { p with seg := some s, data := some ⟨s, lo⟩, hasPtrTag := q.hasPtrTag }
  tidy : Tidy c'
  lt : s < c'.segs.length
  fresh : (c.seg s).len + (if q.hasPtrTag then 8 else 0) = lo
  len : (c'.seg s).len = lo + n
  aligned : 8 ∣ lo
  zero : ∀ o : Int, lo ≤ o → (c'.seg s).data o = 0

theorem Fit.words {c : Capn} (h : Fit c) (i : Nat) : 8 ∣ (c.seg i).len := by
  by_cases hi : i < c.segs.length
  · exact (h.seg i hi).words
  · rw [Capn.seg_of_ge (Nat.not_lt.mp hi)]
    exact Nat.dvd_zero 8

theorem ptrTag_zero (p : Ptr) : ∃ v, ptrTag p 0 = some v := by
  simp only [ptrTag]
  split
  · exact ⟨_, rfl⟩
  · rw [if_neg (by decide)]
    exact ⟨_, rfl⟩

theorem newObject_placed {c : Capn} (h : Tidy c) {p : Ptr} {s₀ bytes : Nat} (hseg : p.seg = some s₀)
    (hs : s₀ < c.segs.length) (htag : p.hasPtrTag = false)
    (hd : ∀ k ∈ newObjectInts c p.seg bytes, k ≤ INT_MAX) :
    ∃ s lo, Placed c (newObject c p bytes).1 p (newObject c p bytes).2 ((bytes + 7) / 8 * 8) s lo := by
  simp only [newObject, hseg]
  simp only [newObjectInts, hseg] at hd
  by_cases hb : bytes = 0
  · subst hb
    rw [if_pos rfl]
    refine ⟨s₀, (c.seg s₀).len, ?_, h, hs, ?_, rfl, h.fit.words s₀, h.blank s₀⟩
    · rw [htag, ← hseg, ← htag]
    · rw [htag]
      rfl
  rw [if_neg hb]
  simp only [if_neg hb] at hd
  by_cases hroom : (c.seg s₀).len + (bytes + 7) / 8 * 8 ≤ (c.seg s₀).cap
  · rw [if_pos hroom]
    refine ⟨s₀, (c.seg s₀).len, ?_, ⟨fit_bump h.fit (Nat.dvd_mul_left _ _) hroom, h.blank.bump _ _⟩,
      by simpa [bump] using hs, ?_, bump_len hs _, h.fit.words s₀, fun o ho => ?_⟩
    · rw [htag, ← hseg, ← htag]
    · rw [htag]
      rfl
    · rw [bump_data]
      exact h.blank s₀ o ho
  rw [if_neg hroom]
  rw [if_neg hroom] at hd
  obtain ⟨⟨c', s, a⟩, hnew⟩ := newData_defined (n := (bytes + 7) / 8 * 8 + 8) h.fit
    (fun k hk => hd k (List.mem_cons_of_mem _ (List.mem_cons_of_mem _ hk)))
  obtain ⟨htidy, rfl, hlen, hlt, hzero⟩ := newData_room h (by omega) (by omega) hnew
  simp only [hnew]
  obtain ⟨v, hv⟩ := ptrTag_zero { p with seg := some s, data := some ⟨s, ((c.seg s).len : Int)⟩ }
  rw [show writePtrTag c' ⟨s, ((c.seg s).len : Int)⟩
    { p with seg := some s, data := some ⟨s, ((c.seg s).len : Int)⟩ } 0 = some (c'.store64 ⟨s, (c.seg s).len⟩ v) by
      rw [writePtrTag, hv]; rfl]
  refine ⟨s, (c.seg s).len + 8, rfl, htidy.write ?_, ?_, rfl, ?_, ?_, fun o ho => ?_⟩
  · show ((c.seg s).len : Int) + (toLe 8 v).length ≤ _
    rw [length_toLe, hlen]
    omega
  · rw [Capn.store64, Capn.length_write]
    exact hlt
  · rw [Capn.store64, Capn.len_write, hlen]
    omega
  · exact Nat.dvd_add (h.fit.words s) (Nat.dvd_refl 8)
  · rw [Capn.store64, Capn.write, Capn.seg_setSeg_self _ hlt]
    refine (Mem.write_apply_of_ge ?_).trans (hzero o (by omega))
    show ((c.seg s).len : Int) + (toLe 8 v).length ≤ o
    rw [length_toLe]
    omega

/-! ## What accesses touch -/

/-- The fields of a bit list agree with its length. -/
def Ptr.BitsFit (p : Ptr) : Prop := p.type = .BIT_LIST → p.ptrs = 0 ∧ (p.datasz : Int) = (p.len + 7) / 8

theorem slotSpan_inside {p : Ptr} {off : Int} (h0 : 0 ≤ off) {x : Int × Nat} (hx : x ∈ p.slotSpan off) :
    0 ≤ x.1 ∧ x.1 + x.2 ≤ p.extent := by
  simp only [Ptr.slotSpan] at hx
  split at hx
  · rename_i ht
    split at hx
    · cases hx
    · rw [List.mem_singleton.mp hx]
      simp only [Ptr.extent, ht]
      omega
  · rename_i ht
    split at hx
    · cases hx
    · rw [List.mem_singleton.mp hx]
      simp only [Ptr.extent, ht]
      omega
  · cases hx

/-- An element lies inside its list. -/
theorem element_inside {p : Ptr} (ht : p.type = .LIST) {off : Int} (h0 : 0 ≤ off) (hlt : off < p.len) :
    0 ≤ p.element off ∧ p.element off + (p.datasz + 8 * p.ptrs : Nat) ≤ p.extent := by
  have hex : p.extent = p.len.toNat * (p.datasz + 8 * p.ptrs) := by simp only [Ptr.extent, ht]
  obtain ⟨h1, h2⟩ := member_le h0 hlt hex
  push_cast at h1 h2 ⊢
  exact ⟨h1, h2⟩

/-- **Accesses** by an index in range touch the bytes of the object only. -/
theorem touches_inside {p : Ptr} (hb : p.BitsFit) {a : Index} (ha : a.InRange p) {x : Int × Nat}
    (hx : x ∈ a.touches p) : x.2 = 0 ∨ 0 ≤ x.1 ∧ x.1 + x.2 ≤ p.extent := by
  have hbit : ∀ {off : Int}, p.type = .BIT_LIST → 0 ≤ off → off < p.len →
      0 ≤ (off + p.ptrs) / 8 ∧ (off + p.ptrs) / 8 + 1 ≤ p.extent := by
    intro off ht h0 hlt
    simp only [Ptr.extent, ht]
    omega
  have hslot : ∀ {off : Int}, p.type = .PTR_LIST → 0 ≤ off → off < p.len →
      0 ≤ 8 * off ∧ 8 * off + 8 ≤ p.extent := by
    intro off ht h0 hlt
    simp only [Ptr.extent, ht]
    omega
  cases a with
  | num sz off =>
    simp only [Index.touches] at hx
    split at hx
    · cases hx
    split at hx
    · rename_i ht
      split at hx
      · cases hx
      · rw [List.mem_singleton.mp hx]
        obtain ⟨h1, h2⟩ := element_inside ht ha.1 ha.2
        exact .inr ⟨h1, by show p.element off + (sz.bytes : Int) ≤ _; omega⟩
    · rename_i ht
      rw [List.mem_singleton.mp hx]
      exact .inr (hslot ht ha.1 ha.2)
    · cases hx
  | bit off =>
    simp only [Index.touches] at hx
    split at hx
    · cases hx
    split at hx
    · rename_i ht
      rw [List.mem_singleton.mp hx]
      exact .inr (hbit ht ha.1 ha.2)
    · rename_i ht
      split at hx
      · cases hx
      · rw [List.mem_singleton.mp hx]
        obtain ⟨h1, h2⟩ := element_inside ht ha.1 ha.2
        exact .inr ⟨h1, by show p.element off + 1 ≤ _; omega⟩
    · rename_i ht
      rw [List.mem_singleton.mp hx]
      exact .inr (hslot ht ha.1 ha.2)
    · cases hx
  | bits off n =>
    obtain ⟨h0, hn, hle⟩ := ha
    simp only [Index.touches] at hx
    split at hx
    · cases hx
    · rename_i hr
      simp only [refusesBits, not_or, not_not] at hr
      obtain ⟨hp, hd⟩ := hb hr.1
      rw [List.mem_singleton.mp hx]
      simp only [bitBytes, Ptr.extent, hr.1, Int.tdiv_eq_ediv_of_nonneg h0,
        Int.tdiv_eq_ediv_of_nonneg (show 0 ≤ n + 7 by omega)]
      right
      split
      · omega
      · omega
  | getp off => exact .inr (slotSpan_inside ha.1 hx)
  | setp off tgt =>
    simp only [Index.touches] at hx
    split at hx
    · rename_i ht
      split at hx
      · cases hx
      · rename_i hlt
        obtain ⟨h1, h2⟩ := element_inside ht ha.1 (by omega)
        simp only [List.mem_cons, List.not_mem_nil, or_false] at hx
        rcases hx with rfl | rfl | rfl | rfl <;> (right; simp only; omega)
    · rename_i ht
      split at hx
      · cases hx
      · rw [List.mem_singleton.mp hx]
        exact .inr (hbit ht ha.1 (by omega))
    · exact .inr (slotSpan_inside ha.1 hx)

/-! ## What setters store -/

/-- A store is one of the ranges that the access touches. -/
def Touched (p : Ptr) (a : Index) (x : Addr × List UInt8) : Prop :=
  ∃ d y, p.data = some d ∧ y ∈ a.touches p ∧ x.1 = d.add y.1 ∧ x.2.length = y.2

theorem capnSet_touched {sz : SZ} {c : Capn} {p : Ptr} (ht : p.type = .LIST) {off : Int} {v : Nat}
    {x : Addr × List UInt8} (hx : x ∈ (capnSet sz c p off v).stores) : Touched p (.num sz off) x := by
  have hy : (elementAt c p off sz.bytes).2 =
      if p.len ≤ off ∨ p.datasz < sz.bytes then none else p.data.map (·.add (p.element off)) := by
    simp only [elementAt, ht, Ptr.element]
    by_cases h1 : p.len ≤ off
    · rw [if_pos h1, if_pos (.inl h1)]
    · rw [if_neg h1]
      simp only [h1, false_or]
  simp only [capnSet, hy] at hx
  by_cases hr : p.len ≤ off ∨ p.datasz < sz.bytes
  · rw [if_pos hr] at hx
    cases hx
  rw [if_neg hr] at hx
  rw [not_or] at hr
  cases hd : p.data with
  | none =>
    rw [hd] at hx
    cases hx
  | some d =>
    rw [hd] at hx
    rw [List.mem_singleton.mp hx]
    refine ⟨d, (p.element off, sz.bytes), hd, ?_, rfl, length_toLe _ _⟩
    simp only [Index.touches, ht, if_neg hr.1, if_neg hr.2, List.mem_singleton]

theorem capnSet1_touched {c : Capn} {p : Ptr} (ht : p.type = .LIST ∨ p.type = .BIT_LIST) {off val : Int}
    {x : Addr × List UInt8} (hx : x ∈ (capnSet1 c p off val).stores) : Touched p (.bit off) x := by
  have hr : capnResolve c p = ⟨c, p, []⟩ := if_neg (by rcases ht with h | h <;> (rw [h]; decide))
  simp only [capnSet1, hr] at hx
  cases hb : (bitAt c p off).2 with
  | none =>
    rw [hb] at hx
    cases hx
  | some y =>
    obtain ⟨a, bit⟩ := y
    rw [hb] at hx
    rw [List.mem_singleton.mp hx]
    simp only [bitAt] at hb
    split at hb
    · cases hb
    rename_i h0
    rcases ht with ht | ht
    · simp only [ht] at hb
      split at hb
      · cases hb
      · rename_i hlt
        rw [not_or] at hlt
        obtain ⟨d, hd, e⟩ := Option.map_eq_some_iff.mp hb
        cases e
        refine ⟨d, (p.element off, 1), hd, ?_, rfl, rfl⟩
        simp only [Index.touches, ht, if_neg (not_or.mpr ⟨h0, hlt.1⟩), if_neg hlt.2, List.mem_singleton]
    · simp only [ht] at hb
      split at hb
      · cases hb
      · rename_i hlt
        obtain ⟨d, hd, e⟩ := Option.map_eq_some_iff.mp hb
        cases e
        refine ⟨d, ((off + p.ptrs) / 8, 1), hd, ?_, rfl, rfl⟩
        simp only [Index.touches, ht, if_neg (not_or.mpr ⟨h0, hlt⟩), List.mem_singleton]

theorem capnSetv1_touched {c : Capn} {p : Ptr} {off n : Int} {data : Nat → UInt8}
    {x : Addr × List UInt8} (hx : x ∈ (capnSetv1 c p off data n).stores) : Touched p (.bits off n) x := by
  simp only [capnSetv1] at hx
  split at hx
  · cases hx
  rename_i hr
  split at hx
  · cases hx
  · rename_i d hd
    rw [List.mem_singleton.mp hx]
    refine ⟨d, (off.tdiv 8, (bitBytes p off n).2), hd, ?_, rfl, by simp⟩
    simp only [Index.touches, if_neg hr, List.mem_singleton]

/-- **Stores** at an index in range stay in the space of the object, in any session. -/
theorem Space.stores {c c' : Capn} {content : List UInt8} {p : Ptr} {s lo hi : Nat}
    (h : Space c c' content p s lo hi) {a : Index} (ha : a.InRange p) {x : Addr × List UInt8}
    (hx : Touched p a x) : x.2 = [] ∨ x.1.seg = s ∧ (lo : Int) ≤ x.1.off ∧ x.1.off + x.2.length ≤ hi := by
  obtain ⟨d, y, hd, hy, h1, h2⟩ := hx
  have e := hd.symm.trans h.data
  cases e
  rw [h1, h2]
  rcases h.inside a ha y hy with h0 | ⟨h3, h4⟩
  · exact .inl (List.length_eq_zero_iff.mp (h2.trans h0))
  · exact .inr ⟨rfl, by show (lo : Int) ≤ lo + y.1; omega, h4⟩

/-! ## The constructors -/

/-- An object in the room that `new_object` gives it, behind its tag if it has one, once
`content` is stored into it. -/
theorem Placed.covers {c c' c'' : Capn} {p q q' : Ptr} {n s lo : Nat} {content : List UInt8}
    (h : Placed c c' p q n s lo)
    (hq : q' = { p with seg := some s, data := some ⟨s, lo + p.lead⟩, hasPtrTag := q.hasPtrTag })
    (hb : p.BitsFit) (hn : p.extent + p.lead ≤ n) (hlen : (c''.seg s).len = (c'.seg s).len)
    (hbytes : ∀ o : Int, lo + p.lead ≤ o → (c''.seg s).data o = content.getD (o - (lo + p.lead)).toNat 0) :
    Covers c content (c'', q') := by
  have hqb : q'.BitsFit := by rw [hq]; exact hb
  have hqe : q'.extent = p.extent := by rw [hq]; rfl
  have hql : q'.lead = p.lead := by rw [hq]; rfl
  have hqt : q'.hasPtrTag = q.hasPtrTag := by rw [hq]
  have h8 : 8 ∣ p.lead := by
    rw [Ptr.lead]
    split <;> decide
  refine .inr ⟨s, lo + p.lead, lo + n, by rw [hq], by rw [hq]; rfl, ?_, ?_, Nat.dvd_add h.aligned h8, ?_, ?_⟩
  · rw [hql, hqt, h.fresh]
  · show lo + n ≤ (c''.seg s).len
    rw [hlen, h.len]
  · intro o h1 _
    push_cast at h1 ⊢
    exact hbytes o h1
  · intro a ha x hx
    rcases touches_inside hqb ha hx with h0 | ⟨h1, h2⟩
    · exact .inl h0
    · rw [hqe] at h2
      exact .inr ⟨h1, by push_cast; omega⟩

/-- A store at the start of the room. -/
theorem Placed.write {c c' : Capn} {p q : Ptr} {n s lo : Nat} (h : Placed c c' p q n s lo) (bs : List UInt8)
    {o : Int} (ho : lo ≤ o) :
    ((c'.write ⟨s, lo⟩ bs).seg s).data o = bs.getD (o - lo).toNat 0 := by
  obtain ⟨k, rfl⟩ : ∃ k : Nat, o = lo + k := ⟨(o - lo).toNat, by omega⟩
  rw [Capn.write, Capn.seg_setSeg_self _ h.lt, show ((lo : Int) + k - lo).toNat = k by omega]
  by_cases hk : k < bs.length
  · rw [List.getD_eq_getElem _ _ hk]
    exact Mem.write_apply hk
  · rw [List.getD_eq_default _ _ (Nat.not_lt.mp hk)]
    exact (Mem.write_apply_of_ge (by show (lo : Int) + bs.length ≤ _; omega)).trans (h.zero _ (by omega))

section

variable {c : Capn} {s₀ : Nat}

/-- An object without a tag of its own, in room for all of it. -/
theorem covers_object (h : Tidy c) {p : Ptr} {bytes : Nat} (hs : s₀ < c.segs.length) (hseg : p.seg = some s₀)
    (htag : p.hasPtrTag = false) (hb : p.BitsFit) (hlead : p.lead = 0) (hn : p.extent ≤ bytes)
    (hd : ∀ k ∈ newObjectInts c (some s₀) bytes, k ≤ INT_MAX) : Covers c [] (newObject c p bytes) := by
  obtain ⟨s, lo, hp⟩ := newObject_placed h hseg hs htag (by rw [hseg]; exact hd)
  refine hp.covers ?_ hb (by omega) rfl fun o ho => ?_
  · rw [hlead, Nat.cast_zero, Int.add_zero]
    exact hp.ptr
  · rw [hlead] at ho
    exact hp.zero o (by omega)

theorem covers_struct (h : Tidy c) (hs : s₀ < c.segs.length) (datasz ptrs : Nat)
    (hd : ∀ k ∈ newObjectInts c (some s₀) (NewCall.struct datasz ptrs).bytes, k ≤ INT_MAX) :
    Covers c [] (capnNewStruct c (some s₀) datasz ptrs) :=
  covers_object h hs rfl rfl nofun rfl (Nat.le_refl _) hd

theorem covers_structList (h : Tidy c) (hs : s₀ < c.segs.length) (sz datasz ptrs : Nat)
    (hd : ∀ k ∈ newObjectInts c (some s₀) (compositeBytes sz datasz ptrs), k ≤ INT_MAX) :
    Covers c [] (capnNewStructList c (some s₀) sz datasz ptrs) := by
  let p : Ptr := { type := .LIST, seg := some s₀, len := sz, isCompositeList := true,
                   datasz := (datasz + 7) / 8 * 8 % 2 ^ 19, ptrs := ptrs % 2 ^ 16 }
  obtain ⟨s, lo, hp⟩ := newObject_placed (p := p) h rfl hs rfl hd
  have hn : p.extent + 8 = compositeBytes sz datasz ptrs := rfl
  simp only [capnNewStructList]
  split
  · rename_i hdata
    cases (congrArg Ptr.data hp.ptr).symm.trans hdata
  · rename_i a hdata
    cases (congrArg Ptr.data hp.ptr).symm.trans hdata
    refine hp.covers (congrArg (fun r : Ptr => { r with data := some (Addr.add ⟨s, lo⟩ 8) }) hp.ptr) (by rintro ⟨⟩) (Nat.le_trans (Nat.le_of_eq hn) (by omega))
      (Capn.len_write _ _ _ _) fun o ho => ?_
    have ho : (lo : Int) + 8 ≤ o := ho
    refine (hp.write _ (by omega)).trans (List.getD_eq_default _ _ ?_)
    rw [length_toLe]
    omega

theorem covers_list (h : Tidy c) (hs : s₀ < c.segs.length) (sz datasz ptrs : Nat)
    (hd : ∀ k ∈ newObjectInts c (some s₀) (NewCall.list sz datasz ptrs).bytes, k ≤ INT_MAX) :
    Covers c [] (capnNewList c (some s₀) sz datasz ptrs) := by
  have hplain : ∀ k : Nat, (∀ n ∈ newObjectInts c (some s₀) (sz * k), n ≤ INT_MAX) →
      Covers c [] (newObject c { type := .LIST, seg := some s₀, len := sz, datasz := k } (sz * k)) := by
    intro k hk
    refine covers_object h hs rfl rfl nofun rfl ?_ hk
    simp only [Ptr.extent, Int.toNat_natCast]
    exact Nat.le_refl _
  simp only [NewCall.bytes] at hd
  simp only [capnNewList]
  by_cases hc : ptrs ≠ 0 ∨ 8 < datasz
  · rw [if_pos hc] at hd ⊢
    exact covers_structList h hs _ _ _ hd
  rw [if_neg hc] at hd ⊢
  by_cases h4 : 4 < datasz
  · rw [if_pos h4] at hd ⊢
    exact hplain 8 hd
  rw [if_neg h4] at hd ⊢
  by_cases h2 : 2 < datasz
  · rw [if_pos h2] at hd ⊢
    exact hplain 4 hd
  · rw [if_neg h2] at hd ⊢
    exact hplain datasz hd

theorem covers_list1 (h : Tidy c) (hs : s₀ < c.segs.length) {sz : Nat} (hsz : sz ≤ 4194296)
    (hd : ∀ k ∈ newObjectInts c (some s₀) (NewCall.list1 sz).bytes, k ≤ INT_MAX) :
    Covers c [] (capnNewList1 c (some s₀) sz) := by
  have hmod : (sz + 7) / 8 % 2 ^ 19 = (sz + 7) / 8 := Nat.mod_eq_of_lt (by omega)
  refine covers_object h hs rfl rfl (fun _ => ⟨rfl, ?_⟩) rfl ?_ hd
  · show (((sz + 7) / 8 % 2 ^ 19 : Nat) : Int) = ((sz : Int) + 7) / 8
    rw [hmod]
    push_cast
    rfl
  · simp only [Ptr.extent, Int.toNat_natCast]
    omega

theorem covers_ptrList (h : Tidy c) (hs : s₀ < c.segs.length) (sz : Nat)
    (hd : ∀ k ∈ newObjectInts c (some s₀) (NewCall.ptrList sz).bytes, k ≤ INT_MAX) :
    Covers c [] (capnNewPtrList c (some s₀) sz) := by
  refine covers_object h hs rfl rfl nofun rfl ?_ hd
  simp only [Ptr.extent, Int.toNat_natCast]
  omega

theorem covers_string (h : Tidy c) (hs : s₀ < c.segs.length) (str : List UInt8)
    (hd : ∀ k ∈ newObjectInts c (some s₀) (NewCall.string str).bytes, k ≤ INT_MAX) :
    Covers c (str ++ [0]) (capnNewString c (some s₀) str) := by
  let p : Ptr := { type := .LIST, seg := some s₀, len := (str.length + 1 : Nat), datasz := 1 }
  obtain ⟨s, lo, hp⟩ := newObject_placed (p := p) h rfl hs rfl hd
  have hn : p.extent = str.length + 1 := by
    show (((str.length + 1 : Nat) : Int)).toNat * (1 + 8 * 0) = _
    omega
  have hbytes : (NewCall.string str).bytes = str.length + 1 := rfl
  simp only [capnNewString]
  split
  · rename_i hdata
    cases (congrArg Ptr.data hp.ptr).symm.trans hdata
  · rename_i a hdata
    cases (congrArg Ptr.data hp.ptr).symm.trans hdata
    refine hp.covers ?_ (by rintro ⟨⟩) (Nat.le_trans (Nat.le_of_eq hn) (by omega)) (Capn.len_write _ _ _ _) fun o ho => ?_
    · show _ = { p with seg := some s, data := some ⟨s, (lo : Int) + (0 : Nat)⟩, hasPtrTag := _ }
      rw [Nat.cast_zero, Int.add_zero]
      exact hp.ptr
    · have ho : (lo : Int) + (0 : Nat) ≤ o := ho
      show _ = (str ++ [0]).getD (o - ((lo : Int) + (0 : Nat))).toNat 0
      rw [Nat.cast_zero, Int.add_zero] at ho ⊢
      exact hp.write _ ho

/-- More bits than the field for their bytes can count. -/
theorem list1_uncovered (h : Tidy c) (hs : s₀ < c.segs.length) {sz : Nat} (hsz : 4194296 < sz)
    (hd : ∀ k ∈ newObjectInts c (some s₀) (NewCall.list1 sz).bytes, k ≤ INT_MAX) :
    ¬ Covers c [] (capnNewList1 c (some s₀) sz) := by
  let p : Ptr := { type := .BIT_LIST, seg := some s₀, datasz := (sz + 7) / 8 % 2 ^ 19, len := sz }
  obtain ⟨s, lo, hp⟩ := newObject_placed (p := p) h rfl hs rfl hd
  generalize hb : (newObject c p (NewCall.list1 sz).bytes).2.hasPtrTag = b at hp
  have hq : (capnNewList1 c (some s₀) sz).2 = { p with seg := some s, data := some ⟨s, lo⟩, hasPtrTag := b } :=
    hp.ptr.trans (by rw [hb])
  rintro (hnull | ⟨s', lo', hi, hsp⟩)
  · rw [hq] at hnull
    cases hnull
  · have hseg := hsp.seg
    have hdata := hsp.data
    rw [hq] at hseg hdata
    cases hseg
    have hlo : (lo : Int) = lo' := congrArg Addr.off (Option.some.inj hdata)
    -- the last bit
    have hlast := hsp.inside (.bit (sz - 1)) (by
      rw [hq]
      show (0 : Int) ≤ sz - 1 ∧ (sz : Int) - 1 < sz
      omega) (((sz : Int) - 1 + 0) / 8, 1) (by
      rw [hq]
      show _ ∈ if (sz : Int) - 1 < 0 ∨ (sz : Int) ≤ (sz : Int) - 1 then [] else [(((sz : Int) - 1 + (0 : Nat)) / 8, 1)]
      rw [if_neg (by omega)]
      exact List.mem_singleton.mpr rfl)
    have hlen : ((capnNewList1 c (some s₀) sz).1.seg s).len = lo + ((NewCall.list1 sz).bytes + 7) / 8 * 8 := hp.len
    have hused := hsp.used
    simp only [NewCall.bytes] at hlen
    rcases hlast with h0 | ⟨-, h2⟩
    · cases h0
    · simp only at h2
      omega

end

/-! ## Sessions so far -/

theorem Placed.tidy_write {c c' : Capn} {p q : Ptr} {n s lo : Nat} (h : Placed c c' p q n s lo)
    {bs : List UInt8} (hbs : bs.length ≤ n) : Tidy (c'.write ⟨s, lo⟩ bs) := by
  refine h.tidy.write ?_
  show (lo : Int) + bs.length ≤ (c'.seg s).len
  rw [h.len]
  omega

/-- `capn_root` takes a word of a fresh segment, if there is none. -/
theorem Tidy.root {c : Capn} (h : Tidy c) : Tidy (capnRoot c).1 := by
  by_cases h1 : 1 ≤ c.segnum
  · rw [(h.fit.root h1).1]
    exact h
  have hl : lookupSegment c 0 = none := if_neg h1
  simp only [capnRoot, hl]
  cases hn : newData c 8 with
  | none => exact h
  | some r =>
    obtain ⟨c', s, a⟩ := r
    obtain ⟨ht, -, hlen, -⟩ := newData_room h (by decide) (by decide) hn
    simp only
    split
    · exact ht
    · rw [if_neg (by omega)]
      exact ht

/-- A constructor that is defined keeps a session tidy. -/
theorem Tidy.new {c : Capn} (h : Tidy c) {s₀ : Nat} (hs : s₀ < c.segs.length) {call : NewCall}
    (hd : call.Defined c (some s₀)) : Tidy (call.run c (some s₀)).1 := by
  have hints : ∀ k ∈ newObjectInts c (some s₀) call.bytes, k ≤ INT_MAX := fun k hk =>
    hd k (List.mem_cons_of_mem _ (List.mem_cons_of_mem _ hk))
  have hplain : ∀ (p : Ptr) (bytes : Nat), p.seg = some s₀ → p.hasPtrTag = false →
      (∀ k ∈ newObjectInts c (some s₀) bytes, k ≤ INT_MAX) → Tidy (newObject c p bytes).1 := by
    intro p bytes hp ht hk
    obtain ⟨s, lo, hp⟩ := newObject_placed h hp hs ht (by rw [hp]; exact hk)
    exact hp.tidy
  have hcomposite : ∀ sz datasz ptrs : Nat,
      (∀ k ∈ newObjectInts c (some s₀) (compositeBytes sz datasz ptrs), k ≤ INT_MAX) →
      Tidy (capnNewStructList c (some s₀) sz datasz ptrs).1 := by
    intro sz datasz ptrs hk
    let p : Ptr := { type := .LIST, seg := some s₀, len := sz, isCompositeList := true,
                     datasz := (datasz + 7) / 8 * 8 % 2 ^ 19, ptrs := ptrs % 2 ^ 16 }
    obtain ⟨s, lo, hp⟩ := newObject_placed (p := p) h rfl hs rfl hk
    have hn : p.extent + 8 = compositeBytes sz datasz ptrs := rfl
    simp only [capnNewStructList]
    split
    · exact hp.tidy
    · rename_i a hdata
      cases (congrArg Ptr.data hp.ptr).symm.trans hdata
      refine hp.tidy_write ?_
      rw [length_toLe]
      omega
  cases call with
  | struct datasz ptrs => exact hplain _ _ rfl rfl hints
  | structList sz datasz ptrs => exact hcomposite sz datasz ptrs hints
  | list sz datasz ptrs =>
    simp only [NewCall.bytes] at hints
    simp only [NewCall.run, capnNewList]
    split
    · rename_i hc
      rw [if_pos hc] at hints
      exact hcomposite sz datasz ptrs hints
    rename_i hc
    rw [if_neg hc] at hints
    split
    · rename_i h4
      rw [if_pos h4] at hints
      exact hplain _ _ rfl rfl hints
    rename_i h4
    rw [if_neg h4] at hints
    split
    · rename_i h2
      rw [if_pos h2] at hints
      exact hplain _ _ rfl rfl hints
    · rename_i h2
      rw [if_neg h2] at hints
      exact hplain _ _ rfl rfl hints
  | list1 sz => exact hplain _ _ rfl rfl hints
  | ptrList sz => exact hplain _ _ rfl rfl hints
  | string str =>
    let p : Ptr := { type := .LIST, seg := some s₀, len := (str.length + 1 : Nat), datasz := 1 }
    obtain ⟨s, lo, hp⟩ := newObject_placed (p := p) h rfl hs rfl hints
    have hbytes : (NewCall.string str).bytes = str.length + 1 := rfl
    simp only [NewCall.run, capnNewString]
    split
    · exact hp.tidy
    · rename_i a hdata
      cases (congrArg Ptr.data hp.ptr).symm.trans hdata
      refine hp.tidy_write ?_
      rw [List.length_append, List.length_singleton]
      omega

/-- A session that is being built: its root, objects, and stores into them. -/
inductive Prepares : Capn → Capn → Prop
  | root (c : Capn) : Prepares c (capnRoot c).1
  | new (c : Capn) (s : Nat) (call : NewCall) (hs : s < c.segs.length) (hd : call.Defined c (some s)) :
    Prepares c (call.run c (some s)).1
  | store (c : Capn) (a : Addr) (bs : List UInt8) (h : a.off + bs.length ≤ (c.seg a.seg).len) :
    Prepares c (c.write a bs)

/-- **Every session** that is built so is tidy. -/
theorem prepared_tidy {c : Capn} (h : Relation.ReflTransGen Prepares capnInitMalloc c) : Tidy c := by
  induction h with
  | refl => exact tidy_init
  | tail _ hstep ih =>
    cases hstep with
    | root => exact ih.root
    | new s call hs hd => exact ih.new hs hd
    | store a bs hin => exact ih.write hin

/-! ## Allocation -/

/-- A null segment gives a null pointer. -/
theorem run_none (c : Capn) (call : NewCall) : (call.run c none).2 = {} := by
  have hplain : ∀ (p : Ptr) (bytes : Nat), p.seg = none → (newObject c p bytes).2 = {} := by
    intro p bytes hp
    simp only [newObject, hp]
  have hcomposite : ∀ sz datasz ptrs, (capnNewStructList c none sz datasz ptrs).2 = {} := fun _ _ _ => rfl
  cases call with
  | struct datasz ptrs => exact hplain _ _ rfl
  | structList sz datasz ptrs => exact hcomposite sz datasz ptrs
  | list sz datasz ptrs =>
    show (capnNewList c none sz datasz ptrs).2 = {}
    simp only [capnNewList]
    split
    · exact hcomposite sz datasz ptrs
    split
    · exact hplain _ _ rfl
    split
    · exact hplain _ _ rfl
    · exact hplain _ _ rfl
  | list1 sz => exact hplain _ _ rfl
  | ptrList sz => exact hplain _ _ rfl
  | string str => rfl

end Capnproto
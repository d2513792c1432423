import Mathlib.Tactic.IntervalCases
import Capnproto.Object.Clean

/-!
# Pointers read back

What `write_ptr` stores for an object decodes to that object again, whichever way it
is encoded: next to it (`pointee_near`), through a landing pad (`pointee_far`), or
through two (`pointee_double`). `writePtr_reads` is the round trip.
-/

namespace Capnproto

/-! ## Words -/

/-- The low half of a pointer gives the offset back. -/
theorem toInt32_offset {w : Int} {val kind : Nat} (hlo : CAPN_PTR_OFF_MIN_WORDS ≤ w) (hhi : w ≤ CAPN_PTR_OFF_MAX_WORDS)
    (hk : kind < 2) (h : val % 2 ^ 32 = offsetBits w + kind) : toInt32 val / 4 = w := by
  simp only [CAPN_PTR_OFF_MIN_WORDS, CAPN_PTR_OFF_MAX_WORDS] at hlo hhi
  simp only [offsetBits] at h
  simp only [toInt32]
  split at h <;> split <;> omega

theorem offsetBits_lt (w : Int) : offsetBits w < 2 ^ 32 ∧ 4 ∣ offsetBits w := by
  simp only [offsetBits]
  split <;> omega

/-- The high half of the pointer to an object. -/
def Ptr.highBits (p : Ptr) : Nat :=
  match p.type with
  | .STRUCT => p.datasz / 8 + p.ptrs * 2 ^ 16
  | .LIST =>
    if p.isCompositeList then COMPOSITE_LIST + p.len.toNat * (p.datasz / 8 + p.ptrs) * 8
    else elementKind p.datasz + p.len.toNat * 8
  | .BIT_LIST => BIT_1_LIST + p.len.toNat * 8
  | .PTR_LIST => PTR_LIST + p.len.toNat * 8
  | _ => 0

/-- The low bits of the pointer to an object. -/
def Ptr.kindBits (p : Ptr) : Nat := if p.type = .STRUCT then STRUCT_PTR else LIST_PTR

/-- The tag of a composite list. -/
def compositeTag (p : Ptr) : Nat := STRUCT_PTR + p.len.toNat * 4 + p.datasz / 8 * 2 ^ 32 + p.ptrs * 2 ^ 48

theorem elementKind_lt (datasz : Nat) : elementKind datasz < 8 := by
  simp only [elementKind]
  repeat' split
  all_goals decide

/-- The high half fits in its 32 bits. -/
theorem highBits_lt {p : Ptr} (h : p.Shape) : p.highBits < 2 ^ 32 := by
  obtain ⟨-, hlen, h⟩ := h
  simp only [Ptr.highBits]
  cases ht : p.type with
  | STRUCT =>
    simp only [ht] at h ⊢
    omega
  | LIST =>
    simp only [ht] at h ⊢
    split at h
    · rename_i hc
      rw [if_pos hc]
      obtain ⟨h8, -, -, -, hb⟩ := h
      have : p.len.toNat * (p.datasz / 8 + p.ptrs) * 8 = p.len.toNat * (p.datasz + 8 * p.ptrs) := by
        rw [Nat.mul_assoc]
        congr 1
        omega
      simp only [COMPOSITE_LIST]
      omega
    · rename_i hc
      rw [if_neg hc]
      have := elementKind_lt p.datasz
      omega
  | PTR_LIST =>
    simp only [ht] at h ⊢
    simp only [PTR_LIST]
    omega
  | BIT_LIST =>
    simp only [ht] at h ⊢
    simp only [BIT_1_LIST]
    omega
  | NULL => exact Nat.two_pow_pos 32
  | FAR_POINTER => exact Nat.two_pow_pos 32
  | INTERFACE => exact Nat.two_pow_pos 32

theorem lengthBits_eq {n : Int} (h0 : 0 ≤ n) (h : n < 2 ^ 29) : lengthBits n = n.toNat * 8 * 2 ^ 32 := by
  rw [lengthBits, Int.emod_eq_of_lt h0 h]
  omega

/-- The pointer to an object `off` bytes away. -/
theorem ptrTag_eq {p : Ptr} {off : Int} {v : Nat} (hs : p.Shape) (hobj : p.IsObject) (h : ptrTag p off = some v) :
    v = offsetBits (off.tdiv 8) + p.kindBits + p.highBits * 2 ^ 32 ∧
      CAPN_PTR_OFF_MIN_WORDS ≤ off.tdiv 8 ∧ off.tdiv 8 ≤ CAPN_PTR_OFF_MAX_WORDS := by
  have hhigh := highBits_lt hs
  obtain ⟨-, hlen, hs⟩ := hs
  simp only [ptrTag, if_neg hobj.2.2] at h
  split at h
  · cases h
  rename_i hr
  have hv := Option.some.inj h
  refine ⟨?_, by omega, by omega⟩
  rw [← hv]
  cases ht : p.type with
  | STRUCT =>
    simp only [Ptr.kindBits, Ptr.highBits, ht, if_true]
    omega
  | LIST =>
    have hk : p.kindBits = LIST_PTR := if_neg (by rw [ht]; decide)
    simp only [Ptr.highBits, ht] at hs hhigh ⊢
    rw [hk]
    split at hs
    · rename_i hc
      rw [if_pos hc] at hhigh ⊢
      simp only [COMPOSITE_LIST] at hhigh ⊢
      have hw : p.len * ((p.datasz / 8 + p.ptrs : Nat) : Int) =
          ((p.len.toNat * (p.datasz / 8 + p.ptrs) : Nat) : Int) := by
        rw [Nat.cast_mul, Int.toNat_of_nonneg hlen]
      rw [if_pos hc, hw, lengthBits_eq (Int.natCast_nonneg _) (by omega), Int.toNat_natCast]
      omega
    · rename_i hc
      rw [if_neg hc] at hhigh ⊢
      rw [if_neg hc, lengthBits_eq hlen (by omega)]
      omega
  | PTR_LIST =>
    have hk : p.kindBits = LIST_PTR := if_neg (by rw [ht]; decide)
    simp only [Ptr.highBits, ht] at hs ⊢
    rw [hk, lengthBits_eq hlen (by omega)]
    omega
  | BIT_LIST =>
    have hk : p.kindBits = LIST_PTR := if_neg (by rw [ht]; decide)
    simp only [Ptr.highBits, ht] at hs ⊢
    rw [hk, lengthBits_eq hlen (by omega)]
    omega
  | NULL => exact absurd ht hobj.1
  | FAR_POINTER => exact absurd ht hobj.2.1
  | INTERFACE => exact absurd ht hobj.2.2

theorem kindBits_lt (p : Ptr) : p.kindBits < 2 := by
  rw [Ptr.kindBits]
  split <;> decide

/-- The fields of a pointer word. -/
structure PtrWord (p : Ptr) (w : Int) (v : Nat) : Prop where
  low : v % 2 ^ 32 = offsetBits w + p.kindBits
  high : v / 2 ^ 32 = p.highBits
  lt : v < 2 ^ 64
  lo : CAPN_PTR_OFF_MIN_WORDS ≤ w
  hi : w ≤ CAPN_PTR_OFF_MAX_WORDS

theorem ptrTag_word {p : Ptr} {off : Int} {v : Nat} (hs : p.Shape) (hobj : p.IsObject) (h8 : 8 ∣ off)
    (h : ptrTag p off = some v) : PtrWord p (off / 8) v := by
  obtain ⟨hv, hlo, hhi⟩ := ptrTag_eq hs hobj h
  have hdiv : off.tdiv 8 = off / 8 := by
    obtain ⟨k, rfl⟩ := h8
    rw [Int.mul_tdiv_cancel_left _ (by decide), Int.mul_ediv_cancel_left _ (by decide)]
  rw [hdiv] at hv hlo hhi
  have hhigh := highBits_lt hs
  have hk := kindBits_lt p
  obtain ⟨ho, hd⟩ := offsetBits_lt (off / 8)
  exact ⟨by omega, by omega, by omega, hlo, hhi⟩

/-! ## Objects -/

/-- The pointer, without what depends on how it was got. -/
def Ptr.bare (p : Ptr) : Ptr := { p with hasPtrTag := false, nesting := 0, nestingValid := false }

/-- A struct without bytes points at its own slot. -/
def Ptr.emptyStruct (p : Ptr) : Prop := p.type = .STRUCT ∧ p.datasz = 0 ∧ p.ptrs = 0

/-- The object `p` is in segment `s`, at `o`: its tags are where it says. -/
structure Stands (c : Capn) (p : Ptr) (s : Nat) (o : Int) : Prop where
  shape : p.Shape
  obj : p.IsObject
  seg : p.seg = some s
  data : p.data = some ⟨s, o⟩
  lt : s < c.segs.length
  lead : p.lead ≤ o
  inside : o + p.extent ≤ (c.seg s).len
  aligned : 8 ∣ o
  tag : p.isCompositeList = true → c.load64 ⟨s, o - 8⟩ = compositeTag p
  pad : p.hasPtrTag = true → p.lead + 8 ≤ o ∧ ptrTag p 0 = some (c.load64 ⟨s, o - p.lead - 8⟩)

theorem lead_dvd (p : Ptr) : 8 ∣ p.lead := by
  rw [Ptr.lead]
  split <;> decide

section

variable {c : Capn} {p : Ptr} {s v : Nat} {o w : Int}

theorem mulSize_some {a b : Nat} (h : a * b < 2 ^ 64) : mulSize a b = some (a * b) := by
  rw [mulSize, if_neg]
  rintro ⟨hb, hlt⟩
  have := Nat.div_lt_iff_lt_mul (Nat.pos_of_ne_zero hb) |>.mp hlt
  omega

theorem compositeTag_fields (hs : p.Shape) (ht : p.type = .LIST) (hc : p.isCompositeList = true) :
    dataWords (compositeTag p) * 8 = p.datasz ∧ ptrWords (compositeTag p) = p.ptrs ∧
      compositeTag p % 2 ^ 32 / 4 = p.len.toNat := by
  obtain ⟨-, hlen, hs⟩ := hs
  simp only [ht, if_pos hc] at hs
  simp only [compositeTag, STRUCT_PTR, dataWords, ptrWords]
  omega

/-- The elements of a composite list decode. -/
theorem Stands.composite (h : Stands c p s o) (ht : p.type = .LIST) (hc : p.isCompositeList = true) :
    decodeComposite c s ⟨s, o - 8⟩ (p.len.toNat * (p.datasz / 8 + p.ptrs)) =
      some ({ type := .LIST, len := p.len, datasz := p.datasz, ptrs := p.ptrs, isCompositeList := true }, ⟨s, o⟩,
        p.extent) := by
  obtain ⟨hd, hp, hn⟩ := compositeTag_fields h.shape ht hc
  have hlead : p.lead = 8 := if_pos hc
  have hin := h.inside
  have hlo := h.lead
  obtain ⟨-, hlen, hs⟩ := h.shape
  simp only [ht, if_pos hc] at hs
  obtain ⟨h8, hdlt, hplt, -, hb⟩ := hs
  have hext : p.extent = p.len.toNat * (p.datasz + 8 * p.ptrs) := by simp only [Ptr.extent, ht]
  have hbytes : p.len.toNat * (p.datasz / 8 + p.ptrs) * 8 = p.extent := by
    rw [hext, Nat.mul_assoc]
    congr 1
    omega
  have htotal : (p.datasz + 8 * p.ptrs) * p.len.toNat = p.extent := by rw [hext, Nat.mul_comm]
  have hadd : (⟨s, o - 8⟩ : Addr).add 8 = ⟨s, o⟩ := by
    simp only [Addr.add]
    congr 1
    omega
  have hbounds : boundsOk c (some s) (some ⟨s, o - 8⟩) 8 := boundsOk_iff.mpr ⟨s, o - 8, rfl, rfl, by omega, by
    push_cast
    omega⟩
  have hall : boundsOk c (some s) (some ⟨s, o⟩) p.extent := boundsOk_iff.mpr ⟨s, o, rfl, rfl, by omega, hin⟩
  simp only [decodeComposite, h.tag hc, hadd, hd, hp, hn]
  rw [mulSize_some (by omega), hbytes]
  simp only
  rw [if_neg (not_not.mpr hbounds), if_neg (not_not.mpr hall), if_neg (by omega),
    mulSize_some (by rw [htotal]; omega), htotal]
  simp only [ne_eq, not_true_eq_false, if_false, Int.toNat_of_nonneg hlen]

/-- The elements of a list that is not composite decode. -/
theorem decodeElements_plain {d : Addr} {len k : Nat} (hlen : len < 2 ^ 29) (hk : k ∈ [0, 1, 2, 4, 8]) :
    decodeElements c s d (elementKind k) len = some ({ type := .LIST, len := len, datasz := k }, d, len * k) := by
  have hmul : ∀ n : Nat, n ≤ 8 → mulSize len n = some (len * n) := fun n hn => by
    have := Nat.mul_le_mul_left len hn
    exact mulSize_some (by omega)
  simp only [List.mem_cons, List.not_mem_nil, or_false] at hk
  rcases hk with rfl | rfl | rfl | rfl | rfl
  · rfl
  · rw [decodeElements, show elementKind 1 = BYTE_1_LIST from rfl, hmul 1 (by decide)]
    rfl
  · rw [decodeElements, show elementKind 2 = BYTE_2_LIST from rfl, hmul 2 (by decide)]
    rfl
  · rw [decodeElements, show elementKind 4 = BYTE_4_LIST from rfl, hmul 4 (by decide)]
    rfl
  · rw [decodeElements, show elementKind 8 = BYTE_8_LIST from rfl, hmul 8 (by decide)]
    rfl

theorem Stands.bare (h : Stands c p s o) :
    p.bare = { type := p.type, isCompositeList := p.isCompositeList, datasz := p.datasz, ptrs := p.ptrs,
               len := p.len, data := some ⟨s, o⟩, seg := some s } := by
  have hmem := h.shape.1
  have hseg := h.seg
  have hdata := h.data
  simp only [Ptr.bare, hmem, hseg, hdata]

/-- **A pointer word** decodes to the object that it was made for. -/
theorem Stands.decode (h : Stands c p s o) (hz : p.emptyStruct → v ≠ 0) {d : Addr} (hv : PtrWord p w v)
    (hw : d.off + (w + 1) * 8 = o - p.lead) : decodeObject c s d v = some (p.bare, p.extent) := by
  have hk := kindBits_lt p
  obtain ⟨hblt, hb4⟩ := offsetBits_lt w
  have hoff := toInt32_offset hv.lo hv.hi hk hv.low
  have hlow := hv.low
  have hhigh := hv.high
  have hlead := h.lead
  have hin := h.inside
  have happly : applyOffset c s d v = some ⟨s, o - p.lead⟩ := by
    simp only [applyOffset, hoff, hw]
    rw [if_neg (by omega)]
  have hbounds : boundsOk c (some s) (some ⟨s, o⟩) p.extent := boundsOk_iff.mpr ⟨s, o, rfl, rfl, by omega, hin⟩
  have hmod : v % 4 = p.kindBits := by omega
  have hkind : v / 2 ^ 32 % 8 = p.highBits % 8 := by rw [hhigh]
  have hcount : v / 2 ^ 35 = p.highBits / 8 := by omega
  have hlist : p.type ≠ .STRUCT → p.kindBits = LIST_PTR := fun h => if_neg h
  obtain ⟨-, hlen, hs⟩ := h.shape
  have hnat := Int.toNat_of_nonneg hlen
  rw [h.bare]
  simp only [decodeObject, happly, hmod, hkind, hcount]
  cases ht : p.type with
  | STRUCT =>
    simp only [ht] at hs
    obtain ⟨hc, h8, hd, hp, h0⟩ := hs
    have hzero : p.lead = 0 := if_neg (by rw [hc]; decide)
    have hbits : p.highBits = p.datasz / 8 + p.ptrs * 2 ^ 16 := by simp only [Ptr.highBits, ht]
    have hw : dataWords v * 8 = p.datasz := by
      simp only [dataWords]
      omega
    have hp : ptrWords v = p.ptrs := by
      simp only [ptrWords]
      omega
    have hne : v ≠ 0 := by
      intro h0
      exact hz ⟨ht, by omega, by omega⟩ h0
    have hext : p.extent = p.datasz + 8 * p.ptrs := by simp only [Ptr.extent, ht]
    rw [hext] at hbounds ⊢
    have hkb : p.kindBits = STRUCT_PTR := if_pos ht
    simp only [hkb, if_true, decodeStruct, hw, hp, if_pos hne, hzero, hc, h0, Nat.cast_zero, Int.sub_zero]
    rw [if_neg (by omega)]
    simp only [if_pos hbounds]
  | LIST =>
    have hkb := hlist (by rw [ht]; decide)
    simp only [ht] at hs
    simp only [hkb, LIST_PTR, STRUCT_PTR, Nat.one_ne_zero, if_false, if_true]
    by_cases hc : p.isCompositeList = true
    · have hbits : p.highBits = COMPOSITE_LIST + p.len.toNat * (p.datasz / 8 + p.ptrs) * 8 := by
        simp only [Ptr.highBits, ht, if_pos hc]
      have hkind : p.highBits % 8 = COMPOSITE_LIST := by
        rw [hbits]
        simp only [COMPOSITE_LIST]
        omega
      have hcount : p.highBits / 8 = p.len.toNat * (p.datasz / 8 + p.ptrs) := by
        rw [hbits]
        simp only [COMPOSITE_LIST]
        omega
      have hlead : (p.lead : Int) = 8 := by simp only [Ptr.lead, if_pos hc, Nat.cast_ofNat]
      have hdec := h.composite ht hc
      simp only [hkind, hcount, hlead, decodeElements]
      simp only [COMPOSITE_LIST, VOID_LIST, BIT_1_LIST, BYTE_1_LIST, BYTE_2_LIST, BYTE_4_LIST, BYTE_8_LIST, PTR_LIST,
        reduceIte, OfNat.ofNat_ne_zero, Nat.reduceEqDiff, hdec, if_pos hbounds, hc]
    · simp only [if_neg hc] at hs
      obtain ⟨hd, hp, hn⟩ := hs
      have hbits : p.highBits = elementKind p.datasz + p.len.toNat * 8 := by
        simp only [Ptr.highBits, ht, if_neg hc]
      have hek := elementKind_lt p.datasz
      have hkind : p.highBits % 8 = elementKind p.datasz := by omega
      have hcount : p.highBits / 8 = p.len.toNat := by omega
      have hzero : p.lead = 0 := if_neg hc
      have hcf : p.isCompositeList = false := Bool.eq_false_iff.mpr hc
      have hext : p.extent = p.len.toNat * p.datasz := by simp only [Ptr.extent, ht, hp, Nat.mul_zero, Nat.add_zero]
      rw [hext] at hbounds ⊢
      simp only [hkind, hcount, hzero, Nat.cast_zero, Int.sub_zero, hcf, hp]
      simp only [decodeElements_plain (c := c) (s := s) (d := ⟨s, o⟩) (show p.len.toNat < 2 ^ 29 by omega) hd,
        if_pos hbounds, hnat]
  | PTR_LIST =>
    have hkb := hlist (by rw [ht]; decide)
    simp only [ht] at hs
    obtain ⟨hc, hd, hp, hn⟩ := hs
    have hbits : p.highBits = PTR_LIST + p.len.toNat * 8 := by simp only [Ptr.highBits, ht]
    have hkind : p.highBits % 8 = PTR_LIST := by
      rw [hbits]
      simp only [PTR_LIST]
      omega
    have hcount : p.highBits / 8 = p.len.toNat := by
      rw [hbits]
      simp only [PTR_LIST]
      omega
    have hzero : p.lead = 0 := if_neg (by rw [hc]; decide)
    have hext : p.extent = p.len.toNat * 8 := by simp only [Ptr.extent, ht, Nat.mul_comm]
    rw [hext] at hbounds ⊢
    simp only [hkb, LIST_PTR, STRUCT_PTR, Nat.one_ne_zero, if_false, if_true, hkind, hcount, hzero, Nat.cast_zero,
      Int.sub_zero, hc, hd, hp, decodeElements]
    simp only [VOID_LIST, BIT_1_LIST, BYTE_1_LIST, BYTE_2_LIST, BYTE_4_LIST, BYTE_8_LIST, PTR_LIST, reduceIte,
      OfNat.ofNat_ne_zero, Nat.reduceEqDiff, mulSize_some (show p.len.toNat * 8 < 2 ^ 64 by omega), Option.map_some,
      if_pos hbounds, hnat]
  | BIT_LIST =>
    have hkb := hlist (by rw [ht]; decide)
    simp only [ht] at hs
    obtain ⟨hc, hd, hlt, hp⟩ := hs
    have hbits : p.highBits = BIT_1_LIST + p.len.toNat * 8 := by simp only [Ptr.highBits, ht]
    have hkind : p.highBits % 8 = BIT_1_LIST := by
      rw [hbits]
      simp only [BIT_1_LIST]
      omega
    have hcount : p.highBits / 8 = p.len.toNat := by
      rw [hbits]
      simp only [BIT_1_LIST]
      omega
    have hzero : p.lead = 0 := if_neg (by rw [hc]; decide)
    have hext : p.extent = (p.len.toNat + 7) / 8 := by simp only [Ptr.extent, ht, hp, Nat.zero_add]
    rw [hext] at hbounds ⊢
    simp only [hkb, LIST_PTR, STRUCT_PTR, Nat.one_ne_zero, if_false, if_true, hkind, hcount, hzero, Nat.cast_zero,
      Int.sub_zero, hc, hp, decodeElements]
    simp only [VOID_LIST, BIT_1_LIST, reduceIte, Nat.one_ne_zero]
    rw [if_neg (by omega)]
    simp only [if_pos hbounds, hd, hnat]
  | NULL => exact absurd ht h.obj.1
  | FAR_POINTER => exact absurd ht h.obj.2.1
  | INTERFACE => exact absurd ht h.obj.2.2

/-! ## Encodings -/

/-- The bytes that a read of an object is charged for. -/
def Ptr.cost (p : Ptr) : Nat := if p.extent = 0 ∧ 0 < p.len then p.len.toNat * 8 else p.extent

theorem load64_eq (c : Capn) (k : Nat) (x : Int) : (c.seg k).data.load64 x = c.load64 ⟨k, x⟩ := rfl

/-- A pointer to an object of its own segment. -/
theorem Stands.pointee_near (h : Stands c p s o) {d : Addr} (hz : p.emptyStruct → c.load64 d ≠ 0) (hd : d.seg = s)
    (hv : PtrWord p w (c.load64 d)) (hw : d.off + (w + 1) * 8 = o - p.lead) :
    pointee c d = some (p.bare, p.cost) ∧ landingPads c d = [] := by
  have hk := kindBits_lt p
  obtain ⟨-, hb4⟩ := offsetBits_lt w
  have hlow := hv.low
  have hmod : c.load64 d % 4 = p.kindBits := by omega
  have hfar : followFar c d.seg d (c.load64 d) = ⟨[], some (s, d, c.load64 d)⟩ := by
    rw [followFar, if_neg (by simp only [FAR_PTR]; omega), if_neg (by simp only [DOUBLE_PTR]; omega), hd]
  refine ⟨?_, by rw [landingPads, hfar]⟩
  simp only [pointee, hfar]
  rw [if_neg (by simp only [OTHER_PTR]; omega), h.decode hz hv hw,
    decide_eq_false (by simp only [FAR_PTR]; omega)]
  rfl

/-- A pointer to a landing pad in the segment of the object. -/
theorem Stands.pointee_far (h : Stands c p s o) (hz : ¬ p.emptyStruct) {d : Addr} {t : Nat} (ht : 8 ∣ t)
    (hlt : t < 2 ^ 32) (hin : t + 8 ≤ (c.seg s).len) (hd : c.load64 d = FAR_PTR + t + s * 2 ^ 32)
    (hv : PtrWord p w (c.load64 ⟨s, t⟩)) (hw : t + (w + 1) * 8 = o - p.lead) :
    (∃ b, pointee c d = some ({ p.bare with hasPtrTag := b }, p.cost)) ∧ landingPads c d = [⟨s, t⟩] := by
  have hk := kindBits_lt p
  obtain ⟨-, hb4⟩ := offsetBits_lt w
  have hlow := hv.low
  have hseg : c.load64 d / 2 ^ 32 = s := by
    simp only [FAR_PTR] at hd
    omega
  have hoff : c.load64 d % 2 ^ 32 / 8 * 8 = t := by
    simp only [FAR_PTR] at hd
    omega
  have hfar : followFar c d.seg d (c.load64 d) = ⟨[⟨s, t⟩], some (s, ⟨s, t⟩, c.load64 ⟨s, t⟩)⟩ := by
    rw [followFar, if_pos (by simp only [FAR_PTR] at hd ⊢; omega)]
    simp only [lookupFar, hseg, hoff, lookupSegment, if_pos (show s < c.segnum from h.lt)]
    rw [if_neg (by omega)]
  refine ⟨⟨decide (c.load64 d % 8 = FAR_PTR ∧ c.load64 ⟨s, t⟩ % 2 ^ 32 / 4 = 0), ?_⟩, by rw [landingPads, hfar]⟩
  simp only [pointee, hfar]
  rw [if_neg (by simp only [OTHER_PTR]; omega), h.decode (fun e => absurd e hz) hv hw]
  rfl

theorem PtrWord.shift {p : Ptr} {v m : Nat} (hv : PtrWord p 0 v) (hm : 8 ∣ m) (hlt : m < 2 ^ 32) :
    PtrWord p (m / 8 : Nat) ((m / 8 * 4) ||| v) := by
  have hk := kindBits_lt p
  have hlow : v % 2 ^ 32 = p.kindBits := by
    have := hv.low
    simp only [offsetBits, Int.lt_irrefl, if_false, Int.toNat_zero, Nat.zero_mul, Nat.zero_mod, Nat.zero_add] at this
    exact this
  have hhigh := hv.high
  have hvlt := hv.lt
  have hsplit : v = 2 ^ 32 * p.highBits ||| p.kindBits := by
    rw [← Nat.two_pow_add_eq_or_of_lt (by omega)]
    omega
  have hor : (m / 8 * 4) ||| v = 2 ^ 32 * p.highBits + (m / 8 * 4 + p.kindBits) := by
    have h1 : m / 8 * 4 ||| p.kindBits = m / 8 * 4 + p.kindBits := by
      rw [show m / 8 * 4 = 2 ^ 2 * (m / 8) by omega, Nat.two_pow_add_eq_or_of_lt (by omega)]
    rw [hsplit, Nat.or_comm, Nat.or_assoc, Nat.or_comm p.kindBits, h1, ← Nat.two_pow_add_eq_or_of_lt (by omega)]
  have hbits : offsetBits ((m / 8 : Nat) : Int) = m / 8 * 4 := by
    rw [offsetBits, if_neg (by omega), Int.toNat_natCast]
    omega
  refine ⟨by omega, by omega, by omega, ?_, ?_⟩
  · simp only [CAPN_PTR_OFF_MIN_WORDS]
    omega
  · simp only [CAPN_PTR_OFF_MAX_WORDS]
    omega

/-- A pointer to two landing pads, of which the second is the tag. -/
theorem Stands.pointee_double (h : Stands c p s o) (hz : ¬ p.emptyStruct) {d : Addr} {r t m : Nat} (ht : 8 ∣ t)
    (hlt : t < 2 ^ 32) (hr : r < c.segs.length) (hin : t + 16 ≤ (c.seg r).len)
    (hd : c.load64 d = DOUBLE_PTR + t + r * 2 ^ 32) (hm : (m : Int) = o - p.lead) (hmlt : m < 2 ^ 32)
    (hfar : c.load64 ⟨r, t⟩ = FAR_PTR + m + s * 2 ^ 32) (hv : PtrWord p 0 (c.load64 ⟨r, t + 8⟩)) :
    pointee c d = some (p.bare, p.cost) ∧ landingPads c d = [⟨r, t⟩, ⟨r, t + 8⟩] := by
  have hk := kindBits_lt p
  have hm8 : 8 ∣ m := by
    have := h.aligned
    have := lead_dvd p
    omega
  have hseg : c.load64 d / 2 ^ 32 = r := by
    simp only [DOUBLE_PTR] at hd
    omega
  have hoff : c.load64 d % 2 ^ 32 / 8 * 8 = t := by
    simp only [DOUBLE_PTR] at hd
    omega
  have hfseg : c.load64 ⟨r, t⟩ / 2 ^ 32 = s := by
    simp only [FAR_PTR] at hfar
    omega
  have hfoff : c.load64 ⟨r, t⟩ % 2 ^ 32 / 8 = m / 8 := by
    simp only [FAR_PTR] at hfar
    omega
  have hlow : c.load64 ⟨r, t + 8⟩ % 2 ^ 32 = p.kindBits := by
    have := hv.low
    simp only [offsetBits, Int.lt_irrefl, if_false, Int.toNat_zero, Nat.zero_mul, Nat.zero_mod, Nat.zero_add] at this
    exact this
  have hshift := hv.shift hm8 hmlt
  obtain ⟨-, hb4⟩ := offsetBits_lt ((m / 8 : Nat) : Int)
  have hslow := hshift.low
  have hfollow : followFar c d.seg d (c.load64 d) =
      ⟨[⟨r, t⟩, ⟨r, t + 8⟩], some (s, ⟨s, -8⟩, (m / 8 * 4) ||| c.load64 ⟨r, t + 8⟩)⟩ := by
    rw [followFar, if_neg (by simp only [FAR_PTR, DOUBLE_PTR] at hd ⊢; omega),
      if_pos (by simp only [DOUBLE_PTR] at hd ⊢; omega)]
    simp only [lookupDouble, hseg, hoff, lookupSegment, if_pos (show r < c.segnum from hr)]
    rw [if_neg (by omega), if_neg (by simp only [FAR_PTR, LIST_PTR] at hfar ⊢; omega)]
    simp only [hfseg, hfoff, if_pos (show s < c.segnum from h.lt)]
  refine ⟨?_, by rw [landingPads, hfollow]⟩
  simp only [pointee, hfollow]
  rw [if_neg (by simp only [OTHER_PTR]; omega), h.decode (fun e => absurd e hz) hshift (by simp only; omega),
    decide_eq_false (by simp only [FAR_PTR, DOUBLE_PTR] at hd ⊢; omega)]
  rfl

end

section

variable {P : Nat → Int → Prop} {c c' : Capn}

/-! ## Frames -/

theorem load64_grows (h : Grows P c c') {a : Addr} (ha : WordInside c a) (hp : ∀ x, Slot a a.seg x → ¬ P a.seg x) :
    c'.load64 a = c.load64 a := by
  obtain ⟨h0, h1⟩ := ha
  exact Mem.load64_congr fun k hk => h.data _ _ (by omega) (by omega) (hp _ ⟨rfl, by omega, by omega⟩)

theorem boundsOk_grows (h : Grows P c c') {s : Option Nat} {d : Option Addr} {n : Nat} (hb : boundsOk c s d n) :
    boundsOk c' s d n := by
  obtain ⟨seg, off, hs, hd, h0, h1⟩ := boundsOk_iff.mp hb
  have := h.len seg
  exact boundsOk_iff.mpr ⟨seg, off, hs, hd, h0, by omega⟩

theorem applyOffset_grows (h : Grows P c c') {s val : Nat} {d a : Addr} (ha : applyOffset c s d val = some a) :
    applyOffset c' s d val = some a := by
  simp only [applyOffset] at ha ⊢
  split at ha
  · cases ha
  · rename_i hr
    have := h.len s
    rw [if_neg (by omega)]
    exact ha

/-- The bytes in front of an object that belong to it. -/
def Ptr.pre (p : Ptr) : Nat := p.lead + if p.hasPtrTag then 8 else 0

/-- The bytes in front of an object at `o` of segment `s`. -/
def Front (p : Ptr) (s : Nat) (o : Int) (k : Nat) (x : Int) : Prop := k = s ∧ o - p.pre ≤ x ∧ x < o

/-- An object stays where it is if its tags stay. -/
theorem Stands.grows {p : Ptr} {s : Nat} {o : Int} (hp : Stands c p s o) (h : Grows P c c')
    (hs : c.segs.length ≤ c'.segs.length) (hf : ∀ k x, Front p s o k x → ¬ P k x) : Stands c' p s o := by
  have hlen := h.len s
  have hlead := hp.lead
  have hin := hp.inside
  refine ⟨hp.shape, hp.obj, hp.seg, hp.data, Nat.lt_of_lt_of_le hp.lt hs, hlead, by omega, hp.aligned, fun hc => ?_,
    fun ht => ?_⟩
  · have hl : p.lead = 8 := if_pos hc
    rw [load64_grows h ⟨by show 0 ≤ o - 8; omega, by show o - 8 + 8 ≤ ((c.seg s).len : Int); omega⟩ ?_]
    · exact hp.tag hc
    · rintro x ⟨-, h1, h2⟩
      have h1 : o - 8 ≤ x := h1
      have h2 : x < o - 8 + 8 := h2
      exact hf s x ⟨rfl, by rw [Ptr.pre]; omega, by omega⟩
  · obtain ⟨hle, htag⟩ := hp.pad ht
    refine ⟨hle, ?_⟩
    rw [load64_grows h ⟨by show 0 ≤ o - p.lead - 8; omega, by
      show o - p.lead - 8 + 8 ≤ ((c.seg s).len : Int)
      omega⟩ ?_]
    · exact htag
    · rintro x ⟨-, h1, h2⟩
      have h1 : o - p.lead - 8 ≤ x := h1
      have h2 : x < o - p.lead - 8 + 8 := h2
      exact hf s x ⟨rfl, by rw [Ptr.pre, if_pos ht]; push_cast; omega, by omega⟩

theorem decodeComposite_grows (h : Grows P c c') {s len n : Nat} {d d' : Addr} {q : Ptr}
    (hq : decodeComposite c s d len = some (q, d', n)) (hp : ∀ x, Slot d d.seg x → ¬ P d.seg x) :
    decodeComposite c' s d len = some (q, d', n) := by
  simp only [decodeComposite] at hq ⊢
  split at hq
  · cases hq
  rename_i words hw
  split at hq
  · cases hq
  rename_i hb
  rw [not_not] at hb
  have hload : c'.load64 d = c.load64 d := by
    obtain ⟨seg, off, e, e', h0, h1⟩ := boundsOk_iff.mp hb
    cases e
    cases e'
    exact load64_grows h ⟨h0, by exact_mod_cast h1⟩ hp
  rw [hload, if_neg (not_not.mpr (boundsOk_grows h hb))]
  split at hq
  · cases hq
  rename_i hb'
  rw [not_not] at hb'
  rw [if_neg (not_not.mpr (boundsOk_grows h hb'))]
  exact hq

/-- Only the elements of a composite list depend on the message. -/
theorem decodeElements_cases (s kind len : Nat) (d : Addr) :
    (∀ c, decodeElements c s d kind len = decodeComposite c s d len) ∨
      ∀ c c', decodeElements c s d kind len = decodeElements c' s d kind len := by
  by_cases hk : kind < COMPOSITE_LIST
  · refine .inr fun c c' => ?_
    simp only [COMPOSITE_LIST] at hk
    interval_cases kind <;> rfl
  · have hne : ∀ n < COMPOSITE_LIST, kind ≠ n := fun n hn => by omega
    refine .inl fun c => ?_
    rw [decodeElements, if_neg (hne VOID_LIST (by decide)), if_neg (hne BIT_1_LIST (by decide)),
      if_neg (hne BYTE_1_LIST (by decide)), if_neg (hne BYTE_2_LIST (by decide)), if_neg (hne BYTE_4_LIST (by decide)),
      if_neg (hne BYTE_8_LIST (by decide)), if_neg (hne PTR_LIST (by decide))]

theorem decodeComposite_tag {s len n : Nat} {d d' : Addr} {q : Ptr} (h : decodeComposite c s d len = some (q, d', n)) :
    q.isCompositeList = true ∧ d' = d.add 8 := by
  simp only [decodeComposite] at h
  split at h
  · cases h
  split at h
  · cases h
  split at h
  · cases h
  split at h
  · cases h
  split at h
  · cases h
  split at h
  · cases h
  · cases h
    exact ⟨rfl, rfl⟩

/-- An object decodes as before if the tag in front of it stays. -/
theorem decodeObject_grows (h : Grows P c c') {s val n : Nat} {d : Addr} {q : Ptr}
    (hq : decodeObject c s d val = some (q, n))
    (hp : ∀ a, q.isCompositeList = true → q.data = some a → ∀ x, a.off - 8 ≤ x → x < a.off → ¬ P a.seg x) :
    decodeObject c' s d val = some (q, n) := by
  simp only [decodeObject] at hq ⊢
  split at hq
  · cases hq
  rename_i a ha
  have ha' := applyOffset_grows h ha
  rw [ha']
  simp only
  split at hq
  · cases hq
  rename_i q' d' nbytes hobj
  split at hq
  swap
  · cases hq
  rename_i hb
  have hb' := boundsOk_grows h hb
  cases hq
  have hobj' : (if val % 4 = STRUCT_PTR then decodeStruct a val
      else if val % 4 = LIST_PTR then decodeElements c' s a (val / 2 ^ 32 % 8) (val / 2 ^ 35) else none) =
        some (q', d', n) := by
    split at hobj
    · rename_i hm
      rw [if_pos hm]
      exact hobj
    · rename_i hm
      rw [if_neg hm]
      split at hobj
      · rename_i hl
        rw [if_pos hl]
        rcases decodeElements_cases s (val / 2 ^ 32 % 8) (val / 2 ^ 35) a with e | e
        · rw [e] at hobj ⊢
          obtain ⟨hc, rfl⟩ := decodeComposite_tag hobj
          refine decodeComposite_grows h hobj ?_
          rintro x ⟨-, h1, h2⟩
          refine hp (a.add 8) hc rfl x ?_ ?_
          · show a.off + 8 - 8 ≤ x
            omega
          · show x < a.off + 8
            exact h2
        · rw [e c' c]
          exact hobj
      · cases hobj
  rw [hobj']
  simp only [if_pos hb']

theorem lookupSegment_grows (hs : c.segs.length ≤ c'.segs.length) {id seg : Nat} (h : lookupSegment c id = some seg) :
    lookupSegment c' id = some seg := by
  simp only [lookupSegment] at h ⊢
  split at h
  · rename_i hlt
    rw [if_pos (show id < c'.segnum from Nat.lt_of_lt_of_le hlt hs)]
    exact h
  · cases h

theorem lookupFar_grows (h : Grows P c c') (hs : c.segs.length ≤ c'.segs.length) {val : Nat}
    {x : Nat × Addr × Nat} (hx : (lookupFar c val).hit = some x)
    (hload : ∀ b ∈ (lookupFar c val).reads, c'.load64 b = c.load64 b) : lookupFar c' val = lookupFar c val := by
  simp only [lookupFar] at hx hload ⊢
  cases hseg : lookupSegment c (val / 2 ^ 32) with
  | none => simp only [hseg, reduceCtorEq] at hx
  | some seg =>
    simp only [hseg, lookupSegment_grows hs hseg] at hx hload ⊢
    split at hx
    · cases hx
    · rename_i hb
      have := h.len seg
      rw [if_neg hb] at hload ⊢
      rw [if_neg (by omega), hload _ (List.mem_singleton.mpr rfl)]

theorem lookupDouble_grows (h : Grows P c c') (hs : c.segs.length ≤ c'.segs.length) {val : Nat}
    {x : Nat × Addr × Nat} (hx : (lookupDouble c val).hit = some x)
    (hload : ∀ b ∈ (lookupDouble c val).reads, c'.load64 b = c.load64 b) : lookupDouble c' val = lookupDouble c val := by
  simp only [lookupDouble] at hx hload ⊢
  cases hseg : lookupSegment c (val / 2 ^ 32) with
  | none => simp only [hseg, reduceCtorEq] at hx
  | some seg =>
    simp only [hseg, lookupSegment_grows hs hseg] at hx hload ⊢
    split at hx
    · cases hx
    rename_i hb
    have := h.len seg
    rw [if_neg hb] at hload ⊢
    rw [if_neg (by omega)]
    split at hx
    · cases hx
    rename_i hbits
    rw [if_neg hbits] at hload ⊢
    cases hseg' : lookupSegment c (c.load64 ⟨seg, ((val % 2 ^ 32 / 8 * 8 : Nat) : Int)⟩ / 2 ^ 32) with
    | none => simp only [hseg', reduceCtorEq] at hx
    | some seg' =>
      simp only [hseg'] at hload ⊢
      rw [hload _ List.mem_cons_self, hload _ (List.mem_cons_of_mem _ (List.mem_singleton.mpr rfl)), if_neg hbits,
        lookupSegment_grows hs hseg']

/-- A far pointer is followed as before if its landing pads stay. -/
theorem followFar_grows (h : Grows P c c') (hs : c.segs.length ≤ c'.segs.length) {s val : Nat} {d : Addr}
    {x : Nat × Addr × Nat} (hx : (followFar c s d val).hit = some x)
    (hp : ∀ b ∈ (followFar c s d val).reads, ∀ y, Slot b b.seg y → ¬ P b.seg y) :
    followFar c' s d val = followFar c s d val := by
  have hload : ∀ b ∈ (followFar c s d val).reads, c'.load64 b = c.load64 b := fun b hb =>
    load64_grows h (followFar_reads hb) (hp b hb)
  simp only [followFar] at hx hload ⊢
  by_cases hf : val % 8 = FAR_PTR
  · rw [if_pos hf] at hx hload ⊢
    rw [if_pos hf]
    exact lookupFar_grows h hs hx hload
  rw [if_neg hf] at hx hload ⊢
  rw [if_neg hf]
  by_cases hd : val % 8 = DOUBLE_PTR
  · rw [if_pos hd] at hx hload ⊢
    rw [if_pos hd]
    exact lookupDouble_grows h hs hx hload
  · rw [if_neg hd, if_neg hd]

/-- **A pointer reads as before** if its word, its landing pads and the tag of what it points
at stay. -/
theorem pointee_grows (h : Grows P c c') (hs : c.segs.length ≤ c'.segs.length) {a : Addr} {q : Ptr} {cost : Nat}
    (ha : WordInside c a) (hq : pointee c a = some (q, cost)) (hslot : ∀ x, Slot a a.seg x → ¬ P a.seg x)
    (hpads : ∀ b ∈ landingPads c a, ∀ x, Slot b b.seg x → ¬ P b.seg x)
    (htag : ∀ b, q.isCompositeList = true → q.data = some b → ∀ x, b.off - 8 ≤ x → x < b.off → ¬ P b.seg x) :
    pointee c' a = some (q, cost) ∧ landingPads c' a = landingPads c a := by
  have hload := load64_grows h ha hslot
  rw [landingPads] at hpads
  obtain ⟨x, hx⟩ : ∃ x, (followFar c a.seg a (c.load64 a)).hit = some x := by
    cases hx : (followFar c a.seg a (c.load64 a)).hit with
    | none => simp only [pointee, hx, reduceCtorEq] at hq
    | some x => exact ⟨x, rfl⟩
  have hfar := followFar_grows h hs hx hpads
  obtain ⟨seg, d, val⟩ := x
  refine ⟨?_, by rw [landingPads, landingPads, hload, hfar]⟩
  simp only [pointee, hload, hfar, hx] at hq ⊢
  split at hq
  · rename_i ho
    rw [if_pos ho]
    exact hq
  · rename_i ho
    rw [if_neg ho]
    obtain ⟨⟨q', n⟩, hobj, e⟩ := Option.map_eq_some_iff.mp hq
    cases e
    rw [decodeObject_grows h hobj htag]
    rfl

end

/-! ## Words that are stored -/

section

variable {c : Capn}

theorem load64_store64_self {a : Addr} {v : Nat} (ha : a.seg < c.segs.length) (hv : v < 2 ^ 64) :
    (c.store64 a v).load64 a = v := by
  rw [Capn.load64, Capn.store64, Capn.write, Capn.seg_setSeg_self _ ha]
  exact Mem.load64_store64 hv

theorem load64_store64_ne {a b : Addr} {v : Nat} (h : a.seg = b.seg → a.off + 8 ≤ b.off ∨ b.off + 8 ≤ a.off) :
    (c.store64 a v).load64 b = c.load64 b := by
  rw [Capn.load64, Capn.store64, Capn.write, Capn.seg_setSeg]
  split
  · rename_i hs
    exact Mem.load64_store64_disjoint (h hs.1).symm
  · rfl

theorem load64_bump (s n : Nat) (a : Addr) : (bump c s n).load64 a = c.load64 a := by
  rw [Capn.load64, bump_data]
  rfl

end

/-! ## The round trip -/

/-- A slot that a pointer is written into. -/
structure SlotIn (c : Capn) (d : Addr) : Prop where
  aligned : 8 ∣ d.off
  pos : 0 ≤ d.off
  inside : d.off + 8 ≤ (c.seg d.seg).len

/-- The slot `d` points to the object `p`, through words in front of it or behind what was
in use in `c`. -/
structure Linked (c c' : Capn) (d : Addr) (p : Ptr) (s : Nat) (o : Int) : Prop where
  pointee : ∃ b, pointee c' d = some ({ p.bare with hasPtrTag := b }, p.cost)
  pads : ∀ b ∈ landingPads c' d, ∀ x, Slot b b.seg x → Front p s o b.seg x ∨ ((c.seg b.seg).len : Int) ≤ x

section

variable {c : Capn} {p : Ptr} {s : Nat} {o : Int} {d : Addr}

theorem SlotIn.grows {P : Nat → Int → Prop} {c' : Capn} (h : SlotIn c d) (hg : Grows P c c') : SlotIn c' d := by
  have := hg.len d.seg
  have := h.inside
  exact ⟨h.aligned, h.pos, by omega⟩

theorem SlotIn.lt (h : SlotIn c d) : d.seg < c.segs.length := by
  have := h.pos
  have := h.inside
  by_contra hk
  have h0 : (c.seg d.seg).len = 0 := by rw [Capn.seg_of_ge (Nat.not_lt.mp hk)]
  omega

theorem tagResult_ok {c' : Option Capn} (h : (tagResult c c').1 = 0) : ∃ c'', c' = some c'' := by
  cases c' with
  | none => cases h
  | some c'' => exact ⟨c'', rfl⟩

/-- A pointer in the segment of the object. -/
theorem linked_near (hp : Stands c p s o) (hz : ¬ p.emptyStruct) (hd : SlotIn c d) (hs : d.seg = s)
    (hp' : Stands (tagResult c (writePtrTag c d p (o - p.lead - d.off - 8))).2 p s o)
    (hw : (tagResult c (writePtrTag c d p (o - p.lead - d.off - 8))).1 = 0) :
    Linked c (tagResult c (writePtrTag c d p (o - p.lead - d.off - 8))).2 d p s o := by
  obtain ⟨c', hc'⟩ := tagResult_ok hw
  obtain ⟨v, hv, rfl⟩ := Option.map_eq_some_iff.mp hc'
  rw [hc'] at hp' ⊢
  have h8 : 8 ∣ o - p.lead - d.off - 8 := by
    have := hp.aligned
    have := hd.aligned
    have := lead_dvd p
    omega
  have hword := ptrTag_word hp.shape hp.obj h8 hv
  have hload : (c.store64 d v).load64 d = v := load64_store64_self hd.lt hword.lt
  obtain ⟨hpt, hpads⟩ := hp'.pointee_near (w := (o - p.lead - d.off - 8) / 8) (fun e => absurd e hz) hs
    (by rw [show (tagResult c (some (c.store64 d v))).2 = c.store64 d v from rfl, hload]; exact hword) (by omega)
  exact ⟨⟨false, hpt⟩, fun b hb => by rw [hpads] at hb; cases hb⟩

theorem Stands.start_lt (hc : Clean c) (hp : Stands c p s o) : o - p.lead < 2 ^ 32 := by
  have := hc.cap s
  have := hc.room s
  have := hp.inside
  omega

/-- A pointer to the tag that the object has. -/
theorem linked_tag (hc : Clean c) (hp : Stands c p s o) (hz : ¬ p.emptyStruct) (hd : SlotIn c d)
    (ht : p.hasPtrTag = true) (hids : c.segs.length ≤ 2 ^ 32) (hp' : Stands (writeFarPtr c d s (o - p.lead - 8)) p s o) :
    Linked c (writeFarPtr c d s (o - p.lead - 8)) d p s o := by
  obtain ⟨hle, htag⟩ := hp'.pad ht
  have hlt := hp.start_lt hc
  have hslt := hp.lt
  have hal := hp.aligned
  have hl8 := lead_dvd p
  have hin := hp'.inside
  obtain ⟨t, hteq⟩ : ∃ t : Nat, (t : Int) = o - p.lead - 8 := ⟨(o - p.lead - 8).toNat, by omega⟩
  have hnat : (o - p.lead - 8).toNat = t := by omega
  have hload : (writeFarPtr c d s (o - p.lead - 8)).load64 d = FAR_PTR + t + s * 2 ^ 32 := by
    rw [writeFarPtr, hnat]
    refine load64_store64_self hd.lt ?_
    simp only [FAR_PTR]
    omega
  generalize writeFarPtr c d s (o - p.lead - 8) = c' at hp' htag hin hload ⊢
  have hword := ptrTag_word hp.shape hp.obj (by decide) htag
  rw [← hteq] at hword
  obtain ⟨hpt, hpads⟩ := hp'.pointee_far hz (t := t) (by omega) (by omega) (by omega) hload hword (by omega)
  refine ⟨hpt, fun b hb x hx => ?_⟩
  rw [hpads] at hb
  rw [List.mem_singleton.mp hb] at hx ⊢
  obtain ⟨-, h1, h2⟩ := hx
  have h1 : (t : Int) ≤ x := h1
  have h2 : x < (t : Int) + 8 := h2
  exact .inl ⟨rfl, by rw [Ptr.pre, if_pos ht]; push_cast; omega, by omega⟩

/-- A pointer to a tag behind what its segment had. -/
theorem linked_pad (hc : Clean c) (hp : Stands c p s o) (hz : ¬ p.emptyStruct) (hd : SlotIn c d) {v : Nat}
    (hv : ptrTag p (o - p.lead - (c.seg s).len - 8) = some v) (hids : c.segs.length ≤ 2 ^ 32)
    (hroom : (c.seg s).len + 8 ≤ (c.seg s).cap)
    (hp' : Stands (bump (writeFarPtr (c.store64 ⟨s, (c.seg s).len⟩ v) d s (c.seg s).len) s 8) p s o) :
    Linked c (bump (writeFarPtr (c.store64 ⟨s, (c.seg s).len⟩ v) d s (c.seg s).len) s 8) d p s o := by
  have hcap := hc.cap s
  have hwords := hc.words s
  have hslt := hp.lt
  have hal := hp.aligned
  have hl8 := lead_dvd p
  have hdin := hd.inside
  have hword := ptrTag_word hp.shape hp.obj (by omega) hv
  have hlen : ((bump (writeFarPtr (c.store64 ⟨s, (c.seg s).len⟩ v) d s (c.seg s).len) s 8).seg s).len =
      (c.seg s).len + 8 := by
    rw [bump_len (by rw [writeFarPtr, Capn.store64, Capn.length_write, Capn.store64, Capn.length_write]; exact hslt),
      writeFarPtr, Capn.store64, Capn.len_write, Capn.store64, Capn.len_write]
  have hload : (bump (writeFarPtr (c.store64 ⟨s, (c.seg s).len⟩ v) d s (c.seg s).len) s 8).load64 d =
      FAR_PTR + (c.seg s).len + s * 2 ^ 32 := by
    rw [load64_bump, writeFarPtr, Int.toNat_natCast]
    refine load64_store64_self ?_ ?_
    · rw [Capn.store64, Capn.length_write]
      exact hd.lt
    · simp only [FAR_PTR]
      omega
  have htag : (bump (writeFarPtr (c.store64 ⟨s, (c.seg s).len⟩ v) d s (c.seg s).len) s 8).load64
      ⟨s, (c.seg s).len⟩ = v := by
    rw [load64_bump, writeFarPtr, load64_store64_ne, load64_store64_self hslt hword.lt]
    intro hs
    left
    show d.off + 8 ≤ ((c.seg s).len : Int)
    rw [← show d.seg = s from hs]
    exact hdin
  rw [← htag] at hword
  obtain ⟨hpt, hpads⟩ := hp'.pointee_far hz hwords (by omega) (by omega) hload hword (by omega)
  refine ⟨hpt, fun b hb x hx => ?_⟩
  rw [hpads] at hb
  rw [List.mem_singleton.mp hb] at hx ⊢
  exact .inr hx.2.1

/-- A pointer to two words behind what their segment had. -/
theorem linked_double (hc : Clean c) (hp : Stands c p s o) (hz : ¬ p.emptyStruct) (hd : SlotIn c d) {c₁ : Capn}
    {r v : Nat} {a : Addr} (hr : Granted c c₁ 16 r a) (hv : ptrTag p 0 = some v) (hids : c₁.segs.length ≤ 2 ^ 32)
    (hp' : Stands (writeDoubleFar ((writeFarPtr c₁ a s (o - p.lead)).store64 (a.add 8) v) d r a.off) p s o) :
    Linked c (writeDoubleFar ((writeFarPtr c₁ a s (o - p.lead)).store64 (a.add 8) v) d r a.off) d p s o := by
  have hlt := hp.start_lt hc
  have hlead := hp.lead
  have hal := hp.aligned
  have hl8 := lead_dvd p
  have hword := ptrTag_word hp.shape hp.obj (by decide) hv
  have hcap := hr.clean.cap r
  have hroom := hr.clean.room r
  have hwords := hc.words r
  have hrlt := hr.lt
  have hslt := hp.lt
  have hsegs := hr.segs
  have hlen := hr.len
  have hdin := hd.inside
  have hdlt := hd.lt
  have ha := hr.addr
  subst ha
  obtain ⟨m, hm⟩ : ∃ m : Nat, (m : Int) = o - p.lead := ⟨(o - p.lead).toNat, by omega⟩
  rw [← hm] at hp' ⊢
  generalize hc' : writeDoubleFar ((writeFarPtr c₁ ⟨r, (c.seg r).len⟩ s m).store64 (Addr.add ⟨r, (c.seg r).len⟩ 8) v) d r
    (c.seg r).len = c' at hp' ⊢
  have hload : c'.load64 d = DOUBLE_PTR + (c.seg r).len + r * 2 ^ 32 := by
    rw [← hc', writeDoubleFar, Int.toNat_natCast]
    refine load64_store64_self ?_ ?_
    · rw [Capn.store64, Capn.length_write, writeFarPtr, Capn.store64, Capn.length_write]
      omega
    · simp only [DOUBLE_PTR]
      omega
  have hfar : c'.load64 ⟨r, (c.seg r).len⟩ = FAR_PTR + m + s * 2 ^ 32 := by
    rw [← hc', writeDoubleFar, load64_store64_ne, load64_store64_ne, writeFarPtr, Int.toNat_natCast]
    · refine load64_store64_self hrlt ?_
      simp only [FAR_PTR]
      omega
    · intro _
      right
      show ((c.seg r).len : Int) + 8 ≤ (c.seg r).len + 8
      exact Int.le_refl _
    · intro hs
      left
      show d.off + 8 ≤ ((c.seg r).len : Int)
      rw [← show d.seg = r from hs]
      exact hdin
  have htag : c'.load64 ⟨r, ((c.seg r).len : Int) + 8⟩ = v := by
    rw [← hc', writeDoubleFar, load64_store64_ne]
    · refine load64_store64_self ?_ hword.lt
      rw [writeFarPtr, Capn.store64, Capn.length_write]
      exact hrlt
    · intro hs
      left
      show d.off + 8 ≤ ((c.seg r).len : Int) + 8
      rw [← show d.seg = r from hs]
      omega
  rw [← htag] at hword
  have hlen' : (c'.seg r).len = (c.seg r).len + 16 := by
    rw [← hc', writeDoubleFar, Capn.store64, Capn.len_write, Capn.store64, Capn.len_write, writeFarPtr, Capn.store64,
      Capn.len_write, hlen]
  have hsegs' : c'.segs.length = c₁.segs.length := by
    rw [← hc', writeDoubleFar, Capn.store64, Capn.length_write, Capn.store64, Capn.length_write, writeFarPtr,
      Capn.store64, Capn.length_write]
  obtain ⟨hpt, hpads⟩ := hp'.pointee_double hz hwords (by omega) (by omega) (by omega) hload hm (by omega) hfar hword
  refine ⟨⟨false, hpt⟩, fun b hb x hx => ?_⟩
  rw [hpads] at hb
  rcases List.mem_cons.mp hb with rfl | hb
  · exact .inr hx.2.1
  · rw [List.mem_singleton.mp hb] at hx ⊢
    have h1 : ((c.seg r).len : Int) + 8 ≤ x := hx.2.1
    exact .inr (by show ((c.seg r).len : Int) ≤ x; omega)

/-- A pointer from another segment. -/
theorem linked_far (hc : Clean c) (hp : Stands c p s o) (hz : ¬ p.emptyStruct) (hd : SlotIn c d)
    (hids : (writePtrFar c d.seg d p s (o - p.lead)).2.segs.length ≤ 2 ^ 32)
    (hp' : Stands (writePtrFar c d.seg d p s (o - p.lead)).2 p s o)
    (hw : (writePtrFar c d.seg d p s (o - p.lead)).1 = 0) :
    Linked c (writePtrFar c d.seg d p s (o - p.lead)).2 d p s o := by
  revert hids hp' hw
  simp only [writePtrFar]
  split
  · rename_i ht
    intro hids hp' _
    rw [writeFarPtr, Capn.store64, Capn.length_write] at hids
    exact linked_tag hc hp hz hd ht hids hp'
  split
  · rename_i hroom
    split
    · rintro _ _ ⟨⟩
    · rename_i c' htag
      obtain ⟨v, hv, rfl⟩ := Option.map_eq_some_iff.mp htag
      intro hids hp' _
      rw [bump, Capn.length_setSeg, writeFarPtr, Capn.store64, Capn.length_write, Capn.store64,
        Capn.length_write] at hids
      exact linked_pad hc hp hz hd hv hids hroom hp'
  split
  · rintro _ _ ⟨⟩
  · rename_i c₁ r a hroom
    have hr := hc.pads hroom
    split
    · rintro _ _ ⟨⟩
    · rename_i c' htag
      obtain ⟨v, hv, rfl⟩ := Option.map_eq_some_iff.mp htag
      intro hids hp' _
      rw [writeDoubleFar, Capn.store64, Capn.length_write, Capn.store64, Capn.length_write, writeFarPtr, Capn.store64,
        Capn.length_write] at hids
      exact linked_double hc hp hz hd hr hv hids hp'

/-- The encoding that `write_ptr` picks for an object. -/
theorem writePtr_pick (hp : Stands c p s o) (hz : ¬ p.emptyStruct) (d : Addr) : writePtr c d.seg d p false =
    if s = d.seg then tagResult c (writePtrTag c d p (o - p.lead - d.off - 8))
    else writePtrFar c d.seg d p s (o - p.lead) := by
  have hlead : (if p.isCompositeList then (8 : Int) else 0) = p.lead := by
    rw [Ptr.lead]
    split <;> rfl
  rw [writePtr, if_neg hp.obj.2.2]
  split
  · exact absurd (by assumption) hp.obj.1
  · rename_i hnone _
    rw [hp.data] at hnone
    cases hnone
  · rename_i hdata _
    cases hp.data.symm.trans hdata
    simp only [hp.seg, hp.shape.1, hlead]
    rw [if_neg (show ¬ (p.type = .STRUCT ∧ p.datasz = 0 ∧ p.ptrs = 0) from hz), if_neg (by decide)]

/-- **The round trip**: a pointer that `write_ptr` stores reads as the object that it was
made for, whatever room the segments have. -/
theorem writePtr_linked (hc : Clean c) (hp : Stands c p s o) (hz : ¬ p.emptyStruct) (hd : SlotIn c d)
    (hfront : ∀ x, Front p s o d.seg x → ¬ Slot d d.seg x) (hids : (writePtr c d.seg d p false).2.segs.length ≤ 2 ^ 32)
    (hw : (writePtr c d.seg d p false).1 = 0) :
    Linked c (writePtr c d.seg d p false).2 d p s o ∧ Stands (writePtr c d.seg d p false).2 p s o := by
  have hp' : Stands (writePtr c d.seg d p false).2 p s o := by
    refine hp.grows (writes_ptr _ _ _ _ _).grows (cleaner_ptr hc hd.inside _ _ _).segs fun k x hx hs => ?_
    obtain ⟨rfl, hs⟩ := hs
    exact hfront x hx ⟨rfl, hs⟩
  refine ⟨?_, hp'⟩
  rw [writePtr_pick hp hz] at hids hw hp' ⊢
  by_cases hs : s = d.seg
  · rw [if_pos hs] at hw hp' ⊢
    exact linked_near hp hz hd hs.symm hp' hw
  · rw [if_neg hs] at hids hw hp' ⊢
    exact linked_far hc hp hz hd hids hp' hw

/-! ## Words without an object -/

theorem applyOffset_some {w : Int} {val : Nat} (hw : toInt32 val / 4 = w) (h0 : 0 ≤ d.off + (w + 1) * 8)
    (h1 : d.off + (w + 1) * 8 ≤ (c.seg s).len) : applyOffset c s d val = some ⟨s, d.off + (w + 1) * 8⟩ := by
  simp only [applyOffset, hw]
  rw [if_neg (by omega)]

/-- A null word reads as null. -/
theorem pointee_zero (hd : SlotIn c d) (h : c.load64 d = 0) :
    pointee c d = some ({ seg := some d.seg, data := some (d.add 8) }, 0) := by
  have hin := hd.inside
  have hpos := hd.pos
  have happly : applyOffset c d.seg d 0 = some (d.add 8) :=
    applyOffset_some (w := 0) (by decide) (by omega) (by omega)
  have hb : boundsOk c (some d.seg) (some (d.add 8)) 0 :=
    boundsOk_iff.mpr ⟨d.seg, d.off + 8, rfl, rfl, by omega, by omega⟩
  simp only [pointee, h, followFar]
  rw [if_neg (by decide), if_neg (by decide)]
  simp only
  rw [if_neg (by decide)]
  simp only [decodeObject, happly]
  rw [if_pos (by decide)]
  simp only [decodeStruct]
  rw [if_neg (by decide)]
  simp only [dataWords, ptrWords, Nat.zero_div, Nat.zero_mod, Nat.zero_mul, Nat.mul_zero, Nat.add_zero, if_pos hb]
  rfl

/-- What a struct without bytes is stored as. -/
theorem pointee_empty (hd : SlotIn c d) (h : c.load64 d = 2 ^ 32 - 4) :
    pointee c d = some ({ type := .STRUCT, seg := some d.seg, data := some d }, 0) := by
  have hin := hd.inside
  have hpos := hd.pos
  have happly : applyOffset c d.seg d (2 ^ 32 - 4) = some d := by
    refine (applyOffset_some (w := -1) (by decide) (by omega) (by omega)).trans ?_
    rw [Int.add_left_neg, Int.zero_mul, Int.add_zero]
  have hb : boundsOk c (some d.seg) (some d) 0 := boundsOk_iff.mpr ⟨d.seg, d.off, rfl, rfl, hpos, by omega⟩
  simp only [pointee, h, followFar]
  rw [if_neg (by decide), if_neg (by decide)]
  simp only
  rw [if_neg (by decide)]
  simp only [decodeObject, happly]
  rw [if_pos (by decide)]
  simp only [decodeStruct]
  rw [if_neg (by decide), if_pos (by decide)]
  rw [show dataWords (2 ^ 32 - 4) = 0 from rfl, show ptrWords (2 ^ 32 - 4) = 0 from rfl]
  simp only [Nat.zero_mul, Nat.mul_zero, Nat.add_zero, if_pos hb]
  rfl

/-- What a capability is stored as. -/
theorem pointee_interface (h : c.load64 d % 2 ^ 32 = OTHER_PTR) :
    ∃ q, pointee c d = some (q, 0) ∧ q.type = .INTERFACE ∧ q.len = toInt32 (c.load64 d / 2 ^ 32) ∧ q.datasz = 0 ∧
      q.ptrs = 0 := by
  simp only [OTHER_PTR] at h
  simp only [pointee, followFar]
  rw [if_neg (by simp only [FAR_PTR]; omega), if_neg (by simp only [DOUBLE_PTR]; omega)]
  simp only
  rw [if_pos (by simp only [OTHER_PTR]; omega), if_neg (by omega)]
  exact ⟨_, rfl, rfl, rfl, rfl, rfl⟩

end

end Capnproto

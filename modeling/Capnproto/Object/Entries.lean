import Capnproto.Object.Content

/-!
# What is left to copy

An entry of the stack stands for pointers, and for bytes if it is a list of elements, that
are still to copy (`SlotPair`, `DataPair`). One iteration takes the first of them
(`slotPair_next`, `slotPair_element`), and a copy that is begun leaves the pointers of its
object (`copyBody_slots`).
-/

namespace Capnproto

/-! ## One part of an entry -/

/-- The entry `e` is for the pointers of the element that the entry of `tc` and `fc` is at. -/
structure IsElement (tc fc : Ptr) (e : Ptr × Ptr) : Prop where
  type : e.1.type = .PTR_LIST
  len : e.1.len = tc.ptrs
  dst : e.1.data = tc.data.map (·.add tc.datasz) ∧ e.1.seg = tc.seg
  src : e.2.data = fc.data.map (·.add tc.datasz) ∧ e.2.seg = fc.seg

section

variable {tc fc : Ptr} {a b : Addr}

theorem slotAt_next (ht : tc.type = .PTR_LIST) (x : Int) :
    tc.SlotAt x ↔ (x = 0 ∧ 0 < tc.len) ∨ (nextEntry (tc, fc)).1.SlotAt (x - 8) := by
  have hnext : nextEntry (tc, fc) = ({ tc.advance 8 with len := tc.len - 1 }, fc.advance 8) :=
    if_neg (by rw [ht]; decide)
  simp only [hnext, Ptr.SlotAt, Ptr.advance, ht]
  constructor
  · rintro ⟨k, hk, rfl⟩
    cases k with
    | zero => exact .inl ⟨rfl, hk⟩
    | succ k => exact .inr ⟨k, by omega, by push_cast; omega⟩
  · rintro (⟨rfl, h0⟩ | ⟨k, hk, hx⟩)
    · exact ⟨0, h0, rfl⟩
    · exact ⟨k + 1, by omega, by push_cast; omega⟩

/-- The pointers of an entry are the one that it is at, and those of the next. -/
theorem slotPair_next (ht : tc.type = .PTR_LIST) :
    SlotPair (tc, fc) a b ↔
      (0 < tc.len ∧ tc.data = some a ∧ fc.data = some b) ∨ SlotPair (nextEntry (tc, fc)) a b := by
  have hd : (nextEntry (tc, fc)).1.data = tc.data.map (·.add 8) ∧ (nextEntry (tc, fc)).2.data = fc.data.map (·.add 8) := by
    have hne : tc.type ≠ .LIST := by rw [ht]; decide
    rw [nextEntry, if_neg hne]
    exact ⟨rfl, rfl⟩
  rw [SlotPair, SlotPair, hd.1, hd.2, pairAt_shift, pairAt_congr (@slotAt_next tc fc ht), pairAt_or]
  refine or_congr_left ⟨?_, ?_⟩
  · rintro ⟨p, q, x, hp, hq, ⟨rfl, h0⟩, rfl, rfl⟩
    refine ⟨h0, hp.trans ?_, hq.trans ?_⟩ <;> simp only [Addr.add, Int.add_zero]
  · rintro ⟨h0, hp, hq⟩
    refine ⟨a, b, 0, hp, hq, ⟨rfl, h0⟩, ?_, ?_⟩ <;> simp only [Addr.add, Int.add_zero]

theorem nextEntry_list (ht : tc.type = .LIST) (hs : fc.datasz = tc.datasz) (hp : fc.ptrs = tc.ptrs) :
    nextEntry (tc, fc) = ({ tc.advance (tc.datasz + 8 * tc.ptrs) with len := tc.len - 1 },
      fc.advance (tc.datasz + 8 * tc.ptrs)) := by
  rw [nextEntry, if_pos ht, hs, hp]

theorem slotAt_element {e : Ptr × Ptr} (he : IsElement tc fc e) (ht : tc.type = .LIST) (h0 : 0 < tc.len) {q : Ptr}
    (hq : q.type = .LIST ∧ q.len = tc.len - 1 ∧ q.datasz = tc.datasz ∧ q.ptrs = tc.ptrs) (x : Int) :
    tc.SlotAt x ↔ e.1.SlotAt (x - tc.datasz) ∨ q.SlotAt (x - (tc.datasz + 8 * tc.ptrs)) := by
  obtain ⟨hqt, hql, hqd, hqp⟩ := hq
  simp only [Ptr.SlotAt, ht, he.type, he.len, hqt, hql, hqd, hqp]
  constructor
  · rintro ⟨m, k, hm, hk, rfl⟩
    cases m with
    | zero => exact .inl ⟨k, by omega, by push_cast; ring⟩
    | succ m => exact .inr ⟨m, k, by omega, hk, by push_cast; ring⟩
  · rintro (⟨k, hk, hx⟩ | ⟨m, k, hm, hk, hx⟩)
    · exact ⟨0, k, h0, by omega, by push_cast; omega⟩
    · refine ⟨m + 1, k, by omega, hk, ?_⟩
      rw [sub_eq_iff_eq_add.mp hx]
      push_cast
      ring

/-- The pointers of a list of elements are those of the element that it is at, and those of
the next. -/
theorem slotPair_element {e : Ptr × Ptr} (he : IsElement tc fc e) (ht : tc.type = .LIST) (h0 : 0 < tc.len)
    (hs : fc.datasz = tc.datasz) (hp : fc.ptrs = tc.ptrs) :
    SlotPair (tc, fc) a b ↔ SlotPair e a b ∨ SlotPair (nextEntry (tc, fc)) a b := by
  rw [nextEntry_list ht hs hp, SlotPair, SlotPair, SlotPair, he.dst.1, he.src.1]
  simp only [Ptr.advance]
  rw [pairAt_shift, pairAt_shift, ← pairAt_or]
  refine pairAt_congr fun x => slotAt_element he ht h0 ?_ x
  exact ⟨ht, rfl, rfl, rfl⟩

theorem dataAt_element (ht : tc.type = .LIST) (h0 : 0 < tc.len) {q : Ptr}
    (hq : q.type = .LIST ∧ q.len = tc.len - 1 ∧ q.datasz = tc.datasz ∧ q.ptrs = tc.ptrs) (x : Int) :
    tc.DataAt x ↔ (0 ≤ x ∧ x < tc.datasz) ∨ q.DataAt (x - (tc.datasz + 8 * tc.ptrs)) := by
  obtain ⟨hqt, hql, hqd, hqp⟩ := hq
  simp only [Ptr.DataAt, ht, hqt, hql, hqd, hqp]
  constructor
  · rintro ⟨m, n, hm, hn, rfl⟩
    cases m with
    | zero => exact .inl (by push_cast; omega)
    | succ m => exact .inr ⟨m, n, by omega, hn, by push_cast; ring⟩
  · rintro (⟨h1, h2⟩ | ⟨m, n, hm, hn, hx⟩)
    · exact ⟨0, x.toNat, h0, by omega, by push_cast; omega⟩
    · refine ⟨m + 1, n, by omega, hn, ?_⟩
      rw [sub_eq_iff_eq_add.mp hx]
      push_cast
      ring

/-- The bytes of a list of elements. -/
theorem dataPair_element (ht : tc.type = .LIST) (h0 : 0 < tc.len) (hs : fc.datasz = tc.datasz) (hp : fc.ptrs = tc.ptrs) :
    DataPair (tc, fc) a b ↔
      PairAt (fun x => 0 ≤ x ∧ x < tc.datasz) tc.data fc.data a b ∨ DataPair (nextEntry (tc, fc)) a b := by
  rw [nextEntry_list ht hs hp, DataPair, DataPair]
  simp only [Ptr.advance]
  rw [pairAt_shift, ← pairAt_or]
  refine pairAt_congr fun x => dataAt_element ht h0 ?_ x
  exact ⟨ht, rfl, rfl, rfl⟩

/-- Pointers alone have no bytes of data. -/
theorem dataPair_ptrs {e : Ptr × Ptr} (ht : e.1.type = .PTR_LIST) : ¬ DataPair e a b := by
  rintro ⟨p, q, x, -, -, hx, -⟩
  simp only [Ptr.DataAt, ht] at hx

end

/-! ## A copy that is begun -/

section

variable {w : World} {i j : Nat} {t f : Ptr} {a b : Addr}

theorem slotAt_struct {q : Ptr} (ht : t.type = .STRUCT) (hq : q.type = .PTR_LIST) (hl : q.len = t.ptrs) (x : Int) :
    t.SlotAt x ↔ q.SlotAt (x - t.datasz) := by
  simp only [Ptr.SlotAt, ht, hq, hl]
  constructor
  · rintro ⟨k, hk, rfl⟩
    exact ⟨k, by omega, by omega⟩
  · rintro ⟨k, hk, hx⟩
    exact ⟨k, by omega, by omega⟩

/-- The pointers of a list of elements without data are one list. -/
theorem slotAt_flat {q : Ptr} (ht : t.type = .LIST) (hd : t.datasz = 0) (hlen : 0 ≤ t.len) (hp : t.ptrs ≠ 0)
    (hq : q.type = .PTR_LIST) (hl : q.len = t.len * t.ptrs) (x : Int) : t.SlotAt x ↔ q.SlotAt x := by
  simp only [Ptr.SlotAt, ht, hq, hl, hd]
  have hnat : t.len * t.ptrs = ((t.len.toNat * t.ptrs : Nat) : Int) := by
    rw [Nat.cast_mul, Int.toNat_of_nonneg hlen]
  rw [hnat]
  constructor
  · rintro ⟨m, k, hm, hk, rfl⟩
    refine ⟨m * t.ptrs + k, ?_, by push_cast; ring⟩
    have := element_room (l := t.len) (w := t.ptrs) (x := k) (n := 1) hm (by omega)
    omega
  · rintro ⟨k, hk, rfl⟩
    have hk : k < t.len.toNat * t.ptrs := by omega
    refine ⟨k / t.ptrs, k % t.ptrs, ?_, Nat.mod_lt _ (Nat.pos_of_ne_zero hp), ?_⟩
    · have := Nat.div_lt_of_lt_mul (Nat.mul_comm _ _ ▸ hk)
      omega
    · have := Nat.div_add_mod k t.ptrs
      have h : (8 : Int) * (k : Int) = 8 * ((t.ptrs * (k / t.ptrs) + k % t.ptrs : Nat) : Int) := by rw [this]
      rw [h]
      push_cast
      ring

/-- What a copy that is begun leaves to do are the pointers of its object. -/
theorem copyBody_slots (hlen : 0 ≤ t.len) :
    SlotPair (t, f) a b ↔ ∃ e, (copyBody w i j t f).push = some e ∧ SlotPair e a b := by
  have hnone : (copyBody w i j t f).push = none → (∀ x, ¬ t.SlotAt x) →
      (SlotPair (t, f) a b ↔ ∃ e, (copyBody w i j t f).push = some e ∧ SlotPair e a b) := by
    intro hn hno
    rw [hn]
    refine iff_of_false ?_ ?_
    · rintro ⟨p, q, x, -, -, hx, -⟩
      exact hno x hx
    · rintro ⟨e, he, -⟩
      cases he
  have hsome : ∀ e, (copyBody w i j t f).push = some e → (SlotPair (t, f) a b ↔ SlotPair e a b) →
      (SlotPair (t, f) a b ↔ ∃ e, (copyBody w i j t f).push = some e ∧ SlotPair e a b) := by
    intro e he h
    rw [he, h]
    simp only [Option.some.injEq, exists_eq_left']
  cases ht : t.type with
  | STRUCT =>
    by_cases hp : t.ptrs ≠ 0
    · have hpush : (copyBody w i j t f).push =
          some ({ t.advance t.datasz with type := .PTR_LIST, len := t.ptrs }, f.advance t.datasz) := by
        simp only [copyBody, ht]
        rw [if_pos (show (t.advance t.datasz).ptrs ≠ 0 from hp)]
        rfl
      refine hsome _ hpush ?_
      rw [SlotPair, SlotPair]
      simp only [Ptr.advance]
      rw [pairAt_shift]
      exact pairAt_congr (slotAt_struct ht rfl rfl)
    · refine hnone ?_ fun x hx => ?_
      · simp only [copyBody, ht]
        rw [if_neg (show ¬ (t.advance t.datasz).ptrs ≠ 0 from hp)]
      · simp only [Ptr.SlotAt, ht] at hx
        obtain ⟨k, hk, -⟩ := hx
        omega
  | PTR_LIST =>
    by_cases hl : t.len ≠ 0
    · exact hsome (t, f) (by simp only [copyBody, ht]; rw [if_pos hl]) .rfl
    · refine hnone (by simp only [copyBody, ht]; rw [if_neg hl]) fun x hx => ?_
      simp only [Ptr.SlotAt, ht] at hx
      obtain ⟨k, hk, -⟩ := hx
      omega
  | LIST =>
    by_cases h0 : t.len = 0
    · refine hnone (by simp only [copyBody, ht]; rw [if_pos h0]) fun x hx => ?_
      simp only [Ptr.SlotAt, ht] at hx
      obtain ⟨m, -, hm, -, -⟩ := hx
      omega
    by_cases hp : t.ptrs = 0
    · refine hnone ?_ fun x hx => ?_
      · simp only [copyBody, ht]
        rw [if_neg h0, if_neg (by omega)]
        split
        · rfl
        · rw [if_neg (by omega)]
      · simp only [Ptr.SlotAt, ht] at hx
        obtain ⟨-, k, -, hk, -⟩ := hx
        omega
    by_cases hd : t.datasz = 0
    · refine hsome ({ t with type := .PTR_LIST, len := t.len * t.ptrs }, f) ?_
        (pairAt_congr (slotAt_flat ht hd hlen hp rfl rfl))
      simp only [copyBody, ht]
      rw [if_neg h0, if_neg (by omega), if_neg (by omega), if_pos hp]
    · refine hsome (t, f) ?_ .rfl
      simp only [copyBody, ht]
      rw [if_neg h0, if_pos (by omega)]
  | BIT_LIST =>
    refine hnone ?_ fun x hx => by simp only [Ptr.SlotAt, ht] at hx
    simp only [copyBody, ht]
    split
    · split <;> rfl
    · rfl
  | NULL => exact hnone (by simp only [copyBody, ht]) fun x hx => by simp only [Ptr.SlotAt, ht] at hx
  | FAR_POINTER => exact hnone (by simp only [copyBody, ht]) fun x hx => by simp only [Ptr.SlotAt, ht] at hx
  | INTERFACE => exact hnone (by simp only [copyBody, ht]) fun x hx => by simp only [Ptr.SlotAt, ht] at hx

/-- What an entry of the stack can be: pointers, or elements with data and pointers. -/
def EntryShape (e : Ptr × Ptr) : Prop :=
  0 ≤ e.1.len ∧ (e.1.type = .PTR_LIST ∨
    e.1.type = .LIST ∧ e.2.type = .LIST ∧ e.2.datasz = e.1.datasz ∧ e.2.ptrs = e.1.ptrs ∧ 8 ∣ e.1.datasz ∧
      e.1.ptrs ≠ 0 ∧ 0 < e.2.len)

/-- The entry `e` is for a part of the copy `t` of `f`, from `n` on. -/
structure PartOf (t f : Ptr) (e : Ptr × Ptr) (n : Nat) : Prop where
  shape : EntryShape e
  dst : e.1.data = t.data.map (·.add n) ∧ e.1.seg = t.seg
  src : e.2.data = f.data.map (·.add n) ∧ e.2.seg = f.seg
  aligned : 8 ∣ n
  room : n + e.1.extent ≤ t.extent
  data : ∀ a b, DataPair e a b → DataPair (t, f) a b

/-- The bytes that a copy gets at once. -/
def Ptr.bodyBytes (t : Ptr) : Nat :=
  match t.type with
  | .STRUCT | .BIT_LIST => t.datasz
  | .LIST => if t.ptrs = 0 then t.len.toNat * t.datasz else 0
  | _ => 0

theorem advance_zero_data (p : Ptr) : p.data = p.data.map (·.add ((0 : Nat) : Int)) := by
  simp only [Addr.add, Nat.cast_zero, Int.add_zero, Option.map_id']

/-- What is pushed is behind the bytes that are copied at once. -/
theorem copyBody_part (hsh : t.Shape) (hf : f.type = t.type ∧ f.len = t.len ∧ f.datasz = t.datasz ∧ f.ptrs = t.ptrs)
    {e : Ptr × Ptr} (h : (copyBody w i j t f).push = some e) : ∃ n, PartOf t f e n ∧ t.bodyBytes ≤ n := by
  obtain ⟨hft, hfl, hfd, hfp⟩ := hf
  obtain ⟨-, hlen, hsh⟩ := hsh
  cases ht : t.type with
  | STRUCT =>
    simp only [ht] at hsh
    simp only [copyBody, ht] at h
    split at h
    · rename_i hp
      cases h
      refine ⟨t.datasz, ⟨⟨Int.natCast_nonneg _, .inl rfl⟩, ⟨rfl, rfl⟩, ⟨rfl, rfl⟩, hsh.2.1, ?_,
        fun a b h => absurd h (dataPair_ptrs rfl)⟩, ?_⟩
      · simp only [Ptr.extent, ht, Int.toNat_natCast]
        exact Nat.le_refl _
      · simp only [Ptr.bodyBytes, ht]
        exact Nat.le_refl _
    · cases h
  | PTR_LIST =>
    simp only [copyBody, ht] at h
    split at h
    · cases h
      refine ⟨0, ⟨⟨hlen, .inl ht⟩, ⟨advance_zero_data _, rfl⟩, ⟨advance_zero_data _, rfl⟩, by decide,
        Nat.le_of_eq (Nat.zero_add _), fun a b h => h⟩, ?_⟩
      simp only [Ptr.bodyBytes, ht]
      exact Nat.le_refl _
    · cases h
  | LIST =>
    simp only [ht] at hsh
    simp only [copyBody, ht] at h
    split at h
    · cases h
    rename_i h0
    have hbytes : t.ptrs ≠ 0 → t.bodyBytes = 0 := by
      intro hp
      simp only [Ptr.bodyBytes, ht, if_neg hp]
    split at h
    · rename_i hboth
      cases h
      have h8 : 8 ∣ t.datasz := by
        split at hsh
        · exact hsh.1
        · exact absurd hsh.2.1 hboth.1
      refine ⟨0, ⟨⟨hlen, .inr ⟨ht, hft.trans ht, hfd, hfp, h8, hboth.1, ?_⟩⟩, ⟨advance_zero_data _, rfl⟩,
        ⟨advance_zero_data _, rfl⟩, by decide, Nat.le_of_eq (Nat.zero_add _), fun a b h => h⟩, ?_⟩
      · show 0 < f.len
        omega
      rw [hbytes hboth.1]
    split at h
    · cases h
    rename_i hd
    split at h
    · rename_i hp
      cases h
      refine ⟨0, ⟨⟨Int.mul_nonneg hlen (Int.natCast_nonneg _), .inl rfl⟩, ⟨advance_zero_data _, rfl⟩,
        ⟨advance_zero_data _, rfl⟩, by decide, ?_, fun a b h => absurd h (dataPair_ptrs rfl)⟩, ?_⟩
      · simp only [Ptr.extent, ht]
        have hnat : t.len * t.ptrs = ((t.len.toNat * t.ptrs : Nat) : Int) := by
          rw [Nat.cast_mul, Int.toNat_of_nonneg hlen]
        rw [hnat, Int.toNat_natCast, Nat.zero_add, not_not.mp hd, Nat.zero_add, Nat.mul_left_comm]
      · rw [hbytes hp]
    · cases h
  | BIT_LIST =>
    simp only [copyBody, ht] at h
    split at h
    · split at h <;> cases h
    · cases h
  | NULL => simp only [copyBody, ht, reduceCtorEq] at h
  | FAR_POINTER => simp only [copyBody, ht, reduceCtorEq] at h
  | INTERFACE => simp only [copyBody, ht, reduceCtorEq] at h

theorem write_nil (c : Capn) (a : Addr) : c.write a [] = c := by
  have hid : (fun s : Segment => { s with data := s.data.write a.off [] }) = id := by
    funext s
    rw [Mem.write_nil]
    rfl
  rw [Capn.write, hid, Capn.setSeg, List.modify_id]

theorem memcpy_zero (w : World) (i : Nat) (dst : Option Addr) (j : Nat) (src : Option Addr) :
    memcpy w i dst j src 0 = w := by
  unfold memcpy
  split
  · rename_i d s
    rw [show (w j).read s 0 = [] from rfl, write_nil, World.set_eq]
  · rfl

theorem memzero_zero (w : World) (i : Nat) (dst : Option Addr) : memzero w i dst 0 = w := by
  unfold memzero
  split
  · rw [List.replicate_zero, write_nil, World.set_eq]
  · rfl

/-- A copy that is begun gets the bytes of its object, but for those of elements that have
pointers, too. -/
theorem copyBody_world (hobj : t.IsObject) (hlen : 0 ≤ t.len) (hb : ¬ (t.type = .BIT_LIST ∧ f.isListMember = true)) :
    (copyBody w i j t f).world = memcpy w i t.data j f.data t.bodyBytes ∧ (copyBody w i j t f).ret = 0 := by
  cases ht : t.type with
  | STRUCT =>
    have hm : (if t.datasz ≠ 0 then memcpy w i t.data j f.data t.datasz else w) =
        memcpy w i t.data j f.data t.datasz := by
      split
      · rfl
      · rename_i h0
        rw [not_not.mp h0, memcpy_zero]
    simp only [copyBody, ht, Ptr.bodyBytes, hm]
    split <;> exact ⟨rfl, rfl⟩
  | PTR_LIST =>
    simp only [copyBody, ht, Ptr.bodyBytes, memcpy_zero]
    split <;> exact ⟨rfl, rfl⟩
  | LIST =>
    simp only [copyBody, ht, Ptr.bodyBytes]
    split
    · rename_i h0
      rw [h0, Int.toNat_zero, Nat.zero_mul, ite_self, memcpy_zero]
      exact ⟨rfl, rfl⟩
    split
    · rename_i hboth
      rw [if_neg hboth.1, memcpy_zero]
      exact ⟨rfl, rfl⟩
    rename_i hboth
    split
    · rename_i hd
      have hnat : t.len * t.datasz = ((t.len.toNat * t.datasz : Nat) : Int) := by
        rw [Nat.cast_mul, Int.toNat_of_nonneg hlen]
      rw [if_pos (by by_contra hp; exact hboth ⟨hp, hd⟩), hnat, Int.toNat_natCast]
      exact ⟨rfl, rfl⟩
    rename_i hd
    rw [not_not.mp hd, Nat.mul_zero, ite_self, memcpy_zero]
    split <;> exact ⟨rfl, rfl⟩
  | BIT_LIST =>
    have hm : ¬ f.isListMember = true := fun h => hb ⟨ht, h⟩
    simp only [copyBody, ht, Ptr.bodyBytes]
    rw [if_neg hm]
    exact ⟨rfl, rfl⟩
  | NULL => exact absurd ht hobj.1
  | FAR_POINTER => exact absurd ht hobj.2.1
  | INTERFACE => exact absurd ht hobj.2.2

/-- The bytes of an object are copied at once, or with its elements. -/
theorem copyBody_bytes (hsh : t.Shape) {x : Int} (hx : t.DataAt x) :
    (0 ≤ x ∧ x < t.bodyBytes) ∨ (copyBody w i j t f).push = some (t, f) := by
  obtain ⟨-, hlen, hsh⟩ := hsh
  cases ht : t.type <;> simp only [Ptr.DataAt, ht] at hx
  · simp only [Ptr.bodyBytes, ht]
    exact .inl hx
  · obtain ⟨m, n, hm, hn, rfl⟩ := hx
    by_cases hp : t.ptrs = 0
    · have := element_room (l := t.len) (w := t.datasz) (x := n) (n := 1) hm (by omega)
      left
      simp only [Ptr.bodyBytes, ht, hp, if_true, Nat.cast_zero, Int.mul_zero, Int.add_zero]
      have hxn : (m : Int) * t.datasz + n = ((m * t.datasz + n : Nat) : Int) := by push_cast; ring
      rw [hxn]
      omega
    · right
      simp only [copyBody, ht]
      rw [if_neg (by omega), if_pos (by omega)]
  · simp only [Ptr.bodyBytes, ht]
    exact .inl hx

end

end Capnproto

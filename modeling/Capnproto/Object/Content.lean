import Capnproto.Object.Clone

/-!
# What an object holds

The bytes and the pointers of an object by their places in it (`DataAt`, `SlotAt`), and
what it is for two objects of two sessions to hold the same (`SameContent`): the same
bytes, and pointers to objects that hold the same in turn, cycles included.
-/

namespace Capnproto

/-! ## Places in an object -/

/-- The bytes of data of an object, from `data`. -/
def Ptr.DataAt (p : Ptr) (x : Int) : Prop :=
  match p.type with
  | .STRUCT | .BIT_LIST => 0 ≤ x ∧ x < p.datasz
  | .LIST => ∃ m n : Nat, (m : Int) < p.len ∧ n < p.datasz ∧ x = m * (p.datasz + 8 * p.ptrs) + n
  | _ => False

/-- The pointers of an object, from `data`. -/
def Ptr.SlotAt (p : Ptr) (x : Int) : Prop :=
  match p.type with
  | .STRUCT => ∃ k : Nat, k < p.ptrs ∧ x = p.datasz + 8 * k
  | .PTR_LIST => ∃ k : Nat, (k : Int) < p.len ∧ x = 8 * k
  | .LIST => ∃ m k : Nat, (m : Int) < p.len ∧ k < p.ptrs ∧ x = m * (p.datasz + 8 * p.ptrs) + (p.datasz + 8 * k)
  | _ => False

/-- The places `a` and `b` are as far from `p` and `q`, by one of `S`. -/
def PairAt (S : Int → Prop) (p q : Option Addr) (a b : Addr) : Prop :=
  ∃ p' q' x, p = some p' ∧ q = some q' ∧ S x ∧ a = p'.add x ∧ b = q'.add x

/-- The byte `a` of one object is at the place of the byte `b` of the other. -/
def DataPair (e : Ptr × Ptr) : Addr → Addr → Prop := PairAt e.1.DataAt e.1.data e.2.data

/-- The pointer `a` of one object is at the place of the pointer `b` of the other. -/
def SlotPair (e : Ptr × Ptr) : Addr → Addr → Prop := PairAt e.1.SlotAt e.1.data e.2.data

/-- The byte at an address. -/
def Capn.byte (c : Capn) (a : Addr) : UInt8 := (c.seg a.seg).data a.off

/-- The bit `n` of a bit list, or of a member of one. -/
def Capn.bitOf (c : Capn) (p : Ptr) (n : Nat) : Bool :=
  match p.data with
  | none => false
  | some a => (c.byte (a.add ((p.ptrs + n) / 8 : Nat))).toNat.testBit ((p.ptrs + n) % 8)

/-! ## The same content -/

/-- The slot `a` points to what `R` relates to what the slot `b` points to; what cannot be
read there reads as null. -/
def SamePointer (R : Ptr → Ptr → Prop) (c : Capn) (a : Addr) (c' : Capn) (b : Addr) : Prop :=
  ∃ t cost, pointee c a = some (t, cost) ∧
    match pointee c' b with
    | none => t.type = .NULL
    | some (q, _) => R t q

/-- The object `t` of `c` holds what the object `q` of `c'` does, up to `R` for what its
pointers point to. -/
structure SameNode (R : Ptr → Ptr → Prop) (c : Capn) (t : Ptr) (c' : Capn) (q : Ptr) : Prop where
  type : t.type = q.type
  len : t.len = q.len
  sizes : q.type ≠ .BIT_LIST → t.datasz = q.datasz ∧ t.ptrs = q.ptrs
  data : q.type ≠ .BIT_LIST → ∀ a b, DataPair (t, q) a b → c.byte a = c'.byte b
  bits : q.type = .BIT_LIST → ∀ n : Nat, (n : Int) < q.len → c.bitOf t n = c'.bitOf q n
  slots : ∀ a b, SlotPair (t, q) a b → SamePointer R c a c' b

/-- The object `t` of `c` holds what `q` of `c'` does, all the way down. -/
def SameContent (c : Capn) (t : Ptr) (c' : Capn) (q : Ptr) : Prop :=
  ∃ R : Ptr → Ptr → Prop, R t q ∧ ∀ t q, R t q → SameNode R c t c' q

/-! ## Lemmas -/

theorem pairAt_shift {S : Int → Prop} {p q : Option Addr} {n : Int} {a b : Addr} :
    PairAt S (p.map (·.add n)) (q.map (·.add n)) a b ↔ PairAt (fun x => S (x - n)) p q a b := by
  constructor
  · rintro ⟨p', q', x, hp, hq, hx, rfl, rfl⟩
    obtain ⟨p, rfl, rfl⟩ := Option.map_eq_some_iff.mp hp
    obtain ⟨q, rfl, rfl⟩ := Option.map_eq_some_iff.mp hq
    refine ⟨p, q, n + x, rfl, rfl, ?_, Addr.add_add _ _ _, Addr.add_add _ _ _⟩
    show S (n + x - n)
    rwa [add_sub_cancel_left]
  · rintro ⟨p, q, x, rfl, rfl, hx, rfl, rfl⟩
    refine ⟨p.add n, q.add n, x - n, rfl, rfl, hx, ?_, ?_⟩
    · rw [Addr.add_add, add_sub_cancel]
    · rw [Addr.add_add, add_sub_cancel]

theorem pairAt_or {S T : Int → Prop} {p q : Option Addr} {a b : Addr} :
    PairAt (fun x => S x ∨ T x) p q a b ↔ PairAt S p q a b ∨ PairAt T p q a b := by
  constructor
  · rintro ⟨p', q', x, hp, hq, hx | hx, ha, hb⟩
    · exact .inl ⟨p', q', x, hp, hq, hx, ha, hb⟩
    · exact .inr ⟨p', q', x, hp, hq, hx, ha, hb⟩
  · rintro (⟨p', q', x, hp, hq, hx, ha, hb⟩ | ⟨p', q', x, hp, hq, hx, ha, hb⟩)
    · exact ⟨p', q', x, hp, hq, .inl hx, ha, hb⟩
    · exact ⟨p', q', x, hp, hq, .inr hx, ha, hb⟩

theorem pairAt_congr {S T : Int → Prop} (h : ∀ x, S x ↔ T x) {p q : Option Addr} {a b : Addr} :
    PairAt S p q a b ↔ PairAt T p q a b := by
  rw [funext fun x => propext (h x)]

theorem slotOf_iff {f : Ptr} {a : Addr} : SlotOf f a ↔ ∃ b x, f.data = some b ∧ f.SlotAt x ∧ a = b.add x := by
  constructor
  · rintro ⟨b, hb, h⟩
    cases ht : f.type <;> simp only [ht] at h
    · obtain ⟨k, hk, rfl⟩ := h
      exact ⟨b, _, hb, by simp only [Ptr.SlotAt, ht]; exact ⟨k, hk, rfl⟩, rfl⟩
    · obtain ⟨m, k, hm, hk, rfl⟩ := h
      exact ⟨b, _, hb, by simp only [Ptr.SlotAt, ht]; exact ⟨m, k, hm, hk, rfl⟩, rfl⟩
    · obtain ⟨k, hk, rfl⟩ := h
      exact ⟨b, _, hb, by simp only [Ptr.SlotAt, ht]; exact ⟨k, hk, rfl⟩, rfl⟩
  · rintro ⟨b, x, hb, h, rfl⟩
    refine ⟨b, hb, ?_⟩
    cases ht : f.type <;> simp only [Ptr.SlotAt, ht] at h ⊢
    · obtain ⟨k, hk, rfl⟩ := h
      exact ⟨k, hk, rfl⟩
    · obtain ⟨m, k, hm, hk, rfl⟩ := h
      exact ⟨m, k, hm, hk, rfl⟩
    · obtain ⟨k, hk, rfl⟩ := h
      exact ⟨k, hk, rfl⟩

/-- The part of an element of a list lies inside the list. -/
theorem element_room {l : Int} {m w x n : Nat} (hm : (m : Int) < l) (hx : x + n ≤ w) :
    m * w + x + n ≤ l.toNat * w := by
  have h : (m + 1) * w ≤ l.toNat * w := Nat.mul_le_mul_right _ (by omega)
  rw [Nat.add_mul, Nat.one_mul] at h
  omega

theorem SlotAt.inside {p : Ptr} {x : Int} (h : p.SlotAt x) : 0 ≤ x ∧ x + 8 ≤ p.extent := by
  cases ht : p.type <;> simp only [Ptr.SlotAt, ht] at h
  · obtain ⟨k, hk, rfl⟩ := h
    simp only [Ptr.extent, ht]
    omega
  · obtain ⟨m, k, hm, hk, rfl⟩ := h
    have := element_room (l := p.len) (w := p.datasz + 8 * p.ptrs) (x := p.datasz + 8 * k) (n := 8) hm (by omega)
    have hx : (m : Int) * (p.datasz + 8 * p.ptrs) + (p.datasz + 8 * k) =
        ((m * (p.datasz + 8 * p.ptrs) + (p.datasz + 8 * k) : Nat) : Int) := by push_cast; ring
    simp only [Ptr.extent, ht, hx]
    omega
  · obtain ⟨k, hk, rfl⟩ := h
    simp only [Ptr.extent, ht]
    omega

theorem DataAt.inside {p : Ptr} {x : Int} (h : p.DataAt x) (hb : p.type = .BIT_LIST → p.datasz ≤ p.extent) :
    0 ≤ x ∧ x < p.extent := by
  cases ht : p.type <;> simp only [Ptr.DataAt, ht] at h
  · simp only [Ptr.extent, ht]
    omega
  · obtain ⟨m, n, hm, hn, rfl⟩ := h
    have := element_room (l := p.len) (w := p.datasz + 8 * p.ptrs) (x := n) (n := 1) hm (by omega)
    have hx : (m : Int) * (p.datasz + 8 * p.ptrs) + n = ((m * (p.datasz + 8 * p.ptrs) + n : Nat) : Int) := by
      push_cast
      ring
    simp only [Ptr.extent, ht, hx]
    omega
  · have := hb ht
    omega

end Capnproto

import Mathlib.Data.List.GetD
import Mathlib.Tactic.Ring

/-!
# Little-endian numbers and byte memories

`le` and `toLe` are the number of a byte string and the byte string of a
number. A `Mem` is a memory of bytes addressed by integers; `read` and `write`
move byte strings, `load64` and `store64` words. What a memory holds after a
write is given by `read_write_same` and `read_write_disjoint`.
-/

namespace Capnproto

/-! ## Little-endian numbers -/

/-- The number of a byte string, least significant byte first. -/
def le : List UInt8 → Nat
  | [] => 0
  | b :: bs => b.toNat + 256 * le bs

/-- The `k` low bytes of a number, least significant first. -/
def toLe : Nat → Nat → List UInt8
  | 0, _ => []
  | k + 1, n => UInt8.ofNat n :: toLe k (n / 256)

@[simp] theorem length_toLe (k n : Nat) : (toLe k n).length = k := by
  induction k generalizing n with
  | zero => rfl
  | succ k ih => rw [toLe, List.length_cons, ih]

theorem le_lt (bs : List UInt8) : le bs < 256 ^ bs.length := by
  induction bs with
  | nil => exact Nat.one_pos
  | cons b bs ih =>
    have hb := b.toNat_lt
    simp only [le, List.length_cons, Nat.pow_succ]
    omega

theorem le_toLe (k n : Nat) : le (toLe k n) = n % 256 ^ k := by
  induction k generalizing n with
  | zero => simp [toLe, le, Nat.mod_one]
  | succ k ih =>
    rw [toLe, le, ih, Nat.pow_succ', Nat.mod_mul]
    simp

theorem toLe_le (bs : List UInt8) : toLe bs.length (le bs) = bs := by
  induction bs with
  | nil => rfl
  | cons b bs ih =>
    have hb := b.toNat_lt
    have hd : (b.toNat + 256 * le bs) / 256 = le bs := by omega
    have hm : UInt8.ofNat (b.toNat + 256 * le bs) = b := by
      apply UInt8.toNat_inj.mp
      rw [UInt8.toNat_ofNat']
      omega
    rw [le, List.length_cons, toLe, hd, ih, hm]

/-- Byte strings of one length with the same number are the same. -/
theorem le_inj {as bs : List UInt8} (hl : as.length = bs.length) (h : le as = le bs) : as = bs := by
  rw [← toLe_le as, ← toLe_le bs, hl, h]

theorem le_replicate_zero (n : Nat) : le (List.replicate n 0) = 0 := by
  induction n with
  | zero => rfl
  | succ n ih => simp [List.replicate_succ, le, ih]

/-! ## Memories -/

/-- A memory of bytes. -/
abbrev Mem := Int → UInt8

namespace Mem

/-- A memory of zeros. -/
def zero : Mem := fun _ => 0

/-- The memory that holds `bs` from address 0, and zeros elsewhere. -/
def ofList (bs : List UInt8) : Mem := fun o => if 0 ≤ o then bs.getD o.toNat 0 else 0

/-- The `n` bytes from `o`. -/
def read (m : Mem) (o : Int) : Nat → List UInt8
  | 0 => []
  | n + 1 => m o :: read m (o + 1) n

/-- `memcpy` of `bs` to `o`. -/
def write (m : Mem) (o : Int) (bs : List UInt8) : Mem := fun x =>
  if o ≤ x ∧ x < o + bs.length then bs.getD (x - o).toNat 0 else m x

/-- The little-endian word at `o`. -/
def load64 (m : Mem) (o : Int) : Nat := le (m.read o 8)

/-- Stores a little-endian word at `o`. -/
def store64 (m : Mem) (o : Int) (v : Nat) : Mem := m.write o (toLe 8 v)

@[simp] theorem length_read (m : Mem) (o : Int) (n : Nat) : (m.read o n).length = n := by
  induction n generalizing o with
  | zero => rfl
  | succ n ih => rw [read, List.length_cons, ih]

theorem getElem_read (m : Mem) (o : Int) {n i : Nat} (h : i < (m.read o n).length) :
    (m.read o n)[i] = m (o + i) := by
  induction n generalizing o i with
  | zero => exact absurd h (by simp [read])
  | succ n ih =>
    match i with
    | 0 => simp [read]
    | i + 1 =>
      simp only [read, List.getElem_cons_succ]
      rw [ih]
      congr 1
      push_cast
      omega

theorem read_congr {m m' : Mem} {o o' : Int} {n : Nat}
    (h : ∀ i < n, m (o + i) = m' (o' + i)) : m.read o n = m'.read o' n := by
  refine List.ext_getElem (by simp) fun i h₁ h₂ => ?_
  rw [getElem_read, getElem_read]
  exact h i (by simpa using h₁)

/-- What it takes for a string of bytes to be read at `o`. -/
theorem read_eq_iff {m : Mem} {o : Int} {bs : List UInt8} :
    m.read o bs.length = bs ↔ ∀ i (h : i < bs.length), m (o + i) = bs[i] := by
  constructor
  · intro h i hi
    rw [← getElem_read m o (by simpa using hi)]
    exact List.getElem_of_eq h _
  · intro h
    refine List.ext_getElem (by simp) fun i h₁ h₂ => ?_
    rw [getElem_read]
    exact h i h₂

theorem read_add (m : Mem) (o : Int) (a b : Nat) :
    m.read o (a + b) = m.read o a ++ m.read (o + a) b := by
  induction a generalizing o with
  | zero => simp [read]
  | succ a ih =>
    rw [Nat.add_right_comm, read, read, ih, List.cons_append]
    congr 3
    push_cast
    omega

theorem take_read (m : Mem) (o : Int) {n k : Nat} (h : k ≤ n) : (m.read o n).take k = m.read o k := by
  obtain ⟨j, rfl⟩ := Nat.exists_eq_add_of_le h
  rw [read_add, List.take_left' (length_read m o k)]

theorem drop_read (m : Mem) (o : Int) {n k : Nat} (h : k ≤ n) : (m.read o n).drop k = m.read (o + k) (n - k) := by
  obtain ⟨j, rfl⟩ := Nat.exists_eq_add_of_le h
  rw [read_add, List.drop_left' (length_read m o k), Nat.add_sub_cancel_left]

theorem write_apply_of_lt {m : Mem} {o x : Int} {bs : List UInt8} (h : x < o) :
    m.write o bs x = m x := by
  rw [write, if_neg (by omega)]

theorem write_apply_of_ge {m : Mem} {o x : Int} {bs : List UInt8} (h : o + bs.length ≤ x) :
    m.write o bs x = m x := by
  rw [write, if_neg (by omega)]

theorem write_apply {m : Mem} {o : Int} {bs : List UInt8} {i : Nat} (h : i < bs.length) :
    m.write o bs (o + i) = bs[i] := by
  rw [write, if_pos (by omega), show (o + i - o).toNat = i by omega, List.getD_eq_getElem _ _ h]

@[simp] theorem write_nil (m : Mem) (o : Int) : m.write o [] = m := by
  funext x
  rw [write, if_neg (by simp)]

/-- Two writes, the second behind the first, are one. -/
theorem write_append (m : Mem) (o : Int) (as bs : List UInt8) :
    m.write o (as ++ bs) = (m.write o as).write (o + as.length) bs := by
  funext x
  simp only [write, List.length_append, Nat.cast_add]
  by_cases h1 : o ≤ x ∧ x < o + as.length
  · have hx : (x - o).toNat < as.length := by omega
    rw [if_pos (by omega), if_neg (by omega), if_pos h1, List.getD_append _ _ _ _ hx]
  · by_cases h2 : o + as.length ≤ x ∧ x < o + as.length + bs.length
    · have hx : as.length ≤ (x - o).toNat := by omega
      rw [if_pos (by omega), if_pos h2, List.getD_append_right _ _ _ _ hx]
      congr 1
      omega
    · rw [if_neg (by omega), if_neg h2, if_neg h1]

theorem read_write_same (m : Mem) (o : Int) (bs : List UInt8) :
    (m.write o bs).read o bs.length = bs :=
  read_eq_iff.mpr fun _ h => write_apply h

/-- A write leaves every byte outside it. -/
theorem read_write_disjoint {m : Mem} {o o' : Int} {bs : List UInt8} {n : Nat}
    (h : o + n ≤ o' ∨ o' + bs.length ≤ o) : (m.write o' bs).read o n = m.read o n := by
  refine read_congr fun i hi => ?_
  rcases h with h | h
  · exact write_apply_of_lt (by omega)
  · exact write_apply_of_ge (by omega)

theorem load64_lt (m : Mem) (o : Int) : m.load64 o < 2 ^ 64 := by
  have := le_lt (m.read o 8)
  rw [length_read] at this
  exact this

theorem load64_store64 {m : Mem} {o : Int} {v : Nat} (h : v < 2 ^ 64) :
    (m.store64 o v).load64 o = v := by
  have := read_write_same m o (toLe 8 v)
  rw [length_toLe] at this
  rw [load64, store64, this, le_toLe]
  exact Nat.mod_eq_of_lt h

theorem load64_store64_disjoint {m : Mem} {o o' : Int} {v : Nat} (h : o + 8 ≤ o' ∨ o' + 8 ≤ o) :
    (m.store64 o' v).load64 o = m.load64 o := by
  rw [load64, store64, read_write_disjoint (by simpa using h)]
  rfl

theorem load64_congr {m m' : Mem} {o o' : Int} (h : ∀ i : Nat, i < 8 → m (o + i) = m' (o' + i)) :
    m.load64 o = m'.load64 o' := by
  rw [load64, load64, read_congr h]

theorem read_ofList {bs : List UInt8} {o n : Nat} (h : o + n ≤ bs.length) :
    (ofList bs).read o n = (bs.drop o).take n := by
  refine List.ext_getElem (by simp; omega) fun i h₁ h₂ => ?_
  rw [getElem_read, ofList, if_pos (by omega), List.getElem_take, List.getElem_drop]
  have hi : i < n := by simpa using h₁
  rw [show ((o : Int) + i).toNat = o + i by omega, List.getD_eq_getElem _ _ (by omega)]

end Mem

end Capnproto

import Mathlib.Data.List.Basic
import Mathlib.Tactic.Common

/-!
# Logs of memory accesses

A program that reads a region while it stores its results into the same memory is right as long
as it stores over a byte only when it has read it for the last time (`ReadFirst`). A program that reads
in one sweep does so, if at each step it stores behind the place where it reads (`Swept.append`).
-/

namespace Capnproto

/-- An access to the `n` bytes from `a`. -/
inductive MemAccess where
  | load (a : Int) (n : Nat)
  | store (a : Int) (n : Nat)
deriving DecidableEq, Repr

/-- The byte at `x` is read. -/
def Loads (l : List MemAccess) (x : Int) : Prop := ∃ a n, MemAccess.load a n ∈ l ∧ a ≤ x ∧ x < a + n

/-- Before something is stored over a byte from `t` on, the byte has been read, and afterwards it is not. -/
def ReadFirst (l : List MemAccess) (t : Int) : Prop :=
  ∀ (l₁ l₂ : List MemAccess) (a : Int) (n : Nat), l = l₁ ++ .store a n :: l₂ →
    ∀ x, t ≤ x → a ≤ x → x < a + n → Loads l₁ x ∧ ¬ Loads l₂ x

theorem Loads.append_left {l : List MemAccess} {x : Int} (h : Loads l x) (l' : List MemAccess) : Loads (l ++ l') x := by
  obtain ⟨a, n, hm, h⟩ := h
  exact ⟨a, n, List.mem_append_left l' hm, h⟩

theorem Loads.append_right {l' : List MemAccess} {x : Int} (h : Loads l' x) (l : List MemAccess) : Loads (l ++ l') x := by
  obtain ⟨a, n, hm, h⟩ := h
  exact ⟨a, n, List.mem_append_right l hm, h⟩

theorem loads_append {l l' : List MemAccess} {x : Int} (h : Loads (l ++ l') x) : Loads l x ∨ Loads l' x := by
  obtain ⟨a, n, hm, h⟩ := h
  rcases List.mem_append.mp hm with hm | hm
  · exact .inl ⟨a, n, hm, h⟩
  · exact .inr ⟨a, n, hm, h⟩

/-- A sweep from `t` that has come to `i`: it has read all there is before, and stored nothing past it. -/
structure Swept (l : List MemAccess) (t i : Int) : Prop where
  loads : ∀ x, t ≤ x → x < i → Loads l x
  stores : ∀ a n, MemAccess.store a n ∈ l → a + n ≤ i
  first : ReadFirst l t

/-- A sweep goes on. -/
theorem Swept.append {l l' : List MemAccess} {t i j : Int} (h : Swept l t i) (hij : i ≤ j)
    (hs : ∀ a n, MemAccess.store a n ∈ l' → a + n ≤ i) (hl : ∀ a n, MemAccess.load a n ∈ l' → i ≤ a)
    (hc : ∀ x, i ≤ x → x < j → Loads l' x) : Swept (l ++ l') t j where
  loads x ht hj := by
    rcases Int.lt_or_le x i with hx | hx
    · exact (h.loads x ht hx).append_left l'
    · exact (hc x hx hj).append_right l
  stores a n hm := by
    rcases List.mem_append.mp hm with hm | hm
    · exact Int.le_trans (h.stores a n hm) hij
    · exact Int.le_trans (hs a n hm) hij
  first := by
    intro l₁ l₂ a n e x ht ha hx
    -- nothing past `i` is read before `x`, which is behind it
    have hnot : ∀ l₃, (∀ y ∈ l₃, y ∈ l') → x < i → ¬ Loads l₃ x := by
      rintro l₃ hsub hxi ⟨b, k, hm, hb, -⟩
      have := hl b k (hsub _ hm)
      omega
    rcases List.append_eq_append_iff.mp e with ⟨l₃, rfl, e'⟩ | ⟨l₃, e', e''⟩
    · have hxi : x < i := Int.lt_of_lt_of_le hx (hs a n (by rw [e']; simp))
      refine ⟨(h.loads x ht hxi).append_left l₃, hnot l₂ (fun y hy => ?_) hxi⟩
      rw [e']
      exact List.mem_append_right _ (List.mem_cons_of_mem _ hy)
    · cases l₃ with
      | nil =>
        rw [List.nil_append] at e''
        have hxi : x < i := Int.lt_of_lt_of_le hx (hs a n (by rw [← e'']; exact List.mem_cons_self))
        rw [List.append_nil] at e'
        rw [← e']
        exact ⟨h.loads x ht hxi, hnot l₂ (fun y hy => by rw [← e'']; exact List.mem_cons_of_mem _ hy) hxi⟩
      | cons y l₃ =>
        obtain ⟨rfl, rfl⟩ := List.cons.inj e''
        obtain ⟨h1, h2⟩ := h.first l₁ l₃ a n e' x ht ha hx
        have hxi : x < i := Int.lt_of_lt_of_le hx (h.stores a n (by rw [e']; simp))
        refine ⟨h1, fun hc => ?_⟩
        rcases loads_append hc with hc | hc
        · exact h2 hc
        · exact hnot l' (fun _ hy => hy) hxi hc

theorem Swept.nil (t : Int) : Swept [] t t where
  loads x h1 h2 := absurd h1 (by omega)
  stores a n hm := absurd hm List.not_mem_nil
  first l₁ l₂ a n e := absurd e (by simp)

end Capnproto

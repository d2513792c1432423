import Mathlib.Algebra.BigOperators.Fin
import Mathlib.Data.List.FinRange

/-!
# Tables

A table of a fixed number of slots, each empty or with an entry, as C programs
keep them in arrays: `find` and `free` are the scans for an entry and for an
empty slot, from the first slot on, and `set` changes one slot. `entries` lists
the entries in the order of the slots, and `total` adds up a weight over them;
what `set` does to them is `entries_set` and `total_set`.
-/

namespace Capnproto

/-- A table of `n` slots. -/
def Table (n : Nat) (α : Type) : Type := Fin n → Option α

namespace Table

variable {n : Nat} {α : Type}

def empty : Table n α := fun _ => none

/-- The first slot whose entry satisfies `p`. -/
def find (t : Table n α) (p : α → Bool) : Option (Fin n) := (List.finRange n).find? fun i => (t i).any p

/-- The first empty slot. -/
def free (t : Table n α) : Option (Fin n) := (List.finRange n).find? fun i => (t i).isNone

/-- Changes a slot. -/
def set (t : Table n α) (i : Fin n) (a : Option α) : Table n α := fun j => if j = i then a else t j

@[simp] theorem empty_apply (i : Fin n) : (empty : Table n α) i = none := rfl

@[simp] theorem set_same (t : Table n α) (i : Fin n) (a : Option α) : t.set i a i = a := if_pos rfl

theorem set_ne (t : Table n α) {i j : Fin n} (a : Option α) (h : j ≠ i) : t.set i a j = t j := if_neg h

theorem set_apply (t : Table n α) (i j : Fin n) (a : Option α) : t.set i a j = if j = i then a else t j := rfl

theorem set_set (t : Table n α) (i : Fin n) (a b : Option α) : (t.set i a).set i b = t.set i b := by
  funext j
  by_cases hj : j = i
  · rw [hj, set_same, set_same]
  · rw [set_ne _ _ hj, set_ne _ _ hj, set_ne _ _ hj]

theorem set_eq_self {t : Table n α} {i : Fin n} {a : Option α} (h : t i = a) : t.set i a = t := by
  funext j
  by_cases hj : j = i
  · rw [hj, set_same, h]
  · rw [set_ne _ _ hj]

/-! ## Scans -/

theorem find_some {t : Table n α} {p : α → Bool} {i : Fin n} (h : t.find p = some i) :
    ∃ a, t i = some a ∧ p a = true :=
  (Option.any_eq_true _ _).mp (@List.find?_some _ (fun i => (t i).any p) _ _ h)

theorem find_none {t : Table n α} {p : α → Bool} (h : t.find p = none) {i : Fin n} {a : α} (ha : t i = some a) :
    p a = false := by
  have hi := List.find?_eq_none.mp h i (List.mem_finRange i)
  rw [ha] at hi
  exact Bool.eq_false_iff.mpr hi

/-- A scan finds an entry that is there. -/
theorem find_isSome {t : Table n α} {p : α → Bool} {i : Fin n} {a : α} (ha : t i = some a) (hp : p a = true) :
    ∃ j, t.find p = some j := by
  cases hf : t.find p with
  | some j => exact ⟨j, rfl⟩
  | none => exact absurd hp (by rw [find_none hf ha]; decide)

/-- A scan finds the only entry that is there. -/
theorem find_unique {t : Table n α} {p : α → Bool} {i : Fin n} {a : α} (ha : t i = some a) (hp : p a = true)
    (hu : ∀ j b, t j = some b → p b = true → j = i) : t.find p = some i := by
  obtain ⟨j, hj⟩ := find_isSome ha hp
  obtain ⟨b, hb, hpb⟩ := find_some hj
  rw [hj, hu j b hb hpb]

theorem free_some {t : Table n α} {i : Fin n} (h : t.free = some i) : t i = none :=
  Option.isNone_iff_eq_none.mp (@List.find?_some _ (fun i => (t i).isNone) _ _ h)

theorem free_none {t : Table n α} (h : t.free = none) (i : Fin n) : t i ≠ none := by
  have hi := List.find?_eq_none.mp h i (List.mem_finRange i)
  exact fun e => hi (Option.isNone_iff_eq_none.mpr e)

/-! ## Entries -/

def entries (t : Table n α) : List α := (List.finRange n).filterMap t

theorem filterMap_head {β : Type} (f : β → Option α) (i : β) (l : List β) :
    (i :: l).filterMap f = (f i).toList ++ l.filterMap f := by
  rw [List.filterMap_cons]
  cases f i <;> rfl

/-- The entries are those of one slot and of the others. -/
theorem entries_split (t : Table n α) (i : Fin n) :
    t.entries.Perm ((t i).toList ++ ((List.finRange n).erase i).filterMap t) :=
  filterMap_head t i _ ▸ (List.perm_cons_erase (List.mem_finRange i)).filterMap t

theorem entries_set (t : Table n α) (i : Fin n) (a : Option α) :
    (t.set i a).entries.Perm (a.toList ++ ((List.finRange n).erase i).filterMap t) := by
  have hrest : ((List.finRange n).erase i).filterMap (t.set i a) = ((List.finRange n).erase i).filterMap t := by
    apply List.filterMap_congr
    intro j hj
    have hne : j ≠ i := fun e => (List.nodup_finRange n).not_mem_erase (e ▸ hj)
    rw [set_ne _ _ hne]
  have hsplit := entries_split (t.set i a) i
  rwa [set_same, hrest] at hsplit

/-- A free slot is filled. -/
theorem entries_fill {t : Table n α} {i : Fin n} (h : t i = none) (a : α) :
    (t.set i (some a)).entries.Perm (a :: t.entries) := by
  have hsplit := entries_split t i
  rw [h] at hsplit
  exact (entries_set t i (some a)).trans (hsplit.symm.cons a)

/-- An entry is taken away. -/
theorem entries_clear {t : Table n α} {i : Fin n} {a : α} (h : t i = some a) :
    t.entries.Perm (a :: (t.set i none).entries) := by
  have hsplit := entries_split t i
  rw [h] at hsplit
  exact hsplit.trans ((entries_set t i none).symm.cons a)

/-- A table with fewer entries than slots has a free one. -/
theorem free_of_entries {t : Table n α} (h : t.entries.length < n) : ∃ i, t.free = some i := by
  cases hf : t.free with
  | some i => exact ⟨i, rfl⟩
  | none =>
    have hall : ∀ l : List (Fin n), (l.filterMap t).length = l.length := by
      intro l
      induction l with
      | nil => rfl
      | cons i l ih =>
        obtain ⟨a, ha⟩ := Option.ne_none_iff_exists'.mp (free_none hf i)
        rw [List.filterMap_cons_some ha, List.length_cons, List.length_cons, ih]
    have hn := hall (List.finRange n)
    rw [List.length_finRange] at hn
    exact absurd h (by rw [entries, hn]; exact Nat.lt_irrefl n)

/-! ## Sums -/

/-- A sum of which one term changes. -/
theorem sum_change {f g : Fin n → Int} (i : Fin n) (h : ∀ j, j ≠ i → g j = f j) :
    ∑ j, g j = ∑ j, f j - f i + g i := by
  have hrest : ∑ j ∈ Finset.univ.erase i, g j = ∑ j ∈ Finset.univ.erase i, f j :=
    Finset.sum_congr rfl fun j hj => h j (Finset.ne_of_mem_erase hj)
  have hf : f i + ∑ j ∈ Finset.univ.erase i, f j = ∑ j, f j := Finset.add_sum_erase _ _ (Finset.mem_univ i)
  have hg : g i + ∑ j ∈ Finset.univ.erase i, g j = ∑ j, g j := Finset.add_sum_erase _ _ (Finset.mem_univ i)
  omega

/-- The sum of the weights of the entries. -/
def total (f : α → Int) (t : Table n α) : Int := ∑ i, (t i).elim 0 f

theorem total_set (f : α → Int) (t : Table n α) (i : Fin n) (a : Option α) :
    (t.set i a).total f = t.total f - (t i).elim 0 f + a.elim 0 f := by
  rw [total, total, sum_change i fun j hj => by rw [set_ne t a hj], set_same]

end Table

end Capnproto

import Mathlib.Data.List.GetD
import Mathlib.Tactic.ByContra

/-!
# Tables with linear probing

A hash table whose slots are searched one after the other from the home of a
key, and from which nothing is removed. `Placed` is its invariant: no empty slot
comes before a key on the way from its home. A table with an empty slot finds a
place for any key (`insert_spec`), and then it holds what a finite map would
(`holds_insert`, `insertAll_spec`).
-/

namespace Capnproto.Probe

variable {κ ν : Type}

/-- The slots of a table; an empty one has no entry. -/
abbrev Slots (κ ν : Type) := List (Option (κ × ν))

/-- The table holds `v` at `k`. -/
def Holds (tab : Slots κ ν) (k : κ) (v : ν) : Prop := some (k, v) ∈ tab

/-- The slots in use. -/
def used (tab : Slots κ ν) : Nat := tab.countP Option.isSome

section

variable (hash : κ → Nat)

/-- The slot `d` places after the home of `k`. -/
def probe (tab : Slots κ ν) (k : κ) (d : Nat) : Nat := (hash k + d) % tab.length

/-- The first `d` slots from the home of `k` on hold other keys. -/
def Passed (tab : Slots κ ν) (k : κ) (d : Nat) : Prop :=
  ∀ d' < d, ∃ e, tab.getD (probe hash tab k d') none = some e ∧ e.1 ≠ k

/-- Every key is where the search for it ends. -/
def Placed (tab : Slots κ ν) : Prop :=
  ∀ i e, tab.getD i none = some e → ∃ d, i = probe hash tab e.1 d ∧ Passed hash tab e.1 d

end

section

variable [DecidableEq κ] (hash : κ → Nat)

/-- The slot that the search for `k` ends at within `n` slots from `i` on: one that
is empty, or the one of `k`. -/
def search (tab : Slots κ ν) (k : κ) : Nat → Nat → Option Nat
  | 0, _ => none
  | n + 1, i =>
    match tab.getD i none with
    | none => some i
    | some e => if e.1 = k then some i else search tab k n ((i + 1) % tab.length)

/-- The search for `k`, from its home on. -/
def find (tab : Slots κ ν) (k : κ) : Option Nat := search tab k tab.length (hash k % tab.length)

/-- Stores an entry where the search for its key ends. -/
def insert (tab : Slots κ ν) (e : κ × ν) : Option (Slots κ ν) :=
  (find hash tab e.1).map fun i => tab.set i (some e)

end

/-! ## What a table holds -/

section

variable {hash : κ → Nat} {tab : Slots κ ν} {k : κ}

theorem probe_zero : probe hash tab k 0 = hash k % tab.length := by rw [probe, Nat.add_zero]

theorem probe_succ (d : Nat) : (probe hash tab k d + 1) % tab.length = probe hash tab k (d + 1) := by
  rw [probe, probe, Nat.mod_add_mod, Nat.add_assoc]

theorem Passed.succ {d : Nat} (h : Passed hash tab k d) {e : κ × ν}
    (he : tab.getD (probe hash tab k d) none = some e) (hk : e.1 ≠ k) : Passed hash tab k (d + 1) := by
  intro d' hd'
  rcases Nat.lt_succ_iff_lt_or_eq.mp hd' with hlt | rfl
  · exact h d' hlt
  · exact ⟨e, he, hk⟩

/-- Every slot is some places after the home of a key. -/
theorem exists_probe {j : Nat} (hj : j < tab.length) : ∃ d < tab.length, probe hash tab k d = j := by
  have hm := Nat.mod_lt (hash k) (Nat.lt_of_le_of_lt (Nat.zero_le _) hj)
  refine ⟨(j + (tab.length - hash k % tab.length)) % tab.length, Nat.mod_lt _ (by omega), ?_⟩
  rw [probe, ← Nat.mod_add_mod, Nat.add_mod_mod]
  have e : hash k % tab.length + (j + (tab.length - hash k % tab.length)) = j + tab.length := by omega
  rw [e, Nat.add_mod_right, Nat.mod_eq_of_lt hj]

/-- A key is at one place only. -/
theorem Passed.unique {d d' : Nat} (h : Passed hash tab k d) (h' : Passed hash tab k d')
    (hd : ∀ e, tab.getD (probe hash tab k d) none = some e → e.1 = k) {e : κ × ν}
    (hd' : tab.getD (probe hash tab k d') none = some e) (he : e.1 = k) : d = d' := by
  rcases Nat.lt_trichotomy d d' with hlt | rfl | hlt
  · obtain ⟨x, hx, hne⟩ := h' d hlt
    exact absurd (hd x hx) hne
  · rfl
  · obtain ⟨x, hx, hne⟩ := h d' hlt
    rw [hd'] at hx
    cases hx
    exact absurd he hne

theorem holds_iff {v : ν} : Holds tab k v ↔ ∃ i < tab.length, tab.getD i none = some (k, v) := by
  rw [Holds, List.mem_iff_getElem]
  constructor
  · rintro ⟨i, hi, h⟩
    exact ⟨i, hi, by rw [List.getD_eq_getElem _ _ hi, h]⟩
  · rintro ⟨i, hi, h⟩
    exact ⟨i, hi, by rw [← h, List.getD_eq_getElem _ _ hi]⟩

theorem holds_unique (hp : Placed hash tab) {v v' : ν} (h : Holds tab k v) (h' : Holds tab k v') : v = v' := by
  obtain ⟨i, -, hi⟩ := holds_iff.mp h
  obtain ⟨j, -, hj⟩ := holds_iff.mp h'
  obtain ⟨d, rfl, hd⟩ := hp i _ hi
  obtain ⟨d', rfl, hd'⟩ := hp j _ hj
  have he : ∀ e, tab.getD (probe hash tab k d) none = some e → e.1 = k := fun e h => by
    rw [hi] at h
    cases h
    rfl
  obtain rfl := hd.unique hd' he hj rfl
  rw [hi] at hj
  cases hj
  rfl

theorem getD_set (tab : Slots κ ν) (i j : Nat) (x : Option (κ × ν)) (hi : i < tab.length) :
    (tab.set i x).getD j none = if i = j then x else tab.getD j none := by
  rw [List.getD_eq_getElem?_getD, List.getD_eq_getElem?_getD, List.getElem?_set]
  by_cases h : i = j
  · subst h
    simp [hi]
  · simp [h]

/-- Storing an entry where the search for its key ends. -/
theorem placed_set (hp : Placed hash tab) {d : Nat} {v : ν} (hlt : probe hash tab k d < tab.length)
    (hd : Passed hash tab k d) (hk : ∀ e, tab.getD (probe hash tab k d) none = some e → e.1 = k) :
    Placed hash (tab.set (probe hash tab k d) (some (k, v))) ∧
      ∀ k' v', Holds (tab.set (probe hash tab k d) (some (k, v))) k' v' ↔
        k' = k ∧ v' = v ∨ k' ≠ k ∧ Holds tab k' v' := by
  have hget := fun j => getD_set tab (probe hash tab k d) j (some (k, v)) hlt
  have hprobe : ∀ k' d', probe hash (tab.set (probe hash tab k d) (some (k, v))) k' d' =
      probe hash tab k' d' := fun k' d' => by simp only [probe, List.length_set]
  -- what the slots before a key hold is kept, up to the value of `k`
  have hpassed : ∀ k' d', Passed hash tab k' d' → (k' = k → d' ≤ d) →
      Passed hash (tab.set (probe hash tab k d) (some (k, v))) k' d' := by
    intro k' d' h hle x hx
    obtain ⟨e, he, hne⟩ := h x hx
    rw [hprobe, hget]
    by_cases hi : probe hash tab k d = probe hash tab k' x
    · rw [if_pos hi]
      refine ⟨_, rfl, ?_⟩
      rintro rfl
      rw [← hi] at he
      exact hne (hk e he)
    · exact ⟨e, by rw [if_neg hi, he], hne⟩
  refine ⟨?_, fun k' v' => ?_⟩
  · intro i e he
    rw [hget] at he
    by_cases hi : probe hash tab k d = i
    · rw [if_pos hi] at he
      cases he
      exact ⟨d, by rw [hprobe, hi], hpassed k d hd fun _ => Nat.le_refl d⟩
    · rw [if_neg hi] at he
      obtain ⟨d', rfl, hd'⟩ := hp i e he
      refine ⟨d', by rw [hprobe], hpassed _ d' hd' fun hke => ?_⟩
      obtain ⟨e1, e2⟩ := e
      simp only at hke
      subst hke
      exact absurd (congrArg _ (hd.unique hd' hk he rfl)) hi
  · rw [holds_iff, holds_iff, List.length_set]
    by_cases hkk : k' = k
    · subst hkk
      simp only [true_and, ne_eq, not_true_eq_false, false_and, or_false]
      constructor
      · rintro ⟨i, -, h⟩
        rw [hget] at h
        by_cases hi : probe hash tab k' d = i
        · rw [if_pos hi] at h
          cases h
          rfl
        · rw [if_neg hi] at h
          obtain ⟨d', rfl, hd'⟩ := hp i _ h
          exact absurd (congrArg _ (hd.unique hd' hk h rfl)) hi
      · rintro rfl
        exact ⟨_, hlt, by rw [hget, if_pos rfl]⟩
    · simp only [hkk, false_and, ne_eq, not_false_eq_true, true_and, false_or]
      have hne : ∀ i, tab.getD i none = some (k', v') → probe hash tab k d ≠ i := by
        rintro i h rfl
        exact hkk (hk _ h)
      constructor
      · rintro ⟨i, hi, h⟩
        rw [hget] at h
        by_cases hii : probe hash tab k d = i
        · rw [if_pos hii] at h
          cases h
          exact absurd rfl hkk
        · rw [if_neg hii] at h
          exact ⟨i, hi, h⟩
      · rintro ⟨i, hi, h⟩
        exact ⟨i, hi, by rw [hget, if_neg (hne i h), h]⟩

theorem used_set {i : Nat} {v : ν} (h : tab.getD i none = none) (hi : i < tab.length) :
    used (tab.set i (some (k, v))) = used tab + 1 := by
  rw [List.getD_eq_getElem _ _ hi] at h
  rw [used, List.countP_set hi, h]
  rfl

theorem used_set_same {i : Nat} {e : κ × ν} {v : ν} (h : tab.getD i none = some e) (hi : i < tab.length) :
    used (tab.set i (some (k, v))) = used tab := by
  have hpos : 0 < tab.countP Option.isSome := by
    rw [List.countP_pos_iff]
    rw [List.getD_eq_getElem _ _ hi] at h
    exact ⟨some e, h ▸ List.getElem_mem hi, rfl⟩
  rw [List.getD_eq_getElem _ _ hi] at h
  rw [used, List.countP_set hi, h]
  simp only [Option.isSome_some, ite_true, used]
  omega

/-- A table that is not full has an empty slot. -/
theorem exists_empty (h : used tab < tab.length) : ∃ j < tab.length, tab.getD j none = none := by
  by_contra hn
  have hall : ∀ e ∈ tab, e.isSome = true := by
    intro e he
    obtain ⟨j, hj, rfl⟩ := List.getElem_of_mem he
    by_contra hne
    refine hn ⟨j, hj, ?_⟩
    rw [List.getD_eq_getElem _ _ hj]
    simpa using hne
  rw [used, List.countP_eq_length.mpr hall] at h
  exact Nat.lt_irrefl _ h

/-- The entries of a table. -/
def entries (tab : Slots κ ν) : List (κ × ν) := tab.filterMap id

theorem mem_entries {v : ν} : (k, v) ∈ entries tab ↔ Holds tab k v := by
  rw [entries, List.mem_filterMap]
  constructor
  · rintro ⟨x, h, rfl⟩
    exact h
  · intro h
    exact ⟨_, h, rfl⟩

theorem placed_empty (n : Nat) : Placed hash (List.replicate n (none : Option (κ × ν))) := by
  intro i e h
  rw [List.getD_eq_getElem?_getD, List.getElem?_replicate] at h
  split at h <;> cases h

theorem used_empty (n : Nat) : used (List.replicate n (none : Option (κ × ν))) = 0 := by
  rw [used, List.countP_replicate]
  rfl

theorem holds_empty (n : Nat) (v : ν) : ¬ Holds (List.replicate n (none : Option (κ × ν))) k v := by
  intro h
  have := (List.mem_replicate.mp h).2
  cases this

/-- The keys of a table are distinct. -/
theorem entries_pairwise (hp : Placed hash tab) : (entries tab).Pairwise fun e e' => e.1 ≠ e'.1 := by
  rw [entries, List.pairwise_filterMap, List.pairwise_iff_getElem]
  intro i j hi hj hij e he e' he' hkey
  simp only [id] at he he'
  have hgi : tab.getD i none = some e := by rw [List.getD_eq_getElem _ _ hi, he]
  have hgj : tab.getD j none = some e' := by rw [List.getD_eq_getElem _ _ hj, he']
  obtain ⟨d, rfl, hd⟩ := hp i e hgi
  obtain ⟨d', rfl, hd'⟩ := hp j e' hgj
  have hk : ∀ x, tab.getD (probe hash tab e.1 d) none = some x → x.1 = e.1 := fun x hx => by
    rw [hgi] at hx
    cases hx
    rfl
  rw [← hkey] at hd' hgj hij
  rw [hd.unique hd' hk hgj hkey.symm] at hij
  exact Nat.lt_irrefl _ hij

end

/-! ## Searching -/

section

variable [DecidableEq κ] {hash : κ → Nat} {tab : Slots κ ν} {k : κ}

/-- The search ends, at the first slot that is empty or holds the key. -/
theorem search_spec {n d d₀ : Nat} (hp : Passed hash tab k d) (hle : d ≤ d₀) (hn : d₀ < n + d)
    (h₀ : tab.getD (probe hash tab k d₀) none = none) :
    ∃ d', search tab k n (probe hash tab k d) = some (probe hash tab k d') ∧ Passed hash tab k d' ∧
      ∀ e, tab.getD (probe hash tab k d') none = some e → e.1 = k := by
  induction n generalizing d with
  | zero => omega
  | succ n ih =>
    cases hs : tab.getD (probe hash tab k d) none with
    | none =>
      refine ⟨d, by rw [search, hs], hp, ?_⟩
      rw [hs]
      exact nofun
    | some e =>
      by_cases hk : e.1 = k
      · refine ⟨d, ?_, hp, ?_⟩
        · rw [search, hs]
          exact if_pos hk
        · intro e' he'
          rw [hs] at he'
          cases he'
          exact hk
      · have hne : d ≠ d₀ := by
          rintro rfl
          rw [h₀] at hs
          cases hs
        obtain ⟨d', hd', h⟩ := ih (hp.succ hs hk) (by omega) (by omega)
        refine ⟨d', ?_, h⟩
        rw [search, hs]
        simp only
        rw [if_neg hk, probe_succ, hd']

/-- **The search** in a table with an empty slot. -/
theorem find_spec {j : Nat} (hj : j < tab.length) (h₀ : tab.getD j none = none) :
    ∃ d, find hash tab k = some (probe hash tab k d) ∧ Passed hash tab k d ∧
      ∀ e, tab.getD (probe hash tab k d) none = some e → e.1 = k := by
  obtain ⟨d₀, hlt, rfl⟩ : ∃ d < tab.length, probe hash tab k d = j := exists_probe hj
  have hpass : Passed hash tab k 0 := fun d' hd' => absurd hd' (Nat.not_lt_zero d')
  rw [find, ← probe_zero]
  exact search_spec hpass (Nat.zero_le _) (by omega) h₀

/-- The slot that the search for `k` ends at: that of `k`, or an empty one if the
table does not hold `k`. -/
theorem find_cases (hp : Placed hash tab) (h : used tab < tab.length) : ∃ i < tab.length,
    find hash tab k = some i ∧
      ((∃ v, tab.getD i none = some (k, v) ∧ Holds tab k v) ∨ tab.getD i none = none ∧ ∀ v, ¬ Holds tab k v) ∧
      ∀ v, Placed hash (tab.set i (some (k, v))) ∧ ∀ k' v', Holds (tab.set i (some (k, v))) k' v' ↔
        k' = k ∧ v' = v ∨ k' ≠ k ∧ Holds tab k' v' := by
  obtain ⟨j, hj, h₀⟩ := exists_empty h
  obtain ⟨d, hf, hd, hk⟩ : ∃ d, find hash tab k = some (probe hash tab k d) ∧ Passed hash tab k d ∧
      ∀ e, tab.getD (probe hash tab k d) none = some e → e.1 = k := find_spec hj h₀
  have hlt : probe hash tab k d < tab.length := Nat.mod_lt _ (Nat.lt_of_le_of_lt (Nat.zero_le _) hj)
  refine ⟨_, hlt, hf, ?_, fun v => placed_set hp hlt hd hk⟩
  cases he : tab.getD (probe hash tab k d) none with
  | some e =>
    obtain ⟨k', v⟩ := e
    have hkk : k' = k := hk _ he
    subst hkk
    exact .inl ⟨v, rfl, holds_iff.mpr ⟨_, hlt, he⟩⟩
  | none =>
    refine .inr ⟨rfl, fun v hv => ?_⟩
    obtain ⟨i, -, hi⟩ := holds_iff.mp hv
    obtain ⟨d', rfl, hd'⟩ := hp i _ hi
    rw [hd.unique hd' hk hi rfl, hi] at he
    cases he

/-! ## Moving to a larger table -/

/-- Storing entries with keys that are new. -/
theorem insertAll_spec {es : List (κ × ν)} (hp : Placed hash tab) (hroom : used tab + es.length < tab.length)
    (hnew : ∀ e ∈ es, ∀ v, ¬ Holds tab e.1 v) (hpair : es.Pairwise fun e e' => e.1 ≠ e'.1) :
    ∃ tab', es.foldlM (insert hash) tab = some tab' ∧ Placed hash tab' ∧ tab'.length = tab.length ∧
      used tab' = used tab + es.length ∧ ∀ k v, Holds tab' k v ↔ Holds tab k v ∨ (k, v) ∈ es := by
  induction es generalizing tab with
  | nil => exact ⟨tab, rfl, hp, rfl, rfl, fun k v => by simp⟩
  | cons e es ih =>
    obtain ⟨k₀, v₀⟩ := e
    rw [List.length_cons] at hroom
    rw [List.forall_mem_cons] at hnew
    rw [List.pairwise_cons] at hpair
    obtain ⟨i, hi, hf, hslot, hset⟩ := find_cases (k := k₀) hp (by omega)
    obtain ⟨hp', hh⟩ := hset v₀
    have hempty : tab.getD i none = none := by
      rcases hslot with ⟨v, -, hv⟩ | ⟨h, -⟩
      · exact absurd hv (hnew.1 v)
      · exact h
    have hused := used_set (k := k₀) (v := v₀) hempty hi
    have hnew' : ∀ e ∈ es, ∀ v, ¬ Holds (tab.set i (some (k₀, v₀))) e.1 v := by
      intro e he v hv
      rcases (hh e.1 v).mp hv with ⟨hk, -⟩ | ⟨-, hv⟩
      · exact hpair.1 e he hk.symm
      · exact hnew.2 e he v hv
    obtain ⟨tab', hfold, hp'', hlen, hu, hholds⟩ :=
      ih hp' (by rw [hused, List.length_set]; omega) hnew' hpair.2
    refine ⟨tab', ?_, hp'', by rw [hlen, List.length_set], by rw [hu, hused, List.length_cons]; omega, ?_⟩
    · rw [List.foldlM_cons, insert, hf]
      exact hfold
    · intro k v
      rw [hholds, hh, List.mem_cons, Prod.mk.injEq]
      constructor
      · rintro ((h | ⟨-, h⟩) | h)
        · exact .inr (.inl h)
        · exact .inl h
        · exact .inr (.inr h)
      · rintro (h | h | h)
        · refine .inl (.inr ⟨?_, h⟩)
          rintro rfl
          exact hnew.1 v h
        · exact .inl (.inl h)
        · exact .inr h

/-- **Moving to a larger table** keeps what the table holds. -/
theorem rehash_spec (hp : Placed hash tab) {n : Nat} (hn : used tab < n) :
    ∃ tab', (entries tab).foldlM (insert hash) (List.replicate n none) = some tab' ∧ Placed hash tab' ∧
      tab'.length = n ∧ used tab' = used tab ∧ ∀ k v, Holds tab' k v ↔ Holds tab k v := by
  have hlen : (entries tab).length = used tab := by
    rw [entries, used, List.length_filterMap_eq_countP]
    rfl
  have hempty : Placed hash (List.replicate n (none : Option (κ × ν))) := placed_empty n
  have hroom : used (List.replicate n (none : Option (κ × ν))) + (entries tab).length <
      (List.replicate n (none : Option (κ × ν))).length := by
    rw [used_empty, hlen, List.length_replicate]
    omega
  obtain ⟨tab', hf, hp', hl, hu, hh⟩ := insertAll_spec hempty hroom (fun e _ v => holds_empty n v) (entries_pairwise hp)
  refine ⟨tab', hf, hp', by rw [hl, List.length_replicate], by rw [hu, used_empty, hlen, Nat.zero_add], ?_⟩
  intro k v
  rw [hh, mem_entries]
  exact or_iff_right (holds_empty n v)

end

end Capnproto.Probe

import Capnproto.Graph.Validate

/-!
# The marks of `capn_validate`

What the operations on the table of objects do to the marks in it: it grows
without changing them, `vset_enter` marks an object that is not marked, and
`vset_leave` changes a mark to `CAPN_V_DONE`.
-/

namespace Capnproto

/-- The object with key `key` is marked. -/
def VSet.Mark (vs : VSet) (key : VKey) (s : VState) : Prop := Probe.Holds vs.tab key s

/-- A table of at least 64 slots, not full, that counts them right. -/
structure VSet.Ok (vhash : VKey → Nat) (vs : VSet) : Prop where
  placed : Probe.Placed vhash vs.tab
  count : vs.n = Probe.used vs.tab
  size : 64 ≤ vs.tab.length
  room : Probe.used vs.tab < vs.tab.length

/-- `vs'` has the marks of `vs`, but for the one of `key`, which is `s`. -/
def VSet.Marks (vs vs' : VSet) (key : VKey) (s : VState) : Prop :=
  ∀ k t, vs'.Mark k t ↔ k = key ∧ t = s ∨ k ≠ key ∧ vs.Mark k t

section

variable {vhash : VKey → Nat} {alloc : VAlloc} {vs vs' : VSet} {p : Ptr} {key : VKey}

theorem VSet.Ok.unique (h : vs.Ok vhash) {s t : VState} (hs : vs.Mark key s) (ht : vs.Mark key t) : s = t :=
  Probe.holds_unique h.placed hs ht

theorem vsetInit_spec (h : vsetInit alloc = some vs) : vs.Ok vhash ∧ ∀ k s, ¬ vs.Mark k s := by
  rw [vsetInit] at h
  split at h
  · cases h
    refine ⟨⟨Probe.placed_empty 64, ?_, ?_, ?_⟩, fun k s => Probe.holds_empty 64 s⟩
    · rw [Probe.used_empty]
    · rw [List.length_replicate]
    · rw [Probe.used_empty, List.length_replicate]
      decide
  · cases h

theorem length_entries (tab : Probe.Slots VKey VState) : (Probe.entries tab).length = Probe.used tab := by
  rw [Probe.entries, Probe.used, List.length_filterMap_eq_countP]
  rfl

/-- The table grows before it is more than two thirds full. -/
theorem vsetRoom_spec (h : vs.Ok vhash) (e : vsetRoom vhash alloc vs = some vs') :
    vs'.Ok vhash ∧ vs'.n * 3 ≤ vs'.tab.length * 2 ∧ ∀ k s, vs'.Mark k s ↔ vs.Mark k s := by
  have hsize := h.size
  have hroom := h.room
  have hcount := h.count
  rw [vsetRoom] at e
  split at e
  · rw [vsetGrow] at e
    split at e
    · obtain ⟨tab, hf, hp, hl, hu, hh⟩ := Probe.rehash_spec h.placed
        (show Probe.used vs.tab < vs.tab.length * 2 by omega)
      rw [hf] at e
      cases e
      rw [length_entries]
      refine ⟨⟨hp, hu.symm, ?_, ?_⟩, ?_, hh⟩ <;> simp only [hl, hu] <;> omega
    · cases e
  · cases e
    exact ⟨h, by omega, fun k s => Iff.rfl⟩

/-- **`vset_enter`** marks a new object as on the path, or leaves the marks alone
and finds the object done. -/
theorem vsetEnter_spec (h : vs.Ok vhash) (hkey : vkey p = some key) {ent : Int}
    (e : vsetEnter vhash alloc vs p = (ent, vs')) :
    (ent < 0) ∨ vs'.Ok vhash ∧
      ((ent = 0 ∧ (∀ s, ¬ vs.Mark key s) ∧ vs.Marks vs' key .PATH) ∨
        (0 < ent ∧ vs.Mark key .DONE ∧ ∀ k s, vs'.Mark k s ↔ vs.Mark k s)) := by
  simp only [vsetEnter, hkey] at e
  cases hr : vsetRoom vhash alloc vs with
  | none =>
    rw [hr] at e
    cases e
    exact .inl (by decide)
  | some vs₁ =>
    obtain ⟨h₁, hload, hmarks⟩ := vsetRoom_spec h hr
    have hsize := h₁.size
    have hcount := h₁.count
    obtain ⟨i, hi, hf, hslot, hset⟩ := Probe.find_cases (k := key) h₁.placed h₁.room
    rw [hr] at e
    simp only [hf] at e
    rcases hslot with ⟨s, hs, hm⟩ | ⟨hs, hm⟩
    · rw [hs] at e
      cases s with
      | PATH =>
        cases e
        exact .inl (by decide)
      | DONE =>
        cases e
        exact .inr ⟨h₁, .inr ⟨by decide, (hmarks _ _).mp hm, hmarks⟩⟩
    · rw [hs] at e
      cases e
      have hused := Probe.used_set (k := key) (v := VState.PATH) hs hi
      refine .inr ⟨⟨(hset .PATH).1, ?_, ?_, ?_⟩, .inl ⟨rfl, fun s h => hm s ((hmarks _ _).mpr h), ?_⟩⟩
      · simp only [hused, hcount]
      · rw [List.length_set]
        exact hsize
      · simp only [hused, List.length_set]
        omega
      · intro k t
        exact ((hset .PATH).2 k t).trans (or_congr_right (and_congr_right fun _ => hmarks k t))

/-- **`vset_leave`** marks a marked object as done. -/
theorem vsetLeave_spec (h : vs.Ok vhash) (hkey : vkey p = some key) {s : VState} (hs : vs.Mark key s) :
    (vsetLeave vhash vs p).Ok vhash ∧ vs.Marks (vsetLeave vhash vs p) key .DONE := by
  obtain ⟨i, hi, hf, hslot, hset⟩ := Probe.find_cases (k := key) h.placed h.room
  rcases hslot with ⟨t, ht, -⟩ | ⟨-, hm⟩
  · have e : vsetLeave vhash vs p = { vs with tab := vs.tab.set i (some (key, .DONE)) } := by
      simp only [vsetLeave, hkey, hf, ht, Option.isSome_some, ite_true]
    have hused := Probe.used_set_same (k := key) (v := VState.DONE) ht hi
    rw [e]
    refine ⟨⟨(hset .DONE).1, ?_, ?_, ?_⟩, (hset .DONE).2⟩
    · rw [hused]
      exact h.count
    · rw [List.length_set]
      exact h.size
    · rw [hused, List.length_set]
      exact h.room
  · exact absurd hs (hm s)

end

end Capnproto

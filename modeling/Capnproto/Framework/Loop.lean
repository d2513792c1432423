import Mathlib.Logic.Relation

/-!
# Loops

A loop is a step function: one iteration goes on with a new state or leaves
with a result. `Loop.run` runs it with a bound on the iterations, so that it
can be evaluated; `Loop.Ends` says that it leaves at all. `Loop.total` is the
rule for a loop with a variant, `Loop.ends_inv` the rule for an invariant, and
`Loop.diverges` the rule for a loop that never leaves; `Loop.Path` are the states on the way.
-/

namespace Capnproto

/-- One iteration: the loop goes on from `s`, or leaves with `r`. -/
inductive Step (σ ρ : Type) where
  | next (s : σ)
  | done (r : ρ)

namespace Loop

variable {σ ρ : Type} (step : σ → Step σ ρ)

/-- At most `fuel` iterations; `none` if the loop has not left by then. -/
def run : Nat → σ → Option ρ
  | 0, _ => none
  | n + 1, s =>
    match step s with
    | .next s' => run n s'
    | .done r => some r

/-- From `s` the loop leaves with `r`. -/
def Ends (s : σ) (r : ρ) : Prop := ∃ n, run step n s = some r

variable {step}

theorem run_succ_next {s s' : σ} (h : step s = .next s') (n : Nat) :
    run step (n + 1) s = run step n s' := by simp only [run, h]

theorem run_succ_done {s : σ} {r : ρ} (h : step s = .done r) (n : Nat) :
    run step (n + 1) s = some r := by simp only [run, h]

/-- More fuel gives the same result. -/
theorem run_mono {n m : Nat} {s : σ} {r : ρ} (h : run step n s = some r) (hnm : n ≤ m) :
    run step m s = some r := by
  induction n generalizing m s with
  | zero => cases h
  | succ n ih =>
    obtain ⟨m, rfl⟩ : ∃ k, m = k + 1 := ⟨m - 1, by omega⟩
    cases hs : step s with
    | next s' =>
      rw [run_succ_next hs] at h ⊢
      exact ih h (by omega)
    | done r' => rwa [run_succ_done hs] at h ⊢

/-- More fuel for the loop, and for what is called in it, gives the same result; a
call that has not returned leaves the loop with `none`. -/
theorem run_some_mono {step step' : σ → Step σ (Option ρ)}
    (h : ∀ s q, step s = q → q ≠ .done none → step' s = q) {a b : Nat} (hab : a ≤ b) {s : σ} {r : ρ}
    (hr : run step a s = some (some r)) : run step' b s = some (some r) := by
  induction a generalizing b s with
  | zero => cases hr
  | succ a ih =>
    obtain ⟨b, rfl⟩ : ∃ c, b = c + 1 := ⟨b - 1, by omega⟩
    cases e : step s with
    | next s' =>
      rw [run_succ_next e] at hr
      rw [run_succ_next (h s _ e nofun)]
      exact ih (by omega) hr
    | done q =>
      rw [run_succ_done e, Option.some.injEq] at hr
      subst hr
      rw [run_succ_done (h s _ e nofun)]

theorem Ends.unique {s : σ} {r r' : ρ} (h : Ends step s r) (h' : Ends step s r') : r = r' := by
  obtain ⟨n, hn⟩ := h
  obtain ⟨m, hm⟩ := h'
  have e := (run_mono hn (Nat.le_max_left n m)).symm.trans (run_mono hm (Nat.le_max_right n m))
  exact Option.some.inj e

theorem ends_next {s s' : σ} (h : step s = .next s') {r : ρ} : Ends step s r ↔ Ends step s' r := by
  constructor
  · rintro ⟨_ | n, hn⟩
    · cases hn
    · exact ⟨n, by rwa [run_succ_next h] at hn⟩
  · rintro ⟨n, hn⟩
    exact ⟨n + 1, by rwa [run_succ_next h]⟩

theorem ends_done {s : σ} {r : ρ} (h : step s = .done r) {r' : ρ} : Ends step s r' ↔ r = r' := by
  constructor
  · rintro ⟨_ | n, hn⟩
    · cases hn
    · rw [run_succ_done h] at hn
      exact Option.some.inj hn
  · rintro rfl
    exact ⟨1, run_succ_done h 0⟩

/-- The invariant rule: what every iteration keeps and every exit turns into
`Q` holds of whatever the loop leaves with. -/
theorem ends_inv {I : σ → Prop} {Q : ρ → Prop} (hn : ∀ s s', I s → step s = .next s' → I s')
    (hd : ∀ s r, I s → step s = .done r → Q r) {s : σ} {r : ρ} (hs : I s) (h : Ends step s r) :
    Q r := by
  obtain ⟨n, hn'⟩ := h
  induction n generalizing s with
  | zero => cases hn'
  | succ n ih =>
    cases e : step s with
    | next s' =>
      rw [run_succ_next e] at hn'
      exact ih (hn s s' hs e) hn'
    | done r' =>
      rw [run_succ_done e] at hn'
      exact Option.some.inj hn' ▸ hd s r' hs e

variable (step) in
/-- From `s` the loop goes on to `s'`. -/
def Path : σ → σ → Prop := Relation.ReflTransGen fun s s' => step s = .next s'

/-- A loop that leaves does so from wherever it gets to. -/
theorem Path.ends {s s' : σ} (h : Path step s s') {r : ρ} (hr : Ends step s r) : Ends step s' r := by
  induction h with
  | refl => exact hr
  | tail _ hstep ih => exact (ends_next hstep).mp ih

/-- A loop that leaves does so from somewhere on its way. -/
theorem Ends.path {s : σ} {r : ρ} (h : Ends step s r) : ∃ s', Path step s s' ∧ step s' = .done r := by
  obtain ⟨n, hn⟩ := h
  induction n generalizing s with
  | zero => cases hn
  | succ n ih =>
    cases hs : step s with
    | next s' =>
      rw [run_succ_next hs] at hn
      obtain ⟨t, hp, ht⟩ := ih hn
      exact ⟨t, .head hs hp, ht⟩
    | done r' =>
      rw [run_succ_done hs] at hn
      cases hn
      exact ⟨s, .refl, hs⟩

/-- The invariant rule for where the loop gets to. -/
theorem Path.inv {I : σ → Prop} {s s' : σ} (h : Path step s s') (hn : ∀ t t', I t → step t = .next t' → I t')
    (hs : I s) : I s' := by
  induction h with
  | refl => exact hs
  | tail _ hstep ih => exact hn _ _ ih hstep

variable (step) in
/-- The variant rule: if every iteration from a state satisfying `I` either
leaves in `Q`, or keeps `I`, decreases `μ` and carries `Q` backwards, then the
loop leaves, in `Q`. -/
theorem total {I : σ → Prop} {Q : σ → ρ → Prop} (μ : σ → Nat)
    (hn : ∀ s s', I s → step s = .next s' → I s' ∧ μ s' < μ s ∧ ∀ r, Q s' r → Q s r)
    (hd : ∀ s r, I s → step s = .done r → Q s r) {s : σ} (hs : I s) :
    ∃ r, Ends step s r ∧ Q s r := by
  induction hm : μ s using Nat.strongRecOn generalizing s with
  | ind m ih =>
    cases e : step s with
    | next s' =>
      obtain ⟨hi, hlt, hq⟩ := hn s s' hs e
      obtain ⟨r, hr, hQ⟩ := ih (μ s') (hm ▸ hlt) hi rfl
      exact ⟨r, (ends_next e).mpr hr, hq r hQ⟩
    | done r => exact ⟨r, (ends_done e).mpr rfl, hd s r hs e⟩

/-- A loop that goes on from every state satisfying `D`, to a state satisfying
`D`, never leaves. -/
theorem diverges {D : σ → Prop} (h : ∀ s, D s → ∃ s', step s = .next s' ∧ D s') {s : σ} (hs : D s)
    (r : ρ) : ¬ Ends step s r := by
  rintro ⟨n, hn⟩
  induction n generalizing s with
  | zero => cases hn
  | succ n ih =>
    obtain ⟨s', e, hs'⟩ := h s hs
    rw [run_succ_next e] at hn
    exact ih hs' hn

end Loop

end Capnproto

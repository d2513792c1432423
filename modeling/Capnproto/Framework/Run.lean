import Mathlib.Logic.Relation

/-!
# Runs

A system takes steps on events: `Runs` are the states it gets to by events that
an assumption allows, `Runs.inv` is the rule for an invariant, and `Runs.rel`
the rule for what a state keeps of the state where a run started.
-/

namespace Capnproto

variable {σ ε : Type}

/-- From one state to another, by steps on allowed events. -/
def Runs (step : σ → ε → σ) (ok : σ → ε → Prop) : σ → σ → Prop :=
  Relation.ReflTransGen fun s s' => ∃ e, ok s e ∧ s' = step s e

namespace Runs

variable {step : σ → ε → σ} {ok : σ → ε → Prop} {s s' : σ}

theorem tail (h : Runs step ok s s') {e : ε} (he : ok s' e) : Runs step ok s (step s' e) :=
  Relation.ReflTransGen.tail h ⟨e, he, rfl⟩

/-- The invariant rule. -/
theorem inv {I : σ → Prop} (hstep : ∀ s e, I s → ok s e → I (step s e)) (h : Runs step ok s s') (hs : I s) :
    I s' := by
  induction h with
  | refl => exact hs
  | tail _ hlast ih =>
    obtain ⟨e, he, rfl⟩ := hlast
    exact hstep _ e ih he

/-- What holds between the start and each state after it. -/
theorem rel {R : σ → σ → Prop} (hrefl : R s s) (hstep : ∀ t e, R s t → ok t e → R s (step t e))
    (h : Runs step ok s s') : R s s' :=
  inv hstep h hrefl

/-- A weaker assumption allows the same run. -/
theorem mono {ok' : σ → ε → Prop} (hok : ∀ s e, ok s e → ok' s e) (h : Runs step ok s s') : Runs step ok' s s' := by
  induction h with
  | refl => exact .refl
  | tail _ hlast ih =>
    obtain ⟨e, he, rfl⟩ := hlast
    exact ih.tail (hok _ e he)

end Runs

end Capnproto

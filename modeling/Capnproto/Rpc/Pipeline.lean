import Capnproto.Rpc.Step
import Mathlib.Tactic.ByContra

/-!
# Promise pipelining

A Call on a promised answer goes to the export whose id the recorded answer
holds. It is the object that was meant as long as no event gives the slot of
such an id to another object, and no question reuses the id of an answer that is
still recorded (`Keeps`).
-/

namespace Capnproto.Rpc

/-- An answer holds the id of a slot. -/
def Names (a : Answer) (i : ExportId) : Prop := ∃ transform, answerCap a.frame transform = some (i : Nat)

/-- The event gives no slot that a recorded answer names to a new object, and records
no answer under the id of a recorded one. -/
def Keeps (c : Conn) (vat : Vat) (e : Event) : Prop :=
  ∀ j a, c.answers j = some a → (∀ i, fills c vat e = some i → ¬ Names a i) ∧ records vat e ≠ some a.questionId

/-- The answer `a` is recorded in slot `j`, the only one under its id, and the objects
it names are, as far as they still have an entry, those of `c₁`. -/
structure Meant (c₁ : Conn) (j : Fin CAPN_RPC_MAX_ANSWERS) (a : Answer) (c : Conn) : Prop where
  here : c.answers j = some a
  only : ∀ j' a', c.answers j' = some a' → a'.questionId = a.questionId → j' = j
  named : ∀ i, Names a i → ∀ x, c.exports i = some x →
    ∃ x₁, c₁.exports i = some x₁ ∧ x₁.server = x.server ∧ x₁.dispatch = x.dispatch

section

variable {c c₁ : Conn} {vat : Vat} {e : Event} {j : Fin CAPN_RPC_MAX_ANSWERS} {a : Answer}

/-- An answer that was just recorded. -/
theorem meant_new (hok : Keeps c vat e) (hnew : c.answers j = none) (hrec : (e.run c vat).conn.answers j = some a) :
    Meant (e.run c vat).conn j a (e.run c vat).conn := by
  rcases answers_event c vat e with h | ⟨i, qid, body, -, hq, h⟩ | ⟨i, qid, -, -, h⟩
  · rw [h, hnew] at hrec
    cases hrec
  · rw [h] at hrec
    have hij : j = i := by
      by_contra hne
      rw [Table.set_ne _ _ hne, hnew] at hrec
      cases hrec
    rw [hij, Table.set_same] at hrec
    cases hrec
    refine ⟨by rw [h, hij, Table.set_same], fun j' a' ha' hid => ?_, fun i _ x hx => ⟨x, hx, rfl, rfl⟩⟩
    by_contra hne
    rw [hij] at hne
    rw [h, Table.set_ne _ _ hne] at ha'
    exact (hok j' a' ha').2 (by rw [hq, hid])
  · rw [h] at hrec
    by_cases hij : j = i
    · rw [hij, Table.set_same] at hrec
      cases hrec
    · rw [Table.set_ne _ _ hij, hnew] at hrec
      cases hrec

/-- **An event** that keeps the answers, and does not finish this one. -/
theorem meant_event (hok : Keeps c vat e) (hfin : finishes e ≠ some a.questionId) (h : Meant c₁ j a c) :
    Meant c₁ j a (e.run c vat).conn := by
  have hnamed : ∀ i, Names a i → ∀ x, (e.run c vat).conn.exports i = some x →
      ∃ x₁, c₁.exports i = some x₁ ∧ x₁.server = x.server ∧ x₁.dispatch = x.dispatch := by
    intro i hi x hx
    rcases exports_event c vat e i x hx with ⟨y, hy, hs, hd⟩ | hfill
    · obtain ⟨x₁, hx₁, hs₁, hd₁⟩ := h.named i hi y hy
      exact ⟨x₁, hx₁, hs₁.trans hs, hd₁.trans hd⟩
    · exact absurd hi ((hok j a h.here).1 i hfill)
  rcases answers_event c vat e with ha | ⟨i, qid, body, hfree, hq, ha⟩ | ⟨i, qid, hdrop, hfind, ha⟩
  · exact ⟨by rw [ha]; exact h.here, fun j' a' => by rw [ha]; exact h.only j' a', hnamed⟩
  · have hji : j ≠ i := by
      rintro rfl
      have hnone := Table.free_some hfree
      rw [h.here] at hnone
      cases hnone
    refine ⟨by rw [ha, Table.set_ne _ _ hji]; exact h.here, fun j' a' ha' hid => ?_, hnamed⟩
    rw [ha] at ha'
    by_cases hj' : j' = i
    · rw [hj', Table.set_same] at ha'
      cases ha'
      exact absurd (hq.trans (congrArg some hid)) (hok j a h.here).2
    · rw [Table.set_ne _ _ hj'] at ha'
      exact h.only j' a' ha' hid
  · obtain ⟨b, hb, hbq⟩ := Table.find_some hfind
    have hji : j ≠ i := by
      rintro rfl
      rw [h.here] at hb
      cases hb
      exact hfin (by rw [hdrop, of_decide_eq_true hbq])
    refine ⟨by rw [ha, Table.set_ne _ _ hji]; exact h.here, fun j' a' ha' hid => ?_, hnamed⟩
    rw [ha] at ha'
    by_cases hj' : j' = i
    · rw [hj', Table.set_same] at ha'
      cases ha'
    · rw [Table.set_ne _ _ hj'] at ha'
      exact h.only j' a' ha' hid

/-- What a Call on an answer is dispatched to. -/
theorem Meant.callee (h : Meant c₁ j a c) (transform : List Op) :
    callee c (some (.promisedAnswer (some ⟨a.questionId, transform⟩))) =
      ((answerCap a.frame transform).bind (usedExport c)).bind fun i => c.exports i := by
  have hfind : answerFind c a.questionId = some j :=
    Table.find_unique h.here (decide_eq_true rfl) fun j' b hb hq => h.only j' b hb (of_decide_eq_true hq)
  simp only [Rpc.callee, resolveTarget, resolvePromisedAnswer, hfind, h.here]

end

/-- **A pipelined Call** is dispatched to the object that was meant when the Return was
sent, or refused, in every run whose events keep the recorded answers. -/
theorem pipelined_call {ι : Type} [DecidableEq ι] {w w' : World ι} {k : ι} {e : Event}
    {j : Fin CAPN_RPC_MAX_ANSWERS} {a : Answer} (hok : Keeps (w.conns k) w.vat e)
    (hnew : (w.conns k).answers j = none) (hrec : ((w.step (k, e)).conns k).answers j = some a)
    (hrun : Runs World.step (fun v f => f.1 = k → Keeps (v.conns k) v.vat f.2 ∧ finishes f.2 ≠ some a.questionId)
      (w.step (k, e)) w') (transform : List Op) :
    callee (w'.conns k) (some (.promisedAnswer (some ⟨a.questionId, transform⟩))) = none ∨
      ∃ x x₁, callee (w'.conns k) (some (.promisedAnswer (some ⟨a.questionId, transform⟩))) = some x ∧
        callee ((w.step (k, e)).conns k) (some (.promisedAnswer (some ⟨a.questionId, transform⟩))) = some x₁ ∧
        x.server = x₁.server ∧ x.dispatch = x₁.dispatch := by
  rw [step_conns_same] at hrec
  have hstart := meant_new hok hnew hrec
  have hmeant : Meant (e.run (w.conns k) w.vat).conn j a (w'.conns k) := by
    refine hrun.inv (I := fun v => Meant (e.run (w.conns k) w.vat).conn j a (v.conns k)) (fun v f hv hf => ?_) ?_
    · obtain ⟨i, f⟩ := f
      by_cases hi : k = i
      · subst hi
        rw [step_conns_same]
        obtain ⟨hk, hfin⟩ := hf rfl
        exact meant_event hk hfin hv
      · rw [step_conns_ne v f hi]
        exact hv
    · rw [step_conns_same]
      exact hstart
  rw [step_conns_same, hstart.callee, hmeant.callee]
  cases hcap : answerCap a.frame transform with
  | none => exact .inl rfl
  | some id =>
    rw [Option.bind_some, Option.bind_some]
    cases hu : usedExport (w'.conns k) id with
    | none => exact .inl rfl
    | some i =>
      obtain ⟨hid, x, hx⟩ := usedExport_some hu
      obtain ⟨x₁, hx₁, hs, hd⟩ := hmeant.named i ⟨transform, by rw [hcap, hid]⟩ x hx
      have hu₁ : usedExport (e.run (w.conns k) w.vat).conn id = some i := by
        rw [usedExport, hid, dif_pos i.isLt]
        show (if ((e.run (w.conns k) w.vat).conn.exports i).isSome then some i else none) = some i
        rw [hx₁]
        rfl
      refine .inr ⟨x, x₁, ?_, ?_, hs.symm, hd.symm⟩
      · rw [Option.bind_some, hx]
      · rw [hu₁, Option.bind_some, hx₁]

/-! ## Two runs -/

/-- A connection that offers server 1, before its Bootstrap. -/
def offering : World Unit := World.after {} [((), .setBootstrap (some (1, 1)))]

/-- The answer to question 7. -/
def offered : Answer := ⟨7, .results (capPayload 0)⟩

theorem offering_answers :
    ((offering.step ((), .recv quietEnv (.bootstrap 7))).conns ()).answers = Table.empty.set 0 (some offered) := rfl

/-- A transform gets nowhere in the content of `capPayload`. -/
theorem walkTransform_cap (eid : ExportId) {transform : List Op} {path : List Nat}
    (h : walkTransform (capPayload eid).content [] transform = some path) : path = [] := by
  induction transform with
  | nil =>
    cases h
    rfl
  | cons op ops ih =>
    cases op with
    | noop => exact ih h
    | getPointerField field => cases h

theorem names_capPayload {qid : Nat} {eid i : ExportId} (h : Names ⟨qid, .results (capPayload eid)⟩ i) : i = eid := by
  obtain ⟨transform, h⟩ := h
  simp only [answerCap] at h
  cases hw : walkTransform (capPayload eid).content [] transform with
  | none =>
    rw [hw] at h
    cases h
  | some path =>
    rw [hw, walkTransform_cap eid hw] at h
    exact (Fin.ext (Option.some.inj h)).symm

theorem offered_keeps : Keeps ((offering.step ((), .recv quietEnv (.bootstrap 7))).conns ()) .empty (.exportCap 2 2) := by
  intro j a ha
  have hj : j = 0 ∧ a = offered := by
    rw [offering_answers] at ha
    by_cases hj : j = 0
    · rw [hj, Table.set_same] at ha
      exact ⟨hj, (Option.some.inj ha).symm⟩
    · rw [Table.set_ne _ _ hj] at ha
      cases ha
  rw [hj.2]
  refine ⟨fun i hi hn => ?_, by decide⟩
  have hfill : fills ((offering.step ((), .recv quietEnv (.bootstrap 7))).conns ()) .empty (.exportCap 2 2) =
      some 1 := by decide +kernel
  rw [hfill] at hi
  rw [names_capPayload hn] at hi
  exact absurd hi (by decide)

/-- While another object is exported, a Call on question 7 still goes to server 1. -/
theorem pipelined_call_offered : ∃ w' : World Unit,
    Runs World.step (fun v f => f.1 = () → Keeps (v.conns ()) v.vat f.2 ∧ finishes f.2 ≠ some 7)
      (offering.step ((), .recv quietEnv (.bootstrap 7))) w' ∧
      (w'.conns ()).exports 1 = some ⟨1, 2, 2⟩ ∧
      (callee (w'.conns ()) (some (.promisedAnswer (some ⟨7, []⟩))) = none ∨
        ∃ x x₁, callee (w'.conns ()) (some (.promisedAnswer (some ⟨7, []⟩))) = some x ∧
          callee ((offering.step ((), .recv quietEnv (.bootstrap 7))).conns ())
            (some (.promisedAnswer (some ⟨7, []⟩))) = some x₁ ∧
          x.server = x₁.server ∧ x.dispatch = x₁.dispatch) := by
  have hfirst : Keeps (offering.conns ()) offering.vat (.recv quietEnv (.bootstrap 7)) := by
    intro j a ha
    cases ha
  have hrun : Runs World.step (fun v f => f.1 = () → Keeps (v.conns ()) v.vat f.2 ∧ finishes f.2 ≠ some 7)
      (offering.step ((), .recv quietEnv (.bootstrap 7)))
      ((offering.step ((), .recv quietEnv (.bootstrap 7))).step ((), .exportCap 2 2)) :=
    Runs.tail .refl fun _ => ⟨offered_keeps, by decide⟩
  have hrec : ((offering.step ((), .recv quietEnv (.bootstrap 7))).conns ()).answers 0 = some offered := by
    rw [offering_answers, Table.set_same]
  exact ⟨_, hrun, by decide +kernel, pipelined_call hfirst rfl hrec hrun []⟩

/-- The slot of server 1 is freed and given to server 2, which gets the Call. -/
theorem pipelined_call_fails :
    let w := World.after ({} : World Unit) [((), .setBootstrap (some (1, 1))), ((), .recv quietEnv (.bootstrap 7))]
    let w' := w.after [((), .recv quietEnv (.release 0 1)), ((), .exportCap 2 2)]
    (callee (w.conns ()) (some (.promisedAnswer (some ⟨7, []⟩)))).map (·.server) = some 1 ∧
      (callee (w'.conns ()) (some (.promisedAnswer (some ⟨7, []⟩)))).map (·.server) = some 2 := by
  decide +kernel

end Capnproto.Rpc

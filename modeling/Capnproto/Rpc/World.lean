import Capnproto.Framework.Run
import Capnproto.Rpc.Vat

/-!
# Connections that share a vat

A world is the connections of a vat, of any number, and what they share. It
changes when a message arrives on a connection, and when the application
exports a capability or sets what Bootstrap gives. What each handler leaves
alone is in the lemmas here.
-/

namespace Capnproto.Rpc

/-- There are connections in a world of two. -/
instance twoConnections : NeZero 2 := ⟨by decide⟩

/-- The connections of a vat. -/
structure World (ι : Type) where
  conns : ι → Conn := fun _ => {}
  vat : Vat := .empty

/-- What happens to a connection: a message, with what is around the handler; or
the application calls `capn_rpc_export` or `capn_rpc_set_bootstrap`. -/
inductive Event where
  | recv (env : Env) (m : Message)
  | exportCap (server dispatch : Nat)
  | setBootstrap (bootstrap : Option (Nat × Nat))

/-- What an event on a connection does. -/
def Event.run (c : Conn) (vat : Vat) : Event → Local
  | .recv env m => capnRpcHandle env c vat m
  | .exportCap server dispatch =>
    match capnRpcExport c server dispatch with
    | some (_, conn) => { conn := conn, vat := vat }
    | none => { conn := c, vat := vat }
  | .setBootstrap bootstrap => { conn := { c with bootstrap := bootstrap }, vat := vat }

section

variable {ι : Type} [DecidableEq ι]

/-- What is sent on connection `k` by an event on it. -/
def World.sent (w : World ι) (e : ι × Event) : List Outgoing := (e.2.run (w.conns e.1) w.vat).sent

/-- One step: an event on a connection. -/
def World.step (w : World ι) (e : ι × Event) : World ι :=
  ⟨fun j => if j = e.1 then (e.2.run (w.conns e.1) w.vat).conn else w.conns j, (e.2.run (w.conns e.1) w.vat).vat⟩

theorem step_conns_same (w : World ι) (k : ι) (e : Event) :
    (w.step (k, e)).conns k = (e.run (w.conns k) w.vat).conn := if_pos rfl

theorem step_conns_ne (w : World ι) {j k : ι} (e : Event) (h : j ≠ k) : (w.step (k, e)).conns j = w.conns j :=
  if_neg h

theorem step_vat (w : World ι) (k : ι) (e : Event) : (w.step (k, e)).vat = (e.run (w.conns k) w.vat).vat := rfl

end

/-! ## Runs on given events -/

/-- The state after some events. -/
def World.after {ι : Type} [DecidableEq ι] (w : World ι) (es : List (ι × Event)) : World ι := es.foldl World.step w

/-- Servers that answer with nothing, sends that succeed, and small frames. -/
def quietEnv : Env := ⟨fun _ _ _ _ _ => (0, fun _ => .other), fun _ => 0, fun _ => 256⟩

/-! ## Sending

A Return that is sent is recorded in a free answer, if there is one. -/

section

variable (env : Env) (l : Local)

@[simp] theorem sendMessage_conn (msg : Outgoing) : (sendMessage env l msg).conn = l.conn := by
  rw [sendMessage]
  split <;> rfl

@[simp] theorem sendMessage_vat (msg : Outgoing) : (sendMessage env l msg).vat = l.vat := by
  rw [sendMessage]
  split <;> rfl

theorem sendMessage_sent (msg : Outgoing) : (sendMessage env l msg).sent =
    l.sent ++ if CAPN_RPC_MAX_ANSWER_BYTES < env.frameSize msg then [] else [msg] := by
  rw [sendMessage]
  split
  · exact (List.append_nil _).symm
  · rfl

@[simp] theorem sendAnswer_exports (qid : Nat) (body : Return) :
    (sendAnswer env l qid body).conn.exports = l.conn.exports := by
  rw [sendAnswer]
  split
  · rfl
  · simp only
    split <;> rfl

@[simp] theorem sendAnswer_joins (qid : Nat) (body : Return) :
    (sendAnswer env l qid body).conn.joins = l.conn.joins := by
  rw [sendAnswer]
  split
  · rfl
  · simp only
    split <;> rfl

@[simp] theorem sendAnswer_bootstrap (qid : Nat) (body : Return) :
    (sendAnswer env l qid body).conn.bootstrap = l.conn.bootstrap := by
  rw [sendAnswer]
  split
  · rfl
  · simp only
    split <;> rfl

@[simp] theorem sendAnswer_vat (qid : Nat) (body : Return) : (sendAnswer env l qid body).vat = l.vat := by
  rw [sendAnswer]
  split <;> rfl

theorem sendAnswer_sent (qid : Nat) (body : Return) : (sendAnswer env l qid body).sent =
    l.sent ++ if CAPN_RPC_MAX_ANSWER_BYTES < env.frameSize (.ret qid body) then [] else [.ret qid body] := by
  rw [sendAnswer]
  split
  · exact (List.append_nil _).symm
  · rfl

/-- The answers after one was recorded, if it was. -/
theorem sendAnswer_answers (qid : Nat) (body : Return) :
    (sendAnswer env l qid body).conn.answers = l.conn.answers ∨
      ∃ i, l.conn.answers.free = some i ∧
        (sendAnswer env l qid body).conn.answers = l.conn.answers.set i (some ⟨qid, body⟩) := by
  rw [sendAnswer]
  split
  · exact .inl rfl
  · simp only
    cases hf : l.conn.answers.free with
    | none => exact .inl rfl
    | some i => exact .inr ⟨i, rfl, rfl⟩

end

/-! ## Targets -/

theorem usedExport_some {c : Conn} {id : Nat} {i : ExportId} (h : usedExport c id = some i) :
    id = i ∧ ∃ e, c.exports i = some e := by
  rw [usedExport] at h
  split at h
  · split at h
    · rename_i hid hused
      cases h
      exact ⟨rfl, Option.isSome_iff_exists.mp hused⟩
    · cases h
  · cases h

/-- A target resolves to a slot in use. -/
theorem resolveTarget_used {c : Conn} {target : Option MessageTarget} {i : ExportId}
    (h : resolveTarget c target = some i) : ∃ e, c.exports i = some e := by
  unfold resolveTarget at h
  split at h
  · cases h
  · unfold resolvePromisedAnswer at h
    split at h
    · cases h
    split at h
    · cases h
    split at h
    · cases h
    obtain ⟨id, -, hid⟩ := Option.bind_eq_some_iff.mp h
    exact (usedExport_some hid).2
  · exact (usedExport_some h).2
  · cases h

/-- The export that a Call on a target is dispatched to. -/
def callee (c : Conn) (target : Option MessageTarget) : Option Export := (resolveTarget c target).bind fun i => c.exports i

/-- **`handle_call`** dispatches to the callee, and without one refuses. -/
theorem handleCall_eq (env : Env) (l : Local) (qid : Nat) (target : Option MessageTarget)
    (interfaceId methodId : Nat) (params : Payload) :
    handleCall env l qid target interfaceId methodId params =
      match callee l.conn target with
      | none => sendReturnException env l qid "no such export"
      | some e =>
        if (env.dispatch e.server e.dispatch interfaceId methodId params.content).1 ≠ 0 then
          sendReturnException env l qid "call failed"
        else sendAnswer env l qid
          (.results ⟨(env.dispatch e.server e.dispatch interfaceId methodId params.content).2, []⟩) := by
  rw [handleCall, callee]
  cases hr : resolveTarget l.conn target with
  | none => rfl
  | some eid =>
    obtain ⟨e, he⟩ := resolveTarget_used hr
    simp only [Option.bind_some, he]

/-- The texts of the exceptions. -/
def reasons : List String :=
  ["no bootstrap capability", "export table full", "no such export", "call failed", "provide: no such capability",
    "provide: no recipient", "provide: table full", "accept: no provision", "accept: no such provision",
    "accept: export table full"]

/-! ## What each handler does

The outcomes of the handlers, each with the state it came from. -/

section

variable (env : Env) (l : Local) (qid : Nat)

theorem handleBootstrap_cases :
    (∃ reason, handleBootstrap env l qid = sendReturnException env l qid reason ∧ reason ∈ reasons) ∨
      ∃ server dispatch eid conn, l.conn.bootstrap = some (server, dispatch) ∧
        capnRpcExport l.conn server dispatch = some (eid, conn) ∧
        handleBootstrap env l qid = sendAnswer env { l with conn := conn } qid (.results (capPayload eid)) := by
  rw [handleBootstrap]
  cases hb : l.conn.bootstrap with
  | none => exact .inl ⟨_, rfl, by decide⟩
  | some b =>
    obtain ⟨server, dispatch⟩ := b
    simp only
    cases he : capnRpcExport l.conn server dispatch with
    | none => exact .inl ⟨_, rfl, by decide⟩
    | some r => exact .inr ⟨server, dispatch, r.1, r.2, rfl, he, rfl⟩

/-- The provision that an Accept with a nonce claims. -/
def claimable (vat : Vat) (nonce : Nat) : Option (Fin CAPN_RPC_MAX_PROVISIONS) :=
  vat.find fun p => !p.embargoed ∧ p.nonce = nonce

/-- The provision that a Disembargo lifts the embargo of. -/
def liftable (vat : Vat) (provideQid : Nat) : Option (Fin CAPN_RPC_MAX_PROVISIONS) :=
  vat.find fun p => p.embargoed ∧ p.questionId = provideQid

theorem claimable_some {vat : Vat} {nonce : Nat} {i : Fin CAPN_RPC_MAX_PROVISIONS}
    (h : claimable vat nonce = some i) : ∃ p, vat i = some p ∧ p.embargoed = false ∧ p.nonce = nonce := by
  obtain ⟨p, hp, hc⟩ := Table.find_some h
  simp only [decide_eq_true_eq, Bool.not_eq_true', Bool.decide_and, Bool.and_eq_true] at hc
  exact ⟨p, hp, hc.1, hc.2⟩

theorem liftable_some {vat : Vat} {provideQid : Nat} {i : Fin CAPN_RPC_MAX_PROVISIONS}
    (h : liftable vat provideQid = some i) : ∃ p, vat i = some p ∧ p.embargoed = true ∧ p.questionId = provideQid := by
  obtain ⟨p, hp, hc⟩ := Table.find_some h
  simp only [decide_eq_true_eq, Bool.decide_and, Bool.and_eq_true] at hc
  exact ⟨p, hp, hc.1, hc.2⟩

theorem handleProvide_cases (target : Option MessageTarget) (recipient : Option Nat) :
    (∃ reason, handleProvide env l qid target recipient = sendReturnException env l qid reason ∧ reason ∈ reasons) ∨
      ∃ eid e nonce i, resolveTarget l.conn target = some eid ∧ l.conn.exports eid = some e ∧ recipient = some nonce ∧
        l.vat.free = some i ∧
        handleProvide env l qid target recipient =
          sendEmptyReturn env { l with conn := { l.conn with exports := l.conn.exports.set eid (some e.ref) }
                                       vat := l.vat.set i (some ⟨nonce, e.server, e.dispatch, eid, qid, false, 0⟩) }
            qid := by
  rw [handleProvide]
  cases ht : resolveTarget l.conn target with
  | none => exact .inl ⟨_, rfl, by decide⟩
  | some eid =>
    obtain ⟨e, he⟩ := resolveTarget_used ht
    cases recipient with
    | none => exact .inl ⟨_, rfl, by decide⟩
    | some nonce =>
      simp only [he]
      cases hf : l.vat.free with
      | none => exact .inl ⟨_, rfl, by decide⟩
      | some i => exact .inr ⟨eid, e, nonce, i, rfl, he, rfl, rfl, rfl⟩

theorem handleAccept_some (nonce : Nat) (embargo : Bool) : handleAccept env l qid (some nonce) embargo =
    match claimable l.vat nonce with
    | none => sendReturnException env l qid "accept: no such provision"
    | some i =>
      match l.vat i with
      | none => l
      | some p =>
        match capnRpcExport l.conn p.server p.dispatch with
        | none => sendReturnException env l qid "accept: export table full"
        | some (eid, conn) =>
          if embargo then
            { l with conn := conn, rc := 0
                     vat := l.vat.set i (some { p with exportId := eid, embargoed := true, acceptQuestionId := qid }) }
          else sendAcceptedCap env { l with conn := conn, vat := l.vat.set i none } qid eid := rfl

/-- An Accept claims nothing, or the provision with its nonce. -/
theorem handleAccept_cases (provision : Option Nat) (embargo : Bool) :
    (∃ reason, handleAccept env l qid provision embargo = sendReturnException env l qid reason ∧ reason ∈ reasons ∧
      ∀ nonce, provision = some nonce → ∀ i p, claimable l.vat nonce = some i → l.vat i = some p →
        capnRpcExport l.conn p.server p.dispatch = none) ∨
      ∃ nonce i p eid conn, provision = some nonce ∧ claimable l.vat nonce = some i ∧ l.vat i = some p ∧
        capnRpcExport l.conn p.server p.dispatch = some (eid, conn) ∧
        handleAccept env l qid provision embargo =
          if embargo then
            { l with conn := conn, rc := 0
                     vat := l.vat.set i (some { p with exportId := eid, embargoed := true, acceptQuestionId := qid }) }
          else sendAcceptedCap env { l with conn := conn, vat := l.vat.set i none } qid eid := by
  cases provision with
  | none => exact .inl ⟨_, rfl, by decide, fun _ h => by cases h⟩
  | some nonce =>
    rw [handleAccept_some]
    cases hf : claimable l.vat nonce with
    | none =>
      refine .inl ⟨_, rfl, by decide, fun n hn i p hi => ?_⟩
      cases hn
      rw [hf] at hi
      cases hi
    | some i =>
      obtain ⟨p, hp, -⟩ := claimable_some hf
      simp only [hp]
      cases hx : capnRpcExport l.conn p.server p.dispatch with
      | none =>
        refine .inl ⟨_, rfl, by decide, fun n hn i' p' hi hp' => ?_⟩
        cases hn
        rw [hf] at hi
        cases hi
        rw [hp] at hp'
        cases hp'
        exact hx
      | some r => exact .inr ⟨nonce, i, p, r.1, r.2, rfl, hf, hp, hx, rfl⟩

theorem releaseProvideEmbargo_eq : releaseProvideEmbargo env l qid =
    match liftable l.vat qid with
    | none => { l with rc := 0 }
    | some i =>
      match l.vat i with
      | none => l
      | some p => sendAcceptedCap env { l with vat := l.vat.set i none } p.acceptQuestionId p.exportId := rfl

/-- A Disembargo lifts nothing, or answers the Accept that waits. -/
theorem releaseProvideEmbargo_cases :
    (liftable l.vat qid = none ∧ releaseProvideEmbargo env l qid = { l with rc := 0 }) ∨
      ∃ i p, liftable l.vat qid = some i ∧ l.vat i = some p ∧ releaseProvideEmbargo env l qid =
        sendAcceptedCap env { l with vat := l.vat.set i none } p.acceptQuestionId p.exportId := by
  rw [releaseProvideEmbargo_eq]
  cases hf : liftable l.vat qid with
  | none => exact .inl ⟨rfl, rfl⟩
  | some i =>
    obtain ⟨p, hp, -⟩ := liftable_some hf
    simp only [hp]
    exact .inr ⟨i, p, rfl, hp, rfl⟩

end

end Capnproto.Rpc

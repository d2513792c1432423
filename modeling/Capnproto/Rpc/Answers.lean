import Capnproto.Rpc.Returns

/-!
# Answers kept until Finish

Which Returns `send_answer` keeps, and until when: what a message gets results
for (`resultsFor`), that these are sent and recorded (`answers_cases`), and over
a run the Returns with a capability that were sent and not finished (`held`)
beside the table they should be found in.
-/

namespace Capnproto.Rpc

/-- A Return with a capability in its results. -/
def Return.Carries : Return → Prop
  | .results pl => pl.capTable ≠ [] ∨ ∃ path index, pl.content path = .cap index
  | .joinResult _ _ capTable => capTable ≠ []
  | .exception _ => False

/-- The question that a message gets results for, and the results. A part of a Join has
results of its own form. -/
def resultsFor (env : Env) (c : Conn) (vat : Vat) : Message → Option (Nat × Payload)
  | .bootstrap qid => (c.bootstrap.bind fun b => capnRpcExport c b.1 b.2).map fun r => (qid, capPayload r.1)
  | .call qid target interfaceId methodId params =>
    (callee c target).bind fun e =>
      if (env.dispatch e.server e.dispatch interfaceId methodId params.content).1 = 0 then
        some (qid, ⟨(env.dispatch e.server e.dispatch interfaceId methodId params.content).2, []⟩)
      else none
  | .provide qid target recipient =>
    if (resolveTarget c target).isSome ∧ recipient.isSome ∧ vat.free.isSome then some (qid, ⟨fun _ => .other, []⟩)
    else none
  | .accept qid (some nonce) false =>
    (((claimable vat nonce).bind fun i => vat i).bind fun p => capnRpcExport c p.server p.dispatch).map fun r =>
      (qid, capPayload r.1)
  | .disembargo _ (.provide qid) =>
    ((liftable vat qid).bind fun i => vat i).map fun p => (p.acceptQuestionId, capPayload p.exportId)
  | _ => none

/-- A Join completes its set, and the parts of the set are one export. -/
def completesSame (c : Conn) : Message → Bool
  | .join qid target keyPart =>
    (accepted c keyPart).any fun x =>
      let j := x.2.1.park x.2.2 qid (resolveTarget c target)
      j.nseen = j.partCount ∧ j.same
  | _ => false

/-- The table with an answer recorded in a free slot, if there is one. -/
def keepAnswer (answers : Table CAPN_RPC_MAX_ANSWERS Answer) (a : Answer) : Table CAPN_RPC_MAX_ANSWERS Answer :=
  match answers.free with
  | some i => answers.set i (some a)
  | none => answers

/-! ## What a message sends and records -/

/-- No Return with a capability is sent. -/
def Bare (sent : List Outgoing) : Prop := ∀ q body, Outgoing.ret q body ∈ sent → ¬ body.Carries

section

variable {env : Env} {l : Local} {qid : Nat}

theorem bare_nil : Bare [] := nofun

theorem bare_emit {msg : Outgoing} (h : ∀ q body, msg = .ret q body → ¬ body.Carries) : Bare (emit env msg) := by
  intro q body hmem
  exact h q body (mem_emit hmem).symm

theorem bare_exception (h : l.sent = []) (reason : String) : Bare (sendReturnException env l qid reason).sent := by
  rw [sendReturnException, sendMessage_emit, h]
  apply bare_emit
  intro q body e
  cases e
  exact id

/-- Results that fit are sent and recorded; others are neither. -/
theorem sendAnswer_keeps (h : l.sent = []) (body : Return) :
    (CAPN_RPC_MAX_ANSWER_BYTES < env.frameSize (.ret qid body) ∧ (sendAnswer env l qid body).sent = [] ∧
      (sendAnswer env l qid body).conn.answers = l.conn.answers) ∨
    (env.frameSize (.ret qid body) ≤ CAPN_RPC_MAX_ANSWER_BYTES ∧
      (sendAnswer env l qid body).sent = [.ret qid body] ∧
      (sendAnswer env l qid body).conn.answers = keepAnswer l.conn.answers ⟨qid, body⟩) := by
  unfold sendAnswer
  split
  · rename_i hlt
    exact .inl ⟨hlt, h, rfl⟩
  · rename_i hle
    refine .inr ⟨Nat.not_lt.mp hle, by rw [h]; rfl, ?_⟩
    unfold keepAnswer
    simp only
    cases l.conn.answers.free <;> rfl

end

/-- What `capn_rpc_handle` does with the answers: it sends results and records them, or
it sends none with a capability and records nothing. -/
def Kept (env : Env) (c : Conn) (vat : Vat) (m : Message) (l : Local) : Prop :=
  (∃ q pl, resultsFor env c vat m = some (q, pl) ∧
    env.frameSize (.ret q (.results pl)) ≤ CAPN_RPC_MAX_ANSWER_BYTES ∧ l.sent = [.ret q (.results pl)] ∧
    l.conn.answers = keepAnswer c.answers ⟨q, .results pl⟩) ∨
  (Bare l.sent ∧ l.conn.answers = c.answers)

section

variable {env : Env} {c : Conn} {vat : Vat} {m : Message}

theorem kept_results {l : Local} {q : Nat} {pl : Payload} (hr : resultsFor env c vat m = some (q, pl))
    (hsent : l.sent = []) (hans : l.conn.answers = c.answers) :
    Kept env c vat m (sendAnswer env l q (.results pl)) := by
  obtain ⟨-, hs, ha⟩ | ⟨hle, hs, ha⟩ := @sendAnswer_keeps env l q hsent (.results pl)
  · exact .inr ⟨by rw [hs]; exact bare_nil, ha.trans hans⟩
  · exact .inl ⟨q, pl, hr, hle, hs, by rw [ha, hans]⟩

theorem kept_exception (q : Nat) (reason : String) :
    Kept env c vat m (sendReturnException env { conn := c, vat := vat } q reason) := by
  refine .inr ⟨bare_exception rfl reason, ?_⟩
  rw [sendReturnException, sendMessage_conn]

theorem export_answers {server dispatch : Nat} {r : ExportId × Conn}
    (h : capnRpcExport c server dispatch = some r) : r.2.answers = c.answers := by
  obtain ⟨eid, conn⟩ := r
  obtain ⟨e, he, -⟩ := capnRpcExport_spec h
  rw [he]

theorem bootstrap_kept (qid : Nat) :
    Kept env c vat (.bootstrap qid) (handleBootstrap env { conn := c, vat := vat } qid) := by
  obtain ⟨reason, e, -⟩ | ⟨server, dispatch, eid, conn, hb, he, e⟩ :=
    handleBootstrap_cases env { conn := c, vat := vat } qid
  · rw [e]
    exact kept_exception qid reason
  · rw [e]
    replace hb : c.bootstrap = some (server, dispatch) := hb
    replace he : capnRpcExport c server dispatch = some (eid, conn) := he
    refine kept_results ?_ rfl (export_answers he)
    simp only [resultsFor, hb, Option.bind_some, he, Option.map_some]

theorem call_kept (qid : Nat) (target : Option MessageTarget) (interfaceId methodId : Nat) (params : Payload) :
    Kept env c vat (.call qid target interfaceId methodId params)
      (handleCall env { conn := c, vat := vat } qid target interfaceId methodId params) := by
  rw [handleCall_eq]
  cases hc : callee c target with
  | none => exact kept_exception qid _
  | some e =>
    simp only
    split
    · exact kept_exception qid _
    · rename_i hrc
      refine kept_results ?_ rfl rfl
      simp only [resultsFor, hc, Option.bind_some, if_pos (not_not.mp hrc)]

theorem provide_kept (qid : Nat) (target : Option MessageTarget) (recipient : Option Nat) :
    Kept env c vat (.provide qid target recipient)
      (handleProvide env { conn := c, vat := vat } qid target recipient) := by
  obtain ⟨reason, e, -⟩ | ⟨eid, x, nonce, i, ht, -, hr, hf, e⟩ :=
    handleProvide_cases env { conn := c, vat := vat } qid target recipient
  · rw [e]
    exact kept_exception qid reason
  · rw [e]
    replace ht : resolveTarget c target = some eid := ht
    replace hf : vat.free = some i := hf
    refine kept_results ?_ rfl rfl
    simp only [resultsFor, ht, hr, hf, Option.isSome_some, and_self, if_true]

theorem accept_kept (qid : Nat) (provision : Option Nat) (embargo : Bool) :
    Kept env c vat (.accept qid provision embargo)
      (handleAccept env { conn := c, vat := vat } qid provision embargo) := by
  obtain ⟨reason, e, -⟩ | ⟨nonce, i, p, eid, conn, rfl, hf, hp, he, e⟩ :=
    handleAccept_cases env { conn := c, vat := vat } qid provision embargo
  · rw [e]
    exact kept_exception qid reason
  · rw [e]
    replace hf : claimable vat nonce = some i := hf
    replace hp : vat i = some p := hp
    replace he : capnRpcExport c p.server p.dispatch = some (eid, conn) := he
    have hans : conn.answers = c.answers := export_answers he
    cases embargo with
    | true => exact .inr ⟨bare_nil, hans⟩
    | false =>
      refine kept_results ?_ rfl hans
      simp only [resultsFor, hf, Option.bind_some, hp, he, Option.map_some]

theorem disembargo_kept (target : Option MessageTarget) (context : Context) :
    Kept env c vat (.disembargo target context)
      (handleDisembargo env { conn := c, vat := vat } target context) := by
  cases context with
  | provide qid =>
    rw [handleDisembargo]
    obtain ⟨-, e⟩ | ⟨i, p, hf, hp, e⟩ := releaseProvideEmbargo_cases env { conn := c, vat := vat } qid
    · rw [e]
      exact .inr ⟨bare_nil, rfl⟩
    · rw [e]
      replace hf : liftable vat qid = some i := hf
      replace hp : vat i = some p := hp
      refine kept_results ?_ rfl rfl
      simp only [resultsFor, hf, Option.bind_some, hp, Option.map_some]
  | senderLoopback id =>
    refine .inr ⟨?_, by rw [handleDisembargo, sendMessage_conn]⟩
    rw [handleDisembargo, sendMessage_emit]
    exact bare_emit (by rintro _ _ ⟨⟩)
  | receiverLoopback id => exact .inr ⟨bare_nil, rfl⟩
  | accept => exact .inr ⟨bare_nil, rfl⟩

/-- The answers to a set whose parts differ have no capability. -/
theorem replies_bare {j : Join} (h : j.same = false) (is : List (Fin CAPN_RPC_MAX_JOIN_PARTS)) :
    Bare (is.flatMap fun i => emit env (joinReply j i)) := by
  intro q body hmem
  obtain ⟨i, -, hi⟩ := List.mem_flatMap.mp hmem
  have hb := mem_emit hi
  simp only [joinReply, h, Bool.false_eq_true, false_and, if_false, Option.map_none, Option.toList_none] at hb
  cases hb
  exact fun hne => hne rfl

theorem join_kept (qid : Nat) (target : Option MessageTarget) (keyPart : Option JoinKeyPart)
    (hok : completesSame c (.join qid target keyPart) = false) :
    Kept env c vat (.join qid target keyPart) (handleJoin env { conn := c, vat := vat } qid target keyPart) := by
  refine .inr ⟨?_, handleJoin_answers env _ qid target keyPart⟩
  obtain ⟨-, id, e⟩ | ⟨slot, j, i, hacc, e⟩ := handleJoin_cases env { conn := c, vat := vat } qid target keyPart
  · rw [e, sendJoinResult, sendMessage_emit]
    refine bare_emit fun q body he => ?_
    cases he
    exact fun hne => hne rfl
  · replace hacc : accepted c keyPart = some (slot, j, i) := hacc
    simp only [completesSame, hacc, Option.any_some, decide_eq_false_iff_not, not_and] at hok
    simp only [e]
    split
    · rename_i hfull
      rw [joinComplete_sent]
      exact replies_bare (Bool.eq_false_iff.mpr (hok hfull)) _
    · exact bare_nil

/-- **`capn_rpc_handle`**, on a message other than Finish and the last part of a Join that
succeeds. -/
theorem answers_cases (hok : completesSame c m = false) (hfin : ∀ qid, m ≠ .finish qid) :
    Kept env c vat m (capnRpcHandle env c vat m) := by
  have hunimpl : Kept env c vat m (sendUnimplemented env { conn := c, vat := vat } m) := by
    refine .inr ⟨?_, by rw [sendUnimplemented, sendMessage_conn]⟩
    rw [sendUnimplemented, sendMessage_emit]
    exact bare_emit (by rintro _ _ ⟨⟩)
  cases m with
  | bootstrap qid => exact bootstrap_kept qid
  | call qid target interfaceId methodId params => exact call_kept qid target interfaceId methodId params
  | finish qid => exact absurd rfl (hfin qid)
  | release id referenceCount => exact .inr ⟨bare_nil, handleRelease_answers c id referenceCount⟩
  | join qid target keyPart => exact join_kept qid target keyPart hok
  | ret => exact .inr ⟨bare_nil, rfl⟩
  | resolve => exact hunimpl
  | disembargo target context => exact disembargo_kept target context
  | provide qid target recipient => exact provide_kept qid target recipient
  | accept qid provision embargo => exact accept_kept qid provision embargo
  | obsolete => exact hunimpl

end

/-! ## Runs -/

/-- A run: the state, the Returns with a capability that were sent on a connection and not
finished, and the questions finished and not asked again. -/
structure AnswerRun (ι : Type) where
  world : World ι := {}
  held : ι → Nat → Return → Prop := fun _ _ _ => False
  closed : ι → Nat → Prop := fun _ _ => False

/-- What the table of a connection keeps, when it keeps track. -/
structure Tracked (c : Conn) (held : Nat → Return → Prop) (closed : Nat → Prop) : Prop where
  found : ∀ q body, held q body → ∃ i, c.answers i = some ⟨q, body⟩
  only : ∀ i j a b, c.answers i = some a → c.answers j = some b → a.questionId = b.questionId → i = j
  gone : ∀ q, closed q → answerFind c q = none

/-- The Returns with a capability and not finished, after an event that sends some messages. -/
def heldAfter (held : Nat → Return → Prop) (e : Event) (sent : List Outgoing) (q : Nat) (body : Return) : Prop :=
  finishes e ≠ some q ∧ (held q body ∨ .ret q body ∈ sent ∧ body.Carries)

/-- The questions finished and not asked again, after an event. -/
def closedAfter (closed : Nat → Prop) (e : Event) (q : Nat) : Prop := finishes e = some q ∨ closed q ∧ q ∉ asks e

/-- A Return that is to be recorded has room: no answer is recorded under its question, and
if it has a capability, a slot is free. The question was not finished before it is
answered, and no Join succeeds. -/
def Recordable (env : Env) (c : Conn) (vat : Vat) (closed : Nat → Prop) (m : Message) : Prop :=
  completesSame c m = false ∧
    ∀ q pl, resultsFor env c vat m = some (q, pl) →
      env.frameSize (.ret q (.results pl)) ≤ CAPN_RPC_MAX_ANSWER_BYTES →
      (c.answers.free ≠ none → answerFind c q = none ∧ (closed q → q ∈ asks (.recv env m))) ∧
        ((Return.results pl).Carries → c.answers.free ≠ none)

section

variable {c : Conn} {vat : Vat} {held : Nat → Return → Prop} {closed : Nat → Prop} {env : Env} {m : Message}

theorem answerFind_none {q : Nat} (h : answerFind c q = none) {i : Fin CAPN_RPC_MAX_ANSWERS} {a : Answer}
    (ha : c.answers i = some a) : a.questionId ≠ q := by
  have hn := Table.find_none h ha
  exact of_decide_eq_false hn

theorem answerFind_eq_none {q : Nat} (h : ∀ i a, c.answers i = some a → a.questionId ≠ q) : answerFind c q = none := by
  cases hf : answerFind c q with
  | none => rfl
  | some i =>
    obtain ⟨a, ha, hq⟩ := Table.find_some hf
    exact absurd (of_decide_eq_true hq) (h i a ha)

/-- A state with the same answers. -/
theorem Tracked.same {c' : Conn} {held' : Nat → Return → Prop} {closed' : Nat → Prop} (h : Tracked c held closed)
    (hans : c'.answers = c.answers) (hheld : ∀ q body, held' q body → held q body)
    (hclosed : ∀ q, closed' q → closed q) : Tracked c' held' closed' := by
  refine ⟨fun q body hq => ?_, fun i j a b => ?_, fun q hq => ?_⟩
  · rw [hans]
    exact h.found q body (hheld q body hq)
  · rw [hans]
    exact h.only i j a b
  · rw [answerFind, hans]
    exact h.gone q (hclosed q hq)

/-- An answer under a new question is recorded. -/
theorem Tracked.record {c' : Conn} {held' : Nat → Return → Prop} {closed' : Nat → Prop} (h : Tracked c held closed)
    {q₀ : Nat} {body₀ : Return} (hans : c'.answers = keepAnswer c.answers ⟨q₀, body₀⟩)
    (hheld : ∀ q body, held' q body → held q body ∨ q = q₀ ∧ body = body₀ ∧ c.answers.free ≠ none)
    (hclosed : ∀ q, closed' q → closed q)
    (hnew : c.answers.free ≠ none → answerFind c q₀ = none ∧ ¬ closed' q₀) : Tracked c' held' closed' := by
  unfold keepAnswer at hans
  cases hfree : c.answers.free with
  | none =>
    rw [hfree] at hans
    apply h.same hans
    · intro q body hq
      obtain hq | ⟨-, -, hf⟩ := hheld q body hq
      · exact hq
      · exact absurd hfree hf
    · exact hclosed
  | some i₀ =>
    rw [hfree] at hans
    replace hans : c'.answers = c.answers.set i₀ (some ⟨q₀, body₀⟩) := hans
    have hempty := Table.free_some hfree
    obtain ⟨hnone, hopen⟩ := hnew (by rw [hfree]; exact Option.some_ne_none i₀)
    -- an entry is the new one or an old one, under another question
    have hentry : ∀ i a, c'.answers i = some a →
        i = i₀ ∧ a = ⟨q₀, body₀⟩ ∨ c.answers i = some a ∧ a.questionId ≠ q₀ := by
      intro i a ha
      rw [hans] at ha
      by_cases hi : i = i₀
      · rw [hi, Table.set_same] at ha
        exact .inl ⟨hi, (Option.some.inj ha).symm⟩
      · rw [Table.set_ne _ _ hi] at ha
        exact .inr ⟨ha, answerFind_none hnone ha⟩
    refine ⟨fun q body hq => ?_, fun i j a b ha hb hab => ?_, fun q hq => ?_⟩
    · obtain hq | ⟨rfl, rfl, -⟩ := hheld q body hq
      · obtain ⟨i, hi⟩ := h.found q body hq
        have hne : i ≠ i₀ := fun e => by
          rw [e, hempty] at hi
          cases hi
        exact ⟨i, by rw [hans, Table.set_ne _ _ hne, hi]⟩
      · exact ⟨i₀, by rw [hans, Table.set_same]⟩
    · obtain ⟨rfl, rfl⟩ | ⟨ha, hna⟩ := hentry i a ha
      · obtain ⟨rfl, -⟩ | ⟨-, hnb⟩ := hentry j b hb
        · rfl
        · exact absurd hab.symm hnb
      · obtain ⟨-, rfl⟩ | ⟨hb, -⟩ := hentry j b hb
        · exact absurd hab hna
        · exact h.only i j a b ha hb hab
    · apply answerFind_eq_none
      intro i a ha
      obtain ⟨-, rfl⟩ | ⟨ha, -⟩ := hentry i a ha
      · rintro rfl
        exact hopen hq
      · exact answerFind_none (h.gone q (hclosed q hq)) ha

/-- Finish takes away the answer, and there is no other under its question. -/
theorem Tracked.drop {held' : Nat → Return → Prop} {closed' : Nat → Prop} (h : Tracked c held closed) {q₀ : Nat}
    (hheld : ∀ q body, held' q body → held q body ∧ q ≠ q₀) (hclosed : ∀ q, closed' q → closed q ∨ q = q₀) :
    Tracked (answerDrop c q₀) held' closed' := by
  unfold answerDrop
  split
  · rename_i i₀ hi₀
    obtain ⟨a₀, ha₀, hq₀⟩ := Table.find_some hi₀
    replace hq₀ : a₀.questionId = q₀ := of_decide_eq_true hq₀
    have hentry : ∀ i a, (c.answers.set i₀ none) i = some a → i ≠ i₀ ∧ c.answers i = some a := by
      intro i a ha
      have hne : i ≠ i₀ := fun e => by
        rw [e, Table.set_same] at ha
        cases ha
      exact ⟨hne, by rwa [Table.set_ne _ _ hne] at ha⟩
    refine ⟨fun q body hq => ?_, fun i j a b ha hb => ?_, fun q hq => ?_⟩
    · obtain ⟨hq, hne⟩ := hheld q body hq
      obtain ⟨i, hi⟩ := h.found q body hq
      have hi' : i ≠ i₀ := by
        rintro rfl
        rw [ha₀] at hi
        cases hi
        exact hne hq₀
      exact ⟨i, (Table.set_ne _ _ hi').trans hi⟩
    · exact h.only i j a b (hentry i a ha).2 (hentry j b hb).2
    · apply answerFind_eq_none
      intro i a ha
      obtain ⟨hne, ha⟩ := hentry i a ha
      obtain hq | rfl := hclosed q hq
      · exact answerFind_none (h.gone q hq) ha
      · exact fun e => hne (h.only i i₀ a a₀ ha ha₀ (e.trans hq₀.symm))
  · rename_i hnone
    refine ⟨fun q body hq => h.found q body (hheld q body hq).1, h.only, fun q hq => ?_⟩
    obtain hq | rfl := hclosed q hq
    · exact h.gone q hq
    · exact hnone

/-- **A message** keeps the table in step with what was sent. -/
theorem tracked_message (h : Tracked c held closed) (hok : Recordable env c vat closed m) :
    Tracked (capnRpcHandle env c vat m).conn (heldAfter held (.recv env m) (capnRpcHandle env c vat m).sent)
      (closedAfter closed (.recv env m)) := by
  by_cases hfin : ∃ qid, m = .finish qid
  · obtain ⟨qid, rfl⟩ := hfin
    show Tracked (answerDrop c qid) _ _
    apply h.drop
    · rintro q body ⟨hne, hq | ⟨hmem, -⟩⟩
      · exact ⟨hq, fun e => hne (congrArg some e.symm)⟩
      · cases hmem
    · rintro q (hq | ⟨hq, -⟩)
      · exact .inr (Option.some.inj hq).symm
      · exact .inl hq
  · have hno : finishes (.recv env m) = none := by
      cases m with
      | finish qid => exact absurd ⟨qid, rfl⟩ hfin
      | _ => rfl
    have hclosed : ∀ q, closedAfter closed (.recv env m) q → closed q := by
      rintro q (hq | ⟨hq, -⟩)
      · rw [hno] at hq
        cases hq
      · exact hq
    obtain ⟨q₀, pl, hr, hfits, hsent, hans⟩ | ⟨hbare, hans⟩ :=
      @answers_cases env c vat m hok.1 fun qid e => hfin ⟨qid, e⟩
    · obtain ⟨hnew, hroom⟩ := hok.2 q₀ pl hr hfits
      apply h.record hans
      · rintro q body ⟨-, hq | ⟨hmem, hcap⟩⟩
        · exact .inl hq
        · rw [hsent] at hmem
          cases List.mem_singleton.mp hmem
          exact .inr ⟨rfl, rfl, hroom hcap⟩
      · exact hclosed
      · intro hfree
        obtain ⟨hnone, hopen⟩ := hnew hfree
        refine ⟨hnone, fun hq => ?_⟩
        obtain hq | ⟨hq, hnot⟩ := hq
        · rw [hno] at hq
          cases hq
        · exact hnot (hopen hq)
    · apply h.same hans
      · rintro q body ⟨-, hq | ⟨hmem, hcap⟩⟩
        · exact hq
        · exact absurd hcap (hbare q body hmem)
      · exact hclosed

end

section

variable {ι : Type} [DecidableEq ι]

def AnswerRun.step (r : AnswerRun ι) (e : ι × Event) : AnswerRun ι where
  world := r.world.step e
  held k := if k = e.1 then heldAfter (r.held k) e.2 (r.world.sent e) else r.held k
  closed k := if k = e.1 then closedAfter (r.closed k) e.2 else r.closed k

/-- Each message that is handled is `Recordable`. -/
def AnswerRun.Ok (r : AnswerRun ι) (e : ι × Event) : Prop :=
  ∀ env m, e.2 = .recv env m → Recordable env (r.world.conns e.1) r.world.vat (r.closed e.1) m

/-- What the application does leaves the answers. -/
theorem application_answers (c : Conn) (vat : Vat) {e : Event} (h : ∀ env m, e ≠ .recv env m) :
    (e.run c vat).conn.answers = c.answers ∧ (e.run c vat).sent = [] ∧ finishes e = none := by
  cases e with
  | recv env m => exact absurd rfl (h env m)
  | setBootstrap bootstrap => exact ⟨rfl, rfl, rfl⟩
  | exportCap server dispatch =>
    rw [Event.run]
    cases he : capnRpcExport c server dispatch with
    | none => exact ⟨rfl, rfl, rfl⟩
    | some r => exact ⟨export_answers he, rfl, rfl⟩

theorem tracked_event {r : AnswerRun ι} {e : ι × Event}
    (h : ∀ k, Tracked (r.world.conns k) (r.held k) (r.closed k)) (hok : r.Ok e) (k : ι) :
    Tracked ((r.step e).world.conns k) ((r.step e).held k) ((r.step e).closed k) := by
  obtain ⟨j, e⟩ := e
  by_cases hk : k = j
  · subst hk
    simp only [AnswerRun.step, if_true, step_conns_same]
    by_cases hrecv : ∃ env m, e = .recv env m
    · obtain ⟨env, m, rfl⟩ := hrecv
      exact tracked_message (h k) (hok env m rfl)
    · obtain ⟨hans, hsent, hfin⟩ :=
        application_answers (r.world.conns k) r.world.vat fun env m he => hrecv ⟨env, m, he⟩
      apply (h k).same hans
      · rintro q body ⟨-, hq | ⟨hmem, -⟩⟩
        · exact hq
        · rw [World.sent, hsent] at hmem
          cases hmem
      · rintro q (hq | ⟨hq, -⟩)
        · rw [hfin] at hq
          cases hq
        · exact hq
  · simp only [AnswerRun.step, if_neg hk, step_conns_ne r.world e hk]
    exact h k

/-- The answer that a question has in the table is the one that is found. -/
theorem Tracked.find {c : Conn} {held : Nat → Return → Prop} {closed : Nat → Prop} (h : Tracked c held closed)
    {q : Nat} {body : Return} (hq : held q body) :
    ∃ i, answerFind c q = some i ∧ c.answers i = some ⟨q, body⟩ := by
  obtain ⟨i, hi⟩ := h.found q body hq
  refine ⟨i, Table.find_unique hi (decide_eq_true rfl) fun j b hb hbq => ?_, hi⟩
  exact h.only j i b ⟨q, body⟩ hb hi (of_decide_eq_true hbq)

/-- **Answers are kept until Finish**: over a run whose messages find room for their
answers, a Return with a capability that was sent and not finished is found by a Call on
its question, there is one entry at most under a question, and none under a finished one. -/
theorem answers_tracked {r : AnswerRun ι} (hrun : Runs AnswerRun.step AnswerRun.Ok {} r) (k : ι) :
    (∀ q body, r.held k q body →
      (∃ i, answerFind (r.world.conns k) q = some i ∧ (r.world.conns k).answers i = some ⟨q, body⟩) ∧
      ∀ transform, resolveTarget (r.world.conns k) (some (.promisedAnswer (some ⟨q, transform⟩))) =
        (answerCap body transform).bind (usedExport (r.world.conns k))) ∧
    (∀ i j a b, (r.world.conns k).answers i = some a → (r.world.conns k).answers j = some b →
      a.questionId = b.questionId → i = j) ∧
    ∀ q, r.closed k q → answerFind (r.world.conns k) q = none := by
  have htracked : Tracked (r.world.conns k) (r.held k) (r.closed k) := by
    refine hrun.inv (I := fun r => ∀ k, Tracked (r.world.conns k) (r.held k) (r.closed k))
      (fun r e h hok k => tracked_event h hok k) (fun k => ?_) k
    exact ⟨nofun, nofun, nofun⟩
  refine ⟨fun q body hq => ?_, htracked.only, htracked.gone⟩
  obtain ⟨i, hi, ha⟩ := htracked.find hq
  refine ⟨⟨i, hi, ha⟩, fun transform => ?_⟩
  simp only [resolveTarget, resolvePromisedAnswer, hi, ha]

end

/-! ## Two runs -/

/-- A Bootstrap that is answered under question 7. -/
theorem answers_tracked_offered : ∃ r : AnswerRun Unit, Runs AnswerRun.step AnswerRun.Ok {} r ∧
    r.held () 7 (.results (capPayload 0)) ∧
    (∀ q body, r.held () q body →
      (∃ i, answerFind (r.world.conns ()) q = some i ∧ (r.world.conns ()).answers i = some ⟨q, body⟩) ∧
      ∀ transform, resolveTarget (r.world.conns ()) (some (.promisedAnswer (some ⟨q, transform⟩))) =
        (answerCap body transform).bind (usedExport (r.world.conns ()))) ∧
    (∀ i j a b, (r.world.conns ()).answers i = some a → (r.world.conns ()).answers j = some b →
      a.questionId = b.questionId → i = j) ∧
    ∀ q, r.closed () q → answerFind (r.world.conns ()) q = none := by
  have h₁ : Runs AnswerRun.step AnswerRun.Ok {}
      (AnswerRun.step ({} : AnswerRun Unit) ((), .setBootstrap (some (1, 1)))) := .tail .refl nofun
  have hfree : (Table.empty : Table CAPN_RPC_MAX_ANSWERS Answer).free ≠ none := by decide
  have h₂ : Runs AnswerRun.step AnswerRun.Ok {}
      ((AnswerRun.step ({} : AnswerRun Unit) ((), .setBootstrap (some (1, 1)))).step
        ((), .recv quietEnv (.bootstrap 7))) := by
    refine h₁.tail fun env m e => ?_
    cases e
    refine ⟨rfl, fun q pl hr _ => ⟨fun _ => ⟨rfl, fun hq => ?_⟩, fun _ => hfree⟩⟩
    obtain hq | ⟨hq, -⟩ := hq
    · cases hq
    · cases hq
  refine ⟨_, h₂, ⟨nofun, .inr ⟨List.mem_singleton.mpr rfl, ?_⟩⟩, answers_tracked h₂ ()⟩
  exact .inl (List.cons_ne_nil _ _)

/-- The result of a Join hands out a capability, and a Call on its question does not find
it. -/
theorem answers_tracked_fails : ∃ r : AnswerRun Unit, Runs AnswerRun.step (fun _ _ => True) {} r ∧
    r.held () 2 (.joinResult 5 true [.senderHosted 0]) ∧ answerFind (r.world.conns ()) 2 = none := by
  refine ⟨[((), .setBootstrap (some (1, 1))), ((), .recv quietEnv (.bootstrap 1)),
    ((), .recv quietEnv (.join 2 (some (.importedCap 0)) (some ⟨5, 1, 0⟩)))].foldl AnswerRun.step {}, ?_, ?_, ?_⟩
  · exact .tail (.tail (.tail .refl trivial) trivial) trivial
  · exact ⟨nofun, .inr ⟨List.mem_singleton.mpr rfl, List.cons_ne_nil _ _⟩⟩
  · decide +kernel

end Capnproto.Rpc

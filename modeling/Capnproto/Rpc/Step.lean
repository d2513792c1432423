import Capnproto.Rpc.World

/-!
# What an event can do to a connection

An event changes the export table in three ways only: an entry gets another
reference or loses some, a free slot gets an object that has no entry yet
(`fills`), or an entry is freed. It records at most one answer (`records`), and
only Finish takes one away. Each is proved once here, for all handlers.
-/

namespace Capnproto.Rpc

/-- The server that an event exports. -/
def exported (c : Conn) (vat : Vat) : Event → Option Nat
  | .recv _ (.bootstrap _) => c.bootstrap.map (·.1)
  | .recv _ (.accept _ (some nonce) _) =>
    ((claimable vat nonce).bind fun i => vat i).map (·.server)
  | .exportCap server _ => some server
  | _ => none

/-- The free slot that an event gives to an object. -/
def fills (c : Conn) (vat : Vat) (e : Event) : Option ExportId :=
  (exported c vat e).bind fun server =>
    if (c.exports.find (·.server = server)).isSome then none else c.exports.free

/-- The question whose answer an event may record. -/
def records (vat : Vat) : Event → Option Nat
  | .recv _ (.bootstrap qid) => some qid
  | .recv _ (.call qid _ _ _ _) => some qid
  | .recv _ (.provide qid _ _) => some qid
  | .recv _ (.accept qid _ _) => some qid
  | .recv _ (.disembargo _ (.provide qid)) =>
    ((liftable vat qid).bind fun i => vat i).map (·.acceptQuestionId)
  | _ => none

/-! ## Exports -/

/-- Each entry of `ex'` is an entry of `ex`, with some other count, or fills `slot`. -/
def ExportsFrom (ex ex' : Table CAPN_RPC_MAX_EXPORTS Export) (slot : Option ExportId) : Prop :=
  ∀ i e', ex' i = some e' →
    (∃ e, ex i = some e ∧ e.server = e'.server ∧ e.dispatch = e'.dispatch) ∨ slot = some i

section

variable {ex ex' ex'' : Table CAPN_RPC_MAX_EXPORTS Export} {slot : Option ExportId}

theorem ExportsFrom.refl : ExportsFrom ex ex slot := fun _ e' h => .inl ⟨e', h, rfl, rfl⟩

theorem ExportsFrom.of_eq (h : ex' = ex) : ExportsFrom ex ex' slot := h ▸ .refl

/-- An entry changes its count, or goes. -/
theorem ExportsFrom.change {i : ExportId} {e : Export} {a : Option Export} (he : ex i = some e)
    (ha : ∀ e', a = some e' → e'.server = e.server ∧ e'.dispatch = e.dispatch) : ExportsFrom ex (ex.set i a) slot := by
  intro j e' h
  by_cases hj : j = i
  · rw [hj, Table.set_same] at h
    exact .inl ⟨e, hj ▸ he, (ha e' h).1.symm, (ha e' h).2.symm⟩
  · rw [Table.set_ne _ _ hj] at h
    exact .inl ⟨e', h, rfl, rfl⟩

/-- An entry gets another reference, if it is there. -/
theorem ExportsFrom.ref (i : ExportId) : ExportsFrom ex (ex.set i ((ex i).map Export.ref)) slot := by
  cases he : ex i with
  | some e =>
    refine .change he fun e' h => ?_
    rw [← Option.some.inj h]
    exact ⟨rfl, rfl⟩
  | none =>
    exact .of_eq (Table.set_eq_self he)

/-- A free slot is filled. -/
theorem ExportsFrom.fill (i : ExportId) (e : Export) : ExportsFrom ex (ex.set i (some e)) (some i) := by
  intro j e' h
  by_cases hj : j = i
  · exact .inr (congrArg some hj.symm)
  · rw [Table.set_ne _ _ hj] at h
    exact .inl ⟨e', h, rfl, rfl⟩

/-- Two changes, of which the first keeps the slots. -/
theorem ExportsFrom.trans (h : ExportsFrom ex ex' none) (h' : ExportsFrom ex' ex'' slot) :
    ExportsFrom ex ex'' slot := by
  intro i e'' he''
  rcases h' i e'' he'' with ⟨e', he', hs', hd'⟩ | hs
  · rcases h i e' he' with ⟨e, he, hs, hd⟩ | hs
    · exact .inl ⟨e, he, hs.trans hs', hd.trans hd'⟩
    · cases hs
  · exact .inr hs

end

/-- **`capn_rpc_export`**: the entry of the server gets another reference, or a free
slot gets the server. -/
theorem capnRpcExport_spec {c c' : Conn} {server dispatch : Nat} {i : ExportId}
    (h : capnRpcExport c server dispatch = some (i, c')) :
    ∃ e', c' = { c with exports := c.exports.set i (some e') } ∧ e'.server = server ∧
      ((∃ e, c.exports i = some e ∧ e' = e.ref ∧ c.exports.find (·.server = server) = some i) ∨
        c.exports i = none ∧ e' = ⟨1, server, dispatch⟩ ∧ c.exports.find (·.server = server) = none ∧
          c.exports.free = some i) := by
  rw [capnRpcExport] at h
  cases hf : c.exports.find (·.server = server) with
  | some j =>
    simp only [hf, Option.some.injEq, Prod.mk.injEq] at h
    obtain ⟨rfl, rfl⟩ := h
    obtain ⟨e, he, hs⟩ := Table.find_some hf
    refine ⟨e.ref, by rw [he]; rfl, of_decide_eq_true hs, .inl ⟨e, he, rfl, rfl⟩⟩
  | none =>
    simp only [hf] at h
    cases hfree : c.exports.free with
    | none =>
      rw [hfree] at h
      cases h
    | some j =>
      simp only [hfree, Option.some.injEq, Prod.mk.injEq] at h
      obtain ⟨rfl, rfl⟩ := h
      exact ⟨_, rfl, rfl, .inr ⟨Table.free_some hfree, rfl, rfl, rfl⟩⟩

theorem capnRpcExport_from {c c' : Conn} {server dispatch : Nat} {i : ExportId}
    (h : capnRpcExport c server dispatch = some (i, c')) :
    ExportsFrom c.exports c'.exports
      (if (c.exports.find (·.server = server)).isSome then none else c.exports.free) := by
  obtain ⟨e', rfl, -, ⟨e, he, rfl, hf⟩ | ⟨-, -, hf, hfree⟩⟩ := capnRpcExport_spec h
  · exact .change he fun e' h => by rw [← Option.some.inj h]; exact ⟨rfl, rfl⟩
  · rw [hf, hfree]
    exact .fill i e'

section

variable (env : Env) (l : Local)

theorem sendJoinResult_from (qid joinId : Nat) (succeeded : Bool) (cap : Option ExportId) :
    ExportsFrom l.conn.exports (sendJoinResult env l qid joinId succeeded cap).conn.exports none := by
  cases cap with
  | none => exact .of_eq (by rw [sendJoinResult, sendMessage_conn])
  | some eid =>
    rw [sendJoinResult, sendMessage_conn]
    exact .ref eid

theorem sendJoinResult_answers (qid joinId : Nat) (succeeded : Bool) (cap : Option ExportId) :
    (sendJoinResult env l qid joinId succeeded cap).conn.answers = l.conn.answers := by
  cases cap with
  | none => rw [sendJoinResult, sendMessage_conn]
  | some eid => rw [sendJoinResult, sendMessage_conn]

theorem joinParts_from (j : Join) (is : List (Fin CAPN_RPC_MAX_JOIN_PARTS)) :
    ExportsFrom l.conn.exports (is.foldl (joinAnswer env j) l).conn.exports none := by
  induction is generalizing l with
  | nil => exact .refl
  | cons i is ih => exact (sendJoinResult_from env l _ _ _ _).trans (ih _)

theorem joinComplete_from (slot : Fin CAPN_RPC_MAX_JOINS) (j : Join) :
    ExportsFrom l.conn.exports (joinComplete env l slot j).conn.exports none :=
  joinParts_from env { l with rc := 0 } j j.parts

theorem handleJoin_from (qid : Nat) (target : Option MessageTarget) (keyPart : Option JoinKeyPart) :
    ExportsFrom l.conn.exports (handleJoin env l qid target keyPart).conn.exports none := by
  unfold handleJoin
  split
  · exact sendJoinResult_from env l _ _ _ _
  split
  · exact sendJoinResult_from env l _ _ _ _
  split
  · exact sendJoinResult_from env l _ _ _ _
  simp only
  split
  · exact .refl
  split
  · exact sendJoinResult_from env _ _ _ _ _
  split
  · exact joinComplete_from env _ _ _
  · exact .refl

theorem handleRelease_from (c : Conn) (id referenceCount : Nat) :
    ExportsFrom c.exports (handleRelease c id referenceCount).exports none := by
  rw [handleRelease]
  split
  · split
    · exact .refl
    · rename_i e he
      refine .change he fun e' h => ?_
      split at h
      · cases h
      · rw [← Option.some.inj h]
        exact ⟨rfl, rfl⟩
  · exact .refl

end

/-- **An event** keeps the exports, but for their counts, frees some, or gives a free
slot to a new object. -/
theorem exports_event (c : Conn) (vat : Vat) (e : Event) :
    ExportsFrom c.exports (e.run c vat).conn.exports (fills c vat e) := by
  cases e with
  | setBootstrap bootstrap => exact .refl
  | exportCap server dispatch =>
    show ExportsFrom _ (Event.run c vat (.exportCap server dispatch)).conn.exports _
    rw [Event.run]
    cases he : capnRpcExport c server dispatch with
    | none => exact .refl
    | some r => exact capnRpcExport_from he
  | recv env m =>
    cases m with
    | bootstrap qid =>
      show ExportsFrom _ (handleBootstrap env { conn := c, vat := vat } qid).conn.exports _
      obtain ⟨reason, e, -⟩ | ⟨server, dispatch, eid, conn, hb, he, e⟩ :=
        handleBootstrap_cases env { conn := c, vat := vat } qid
      · rw [e, sendReturnException, sendMessage_conn]
        exact .refl
      · replace hb : c.bootstrap = some (server, dispatch) := hb
        rw [e, sendAnswer_exports]
        simp only [fills, exported, hb, Option.map_some, Option.bind_some]
        exact capnRpcExport_from he
    | call qid target interfaceId methodId params =>
      show ExportsFrom _ (handleCall env { conn := c, vat := vat } qid target interfaceId methodId params).conn.exports _
      rw [handleCall]
      split
      · rw [sendReturnException, sendMessage_conn]
        exact .refl
      · split
        · exact .refl
        · simp only
          split
          · rw [sendReturnException, sendMessage_conn]
            exact .refl
          · rw [sendAnswer_exports]
            exact .refl
    | finish qid =>
      show ExportsFrom _ (answerDrop c qid).exports _
      rw [answerDrop]
      split <;> exact .refl
    | release id referenceCount => exact handleRelease_from c id referenceCount
    | join qid target keyPart => exact handleJoin_from env { conn := c, vat := vat } qid target keyPart
    | ret => exact .refl
    | resolve => exact .of_eq (by simp only [Event.run, capnRpcHandle, sendUnimplemented, sendMessage_conn])
    | obsolete => exact .of_eq (by simp only [Event.run, capnRpcHandle, sendUnimplemented, sendMessage_conn])
    | disembargo target context =>
      show ExportsFrom _ (handleDisembargo env { conn := c, vat := vat } target context).conn.exports _
      cases context with
      | provide questionId =>
        rw [handleDisembargo]
        obtain ⟨-, e⟩ | ⟨i, p, -, -, e⟩ := releaseProvideEmbargo_cases env { conn := c, vat := vat } questionId
        · rw [e]
          exact .refl
        · rw [e, sendAcceptedCap, sendAnswer_exports]
          exact .refl
      | senderLoopback id =>
        rw [handleDisembargo, sendMessage_conn]
        exact .refl
      | receiverLoopback id => exact .refl
      | accept => exact .refl
    | provide qid target recipient =>
      show ExportsFrom _ (handleProvide env { conn := c, vat := vat } qid target recipient).conn.exports _
      obtain ⟨reason, e, -⟩ | ⟨eid, x, nonce, i, -, hx, -, -, e⟩ :=
        handleProvide_cases env { conn := c, vat := vat } qid target recipient
      · rw [e, sendReturnException, sendMessage_conn]
        exact .refl
      · rw [e, sendEmptyReturn, sendAnswer_exports]
        refine .change hx fun e' h => ?_
        rw [← Option.some.inj h]
        exact ⟨rfl, rfl⟩
    | accept qid provision embargo =>
      show ExportsFrom _ (handleAccept env { conn := c, vat := vat } qid provision embargo).conn.exports _
      obtain ⟨reason, e, -⟩ | ⟨nonce, i, p, eid, conn, rfl, hf, hp, he, e⟩ :=
        handleAccept_cases env { conn := c, vat := vat } qid provision embargo
      · rw [e, sendReturnException, sendMessage_conn]
        exact .refl
      · have hfill : fills c vat (.recv env (.accept qid (some nonce) embargo)) =
            if (c.exports.find (·.server = p.server)).isSome then none else c.exports.free := by
          replace hf : claimable vat nonce = some i := hf
          replace hp : vat i = some p := hp
          simp only [fills, exported, hf, Option.bind_some, hp, Option.map_some]
        rw [hfill, e]
        split
        · exact capnRpcExport_from he
        · rw [sendAcceptedCap, sendAnswer_exports]
          exact capnRpcExport_from he

/-! ## Answers -/

/-- The answers after an event: as before, with one more, or with one dropped. -/
def AnswersFrom (c : Conn) (answers : Table CAPN_RPC_MAX_ANSWERS Answer) (record drop : Option Nat) : Prop :=
  answers = c.answers ∨
    (∃ i qid body, c.answers.free = some i ∧ record = some qid ∧ answers = c.answers.set i (some ⟨qid, body⟩)) ∨
    ∃ i qid, drop = some qid ∧ answerFind c qid = some i ∧ answers = c.answers.set i none

/-- The question that an event finishes. -/
def finishes : Event → Option Nat
  | .recv _ (.finish qid) => some qid
  | _ => none

theorem AnswersFrom.send {c : Conn} {l : Local} (h : l.conn.answers = c.answers) (env : Env) (qid : Nat)
    (body : Return) (drop : Option Nat) :
    AnswersFrom c (sendAnswer env l qid body).conn.answers (some qid) drop := by
  rcases sendAnswer_answers env l qid body with e | ⟨i, hi, e⟩
  · exact .inl (e.trans h)
  · rw [h] at hi e
    exact .inr (.inl ⟨i, qid, body, hi, rfl, e⟩)

theorem joinParts_answers (env : Env) (l : Local) (j : Join) (is : List (Fin CAPN_RPC_MAX_JOIN_PARTS)) :
    (is.foldl (joinAnswer env j) l).conn.answers = l.conn.answers := by
  induction is generalizing l with
  | nil => rfl
  | cons i is ih =>
    rw [List.foldl_cons, ih]
    exact sendJoinResult_answers env l _ _ _ _

theorem handleJoin_answers (env : Env) (l : Local) (qid : Nat) (target : Option MessageTarget)
    (keyPart : Option JoinKeyPart) : (handleJoin env l qid target keyPart).conn.answers = l.conn.answers := by
  unfold handleJoin
  split
  · exact sendJoinResult_answers env l _ _ _ _
  split
  · exact sendJoinResult_answers env l _ _ _ _
  split
  · exact sendJoinResult_answers env l _ _ _ _
  simp only
  split
  · rfl
  split
  · exact sendJoinResult_answers env _ _ _ _ _
  split
  · exact joinParts_answers env _ _ _
  · rfl

theorem handleRelease_answers (c : Conn) (id referenceCount : Nat) :
    (handleRelease c id referenceCount).answers = c.answers := by
  rw [handleRelease]
  split
  · split <;> rfl
  · rfl

/-- **An event** records the answer to its question, or drops the one it finishes. -/
theorem answers_event (c : Conn) (vat : Vat) (e : Event) :
    AnswersFrom c (e.run c vat).conn.answers (records vat e) (finishes e) := by
  cases e with
  | setBootstrap bootstrap => exact .inl rfl
  | exportCap server dispatch =>
    rw [Event.run]
    cases he : capnRpcExport c server dispatch with
    | none => exact .inl rfl
    | some r =>
      obtain ⟨e', hc, -⟩ := capnRpcExport_spec he
      refine .inl ?_
      show r.2.answers = _
      rw [hc]
  | recv env m =>
    cases m with
    | bootstrap qid =>
      show AnswersFrom c (handleBootstrap env { conn := c, vat := vat } qid).conn.answers _ _
      obtain ⟨reason, e, -⟩ | ⟨server, dispatch, eid, conn, -, he, e⟩ :=
        handleBootstrap_cases env { conn := c, vat := vat } qid
      · rw [e, sendReturnException, sendMessage_conn]
        exact .inl rfl
      · obtain ⟨e', rfl, -⟩ := capnRpcExport_spec he
        rw [e]
        exact .send rfl env qid _ _
    | call qid target interfaceId methodId params =>
      show AnswersFrom c (handleCall env { conn := c, vat := vat } qid target interfaceId methodId params).conn.answers _ _
      rw [handleCall_eq]
      split
      · rw [sendReturnException, sendMessage_conn]
        exact .inl rfl
      split
      · rw [sendReturnException, sendMessage_conn]
        exact .inl rfl
      · exact .send rfl env qid _ _
    | finish qid =>
      show AnswersFrom c (answerDrop c qid).answers _ _
      rw [answerDrop]
      split
      · rename_i i hi
        exact .inr (.inr ⟨i, qid, rfl, hi, rfl⟩)
      · exact .inl rfl
    | release id referenceCount => exact .inl (handleRelease_answers c id referenceCount)
    | join qid target keyPart => exact .inl (handleJoin_answers env { conn := c, vat := vat } qid target keyPart)
    | ret => exact .inl rfl
    | resolve => exact .inl (by simp only [Event.run, capnRpcHandle, sendUnimplemented, sendMessage_conn])
    | obsolete => exact .inl (by simp only [Event.run, capnRpcHandle, sendUnimplemented, sendMessage_conn])
    | disembargo target context =>
      show AnswersFrom c (handleDisembargo env { conn := c, vat := vat } target context).conn.answers _ _
      cases context with
      | provide questionId =>
        rw [handleDisembargo]
        obtain ⟨-, e⟩ | ⟨i, p, hf, hp, e⟩ := releaseProvideEmbargo_cases env { conn := c, vat := vat } questionId
        · rw [e]
          exact .inl rfl
        · have hrec : records vat (.recv env (.disembargo target (.provide questionId))) =
              some p.acceptQuestionId := by
            replace hf : liftable vat questionId = some i := hf
            replace hp : vat i = some p := hp
            simp only [records, hf, Option.bind_some, hp, Option.map_some]
          rw [hrec, e]
          exact .send rfl env _ _ _
      | senderLoopback id =>
        rw [handleDisembargo, sendMessage_conn]
        exact .inl rfl
      | receiverLoopback id => exact .inl rfl
      | accept => exact .inl rfl
    | provide qid target recipient =>
      show AnswersFrom c (handleProvide env { conn := c, vat := vat } qid target recipient).conn.answers _ _
      obtain ⟨reason, e, -⟩ | ⟨eid, x, nonce, i, -, hx, -, -, e⟩ :=
        handleProvide_cases env { conn := c, vat := vat } qid target recipient
      · rw [e, sendReturnException, sendMessage_conn]
        exact .inl rfl
      · rw [e]
        exact .send rfl env qid _ _
    | accept qid provision embargo =>
      show AnswersFrom c (handleAccept env { conn := c, vat := vat } qid provision embargo).conn.answers _ _
      obtain ⟨reason, e, -⟩ | ⟨nonce, i, p, eid, conn, rfl, hf, hp, he, e⟩ :=
        handleAccept_cases env { conn := c, vat := vat } qid provision embargo
      · rw [e, sendReturnException, sendMessage_conn]
        exact .inl rfl
      · obtain ⟨e', rfl, -⟩ := capnRpcExport_spec he
        rw [e]
        split
        · exact .inl rfl
        · exact .send rfl env qid _ _

/-! ## Joins -/

theorem joinParts_joins (env : Env) (l : Local) (j : Join) (is : List (Fin CAPN_RPC_MAX_JOIN_PARTS)) :
    (is.foldl (joinAnswer env j) l).conn.joins = l.conn.joins := by
  induction is generalizing l with
  | nil => rfl
  | cons i is ih =>
    rw [List.foldl_cons, ih]
    simp only [joinAnswer]
    cases (if j.same ∧ i = 0 then j.eids 0 else none) with
    | none => rw [sendJoinResult, sendMessage_conn]
    | some eid => rw [sendJoinResult, sendMessage_conn]

theorem joinComplete_joins (env : Env) (l : Local) (slot : Fin CAPN_RPC_MAX_JOINS) (j : Join) :
    (joinComplete env l slot j).conn.joins = l.conn.joins.set slot none :=
  congrArg (fun t : Table _ Join => t.set slot none) (joinParts_joins env { l with rc := 0 } j j.parts)

/-- Only Join messages change the parts that wait. -/
theorem joins_event (c : Conn) (vat : Vat) (e : Event)
    (h : ∀ env qid target keyPart, e ≠ .recv env (.join qid target keyPart)) :
    (e.run c vat).conn.joins = c.joins := by
  cases e with
  | setBootstrap bootstrap => rfl
  | exportCap server dispatch =>
    rw [Event.run]
    cases he : capnRpcExport c server dispatch with
    | none => rfl
    | some r =>
      obtain ⟨e', hc, -⟩ := capnRpcExport_spec he
      show r.2.joins = _
      rw [hc]
  | recv env m =>
    cases m with
    | bootstrap qid =>
      show (handleBootstrap env { conn := c, vat := vat } qid).conn.joins = _
      obtain ⟨reason, e, -⟩ | ⟨server, dispatch, eid, conn, -, he, e⟩ :=
        handleBootstrap_cases env { conn := c, vat := vat } qid
      · rw [e, sendReturnException, sendMessage_conn]
      · obtain ⟨e', rfl, -⟩ := capnRpcExport_spec he
        rw [e, sendAnswer_joins]
    | call qid target interfaceId methodId params =>
      show (handleCall env { conn := c, vat := vat } qid target interfaceId methodId params).conn.joins = _
      rw [handleCall_eq]
      split
      · rw [sendReturnException, sendMessage_conn]
      split
      · rw [sendReturnException, sendMessage_conn]
      · rw [sendAnswer_joins]
    | finish qid =>
      show (answerDrop c qid).joins = _
      rw [answerDrop]
      split <;> rfl
    | release id referenceCount =>
      show (handleRelease c id referenceCount).joins = _
      rw [handleRelease]
      split
      · split <;> rfl
      · rfl
    | join qid target keyPart => exact absurd rfl (h env qid target keyPart)
    | ret => rfl
    | resolve => simp only [Event.run, capnRpcHandle, sendUnimplemented, sendMessage_conn]
    | obsolete => simp only [Event.run, capnRpcHandle, sendUnimplemented, sendMessage_conn]
    | disembargo target context =>
      show (handleDisembargo env { conn := c, vat := vat } target context).conn.joins = _
      cases context with
      | provide questionId =>
        rw [handleDisembargo]
        obtain ⟨-, e⟩ | ⟨i, p, -, -, e⟩ := releaseProvideEmbargo_cases env { conn := c, vat := vat } questionId
        · rw [e]
        · rw [e, sendAcceptedCap, sendAnswer_joins]
      | senderLoopback id => rw [handleDisembargo, sendMessage_conn]
      | receiverLoopback id => rfl
      | accept => rfl
    | provide qid target recipient =>
      show (handleProvide env { conn := c, vat := vat } qid target recipient).conn.joins = _
      obtain ⟨reason, e, -⟩ | ⟨eid, x, nonce, i, -, hx, -, -, e⟩ :=
        handleProvide_cases env { conn := c, vat := vat } qid target recipient
      · rw [e, sendReturnException, sendMessage_conn]
      · rw [e, sendEmptyReturn, sendAnswer_joins]
    | accept qid provision embargo =>
      show (handleAccept env { conn := c, vat := vat } qid provision embargo).conn.joins = _
      obtain ⟨reason, e, -⟩ | ⟨nonce, i, p, eid, conn, rfl, hf, hp, he, e⟩ :=
        handleAccept_cases env { conn := c, vat := vat } qid provision embargo
      · rw [e, sendReturnException, sendMessage_conn]
      · obtain ⟨e', rfl, -⟩ := capnRpcExport_spec he
        rw [e]
        split
        · rfl
        · rw [sendAcceptedCap, sendAnswer_joins]

/-! ## Provisions -/

theorem joinParts_vat (env : Env) (l : Local) (j : Join) (is : List (Fin CAPN_RPC_MAX_JOIN_PARTS)) :
    (is.foldl (joinAnswer env j) l).vat = l.vat := by
  induction is generalizing l with
  | nil => rfl
  | cons i is ih =>
    rw [List.foldl_cons, ih]
    simp only [joinAnswer]
    cases (if j.same ∧ i = 0 then j.eids 0 else none) with
    | none => exact sendMessage_vat env l _
    | some eid => exact sendMessage_vat env _ _

/-- Only Provide, Accept and Disembargo messages change the provisions. -/
theorem vat_event (c : Conn) (vat : Vat) (e : Event)
    (hp : ∀ env qid target recipient, e ≠ .recv env (.provide qid target recipient))
    (ha : ∀ env qid provision embargo, e ≠ .recv env (.accept qid provision embargo))
    (hd : ∀ env target qid, e ≠ .recv env (.disembargo target (.provide qid))) : (e.run c vat).vat = vat := by
  cases e with
  | setBootstrap bootstrap => rfl
  | exportCap server dispatch =>
    rw [Event.run]
    split <;> rfl
  | recv env m =>
    cases m with
    | bootstrap qid =>
      show (handleBootstrap env { conn := c, vat := vat } qid).vat = _
      obtain ⟨reason, e, -⟩ | ⟨server, dispatch, eid, conn, -, -, e⟩ :=
        handleBootstrap_cases env { conn := c, vat := vat } qid
      · rw [e, sendReturnException, sendMessage_vat]
      · rw [e, sendAnswer_vat]
    | call qid target interfaceId methodId params =>
      show (handleCall env { conn := c, vat := vat } qid target interfaceId methodId params).vat = _
      rw [handleCall_eq]
      split
      · rw [sendReturnException, sendMessage_vat]
      split
      · rw [sendReturnException, sendMessage_vat]
      · rw [sendAnswer_vat]
    | finish qid => rfl
    | release id referenceCount => rfl
    | join qid target keyPart =>
      show (handleJoin env { conn := c, vat := vat } qid target keyPart).vat = _
      unfold handleJoin
      split
      · exact sendMessage_vat env _ _
      split
      · exact sendMessage_vat env _ _
      split
      · exact sendMessage_vat env _ _
      simp only
      split
      · rfl
      split
      · exact sendMessage_vat env _ _
      split
      · exact joinParts_vat env _ _ _
      · rfl
    | ret => rfl
    | resolve => simp only [Event.run, capnRpcHandle, sendUnimplemented, sendMessage_vat]
    | obsolete => simp only [Event.run, capnRpcHandle, sendUnimplemented, sendMessage_vat]
    | disembargo target context =>
      cases context with
      | provide questionId => exact absurd rfl (hd env target questionId)
      | senderLoopback id => exact sendMessage_vat env _ _
      | receiverLoopback id => rfl
      | accept => rfl
    | provide qid target recipient => exact absurd rfl (hp env qid target recipient)
    | accept qid provision embargo => exact absurd rfl (ha env qid provision embargo)

end Capnproto.Rpc

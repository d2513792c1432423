import Capnproto.Rpc.World

/-!
# What an event sends

The messages that each handler gives to the `send` callback. A handler builds a
message and sends it, unless its frame is larger than the buffer (`emit`). Apart
from the results of a Call, the Returns have a fixed form (`Outgoing.Fixed`),
and their frames are small.
-/

namespace Capnproto.Rpc

/-- A message that fits the buffer is sent. -/
def emit (env : Env) (msg : Outgoing) : List Outgoing :=
  if CAPN_RPC_MAX_ANSWER_BYTES < env.frameSize msg then [] else [msg]

/-- The Returns that are not the results of a Call. -/
def Outgoing.Fixed : Outgoing → Prop
  | .ret _ (.exception reason) => reason ∈ reasons
  | .ret _ (.joinResult _ _ capTable) => capTable.length ≤ 1
  | .ret _ (.results pl) => (∃ eid, pl = capPayload eid) ∨ pl.capTable = [] ∧ pl.content = fun _ => .other
  | _ => False

/-- The frames of the Returns of a fixed form fit the buffer. -/
def Env.Small (env : Env) : Prop := ∀ msg, msg.Fixed → env.frameSize msg ≤ CAPN_RPC_MAX_ANSWER_BYTES

section

variable {env : Env}

theorem emit_fixed (h : env.Small) {msg : Outgoing} (hm : msg.Fixed) : emit env msg = [msg] :=
  if_neg (Nat.not_lt.mpr (h msg hm))

theorem mem_emit {msg m : Outgoing} (h : m ∈ emit env msg) : m = msg := by
  rw [emit] at h
  split at h
  · cases h
  · exact List.mem_singleton.mp h

end

section

variable (env : Env) (l : Local)

theorem sendMessage_emit (msg : Outgoing) : (sendMessage env l msg).sent = l.sent ++ emit env msg :=
  sendMessage_sent env l msg

theorem sendAnswer_emit (qid : Nat) (body : Return) :
    (sendAnswer env l qid body).sent = l.sent ++ emit env (.ret qid body) := sendAnswer_sent env l qid body

/-! ## One question, one Return -/

end

/-- One more message: a Return of a fixed form, no result of a Join. -/
def Answered (env : Env) (l l' : Local) (qid : Nat) : Prop :=
  ∃ body, (Outgoing.ret qid body).Fixed ∧ (∀ id s t, body ≠ .joinResult id s t) ∧
    l'.sent = l.sent ++ emit env (.ret qid body)

section

variable {env : Env} {l l' : Local} {qid : Nat}

theorem answered_exception {reason : String} (h : reason ∈ reasons) :
    Answered env l (sendReturnException env l qid reason) qid :=
  ⟨.exception reason, h, fun _ _ _ h => Return.noConfusion h, sendMessage_emit env l _⟩

theorem answered_cap (h : l'.sent = l.sent) (eid : ExportId) :
    Answered env l (sendAnswer env l' qid (.results (capPayload eid))) qid := by
  refine ⟨.results (capPayload eid), ?_, fun _ _ _ h => Return.noConfusion h, ?_⟩
  · show (∃ e, capPayload eid = capPayload e) ∨ _
    exact .inl ⟨eid, rfl⟩
  · rw [sendAnswer_emit, h]

theorem answered_empty (h : l'.sent = l.sent) : Answered env l (sendEmptyReturn env l' qid) qid := by
  refine ⟨_, ?_, fun _ _ _ h => Return.noConfusion h, (sendAnswer_emit env l' qid _).trans (by rw [h])⟩
  show _ ∨ _
  exact .inr ⟨rfl, rfl⟩

variable (env l qid)

theorem handleBootstrap_sent : Answered env l (handleBootstrap env l qid) qid := by
  obtain ⟨reason, e, hr⟩ | ⟨server, dispatch, eid, conn, -, -, e⟩ := handleBootstrap_cases env l qid
  · rw [e]
    exact answered_exception hr
  · rw [e]
    exact answered_cap rfl eid

/-- A Call is refused, or its results are sent. -/
theorem handleCall_sent (target : Option MessageTarget) (interfaceId methodId : Nat) (params : Payload) :
    (Answered env l (handleCall env l qid target interfaceId methodId params) qid ∧
      ∀ e, callee l.conn target = some e →
        (env.dispatch e.server e.dispatch interfaceId methodId params.content).1 ≠ 0) ∨
      ∃ e, callee l.conn target = some e ∧
        (env.dispatch e.server e.dispatch interfaceId methodId params.content).1 = 0 ∧
        (handleCall env l qid target interfaceId methodId params).sent = l.sent ++ emit env (.ret qid
          (.results ⟨(env.dispatch e.server e.dispatch interfaceId methodId params.content).2, []⟩)) := by
  rw [handleCall_eq]
  cases hc : callee l.conn target with
  | none => exact .inl ⟨answered_exception (by decide), fun _ h => by cases h⟩
  | some e =>
    by_cases hrc : (env.dispatch e.server e.dispatch interfaceId methodId params.content).1 = 0
    · simp only [hrc, ne_eq, not_true_eq_false, if_false]
      exact .inr ⟨e, rfl, hrc, sendAnswer_emit env l _ _⟩
    · simp only [ne_eq, hrc, not_false_eq_true, if_true]
      refine .inl ⟨answered_exception (by decide), fun e' he' => ?_⟩
      cases he'
      exact hrc

theorem handleProvide_sent (target : Option MessageTarget) (recipient : Option Nat) :
    Answered env l (handleProvide env l qid target recipient) qid := by
  obtain ⟨reason, e, hr⟩ | ⟨eid, x, nonce, i, -, -, -, -, e⟩ := handleProvide_cases env l qid target recipient
  · rw [e]
    exact answered_exception hr
  · rw [e]
    exact answered_empty rfl

end

/-- The capabilities that a message hands out. -/
def Outgoing.hosted : Outgoing → List CapDescriptor
  | .ret _ (.results pl) => pl.capTable
  | .ret _ (.joinResult _ _ capTable) => capTable
  | _ => []

/-! ## Joins -/

theorem partNum_lt {kp : JoinKeyPart}
    (h : ¬ (kp.partCount = 0 ∨ CAPN_RPC_MAX_JOIN_PARTS < kp.partCount ∨ kp.partCount ≤ kp.partNum)) :
    kp.partNum < CAPN_RPC_MAX_JOIN_PARTS := by omega

/-- The set and the number of the part that a Join adds, unless it is refused. -/
def accepted (c : Conn) (keyPart : Option JoinKeyPart) :
    Option (Fin CAPN_RPC_MAX_JOINS × Join × Fin CAPN_RPC_MAX_JOIN_PARTS) :=
  match keyPart with
  | none => none
  | some kp =>
    if h : kp.partCount = 0 ∨ CAPN_RPC_MAX_JOIN_PARTS < kp.partCount ∨ kp.partCount ≤ kp.partNum then none
    else
      match joinSlotFind c.joins kp.joinId kp.partCount with
      | none => none
      | some (slot, joins) =>
        match joins slot with
        | none => none
        | some j => if j.seen ⟨kp.partNum, partNum_lt h⟩ then none else some (slot, j, ⟨kp.partNum, partNum_lt h⟩)

/-- The answer to part `i` of a complete set. -/
def joinReply (j : Join) (i : Fin CAPN_RPC_MAX_JOIN_PARTS) : Outgoing :=
  .ret (j.qids i) (.joinResult j.joinId j.same
    (((if j.same ∧ i = 0 then j.eids 0 else none).map fun eid : ExportId => CapDescriptor.senderHosted eid).toList))

/-- **`join_slot_find`**: the set with the id and as many parts, or a new one in a free
slot. -/
theorem joinSlotFind_spec {joins joins' : Table CAPN_RPC_MAX_JOINS Join} {jid pcount : Nat}
    {slot : Fin CAPN_RPC_MAX_JOINS} (h : joinSlotFind joins jid pcount = some (slot, joins')) :
    ∃ j, joins' = joins.set slot (some j) ∧ j.joinId = jid ∧ j.partCount = pcount ∧
      (joins slot = some j ∨ joins slot = none ∧ j = { joinId := jid, partCount := pcount }) := by
  rw [joinSlotFind] at h
  cases hf : joins.find (·.joinId = jid) with
  | some i =>
    obtain ⟨j, hj, hid⟩ := Table.find_some hf
    simp only [hf, hj, Option.any_some, decide_eq_true_eq] at h
    split at h
    · rename_i hcount
      cases h
      exact ⟨j, (Table.set_eq_self hj).symm, of_decide_eq_true hid, hcount, .inl hj⟩
    · cases h
  | none =>
    simp only [hf] at h
    split at h
    · rename_i i hi
      cases h
      exact ⟨_, rfl, rfl, rfl, .inr ⟨Table.free_some hi, rfl⟩⟩
    · cases h

/-- What is accepted: a part not seen yet, of a set in the table or of a new one. -/
theorem accepted_some {c : Conn} {keyPart : Option JoinKeyPart} {slot : Fin CAPN_RPC_MAX_JOINS} {j : Join}
    {i : Fin CAPN_RPC_MAX_JOIN_PARTS} (h : accepted c keyPart = some (slot, j, i)) :
    j.seen i = false ∧ (i : Nat) < j.partCount ∧ j.partCount ≤ CAPN_RPC_MAX_JOIN_PARTS ∧
      (c.joins slot = some j ∨ c.joins slot = none ∧ j = { joinId := j.joinId, partCount := j.partCount }) := by
  rw [accepted.eq_def] at h
  split at h
  · cases h
  split at h
  · cases h
  rename_i hkp
  split at h
  · cases h
  rename_i hf
  obtain ⟨k, rfl, hid, hcount, hold⟩ := joinSlotFind_spec hf
  simp only [Table.set_same] at h
  split at h
  · cases h
  rename_i hseen
  simp only [Option.some.injEq, Prod.mk.injEq] at h
  obtain ⟨rfl, rfl, rfl⟩ := h
  refine ⟨Bool.eq_false_iff.mpr hseen, ?_, ?_, ?_⟩
  · rw [hcount]
    exact Nat.not_le.mp fun hle => hkp (.inr (.inr hle))
  · omega
  · rw [hid, hcount]
    exact hold

theorem resolveTarget_joins (c : Conn) (joins : Table CAPN_RPC_MAX_JOINS Join) (target : Option MessageTarget) :
    resolveTarget { c with joins := joins } target = resolveTarget c target := by
  cases target with
  | none => rfl
  | some t => cases t <;> rfl

/-- **`handle_join`** refuses a part, adds it to its set, or completes the set with it. -/
theorem handleJoin_cases (env : Env) (l : Local) (qid : Nat) (target : Option MessageTarget)
    (keyPart : Option JoinKeyPart) :
    (accepted l.conn keyPart = none ∧
      ∃ id, handleJoin env l qid target keyPart = sendJoinResult env l qid id false none) ∨
      ∃ slot j i, accepted l.conn keyPart = some (slot, j, i) ∧
        handleJoin env l qid target keyPart =
          let j' := j.park i qid (resolveTarget l.conn target)
          let l' := { l with conn := { l.conn with joins := l.conn.joins.set slot (some j') } }
          if j'.nseen = j'.partCount then joinComplete env l' slot j' else { l' with rc := 0 } := by
  rw [handleJoin.eq_def, accepted.eq_def]
  cases keyPart with
  | none => exact .inl ⟨rfl, 0, rfl⟩
  | some kp =>
    by_cases hkp : kp.partCount = 0 ∨ CAPN_RPC_MAX_JOIN_PARTS < kp.partCount ∨ kp.partCount ≤ kp.partNum
    · simp only [dif_pos hkp]
      exact .inl ⟨trivial, kp.joinId, rfl⟩
    simp only [dif_neg hkp]
    cases hf : joinSlotFind l.conn.joins kp.joinId kp.partCount with
    | none => exact .inl ⟨rfl, kp.joinId, rfl⟩
    | some r =>
      obtain ⟨slot, joins⟩ := r
      obtain ⟨j, rfl, -, -, hold⟩ := joinSlotFind_spec hf
      simp only [Table.set_same, resolveTarget_joins, Table.set_set]
      by_cases hseen : j.seen ⟨kp.partNum, by omega⟩ = true
      · rcases hold with hold | ⟨-, rfl⟩
        · simp only [hseen, if_true, Table.set_eq_self hold]
          exact .inl ⟨trivial, kp.joinId, rfl⟩
        · cases hseen
      · simp only [hseen]
        exact .inr ⟨slot, j, _, rfl, rfl⟩

/-- The answers to the parts of a complete set. -/
theorem joinParts_sent (env : Env) (l : Local) (j : Join) (is : List (Fin CAPN_RPC_MAX_JOIN_PARTS)) :
    (is.foldl (joinAnswer env j) l).sent = l.sent ++ is.flatMap fun i => emit env (joinReply j i) := by
  induction is generalizing l with
  | nil => exact (List.append_nil _).symm
  | cons i is ih =>
    have hone : (joinAnswer env j l i).sent = l.sent ++ emit env (joinReply j i) := by
      simp only [joinAnswer, joinReply]
      cases (if j.same ∧ i = 0 then j.eids 0 else none) with
      | none => exact sendMessage_emit env l _
      | some eid => exact sendMessage_emit env _ _
    rw [List.foldl_cons, ih, hone, List.flatMap_cons, List.append_assoc]

theorem joinReply_fixed (j : Join) (i : Fin CAPN_RPC_MAX_JOIN_PARTS) : (joinReply j i).Fixed := by
  show List.length _ ≤ 1
  cases (if j.same ∧ i = 0 then j.eids 0 else none) with
  | none => exact Nat.zero_le 1
  | some eid => exact Nat.le_refl 1

theorem emit_replies {env : Env} (hs : env.Small) (j : Join) (is : List (Fin CAPN_RPC_MAX_JOIN_PARTS)) :
    (is.flatMap fun i => emit env (joinReply j i)) = is.map (joinReply j) := by
  induction is with
  | nil => rfl
  | cons i is ih => rw [List.flatMap_cons, ih, emit_fixed hs (joinReply_fixed j i), List.map_cons, List.singleton_append]

/-- The first part of a set comes first. -/
theorem parts_cons {j : Join} (h : 0 < j.partCount) : ∃ is, j.parts = 0 :: is ∧ ∀ i ∈ is, i ≠ 0 := by
  have hcons : j.parts = 0 :: ((List.finRange 15).map Fin.succ).filter fun i : Fin 16 => (i : Nat) < j.partCount := by
    rw [Join.parts, List.finRange_succ, List.filter_cons]
    exact if_pos (decide_eq_true h)
  rw [hcons]
  refine ⟨_, rfl, fun i hi => ?_⟩
  obtain ⟨k, -, rfl⟩ := List.mem_map.mp (List.mem_of_mem_filter hi)
  exact Fin.succ_ne_zero k

/-- The answers to a set hand out one capability if the parts are the same, else none. -/
theorem join_hosted {j : Join} (h : 0 < j.partCount) :
    (j.parts.map (joinReply j)).flatMap Outgoing.hosted =
      if j.same then ((j.eids 0).map fun eid : ExportId => CapDescriptor.senderHosted eid).toList else [] := by
  obtain ⟨is, hparts, hne⟩ := parts_cons h
  have hrest : (is.map (joinReply j)).flatMap Outgoing.hosted = [] := by
    rw [List.flatMap_map, List.flatMap_eq_nil_iff]
    intro i hi
    simp only [joinReply, Outgoing.hosted, hne i hi, and_false, if_false, Option.map_none, Option.toList_none]
  rw [hparts, List.map_cons, List.flatMap_cons, hrest, List.append_nil]
  simp only [joinReply, Outgoing.hosted, and_true]
  split <;> rfl

/-- The exports with another reference on a slot. -/
def retain (ex : Table CAPN_RPC_MAX_EXPORTS Export) : Option ExportId → Table CAPN_RPC_MAX_EXPORTS Export
  | none => ex
  | some eid => ex.set eid ((ex eid).map Export.ref)

theorem retain_server {ex : Table CAPN_RPC_MAX_EXPORTS Export} (eid : Option ExportId) {i : ExportId} {x : Export}
    (h : ex i = some x) : ∃ x', retain ex eid i = some x' ∧ x'.server = x.server := by
  cases eid with
  | none => exact ⟨x, h, rfl⟩
  | some eid =>
    by_cases hi : i = eid
    · exact ⟨x.ref, by rw [retain, hi, Table.set_same, ← hi, h]; rfl, rfl⟩
    · exact ⟨x, by rw [retain, Table.set_ne _ _ hi, h], rfl⟩

theorem sendJoinResult_exports (env : Env) (l : Local) (qid joinId : Nat) (succeeded : Bool) (cap : Option ExportId) :
    (sendJoinResult env l qid joinId succeeded cap).conn.exports = retain l.conn.exports cap := by
  cases cap with
  | none => rw [sendJoinResult, sendMessage_conn, retain]
  | some eid => rw [sendJoinResult, sendMessage_conn, retain]

/-- A set that is answered takes a reference on the slot of its parts, if that is one. -/
theorem joinComplete_exports (env : Env) (l : Local) (slot : Fin CAPN_RPC_MAX_JOINS) {j : Join} (h : 0 < j.partCount) :
    (joinComplete env l slot j).conn.exports = retain l.conn.exports (if j.same then j.eids 0 else none) := by
  have hrest : ∀ (is : List (Fin CAPN_RPC_MAX_JOIN_PARTS)) (l : Local), (∀ i ∈ is, i ≠ 0) →
      (is.foldl (joinAnswer env j) l).conn.exports = l.conn.exports := by
    intro is
    induction is with
    | nil => exact fun _ _ => rfl
    | cons i is ih =>
      intro l hne
      rw [List.foldl_cons, ih _ fun k hk => hne k (List.mem_cons_of_mem _ hk)]
      show (sendJoinResult env l _ _ _ _).conn.exports = _
      rw [if_neg fun hi => hne i List.mem_cons_self hi.2, sendJoinResult_exports, retain]
  obtain ⟨is, hparts, hne⟩ := parts_cons h
  show (j.parts.foldl (joinAnswer env j) { l with rc := 0 }).conn.exports = _
  rw [hparts, List.foldl_cons, hrest is _ hne]
  show (sendJoinResult env { l with rc := 0 } _ _ _ _).conn.exports = _
  rw [sendJoinResult_exports]
  simp only [and_true]

theorem joinComplete_sent (env : Env) (l : Local) (slot : Fin CAPN_RPC_MAX_JOINS) (j : Join) :
    (joinComplete env l slot j).sent = l.sent ++ j.parts.flatMap fun i => emit env (joinReply j i) :=
  joinParts_sent env { l with rc := 0 } j j.parts

end Capnproto.Rpc

import Capnproto.Framework.Table
import Capnproto.Pointer.Decode

/-!
# The RPC vat

The server side of `capn-rpc.c`: the tables of a connection and of the vat that
connections share, and a handler for every message. A message is what the
`read_` functions of `rpc.capnp` give: a pointer field is `none` where the code
finds `CAPN_NULL`, and a null word reads as a struct of defaults. A slot of a
table that is not `used` is empty. The client side (questions, introductions,
streams) has tables of its own, which no handler here reads.
-/

namespace Capnproto.Rpc

abbrev CAPN_RPC_MAX_EXPORTS : Nat := 64
abbrev CAPN_RPC_MAX_ANSWERS : Nat := 64
abbrev CAPN_RPC_MAX_ANSWER_BYTES : Nat := 8192
abbrev CAPN_RPC_MAX_PROVISIONS : Nat := 32
abbrev CAPN_RPC_MAX_JOINS : Nat := 8
abbrev CAPN_RPC_MAX_JOIN_PARTS : Nat := 16

instance : NeZero CAPN_RPC_MAX_EXPORTS := ⟨by decide⟩
instance : NeZero CAPN_RPC_MAX_PROVISIONS := ⟨by decide⟩
instance : NeZero CAPN_RPC_MAX_JOINS := ⟨by decide⟩
instance : NeZero CAPN_RPC_MAX_JOIN_PARTS := ⟨by decide⟩

/-- An index into the export table. -/
abbrev ExportId : Type := Fin CAPN_RPC_MAX_EXPORTS

/-! ## Messages -/

/-- What a pointer inside results is; a capability has a `capTable` index. -/
inductive Node where
  | struct
  | cap (index : Int)
  | other

/-- The content of a payload: what the pointer at a path of pointer fields is. -/
abbrev Content : Type := List Nat → Node

inductive CapDescriptor where
  | senderHosted (id : Nat)
  | other
deriving DecidableEq

structure Payload where
  content : Content
  capTable : List CapDescriptor

/-- `struct PromisedAnswer_Op`. -/
inductive Op where
  | noop
  | getPointerField (field : Nat)
deriving DecidableEq

structure PromisedAnswer where
  questionId : Nat
  transform : List Op
deriving DecidableEq

inductive MessageTarget where
  | importedCap (id : Nat)
  | promisedAnswer (pap : Option PromisedAnswer)
  | other
deriving DecidableEq

structure JoinKeyPart where
  joinId : Nat
  partCount : Nat
  partNum : Nat
deriving DecidableEq

/-- `Disembargo_context`. -/
inductive Context where
  | senderLoopback (id : Nat)
  | receiverLoopback (id : Nat)
  | accept
  | provide (questionId : Nat)
deriving DecidableEq

/-- A message that arrives. A Return goes to the client side; `obsolete` is any
other kind. -/
inductive Message where
  | bootstrap (questionId : Nat)
  | call (questionId : Nat) (target : Option MessageTarget) (interfaceId methodId : Nat) (params : Payload)
  | finish (questionId : Nat)
  | release (id referenceCount : Nat)
  | join (questionId : Nat) (target : Option MessageTarget) (keyPart : Option JoinKeyPart)
  | ret
  | resolve
  | disembargo (target : Option MessageTarget) (context : Context)
  | provide (questionId : Nat) (target : Option MessageTarget) (recipient : Option Nat)
  | accept (questionId : Nat) (provision : Option Nat) (embargo : Bool)
  | obsolete

/-- What a Return says; the content of a `joinResult` is a `JoinResult`. -/
inductive Return where
  | results (payload : Payload)
  | joinResult (joinId : Nat) (succeeded : Bool) (capTable : List CapDescriptor)
  | exception (reason : String)

/-- A message that is sent. -/
inductive Outgoing where
  | ret (answerId : Nat) (body : Return)
  | disembargo (target : Option MessageTarget) (context : Context)
  | unimplemented (orig : Message)

/-! ## Tables -/

/-- `struct capn_rpc_export`. -/
structure Export where
  refcount : Int
  server : Nat
  dispatch : Nat
deriving DecidableEq

/-- `struct capn_rpc_answer`; `frame` is the Return in it. -/
structure Answer where
  questionId : Nat
  frame : Return

/-- `struct capn_rpc_provision`. -/
structure Provision where
  nonce : Nat
  server : Nat
  dispatch : Nat
  exportId : ExportId
  questionId : Nat
  embargoed : Bool
  acceptQuestionId : Nat
deriving DecidableEq

/-- `struct capn_rpc_join`; a part whose target names nothing has no export. -/
structure Join where
  joinId : Nat
  partCount : Nat
  nseen : Nat := 0
  seen : Fin CAPN_RPC_MAX_JOIN_PARTS → Bool := fun _ => false
  qids : Fin CAPN_RPC_MAX_JOIN_PARTS → Nat := fun _ => 0
  eids : Fin CAPN_RPC_MAX_JOIN_PARTS → Option ExportId := fun _ => some 0

/-- The server side of `struct capn_rpc_conn`; a null `bootstrap` is `none`. -/
structure Conn where
  exports : Table CAPN_RPC_MAX_EXPORTS Export := .empty
  answers : Table CAPN_RPC_MAX_ANSWERS Answer := .empty
  joins : Table CAPN_RPC_MAX_JOINS Join := .empty
  bootstrap : Option (Nat × Nat) := none

/-- `struct capn_rpc_vat`. -/
abbrev Vat : Type := Table CAPN_RPC_MAX_PROVISIONS Provision

/-- What a handler works on: the connection of the message, the vat, what was
given to the `send` callback so far, and the status. -/
structure Local where
  conn : Conn
  vat : Vat
  sent : List Outgoing := []
  rc : Int := 0

/-- What the handlers call: what the `dispatch` callback of a server does (the
server, the callback, the method and the parameters are given), what the `send`
callback returns, and the size of the frame `capn_write_mem` makes of a message. -/
structure Env where
  dispatch : Nat → Nat → Nat → Nat → Content → Int × Content
  send : Outgoing → Int
  frameSize : Outgoing → Nat

/-! ## Exports and targets -/

/-- What a C `int` holds after an addition; on an overflow, as on every machine
the code is built for, the sum wraps. -/
def intWrap (x : Int) : Int := (x + 2 ^ 31) % 2 ^ 32 - 2 ^ 31

/-- Another reference. -/
def Export.ref (e : Export) : Export := { e with refcount := intWrap (e.refcount + 1) }

/-- `capn_rpc_export`. -/
def capnRpcExport (c : Conn) (server dispatch : Nat) : Option (ExportId × Conn) :=
  match c.exports.find (·.server = server) with
  | some i => some (i, { c with exports := c.exports.set i ((c.exports i).map Export.ref) })
  | none =>
    match c.exports.free with
    | some i => some (i, { c with exports := c.exports.set i (some ⟨1, server, dispatch⟩) })
    | none => none

/-- `answer_find`. -/
def answerFind (c : Conn) (qid : Nat) : Option (Fin CAPN_RPC_MAX_ANSWERS) := c.answers.find (·.questionId = qid)

/-- `answer_drop`. -/
def answerDrop (c : Conn) (qid : Nat) : Conn :=
  match answerFind c qid with
  | some i => { c with answers := c.answers.set i none }
  | none => c

/-- A used export with id `id`. -/
def usedExport (c : Conn) (id : Nat) : Option ExportId :=
  if h : id < CAPN_RPC_MAX_EXPORTS then if (c.exports ⟨id, h⟩).isSome then some ⟨id, h⟩ else none else none

/-- The path that the transform walks, a step at a time; it stops at what is not a
struct. -/
def walkTransform (content : Content) : List Nat → List Op → Option (List Nat)
  | path, [] => some path
  | path, .noop :: ops => walkTransform content path ops
  | path, .getPointerField field :: ops =>
    match content path with
    | .struct => walkTransform content (path ++ [field]) ops
    | _ => none

/-- The export id that a capability inside a Return names. -/
def answerCap (frame : Return) (transform : List Op) : Option Nat :=
  match frame with
  | .results pl =>
    match walkTransform pl.content [] transform with
    | none => none
    | some path =>
      match pl.content path with
      | .cap index =>
        if index < 0 then none
        else
          match pl.capTable[index.toNat]? with
          | some (.senderHosted id) => some id
          | _ => none
      | _ => none
  | _ => none

/-- `resolve_promised_answer`. -/
def resolvePromisedAnswer (c : Conn) (pap : Option PromisedAnswer) : Option ExportId :=
  match pap with
  | none => none
  | some pa =>
    match answerFind c pa.questionId with
    | none => none
    | some i =>
      match c.answers i with
      | none => none
      | some a => (answerCap a.frame pa.transform).bind (usedExport c)

/-- `resolve_target`. -/
def resolveTarget (c : Conn) (tp : Option MessageTarget) : Option ExportId :=
  match tp with
  | none => none
  | some (.promisedAnswer pap) => resolvePromisedAnswer c pap
  | some (.importedCap id) => usedExport c id
  | some .other => none

/-! ## Sending -/

section

variable (env : Env)

/-- `send_message`. -/
def sendMessage (l : Local) (msg : Outgoing) : Local :=
  if CAPN_RPC_MAX_ANSWER_BYTES < env.frameSize msg then { l with rc := -1 }
  else { l with sent := l.sent ++ [msg], rc := env.send msg }

/-- `send_answer`. -/
def sendAnswer (l : Local) (qid : Nat) (body : Return) : Local :=
  if CAPN_RPC_MAX_ANSWER_BYTES < env.frameSize (.ret qid body) then { l with rc := -1 }
  else
    let conn :=
      match l.conn.answers.free with
      | some i => { l.conn with answers := l.conn.answers.set i (some ⟨qid, body⟩) }
      | none => l.conn
    { l with conn := conn, sent := l.sent ++ [.ret qid body], rc := env.send (.ret qid body) }

/-- `write_cap_payload`, with the capability as the content. -/
def capPayload (eid : ExportId) : Payload := ⟨fun path => if path = [] then .cap 0 else .other, [.senderHosted eid]⟩

/-- `send_return_exception`. -/
def sendReturnException (l : Local) (qid : Nat) (reason : String) : Local :=
  sendMessage env l (.ret qid (.exception reason))

/-- `send_unimplemented`. -/
def sendUnimplemented (l : Local) (orig : Message) : Local := sendMessage env l (.unimplemented orig)

/-- `send_empty_return`. -/
def sendEmptyReturn (l : Local) (qid : Nat) : Local := sendAnswer env l qid (.results ⟨fun _ => .other, []⟩)

/-- `send_accepted_cap`. -/
def sendAcceptedCap (l : Local) (qid : Nat) (eid : ExportId) : Local :=
  sendAnswer env l qid (.results (capPayload eid))

/-! ## Handlers -/

/-- `handle_bootstrap`. -/
def handleBootstrap (l : Local) (qid : Nat) : Local :=
  match l.conn.bootstrap with
  | none => sendReturnException env l qid "no bootstrap capability"
  | some (server, dispatch) =>
    match capnRpcExport l.conn server dispatch with
    | none => sendReturnException env l qid "export table full"
    | some (eid, conn) => sendAnswer env { l with conn := conn } qid (.results (capPayload eid))

/-- `handle_call`; the results have no `capTable`. -/
def handleCall (l : Local) (qid : Nat) (target : Option MessageTarget) (interfaceId methodId : Nat)
    (params : Payload) : Local :=
  match resolveTarget l.conn target with
  | none => sendReturnException env l qid "no such export"
  | some eid =>
    match l.conn.exports eid with
    | none => l
    | some e =>
      let (rc, results) := env.dispatch e.server e.dispatch interfaceId methodId params.content
      if rc ≠ 0 then sendReturnException env l qid "call failed"
      else sendAnswer env l qid (.results ⟨results, []⟩)

/-- `handle_release`. -/
def handleRelease (c : Conn) (id referenceCount : Nat) : Conn :=
  if h : id < CAPN_RPC_MAX_EXPORTS then
    match c.exports ⟨id, h⟩ with
    | none => c
    | some e =>
      let refcount := intWrap (e.refcount - toInt32 referenceCount)
      { c with exports := c.exports.set ⟨id, h⟩ (if refcount ≤ 0 then none else some { e with refcount := refcount }) }
  else c

/-- `send_join_result`, with the capability `cap` if it is there. -/
def sendJoinResult (l : Local) (qid joinId : Nat) (succeeded : Bool) (cap : Option ExportId) : Local :=
  match cap with
  | none => sendMessage env l (.ret qid (.joinResult joinId succeeded []))
  | some eid =>
    sendMessage env { l with conn := { l.conn with exports := l.conn.exports.set eid ((l.conn.exports eid).map Export.ref) } }
      (.ret qid (.joinResult joinId succeeded [.senderHosted eid]))

/-- `join_slot_find`: the slot, and the table with it claimed. -/
def joinSlotFind (joins : Table CAPN_RPC_MAX_JOINS Join) (jid pcount : Nat) :
    Option (Fin CAPN_RPC_MAX_JOINS × Table CAPN_RPC_MAX_JOINS Join) :=
  match joins.find (·.joinId = jid) with
  | some i => if (joins i).any (·.partCount = pcount) then some (i, joins) else none
  | none =>
    match joins.free with
    | some i => some (i, joins.set i (some { joinId := jid, partCount := pcount }))
    | none => none

/-- The parts of a set. -/
def Join.parts (j : Join) : List (Fin CAPN_RPC_MAX_JOIN_PARTS) :=
  (List.finRange CAPN_RPC_MAX_JOIN_PARTS).filter fun i => (i : Nat) < j.partCount

/-- Whether all targets are one export. -/
def Join.same (j : Join) : Bool := (j.eids 0).isSome ∧ j.parts.all fun i => j.eids i = j.eids 0

/-- One answer of `join_complete`. -/
def joinAnswer (j : Join) (l : Local) (i : Fin CAPN_RPC_MAX_JOIN_PARTS) : Local :=
  let l' := sendJoinResult env l (j.qids i) j.joinId j.same (if j.same ∧ i = 0 then j.eids 0 else none)
  { l' with rc := if l'.rc ≠ 0 then l'.rc else l.rc }

/-- `join_complete`. -/
def joinComplete (l : Local) (slot : Fin CAPN_RPC_MAX_JOINS) (j : Join) : Local :=
  let l := j.parts.foldl (joinAnswer env j) { l with rc := 0 }
  { l with conn := { l.conn with joins := l.conn.joins.set slot none } }

/-- A part that has arrived. -/
def Join.park (j : Join) (i : Fin CAPN_RPC_MAX_JOIN_PARTS) (qid : Nat) (eid : Option ExportId) : Join :=
  { j with nseen := j.nseen + 1
           seen := fun k => if k = i then true else j.seen k
           qids := fun k => if k = i then qid else j.qids k
           eids := fun k => if k = i then eid else j.eids k }

/-- `handle_join`. -/
def handleJoin (l : Local) (qid : Nat) (target : Option MessageTarget) (keyPart : Option JoinKeyPart) : Local :=
  match keyPart with
  | none => sendJoinResult env l qid 0 false none
  | some kp =>
    if h : kp.partCount = 0 ∨ CAPN_RPC_MAX_JOIN_PARTS < kp.partCount ∨ kp.partCount ≤ kp.partNum then
      sendJoinResult env l qid kp.joinId false none
    else
      match joinSlotFind l.conn.joins kp.joinId kp.partCount with
      | none => sendJoinResult env l qid kp.joinId false none
      | some (slot, joins) =>
        let l := { l with conn := { l.conn with joins := joins } }
        match joins slot with
        | none => l
        | some j =>
          let i : Fin CAPN_RPC_MAX_JOIN_PARTS := ⟨kp.partNum, by omega⟩
          if j.seen i then sendJoinResult env l qid kp.joinId false none
          else
            let j := j.park i qid (resolveTarget l.conn target)
            let l := { l with conn := { l.conn with joins := joins.set slot (some j) } }
            if j.nseen = j.partCount then joinComplete env l slot j else { l with rc := 0 }

/-- `release_provide_embargo`. -/
def releaseProvideEmbargo (l : Local) (provideQid : Nat) : Local :=
  match l.vat.find fun p => p.embargoed ∧ p.questionId = provideQid with
  | none => { l with rc := 0 }
  | some i =>
    match l.vat i with
    | none => l
    | some p => sendAcceptedCap env { l with vat := l.vat.set i none } p.acceptQuestionId p.exportId

/-- `handle_disembargo`. -/
def handleDisembargo (l : Local) (target : Option MessageTarget) (context : Context) : Local :=
  match context with
  | .provide questionId => releaseProvideEmbargo env l questionId
  | .senderLoopback id => sendMessage env l (.disembargo target (.receiverLoopback id))
  | _ => { l with rc := 0 }

/-- `handle_provide`. -/
def handleProvide (l : Local) (qid : Nat) (target : Option MessageTarget) (recipient : Option Nat) : Local :=
  match resolveTarget l.conn target with
  | none => sendReturnException env l qid "provide: no such capability"
  | some eid =>
    match recipient with
    | none => sendReturnException env l qid "provide: no recipient"
    | some nonce =>
      match l.vat.free, l.conn.exports eid with
      | some i, some e =>
        let conn := { l.conn with exports := l.conn.exports.set eid (some e.ref) }
        sendEmptyReturn env
          { l with conn := conn, vat := l.vat.set i (some ⟨nonce, e.server, e.dispatch, eid, qid, false, 0⟩) } qid
      | _, _ => sendReturnException env l qid "provide: table full"

/-- `handle_accept`. -/
def handleAccept (l : Local) (qid : Nat) (provision : Option Nat) (embargo : Bool) : Local :=
  match provision with
  | none => sendReturnException env l qid "accept: no provision"
  | some nonce =>
    match l.vat.find fun p => !p.embargoed ∧ p.nonce = nonce with
    | none => sendReturnException env l qid "accept: no such provision"
    | some i =>
      match l.vat i with
      | none => l
      | some p =>
        match capnRpcExport l.conn p.server p.dispatch with
        | none => sendReturnException env l qid "accept: export table full"
        | some (eid, conn) =>
          if embargo then
            let p := { p with exportId := eid, embargoed := true, acceptQuestionId := qid }
            { l with conn := conn, vat := l.vat.set i (some p), rc := 0 }
          else sendAcceptedCap env { l with conn := conn, vat := l.vat.set i none } qid eid

/-- `capn_rpc_handle`, on a message that decodes. -/
def capnRpcHandle (c : Conn) (vat : Vat) (m : Message) : Local :=
  let l : Local := { conn := c, vat := vat }
  match m with
  | .bootstrap qid => handleBootstrap env l qid
  | .call qid target interfaceId methodId params => handleCall env l qid target interfaceId methodId params
  | .finish qid => { l with conn := answerDrop c qid }
  | .release id referenceCount => { l with conn := handleRelease c id referenceCount }
  | .join qid target keyPart => handleJoin env l qid target keyPart
  | .ret => l
  | .resolve => sendUnimplemented env l m
  | .disembargo target context => handleDisembargo env l target context
  | .provide qid target recipient => handleProvide env l qid target recipient
  | .accept qid provision embargo => handleAccept env l qid provision embargo
  | .obsolete => sendUnimplemented env l m

end

end Capnproto.Rpc

import Capnproto.Rpc.Vat

/-!
# The client side

The questions a connection asks and the introductions it is handed, in
`capn-rpc.c`, and the window of `-> stream` calls over them. A slot that is not
`used` is empty. A Return is what `handle_return` reads of it; which of its
descriptors are introductions is read where messages are decoded. The `send`
callback hands frames to the transport, and a message that comes back is
handled by a later call.
-/

namespace Capnproto.Rpc

abbrev CAPN_RPC_MAX_QUESTIONS : Nat := 64
abbrev CAPN_RPC_MAX_INTRODUCTIONS : Nat := 8
abbrev CAPN_RPC_MAX_HOST : Nat := 64
abbrev CAPN_RPC_STREAM_MAX_WINDOW : Nat := 64

/-- `(uint32_t)-1`: no question was asked. -/
abbrev NO_QUESTION : Nat := 2 ^ 32 - 1

/-- `struct capn_rpc_question`. -/
structure Question where
  questionId : Nat
  answered : Bool := false
  failed : Bool := false
  reply : List UInt8 := []
deriving DecidableEq

/-- `struct capn_rpc_introduction`. -/
structure Introduction where
  nonce : Nat
  vineId : Nat
  port : Nat
  host : List UInt8
deriving DecidableEq

/-- The client side of `struct capn_rpc_conn`. -/
structure ClientConn where
  questions : Table CAPN_RPC_MAX_QUESTIONS Question := .empty
  introductions : Table CAPN_RPC_MAX_INTRODUCTIONS Introduction := .empty
  nextQuestionId : Nat := 0

/-- A message that the client side sends. -/
inductive Request where
  | bootstrap (questionId : Nat)
  | call (questionId importedCap interfaceId methodId : Nat) (params : Content)
  | provide (questionId importedCap : Nat) (host : List UInt8) (port nonce : Nat)
  | accept (questionId nonce : Nat) (embargo : Bool)
  | finish (questionId : Nat)
  | release (id referenceCount : Nat)
  | disembargo (provideQid : Nat)

/-- A Return that arrives; a Return with no `results` has none to introduce. -/
structure Reply where
  answerId : Nat
  results : Bool
  introduced : List Introduction
  frame : List UInt8

/-- What the `send` callback returns, and the size of the frame of a message. -/
structure Transport where
  send : Request → Int
  frameSize : Request → Nat

/-- What an operation works on: the connection, what was given to the `send` callback so
far, and the status. -/
structure Outbox where
  conn : ClientConn
  sent : List Request := []
  rc : Int := 0

/-! ## Questions -/

/-- `question_claim`: the slot of the new question, and its id. -/
def questionClaim (c : ClientConn) : Option (Fin CAPN_RPC_MAX_QUESTIONS × Nat × ClientConn) :=
  match c.questions.free with
  | some i => some (i, c.nextQuestionId,
      { c with questions := c.questions.set i (some { questionId := c.nextQuestionId })
               nextQuestionId := (c.nextQuestionId + 1) % 2 ^ 32 })
  | none => none

/-- `question_find`. -/
def questionFind (c : ClientConn) (qid : Nat) : Option (Fin CAPN_RPC_MAX_QUESTIONS) :=
  c.questions.find (·.questionId = qid)

/-- `capn_rpc_is_answered`. -/
def capnRpcIsAnswered (c : ClientConn) (qid : Nat) : Bool :=
  ((questionFind c qid).bind fun i => c.questions i).any (·.answered)

/-- `capn_rpc_is_failed`. -/
def capnRpcIsFailed (c : ClientConn) (qid : Nat) : Bool :=
  ((questionFind c qid).bind fun i => c.questions i).any fun q => q.answered && q.failed

/-- The table with an introduction in a free slot, if there is one. -/
def noteIntroduction (t : Table CAPN_RPC_MAX_INTRODUCTIONS Introduction) (d : Introduction) :
    Table CAPN_RPC_MAX_INTRODUCTIONS Introduction :=
  match t.free with
  | some j => t.set j (some d)
  | none => t

/-- `note_introductions`, on the introductions among the descriptors. -/
def noteIntroductions (c : ClientConn) (introduced : List Introduction) : ClientConn :=
  { c with introductions := introduced.foldl noteIntroduction c.introductions }

/-- `handle_return`. -/
def handleReturn (c : ClientConn) (r : Reply) : ClientConn :=
  match questionFind c r.answerId with
  | none => c
  | some i =>
    if CAPN_RPC_MAX_ANSWER_BYTES < r.frame.length then c
    else
      let c := { c with questions := c.questions.set i ((c.questions i).map fun q =>
        { q with answered := true, failed := !r.results, reply := r.frame }) }
      if r.results then noteIntroductions c r.introduced else c

/-! ## Sending -/

section

variable (t : Transport)

/-- `send_message`, from the client side. -/
def transmit (l : Outbox) (msg : Request) : Outbox :=
  if CAPN_RPC_MAX_ANSWER_BYTES < t.frameSize msg then { l with rc := -1 }
  else { l with sent := l.sent ++ [msg], rc := t.send msg }

/-- What the functions that ask a question share: claim it, send it, and give it up
when it was not sent. -/
def ask (l : Outbox) (msg : Nat → Request) : Nat × Outbox :=
  match questionClaim l.conn with
  | none => (NO_QUESTION, l)
  | some (i, qid, conn) =>
    let l := transmit t { l with conn := conn } (msg qid)
    if l.rc ≠ 0 then (NO_QUESTION, { l with conn := { l.conn with questions := l.conn.questions.set i none } })
    else (qid, l)

/-- `capn_rpc_send_bootstrap`. -/
def capnRpcSendBootstrap (l : Outbox) : Nat × Outbox := ask t l .bootstrap

/-- `capn_rpc_send_call`; `params` is what `fill` leaves. -/
def capnRpcSendCall (l : Outbox) (importedCap interfaceId methodId : Nat) (params : Content) : Nat × Outbox :=
  ask t l fun qid => .call qid importedCap interfaceId methodId params

/-- `capn_rpc_send_provide`. -/
def capnRpcSendProvide (l : Outbox) (importedCap : Nat) (host : Option (List UInt8)) (port nonce : Nat) :
    Nat × Outbox :=
  match host with
  | none => (NO_QUESTION, l)
  | some host => ask t l fun qid => .provide qid importedCap host port nonce

/-- `capn_rpc_send_accept`. -/
def capnRpcSendAccept (l : Outbox) (nonce : Nat) (embargo : Bool) : Nat × Outbox :=
  ask t l fun qid => .accept qid nonce embargo

/-- `capn_rpc_send_finish`. -/
def capnRpcSendFinish (l : Outbox) (qid : Nat) : Outbox :=
  let conn :=
    match questionFind l.conn qid with
    | some i => { l.conn with questions := l.conn.questions.set i none }
    | none => l.conn
  transmit t { l with conn := conn } (.finish qid)

/-- `capn_rpc_send_release`. -/
def capnRpcSendRelease (l : Outbox) (id count : Nat) : Outbox := transmit t l (.release id count)

/-- `capn_rpc_send_disembargo_provide`. -/
def capnRpcSendDisembargoProvide (l : Outbox) (provideQid : Nat) : Outbox := transmit t l (.disembargo provideQid)

/-- `capn_rpc_introduction_done`; it does not look at what the send returns. -/
def capnRpcIntroductionDone (l : Outbox) (nonce : Nat) : Outbox :=
  match l.conn.introductions.find (·.nonce = nonce) with
  | none => { l with rc := -1 }
  | some i =>
    match l.conn.introductions i with
    | none => { l with rc := -1 }
    | some d =>
      let l := capnRpcSendRelease t l d.vineId 1
      { l with conn := { l.conn with introductions := l.conn.introductions.set i none }, rc := 0 }

end

/-! ## Streams -/

/-- `struct capn_rpc_stream`; `qids` are its first `nout` entries. -/
structure Stream where
  window : Int
  qids : List Nat := []
  failed : Bool := false
  firstFailure : Nat := 0
  haveFailure : Bool := false
deriving DecidableEq

/-- `capn_rpc_stream_init`. -/
def capnRpcStreamInit (window : Int) : Stream :=
  let window := if window < 1 then 1 else window
  { window := if CAPN_RPC_STREAM_MAX_WINDOW < window then CAPN_RPC_STREAM_MAX_WINDOW else window }

section

variable (t : Transport)

/-- `stream_retire_oldest`. -/
def streamRetireOldest (s : Stream) (l : Outbox) : Stream × Outbox :=
  match s.qids with
  | [] => (s, l)
  | qid :: qids =>
    let s := { s with qids := qids }
    let s :=
      if !capnRpcIsAnswered l.conn qid || capnRpcIsFailed l.conn qid then
        { s with failed := true, haveFailure := true, firstFailure := if s.haveFailure then s.firstFailure else qid }
      else s
    (s, capnRpcSendFinish t l qid)

/-- The first part of `capn_rpc_stream_send`, which makes room in a full window. -/
def streamRoom (s : Stream) (l : Outbox) : Stream × Outbox :=
  if s.window ≤ s.qids.length then streamRetireOldest t s l else (s, l)

/-- `capn_rpc_stream_send`. -/
def capnRpcStreamSend (s : Stream) (l : Outbox) (importedCap interfaceId methodId : Nat) (params : Content) :
    Stream × Outbox :=
  if s.failed then (s, { l with rc := -1 })
  else
    let (s, l) := streamRoom t s l
    if s.failed then (s, { l with rc := -1 })
    else
      let (qid, l) := capnRpcSendCall t l importedCap interfaceId methodId params
      if qid = NO_QUESTION then (s, { l with rc := -1 })
      else ({ s with qids := s.qids ++ [qid] }, { l with rc := 0 })

/-- The loop of `capn_rpc_stream_finish`, `n` times. -/
def retireAll : Nat → Stream × Outbox → Stream × Outbox
  | 0, x => x
  | n + 1, x => retireAll n (streamRetireOldest t x.1 x.2)

/-- `capn_rpc_stream_finish`. -/
def capnRpcStreamFinish (s : Stream) (l : Outbox) : Stream × Outbox :=
  let (s, l) := retireAll t s.qids.length (s, l)
  (s, { l with rc := if s.haveFailure then -1 else 0 })

end

end Capnproto.Rpc

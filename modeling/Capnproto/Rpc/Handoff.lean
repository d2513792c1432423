import Capnproto.Rpc.Answers
import Capnproto.Rpc.Received

/-!
# Handing a capability over

A vat answers a Bootstrap or an Accept with a capability, and another instance
takes the Return and reads the capability back with `capn_rpc_answer_cap_id`.
The id that it gets names the export, but the descriptor beside it says that the
first file descriptor of the message is attached: the sender leaves the
`attachedFd` of its struct at zero, and the default on the wire is `255`.
-/

namespace Capnproto.Rpc.Wire

/-! ## The receiver -/

/-- The descriptor that `capn_rpc_answer_cap_id` reads in a session, if there is one. -/
def answerDescriptor (c : Capn) : Option CapDescriptor :=
  let (c, m) := frameMessage c
  if m.which ≠ Message_return then none
  else
    let (c, r) := readReturn c m.body
    if r.which ≠ Return_results then none
    else
      let (c, pl) := readPayload c r.results
      let content := capnResolve c pl.content
      let capTable := capnResolve content.capn pl.capTable
      if content.ptr.type ≠ .INTERFACE then none
      else if capTable.ptr.type = .NULL then none
      else if content.ptr.len < 0 ∨ capTable.ptr.len ≤ content.ptr.len then none
      else some (getCapDescriptor capTable.capn capTable.ptr content.ptr.len).2

/-- What `capn_rpc_answer_cap_id` reads of the reply to a question. -/
def replyDescriptor (fuel : Nat) (calloc : Nat → Option Nat) (c : ClientConn) (qid : Nat) : Option (Option CapDescriptor) :=
  match (questionFind c qid).bind fun i => c.questions i with
  | none => some none
  | some q =>
    if q.answered = false ∨ q.failed = true then some none
    else (capnInitMem fuel calloc q.reply false).map fun i => if i.ret ≠ 0 then none else answerDescriptor i.capn

/-- `capn_rpc_answer_cap_id`. -/
def capnRpcAnswerCapId (fuel : Nat) (calloc : Nat → Option Nat) (c : ClientConn) (qid : Nat) : Option Int :=
  (replyDescriptor fuel calloc c qid).map fun d =>
    match d with
    | some d => if d.which = CapDescriptor_senderHosted then toInt32 d.senderHosted else -1
    | none => -1

/-- `capn_rpc_handle`, of a frame that is a Return; `none` if it is not. -/
def receiveReturn (fuel : Nat) (calloc : Nat → Option Nat) (c : ClientConn) (frame : List UInt8) : Option ClientConn :=
  (capnInitMem fuel calloc frame false).bind fun i =>
    if i.ret ≠ 0 then none
    else
      let (s, m) := frameMessage i.capn
      if m.which = Message_return then some (handleReturn c (decodeReturn s m.body frame)) else none

/-! ## The message that arrives -/

/-- The session that the frame is read into, with `n` bytes of it charged for. -/
def arrived (qid eid n : Nat) : Capn :=
  { capnInitMalloc with segs := [⟨Mem.ofList (capReturnSegment qid eid), 88, 88⟩], traversalUsed := n }

section

variable {qid eid n : Nat}

/-- A word of the message. -/
theorem arrived_word {o v : Nat} (h : o + 8 ≤ 88) (hw : ((capReturnSegment qid eid).drop o).take 8 = toLe 8 v)
    (hv : v < 2 ^ 64) : (arrived qid eid n).load64 ⟨0, o⟩ = v := received_word h hw hv

/-- An object of the message, where its sender put it. -/
theorem arrived_stands {p : Ptr} {o : Nat} (hs : p.Shape) (hobj : p.IsObject) (hseg : p.seg = some 0)
    (hd : p.data = some ⟨0, o⟩) (hlead : p.lead ≤ o) (hin : o + p.extent ≤ 88) (h8 : 8 ∣ o)
    (htag : p.isCompositeList = true → (arrived qid eid n).load64 ⟨0, (o : Int) - 8⟩ = compositeTag p)
    (hpad : p.hasPtrTag = false) : Stands (arrived qid eid n) p 0 o :=
  received_stands hs hobj hseg hd hlead hin h8 htag hpad

/-! ### The pointers of the message -/

theorem root_pointee : pointee (arrived qid eid n) ⟨0, (0 : Nat)⟩ = some (builtMessage, 16) ∧
    landingPads (arrived qid eid n) ⟨0, (0 : Nat)⟩ = [] :=
  @received_struct _ _ 72 8 1 0 (32 + 2 ^ 32 + 2 ^ 48) (8) (by decide) (show 72 + 16 ≤ 88 by decide) (by decide)
    (by decide) (show 0 + 8 ≤ 88 by decide) rfl (by decide) (by decide) (by decide)

theorem body_pointee : pointee (arrived qid eid n) ⟨0, (80 : Nat)⟩ = some (builtReturn, 24) ∧
    landingPads (arrived qid eid n) ⟨0, (80 : Nat)⟩ = [] :=
  @received_struct _ _ 48 16 1 80 (2 ^ 32 - 20 + 2 * 2 ^ 32 + 2 ^ 48) (-5) (by decide) (show 48 + 24 ≤ 88 by decide) (by decide)
    (by decide) (show 80 + 8 ≤ 88 by decide) rfl (by decide) (by decide) (by decide)

theorem results_pointee : pointee (arrived qid eid n) ⟨0, (64 : Nat)⟩ = some (builtPayload, 16) ∧
    landingPads (arrived qid eid n) ⟨0, (64 : Nat)⟩ = [] :=
  @received_struct _ _ 8 0 2 64 (2 ^ 32 - 32 + 2 * 2 ^ 48) (-8) (by decide) (show 8 + 16 ≤ 88 by decide) (by decide)
    (by decide) (show 64 + 8 ≤ 88 by decide) rfl (by decide) (by decide) (by decide)

theorem capTable_pointee : pointee (arrived qid eid n) ⟨0, (16 : Nat)⟩ = some (builtTable, 16) ∧
    landingPads (arrived qid eid n) ⟨0, (16 : Nat)⟩ = [] :=
  received_pointee (p := builtTable) (o := 32) (w := 0) (v := 1 + 23 * 2 ^ 32)
    (arrived_stands ⟨rfl, by decide, by decide, by decide, by decide, by decide, by decide⟩
      ⟨by decide, by decide, by decide⟩ rfl rfl (by decide) (by decide) (by decide)
      (fun _ => arrived_word (o := 24) (by decide) rfl (by decide)) rfl) (.inl (by decide))
    (arrived_word (by decide) rfl (by decide)) (by decide) (by decide)

/-- The capability in the content. -/
def arrivedContent : Ptr := { type := .INTERFACE, seg := some 0, data := some ⟨0, 8⟩ }

theorem content_pointee : pointee (arrived qid eid n) ⟨0, (8 : Nat)⟩ = some (arrivedContent, 0) ∧
    landingPads (arrived qid eid n) ⟨0, (8 : Nat)⟩ = [] := by
  have hword : (arrived qid eid n).load64 ⟨0, (8 : Nat)⟩ = 3 := arrived_word (by decide) rfl (by decide)
  rw [pointee, landingPads, hword]
  exact ⟨rfl, rfl⟩

/-! ### What is read of it -/

/-- A field of the data of a struct of the message. -/
theorem arrived_field {p : Ptr} {o off k : Nat} (hp : p.data = some ⟨0, o⟩) (hfit : off + k ≤ p.datasz)
    (hin : o + off + k ≤ 88) : capnRead k (arrived qid eid n) p off = le (((capReturnSegment qid eid).drop (o + off)).take k) :=
  received_field hp hfit hin

theorem slotAt_resolve {p : Ptr} {d cost : Nat} {rem : Int} (hrem : rem ≠ 0) (hd : d + 8 ≤ 88)
    (hp : pointee (arrived qid eid n) ⟨0, d⟩ = some (p, cost) ∧ landingPads (arrived qid eid n) ⟨0, d⟩ = [])
    (hn : n + cost ≤ CAPN_TRAVERSAL_DEFAULT) :
    capnResolve (arrived qid eid n) (slotAt d rem) = ⟨arrived qid eid (n + cost), p.withNesting rem, []⟩ :=
  received_resolve hrem hd hp hn

/-- The Message. -/
theorem arrived_message : frameMessage (arrived qid eid 0) =
    (arrived qid eid 16, { which := Message_return, body := slotAt 80 63 }) :=
  received_message (o := 72) (show 8 ≤ 88 by decide) (show 72 + 16 ≤ 88 by decide) root_pointee

/-- The Return. -/
theorem arrived_return : readReturn (arrived qid eid 16) (slotAt 80 63) = (arrived qid eid 40,
    { answerId := qid % 2 ^ 32, releaseParamCaps := false, noFinishNeeded := false, which := Return_results,
      takeFromOtherQuestion := 0, results := slotAt 64 62 }) := by
  have hread := @received_return (capReturnSegment qid eid) 16 80 48 63 (by decide) (show 80 + 8 ≤ 88 by decide)
    (show 48 + 24 ≤ 88 by decide) body_pointee (by decide)
  have hid : le (((capReturnSegment qid eid).drop 48).take 4) = qid % 2 ^ 32 := le_toLe 4 qid
  have hflags : le (((capReturnSegment qid eid).drop (48 + 4)).take 1) = 1 := rfl
  have hwhich : le (((capReturnSegment qid eid).drop (48 + 6)).take 2) = 0 := rfl
  have hother : le (((capReturnSegment qid eid).drop (48 + 8)).take 4) = 0 := rfl
  rw [hid, hflags, hwhich, hother] at hread
  exact hread

/-- The payload. -/
theorem arrived_payload : readPayload (arrived qid eid 40) (slotAt 64 62) =
    (arrived qid eid 56, { content := slotAt 8 61, capTable := slotAt 16 61 }) := by
  have hres : capnResolve (arrived qid eid 40) (slotAt 64 62) = ⟨arrived qid eid 56, builtPayload.withNesting 62, []⟩ :=
    slotAt_resolve (by decide) (by decide) results_pointee (by decide)
  have hcontent : pointerField (arrived qid eid 56) (builtPayload.withNesting 62) 0 = slotAt 8 61 :=
    received_slot (o := 8) rfl rfl rfl rfl rfl (by decide) rfl
  have htable : pointerField (arrived qid eid 56) (builtPayload.withNesting 62) 1 = slotAt 16 61 :=
    received_slot (o := 8) rfl rfl rfl rfl rfl (by decide) rfl
  simp only [readPayload, reader, hres, hcontent, htable]

/-- The descriptor as it is read. -/
def sentDescriptor (eid : Nat) : CapDescriptor :=
  { which := CapDescriptor_senderHosted, senderHosted := eid % 2 ^ 32, thirdPartyHosted := slotAt 40 60, attachedFd := 0 }

/-- **The descriptor that is sent** says that the first file descriptor is attached. -/
theorem arrived_descriptor : answerDescriptor (arrived qid eid 0) = some (sentDescriptor eid) := by
  have hcontent : capnResolve (arrived qid eid 56) (slotAt 8 61) =
      ⟨arrived qid eid 56, arrivedContent.withNesting 61, []⟩ :=
    slotAt_resolve (by decide) (by decide) content_pointee (by decide)
  have htable : capnResolve (arrived qid eid 56) (slotAt 16 61) =
      ⟨arrived qid eid 72, builtTable.withNesting 61, []⟩ :=
    slotAt_resolve (by decide) (by decide) capTable_pointee (by decide)
  let r : Ptr := { builtDescriptor with nesting := 60 }
  have hmember : capnGetp (arrived qid eid 72) (builtTable.withNesting 61) 0 false = ⟨arrived qid eid 72, r, []⟩ := rfl
  have hres : capnResolve (arrived qid eid 72) r = ⟨arrived qid eid 72, r, []⟩ := by
    rw [capnResolve, if_neg (by decide)]
  have hwhich : capnRead16 (arrived qid eid 72) r 0 = 1 := arrived_field (o := 32) rfl (by decide) (by decide)
  have hid : capnRead32 (arrived qid eid 72) r 4 = eid % 2 ^ 32 := by
    rw [capnRead32, arrived_field (o := 32) rfl (by decide) (by decide)]
    exact le_toLe 4 eid
  have hfd : capnRead8 (arrived qid eid 72) r 2 = 255 := arrived_field (o := 32) rfl (by decide) (by decide)
  have hslot : pointerField (arrived qid eid 72) r 0 = slotAt 40 60 :=
    received_slot (o := 32) rfl rfl rfl rfl rfl (by decide) rfl
  have htype : (arrivedContent.withNesting 61).type = .INTERFACE := rfl
  have hlen : (arrivedContent.withNesting 61).len = 0 := rfl
  simp only [answerDescriptor, arrived_message, arrived_return, arrived_payload, hcontent, htable, htype, hlen]
  rw [if_neg (by decide), if_neg (by decide), if_neg (by decide), if_neg (by decide), if_neg (by decide)]
  simp only [getCapDescriptor, hmember, readCapDescriptor, reader, hres, hwhich, hid, hfd, hslot]
  rfl

end

end Capnproto.Rpc.Wire

namespace Capnproto.Rpc

open Wire

/-! ## The trip -/

/-- The default of `attachedFd` in `rpc.capnp`: no file descriptor is attached. -/
def attachedFdDefault : Nat := 0xff

/-- The Return in `frame` is handled, and the client side is `r'` then. -/
def Takes (calloc : Nat → Option Nat) (r : ClientConn) (frame : List UInt8) (r' : ClientConn) : Prop :=
  ∃ fuel, receiveReturn fuel calloc r frame = some r'

/-- `capn_rpc_answer_cap_id` returns `id`. -/
def GivesCapId (calloc : Nat → Option Nat) (r : ClientConn) (qid : Nat) (id : Int) : Prop :=
  ∃ fuel, capnRpcAnswerCapId fuel calloc r qid = some id

/-- It reads the descriptor `d` on the way. -/
def GivesDescriptor (calloc : Nat → Option Nat) (r : ClientConn) (qid : Nat) (d : Wire.CapDescriptor) : Prop :=
  ∃ fuel, replyDescriptor fuel calloc r qid = some (some d)

/-- The server of the capability that a message is answered with: that of the bootstrap, of
the provision that an Accept claims, or of the one whose Accept a Disembargo frees. -/
def wanted (c : Conn) (vat : Vat) : Message → Option Nat
  | .bootstrap _ => c.bootstrap.map Prod.fst
  | .accept _ (some nonce) _ => ((claimable vat nonce).bind fun i => vat i).map Provision.server
  | .disembargo _ (.provide qid) => ((liftable vat qid).bind fun i => vat i).map Provision.server
  | _ => none

/-- The id that the receiver gets is a live export of the server, and a Call on it is
dispatched to that server. -/
def Reaches (calloc : Nat → Option Nat) (conn : Conn) (server : Nat) (r : ClientConn) (qid : Nat) : Prop :=
  ∃ (eid : ExportId) (x : Export), GivesCapId calloc r qid (eid : Nat) ∧ conn.exports eid = some x ∧ x.server = server ∧
    callee conn (some (.importedCap eid)) = some x

/-- The capability survives the trip: it reaches its server, and the rest of its descriptor
has the defaults of the schema. -/
structure Survives (calloc : Nat → Option Nat) (conn : Conn) (server : Nat) (r : ClientConn) (qid : Nat) : Prop where
  reaches : Reaches calloc conn server r qid
  defaults : ∀ d, GivesDescriptor calloc r qid d → d.attachedFd = attachedFdDefault

/-! ### Receiving -/

theorem arrived_inits {calloc : Nat → Option Nat} (hcalloc : CallocOk calloc) (qid eid : Nat) :
    ∃ stores, InitsMem calloc (capReturnBytes qid eid) false ⟨0, arrived qid eid 0, stores⟩ :=
  received_inits hcalloc (length_capReturnSegment qid eid) (by decide)

/-- A Return with results that answers an open question is kept with it. -/
theorem handleReturn_kept {r : ClientConn} {reply : Reply} (hopen : questionFind r reply.answerId ≠ none)
    (hlen : reply.frame.length ≤ CAPN_RPC_MAX_ANSWER_BYTES) (hres : reply.results = true) :
    ∃ q, ((questionFind (handleReturn r reply) reply.answerId).bind fun i => (handleReturn r reply).questions i) = some q ∧
      q.answered = true ∧ q.failed = false ∧ q.reply = reply.frame := by
  obtain ⟨i, hi⟩ := Option.ne_none_iff_exists'.mp hopen
  obtain ⟨q, hq, hid⟩ := Table.find_some hi
  have hquestions : (handleReturn r reply).questions =
      r.questions.set i (some { q with answered := true, failed := false, reply := reply.frame }) := by
    rw [handleReturn, hi]
    simp only
    rw [if_neg (by omega), if_pos hres, hq]
    simp only [hres, Option.map_some, Bool.not_true]
    rfl
  have hfind : questionFind (handleReturn r reply) reply.answerId = some i := by
    rw [← hi, questionFind, questionFind, hquestions]
    refine congrArg (fun f => List.find? f _) (funext fun j => ?_)
    by_cases hj : j = i
    · rw [hj, Table.set_same, hq]
      rfl
    · rw [Table.set_ne _ _ hj]
  refine ⟨{ q with answered := true, failed := false, reply := reply.frame }, ?_, rfl, rfl, rfl⟩
  rw [hfind, Option.bind_some, hquestions, Table.set_same]

section

variable {calloc : Nat → Option Nat} {r r' : ClientConn} {qid eid : Nat}

/-- The Return is handled. -/
theorem takes_iff (hcalloc : CallocOk calloc) : Takes calloc r (capReturnBytes qid eid) r' ↔
    r' = handleReturn r (decodeReturn (arrived qid eid 16) (slotAt 80 63) (capReturnBytes qid eid)) := by
  obtain ⟨stores, fuel, hinit⟩ := arrived_inits hcalloc qid eid
  have htake (f : Nat) (hf : capnInitMem f calloc (capReturnBytes qid eid) false = some ⟨0, arrived qid eid 0, stores⟩) :
      receiveReturn f calloc r (capReturnBytes qid eid) =
        some (handleReturn r (decodeReturn (arrived qid eid 16) (slotAt 80 63) (capReturnBytes qid eid))) := by
    simp only [receiveReturn, hf, Option.bind_some, arrived_message]
    rfl
  constructor
  · rintro ⟨f, h⟩
    cases hf : capnInitMem f calloc (capReturnBytes qid eid) false with
    | none =>
      rw [receiveReturn, hf] at h
      cases h
    | some i =>
      have hi : i = ⟨0, arrived qid eid 0, stores⟩ := InitsMem.unique ⟨f, hf⟩ ⟨fuel, hinit⟩
      rw [htake f (by rw [hf, hi])] at h
      exact (Option.some.inj h).symm
  · rintro rfl
    exact ⟨fuel, htake fuel hinit⟩

/-- What the receiver reads of the reply. -/
theorem taken_descriptor (hcalloc : CallocOk calloc) (hq : qid < 2 ^ 32) (hopen : questionFind r qid ≠ none)
    (ht : Takes calloc r (capReturnBytes qid eid) r') :
    (∃ fuel, replyDescriptor fuel calloc r' qid = some (some (sentDescriptor eid))) ∧
      ∀ fuel o, replyDescriptor fuel calloc r' qid = some o → o = some (sentDescriptor eid) := by
  obtain ⟨stores, fuel, hinit⟩ := arrived_inits hcalloc qid eid
  rw [takes_iff hcalloc] at ht
  have hid : (decodeReturn (arrived qid eid 16) (slotAt 80 63) (capReturnBytes qid eid)).answerId = qid := by
    simp only [decodeReturn, arrived_return, Nat.mod_eq_of_lt hq]
  have hresults : (decodeReturn (arrived qid eid 16) (slotAt 80 63) (capReturnBytes qid eid)).results = true := by
    simp only [decodeReturn, arrived_return]
    rfl
  have hlen : (capReturnBytes qid eid).length ≤ CAPN_RPC_MAX_ANSWER_BYTES := show 96 ≤ 8192 by decide
  obtain ⟨q, hfind, hans, hfail, hreply⟩ :=
    @handleReturn_kept r (decodeReturn (arrived qid eid 16) (slotAt 80 63) (capReturnBytes qid eid))
      (by rw [hid]; exact hopen) hlen hresults
  rw [← ht, hid] at hfind
  have hread (f : Nat) : replyDescriptor f calloc r' qid = (capnInitMem f calloc (capReturnBytes qid eid) false).map
      fun i => if i.ret ≠ 0 then none else answerDescriptor i.capn := by
    simp only [replyDescriptor, hfind]
    rw [if_neg (by rw [hans, hfail]; decide), hreply]
    rfl
  refine ⟨⟨fuel, ?_⟩, fun f o ho => ?_⟩
  · rw [hread, hinit, Option.map_some, if_neg (not_not.mpr rfl), arrived_descriptor]
  · rw [hread] at ho
    obtain ⟨i, hi, rfl⟩ := Option.map_eq_some_iff.mp ho
    have hi : i = ⟨0, arrived qid eid 0, stores⟩ := InitsMem.unique ⟨f, hi⟩ ⟨fuel, hinit⟩
    rw [hi, if_neg (not_not.mpr rfl), arrived_descriptor]

theorem taken_capId (hcalloc : CallocOk calloc) (hq : qid < 2 ^ 32) (hopen : questionFind r qid ≠ none)
    (ht : Takes calloc r (capReturnBytes qid eid) r') : GivesCapId calloc r' qid (toInt32 eid) := by
  obtain ⟨⟨fuel, hd⟩, -⟩ := taken_descriptor hcalloc hq hopen ht
  refine ⟨fuel, ?_⟩
  rw [capnRpcAnswerCapId, hd]
  simp only [Option.map_some, sentDescriptor, if_true, toInt32, Nat.mod_mod]
  push_cast
  rw [Int.emod_emod]

end

/-! ### Answering -/

section

variable {env : Env} {c : Conn} {vat : Vat} {m : Message} {qid : Nat} {eid : ExportId}

/-- The results that are sent are those that the message gets. -/
theorem answered_results {server : Nat} (hw : wanted c vat m = some server)
    (hans : Outgoing.ret qid (.results (capPayload eid)) ∈ (capnRpcHandle env c vat m).sent) :
    ∃ pl, resultsFor env c vat m = some (qid, pl) ∧ pl.capTable = [.senderHosted eid] := by
  have hsame : completesSame c m = false := by
    cases m with
    | join => cases hw
    | _ => rfl
  have hfin : ∀ q, m ≠ .finish q := by
    rintro q rfl
    cases hw
  obtain ⟨q, pl, hr, -, hsent, -⟩ | ⟨hbare, -⟩ := answers_cases hsame hfin
  · rw [hsent, List.mem_singleton] at hans
    cases hans
    exact ⟨_, hr, rfl⟩
  · exact absurd (.inl nofun) (hbare _ _ hans)

theorem export_server {conn : Conn} {server dispatch : Nat} (h : capnRpcExport c server dispatch = some (eid, conn)) :
    ∃ x, conn.exports eid = some x ∧ x.server = server := by
  obtain ⟨x, rfl, hx, -⟩ := capnRpcExport_spec h
  exact ⟨x, Table.set_same _ _ _, hx⟩

theorem capPayload_hosted {i j : ExportId} (h : (capPayload i).capTable = [.senderHosted j]) : i = j := by
  apply Fin.ext
  simpa [capPayload] using h

/-- A Bootstrap or an Accept that is answered at once has its server exported. -/
theorem answered_exports {server : Nat} (hw : wanted c vat m = some server)
    (hnow : ∀ target context, m ≠ .disembargo target context)
    (hans : Outgoing.ret qid (.results (capPayload eid)) ∈ (capnRpcHandle env c vat m).sent) :
    ∃ x, (capnRpcHandle env c vat m).conn.exports eid = some x ∧ x.server = server := by
  obtain ⟨pl, hr, htable⟩ := answered_results hw hans
  cases m with
  | bootstrap q =>
    simp only [resultsFor, Option.map_eq_some_iff, Option.bind_eq_some_iff] at hr
    obtain ⟨⟨i, conn⟩, ⟨b, hb, he⟩, e⟩ := hr
    cases e
    obtain rfl := capPayload_hosted htable
    have hserver : b.1 = server := by simpa [wanted, hb] using hw
    have hconn : (capnRpcHandle env c vat (.bootstrap qid)).conn.exports = conn.exports := by
      simp only [capnRpcHandle, handleBootstrap, hb, he, sendAnswer_exports]
    rw [hconn, ← hserver]
    exact export_server he
  | accept q provision embargo =>
    cases provision with
    | none => cases hw
    | some nonce =>
      cases embargo with
      | true => cases hr
      | false =>
        simp only [resultsFor, Option.map_eq_some_iff, Option.bind_eq_some_iff] at hr
        obtain ⟨⟨i, conn⟩, ⟨p, ⟨k, hk, hp⟩, he⟩, e⟩ := hr
        cases e
        obtain rfl := capPayload_hosted htable
        have hserver : p.server = server := by simpa [wanted, hk, hp] using hw
        have hconn : (capnRpcHandle env c vat (.accept qid (some nonce) false)).conn.exports = conn.exports := by
          obtain ⟨reason, -, -, hnone⟩ | ⟨nonce', i', p', eid', conn', hn, hk', hp', he', e⟩ :=
            handleAccept_cases env { conn := c, vat := vat } qid (some nonce) false
          · have := hnone nonce rfl k p hk hp
            rw [he] at this
            cases this
          · cases hn
            cases hk.symm.trans hk'
            cases hp.symm.trans hp'
            cases he.symm.trans he'
            rw [capnRpcHandle, e, if_neg (by decide), sendAcceptedCap, sendAnswer_exports]
        rw [hconn, ← hserver]
        exact export_server he
  | disembargo target context => exact absurd rfl (hnow target context)
  | _ => cases hw

theorem callee_imported {conn : Conn} {x : Export} (h : conn.exports eid = some x) :
    callee conn (some (.importedCap eid)) = some x := by
  rw [callee, resolveTarget, usedExport, dif_pos eid.isLt, if_pos (by rw [h]; rfl), Option.bind_some, h]

/-- **A capability never survives the trip.** Whatever the state of the vat, the message that
asks for a capability and the state of the receiver: the id that the receiver gets reaches
the server if the answer was sent at once, but the descriptor beside it never has its
defaults. -/
theorem capability_never_survives {calloc : Nat → Option Nat} {r r' : ClientConn} {server : Nat} {frame : List UInt8}
    (hcalloc : CallocOk calloc) (hq : qid < 2 ^ 32) (hw : wanted c vat m = some server)
    (hans : Outgoing.ret qid (.results (capPayload eid)) ∈ (capnRpcHandle env c vat m).sent)
    (hframe : ∃ fuel, capReturnFrame fuel qid eid = some frame) (hopen : questionFind r qid ≠ none)
    (ht : Takes calloc r frame r') :
    ((∀ target context, m ≠ .disembargo target context) →
      Reaches calloc (capnRpcHandle env c vat m).conn server r' qid) ∧
      ¬ Survives calloc (capnRpcHandle env c vat m).conn server r' qid := by
  obtain ⟨fuel, hframe⟩ := hframe
  rw [capReturnFrame_eq] at hframe
  cases hframe
  obtain ⟨⟨fuel, hd⟩, -⟩ := taken_descriptor hcalloc hq hopen ht
  refine ⟨fun hnow => ?_, fun h => absurd (h.defaults _ ⟨fuel, hd⟩) (show 0 ≠ 0xff by decide)⟩
  obtain ⟨x, hx, hserver⟩ := answered_exports hw hnow hans
  have hid := taken_capId hcalloc hq hopen ht
  have heid : toInt32 eid = (eid : Nat) := by
    have hlt : (eid : Nat) < 64 := eid.isLt
    rw [toInt32, if_pos (by omega)]
    omega
  rw [heid] at hid
  exact ⟨eid, x, hid, hx, hserver, callee_imported hx⟩

end

/-! ### A Bootstrap -/

/-- A vat with server 7 as its bootstrap capability, and a client that asked for it. -/
def serving : Conn := { bootstrap := some (7, 9) }
def asking : ClientConn := { questions := Table.empty.set 0 (some { questionId := 0 }), nextQuestionId := 1 }

theorem serving_answers : Outgoing.ret 0 (.results (capPayload 0)) ∈
    (capnRpcHandle quietEnv serving .empty (.bootstrap 0)).sent := by
  have hexport : capnRpcExport serving 7 9 =
      some (0, { serving with exports := serving.exports.set 0 (some ⟨1, 7, 9⟩) }) := by
    have hfind : serving.exports.find (·.server = 7) = none := by decide
    have hfree : serving.exports.free = some 0 := by decide
    rw [capnRpcExport, hfind]
    simp only [hfree]
  have hboot : serving.bootstrap = some (7, 9) := rfl
  simp only [capnRpcHandle, handleBootstrap, hboot, hexport, sendAnswer_sent]
  rw [if_neg (by decide)]
  exact List.mem_cons_self ..

theorem asking_open : questionFind asking 0 ≠ none := by decide

theorem asking_takes : ∃ r', Takes some asking (capReturnBytes 0 0) r' :=
  ⟨_, (takes_iff callocOk_some).mpr rfl⟩

/-- The capability of server 7 is asked for and answered. -/
theorem capability_never_survives_bootstrap : ∃ r', Takes some asking (capReturnBytes 0 0) r' ∧
    ¬ Survives some (capnRpcHandle quietEnv serving .empty (.bootstrap 0)).conn 7 r' 0 := by
  obtain ⟨r', ht⟩ := asking_takes
  exact ⟨r', ht, (capability_never_survives callocOk_some (by decide) rfl serving_answers ⟨0, capReturnFrame_eq 0 0 0⟩
    asking_open ht).2⟩

/-- **The descriptor of a Bootstrap's answer attaches the first file descriptor.** -/
theorem capability_survives_fails : ∃ r' d, Takes some asking (capReturnBytes 0 0) r' ∧ GivesDescriptor some r' 0 d ∧
    d.attachedFd = 0 ∧ ¬ Survives some (capnRpcHandle quietEnv serving .empty (.bootstrap 0)).conn 7 r' 0 := by
  obtain ⟨r', ht⟩ := asking_takes
  obtain ⟨hd, -⟩ := taken_descriptor callocOk_some (by decide) asking_open ht
  exact ⟨r', _, ht, hd, rfl, fun h => absurd (h.defaults _ hd) (show 0 ≠ 0xff by decide)⟩

end Capnproto.Rpc

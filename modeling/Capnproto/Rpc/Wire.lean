import Capnproto.Object.Access
import Capnproto.Rpc.Client

/-!
# Messages that name a third party

The `read_` functions of `rpc.capnp.c` and `rpc-threeparty.capnp.c` that the
handlers of such messages call, in the order they call them, on a session that
holds the message in any segments. A reader resolves the pointer it is given
and looks into what it resolves to; the pointer fields it gives are not
resolved. So a field is `CAPN_NULL` if the struct has no slot for it, and
otherwise a far pointer, whatever is in the slot.
-/

namespace Capnproto

/-- What a `read_` function does: `f` reads the fields of what `p` resolves to. -/
def reader {α : Type} (f : Capn → Ptr → α) (c : Capn) (p : Ptr) : Capn × α :=
  ((capnResolve c p).capn, f (capnResolve c p).capn (capnResolve c p).ptr)

/-- A pointer field, which is not resolved. -/
def pointerField (c : Capn) (p : Ptr) (i : Nat) : Ptr := (capnGetp c p i false).ptr

/-- What leads to a struct is not `CAPN_NULL`. -/
theorem ne_null_of_struct {c : Capn} {p : Ptr} (h : (capnResolve c p).ptr.type = .STRUCT) : p.type ≠ .NULL := by
  intro hnull
  rw [capnResolve, if_neg (by rw [hnull]; decide), hnull] at h
  cases h

/-- A session of one segment. -/
def oneSegment (bytes : List UInt8) : Capn := { segs := [⟨Mem.ofList bytes, bytes.length, bytes.length⟩] }

end Capnproto

namespace Capnproto.Rpc.Wire

abbrev Message_provide : Nat := 10
abbrev Message_accept : Nat := 11
abbrev MessageTarget_importedCap : Nat := 0
abbrev MessageTarget_promisedAnswer : Nat := 1
abbrev PromisedAnswer_Op_getPointerField : Nat := 1
abbrev CapDescriptor_thirdPartyHosted : Nat := 5
abbrev Return_results : Nat := 0

/-- `struct Message`; `body` is its pointer field. -/
structure AnyMessage where
  which : Nat
  body : Ptr

def readMessage : Capn → Ptr → Capn × AnyMessage := reader fun c p =>
  { which := capnRead16 c p 0, body := pointerField c p 0 }

/-- What `capn_rpc_handle` reads of the frame in a session. -/
def frameMessage (c : Capn) : Capn × AnyMessage :=
  let (c, root) := capnRoot c
  let r := capnGetp c root 0 true
  readMessage r.capn r.ptr

/-! ## Targets -/

structure MessageTarget where
  which : Nat
  importedCap : Nat
  promisedAnswer : Ptr

def readMessageTarget : Capn → Ptr → Capn × MessageTarget := reader fun c p =>
  { which := capnRead16 c p 4, importedCap := capnRead32 c p 0, promisedAnswer := pointerField c p 0 }

structure PromisedAnswer where
  questionId : Nat
  transform : Ptr

def readPromisedAnswer : Capn → Ptr → Capn × PromisedAnswer := reader fun c p =>
  { questionId := capnRead32 c p 0, transform := pointerField c p 0 }

/-- `read_PromisedAnswer_Op`. -/
def readOp : Capn → Ptr → Capn × Op := reader fun c p =>
  if capnRead16 c p 0 = PromisedAnswer_Op_getPointerField then .getPointerField (capnRead16 c p 2) else .noop

/-- The ops of a transform, `n` of them from the one at `i` on. -/
def readOps (transform : Ptr) : Nat → Nat → Capn → Capn × List Op
  | 0, _, c => (c, [])
  | n + 1, i, c =>
    let g := capnGetp c transform i false
    let (c, op) := readOp g.capn g.ptr
    let (c, ops) := readOps transform n (i + 1) c
    (c, op :: ops)

/-- What `resolve_promised_answer` reads. It stops where the walk does; then the target
names nothing, and nothing is read after it. -/
def decodePromisedAnswer (c : Capn) (pap : Ptr) : Capn × Option Rpc.PromisedAnswer :=
  if pap.type = .NULL then (c, none)
  else
    let (c, pa) := readPromisedAnswer c pap
    let transform := capnResolve c pa.transform
    let (c, ops) := readOps transform.ptr transform.ptr.len.toNat 0 transform.capn
    (c, some ⟨pa.questionId, ops⟩)

/-- What `resolve_target` reads. -/
def decodeTarget (c : Capn) (tp : Ptr) : Capn × Option Rpc.MessageTarget :=
  if tp.type = .NULL then (c, none)
  else
    let (c, t) := readMessageTarget c tp
    if t.which = MessageTarget_promisedAnswer then
      let (c, pap) := decodePromisedAnswer c t.promisedAnswer
      (c, some (.promisedAnswer pap))
    else if t.which ≠ MessageTarget_importedCap then (c, some .other)
    else (c, some (.importedCap t.importedCap))

/-! ## Provide and Accept -/

structure Provide where
  questionId : Nat
  target : Ptr
  recipient : Ptr

def readProvide : Capn → Ptr → Capn × Provide := reader fun c p =>
  { questionId := capnRead32 c p 0, target := pointerField c p 0, recipient := pointerField c p 1 }

structure Accept where
  questionId : Nat
  provision : Ptr
  embargo : Bool

def readAccept : Capn → Ptr → Capn × Accept := reader fun c p =>
  { questionId := capnRead32 c p 0, provision := pointerField c p 0, embargo := (capnRead8 c p 4).testBit 0 }

/-- `read_RecipientId`: its nonce. -/
def readRecipientId : Capn → Ptr → Capn × Nat := reader fun c p => capnRead64 c p 0

/-- `read_ProvisionId`. -/
def readProvisionId : Capn → Ptr → Capn × Nat := reader fun c p => capnRead64 c p 0

/-- The session and the recipient when `handle_provide` looks at the recipient. -/
def provideRecipient (c : Capn) (pp : Ptr) : Capn × Ptr :=
  let (c, pv) := readProvide c pp
  ((decodeTarget c pv.target).1, pv.recipient)

/-- The target of a Provide. -/
def provideTarget (c : Capn) (pp : Ptr) : Option Rpc.MessageTarget :=
  let (c, pv) := readProvide c pp
  (decodeTarget c pv.target).2

/-- What `handle_provide` reads. -/
def decodeProvide (c : Capn) (pp : Ptr) : Message :=
  let (c', recipient) := provideRecipient c pp
  .provide (readProvide c pp).2.questionId (provideTarget c pp)
    (if recipient.type = .NULL then none else some (readRecipientId c' recipient).2)

/-- What `handle_accept` reads. -/
def decodeAccept (c : Capn) (ap : Ptr) : Message :=
  let (c, ac) := readAccept c ap
  .accept ac.questionId (if ac.provision.type = .NULL then none else some (readProvisionId c ac.provision).2) ac.embargo

/-! ## Introductions -/

/-- `struct CapDescriptor`: the ids of its union are at one place, and so are its pointers. -/
structure CapDescriptor where
  which : Nat
  senderHosted : Nat := 0
  thirdPartyHosted : Ptr := {}
  attachedFd : Nat := 0

/-- `read_CapDescriptor`; the default of `attachedFd` is `255`. -/
def readCapDescriptor : Capn → Ptr → Capn × CapDescriptor := reader fun c p =>
  { which := capnRead16 c p 0, senderHosted := capnRead32 c p 4, thirdPartyHosted := pointerField c p 0,
    attachedFd := capnRead8 c p 2 ^^^ 255 }

structure ThirdPartyCapDescriptor where
  id : Ptr
  vineId : Nat

def readThirdPartyCapDescriptor : Capn → Ptr → Capn × ThirdPartyCapDescriptor := reader fun c p =>
  { id := pointerField c p 0, vineId := capnRead32 c p 0 }

structure ThirdPartyCapId where
  vat : Ptr
  nonce : Nat

def readThirdPartyCapId : Capn → Ptr → Capn × ThirdPartyCapId := reader fun c p =>
  { vat := pointerField c p 0, nonce := capnRead64 c p 0 }

structure VatId where
  host : Text
  port : Nat

/-- `read_VatId`; the default of the host is an empty text. -/
def readVatId (c : Capn) (p : Ptr) : Capn × VatId :=
  let r := capnResolve c p
  let (c, host) := capnGetText r.capn r.ptr 0 {}
  (c, { host := host, port := capnRead16 c r.ptr 0 })

/-- The bytes of a text. -/
def textBytes (c : Capn) (t : Text) : List UInt8 :=
  match t.str with
  | some a => c.read a t.len.toNat
  | none => []

/-- What `note_introductions` makes of a descriptor. -/
def readIntroduction (c : Capn) (cdp : Ptr) : Capn × Option Introduction :=
  if cdp.type = .NULL then (c, none)
  else
    let (c, cd) := readCapDescriptor c cdp
    if cd.which ≠ CapDescriptor_thirdPartyHosted then (c, none)
    else if cd.thirdPartyHosted.type = .NULL then (c, none)
    else
      let (c, tp) := readThirdPartyCapDescriptor c cd.thirdPartyHosted
      if tp.id.type = .NULL then (c, none)
      else
        let (c, id) := readThirdPartyCapId c tp.id
        if id.vat.type = .NULL then (c, none)
        else
          let (c, vat) := readVatId c id.vat
          -- a host that will not fit is refused rather than truncated
          if CAPN_RPC_MAX_HOST ≤ vat.host.len then (c, none)
          else (c, some ⟨id.nonce, tp.vineId, vat.port, textBytes c vat.host⟩)

/-- The descriptors of a table from the one at `i` on, each with the session it is read
in. -/
def descriptorsFrom (capTable : Ptr) : Nat → Nat → Capn → List (Capn × Ptr)
  | 0, _, _ => []
  | n + 1, i, c =>
    let g := capnGetp c capTable i false
    (g.capn, g.ptr) :: descriptorsFrom capTable n (i + 1) (readIntroduction g.capn g.ptr).1

/-- The descriptors that `note_introductions` goes through. -/
def descriptors (c : Capn) (capTable : Ptr) : List (Capn × Ptr) :=
  if capTable.type = .NULL then []
  else
    let r := capnResolve c capTable
    descriptorsFrom r.ptr r.ptr.len.toNat 0 r.capn

/-- The introductions that `note_introductions` finds. -/
def introductions (ds : List (Capn × Ptr)) : List Introduction := ds.filterMap fun d => (readIntroduction d.1 d.2).2

structure Payload where
  content : Ptr := {}
  capTable : Ptr := {}

def readPayload : Capn → Ptr → Capn × Payload := reader fun c p =>
  { content := pointerField c p 0, capTable := pointerField c p 1 }

/-- The descriptors of a payload that is there. -/
def payloadDescriptors (c : Capn) (payload : Ptr) : List (Capn × Ptr) :=
  if payload.type = .NULL then []
  else
    let (c, pl) := readPayload c payload
    descriptors c pl.capTable

/-- `read_Call`: its `params`. -/
def readCall : Capn → Ptr → Capn × Ptr := reader fun c p => pointerField c p 1

/-- The descriptors that `handle_call` goes through. -/
def callDescriptors (c : Capn) (cp : Ptr) : List (Capn × Ptr) :=
  let (c, params) := readCall c cp
  payloadDescriptors c params

/-- `struct Return`; `results` is the pointer of its union. -/
structure Return where
  answerId : Nat
  releaseParamCaps : Bool := false
  noFinishNeeded : Bool := false
  which : Nat
  takeFromOtherQuestion : Nat := 0
  results : Ptr := {}

/-- `read_Return`; the default of `releaseParamCaps` is true. -/
def readReturn : Capn → Ptr → Capn × Return := reader fun c p =>
  { answerId := capnRead32 c p 0, releaseParamCaps := !(capnRead8 c p 4).testBit 0,
    noFinishNeeded := (capnRead8 c p 4).testBit 1, which := capnRead16 c p 6,
    takeFromOtherQuestion := capnRead32 c p 8, results := pointerField c p 0 }

/-- The descriptors of the results of a Return. -/
def returnDescriptors (c : Capn) (rp : Ptr) : List (Capn × Ptr) :=
  let (c, r) := readReturn c rp
  if r.which = Return_results then payloadDescriptors c r.results else []

/-- What `handle_return` reads of a Return that came in `frame`. -/
def decodeReturn (c : Capn) (rp : Ptr) (frame : List UInt8) : Reply where
  answerId := (readReturn c rp).2.answerId
  results := (readReturn c rp).2.which = Return_results
  introduced := introductions (returnDescriptors c rp)
  frame := frame

end Capnproto.Rpc.Wire

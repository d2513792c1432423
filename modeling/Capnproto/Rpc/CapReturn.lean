import Capnproto.Frame.Write
import Capnproto.Rpc.Wire

/-!
# The Return that carries a capability

The `write_` functions of `rpc.capnp.c` that `capn-rpc.c` answers with, and the
message in which `handle_bootstrap`, `handle_accept` and `send_accepted_cap`
send a capability. The message is built in one session from `capn_init_malloc`;
it fits into the first segment, so that each `capn_setp` writes a pointer and
copies nothing.
-/

namespace Capnproto

/-- `capn_setp` within a session, as a `write_` function calls it: a pointer that is not
there is `capn_null`, and the status is not looked at. -/
def setField (fuel : Nat) (c : Capn) (p : Ptr) (off : Nat) (tgt : Ptr) : Option Capn :=
  (capnSetp fuel (fun _ => c) 0 p off 0 (if tgt.type ≠ .NULL then tgt else {})).map fun r => r.2 0

end Capnproto

namespace Capnproto.Rpc.Wire

abbrev Message_return : Nat := 3
abbrev Message_disembargo : Nat := 13
abbrev Return_exception : Nat := 1
abbrev Return_takeFromOtherQuestion : Nat := 4
abbrev Return_acceptFromThirdParty : Nat := 5
abbrev CapDescriptor_senderHosted : Nat := 1
abbrev CapDescriptor_senderPromise : Nat := 2
abbrev CapDescriptor_receiverHosted : Nat := 3
abbrev CapDescriptor_receiverAnswer : Nat := 4

/-! ## Writers -/

/-- `write_CapDescriptor`. -/
def writeCapDescriptor (fuel : Nat) (c : Capn) (s : CapDescriptor) (p : Ptr) : Option Capn :=
  let r := capnResolve c p
  let c := capnWrite16 r.capn r.ptr 0 s.which
  let body : Option Capn :=
    if s.which ∈ [CapDescriptor_senderHosted, CapDescriptor_senderPromise, CapDescriptor_receiverHosted] then
      some (capnWrite32 c r.ptr 4 s.senderHosted)
    else if s.which ∈ [CapDescriptor_receiverAnswer, CapDescriptor_thirdPartyHosted] then
      setField fuel c r.ptr 0 s.thirdPartyHosted
    else some c
  body.map fun c => capnWrite8 c r.ptr 2 (s.attachedFd ^^^ 255)

/-- `set_CapDescriptor`. -/
def setCapDescriptor (fuel : Nat) (c : Capn) (s : CapDescriptor) (l : Ptr) (i : Int) : Option Capn :=
  let g := capnGetp c l i false
  writeCapDescriptor fuel g.capn s g.ptr

/-- `get_CapDescriptor`. -/
def getCapDescriptor (c : Capn) (l : Ptr) (i : Int) : Capn × CapDescriptor :=
  let g := capnGetp c l i false
  readCapDescriptor g.capn g.ptr

/-- `write_Payload`. -/
def writePayload (fuel : Nat) (c : Capn) (s : Payload) (p : Ptr) : Option Capn :=
  let r := capnResolve c p
  (setField fuel r.capn r.ptr 0 s.content).bind fun c => setField fuel c r.ptr 1 s.capTable

/-- `write_Return`. -/
def writeReturn (fuel : Nat) (c : Capn) (s : Return) (p : Ptr) : Option Capn :=
  let r := capnResolve c p
  let c := capnWrite32 r.capn r.ptr 0 s.answerId
  let c := capnWrite1 c r.ptr 32 !s.releaseParamCaps
  let c := capnWrite1 c r.ptr 33 s.noFinishNeeded
  let c := capnWrite16 c r.ptr 6 s.which
  if s.which = Return_takeFromOtherQuestion then some (capnWrite32 c r.ptr 8 s.takeFromOtherQuestion)
  else if s.which ∈ [Return_results, Return_exception, Return_acceptFromThirdParty] then
    setField fuel c r.ptr 0 s.results
  else some c

/-- `write_Message`. -/
def writeMessage (fuel : Nat) (c : Capn) (s : AnyMessage) (p : Ptr) : Option Capn :=
  let r := capnResolve c p
  let c := capnWrite16 r.capn r.ptr 0 s.which
  if s.which ≤ Message_disembargo then setField fuel c r.ptr 0 s.body else some c

/-! ## The message -/

/-- `write_cap_payload`, with its `slot` the content of the payload. -/
def writeCapPayload (fuel : Nat) (c : Capn) (cs : Option Nat) (eid : Nat) : Option (Capn × Payload) :=
  let (c, capTable) := capnNewStructList c cs 1 8 1
  -- the descriptor is zero but for its union
  (setCapDescriptor fuel c { which := CapDescriptor_senderHosted, senderHosted := eid } capTable 0).map fun c =>
    let (c, slot) := capnNewInterface c cs
    (c, { content := { slot with len := 0 }, capTable := capTable })

/-- The end of the message: the Return with the payload `plp`, and the root. -/
def finishReturn (fuel : Nat) (c : Capn) (cs : Option Nat) (qid : Nat) (plp : Ptr) : Option Capn :=
  let (c, rp) := capnNewStruct c cs 16 1
  (writeReturn fuel c { answerId := qid, which := Return_results, results := plp } rp).bind fun c =>
    let (c, mp) := capnNewStruct c cs 8 1
    (writeMessage fuel c { which := Message_return, body := rp } mp).bind fun c =>
      let (c, root) := capnRoot c
      setField fuel c root 0 mp

/-- The message that answers question `qid` with export `eid`. -/
def buildCapReturn (fuel qid eid : Nat) : Option Capn :=
  let (c, root) := capnRoot capnInitMalloc
  let cs := root.seg
  let (c, plp) := capnNewStruct c cs 0 2
  (writeCapPayload fuel c cs eid).bind fun (c, pl) =>
    (writePayload fuel c pl plp).bind fun c => finishReturn fuel c cs qid plp

/-- The frame that `send_answer` makes of it; `none` if it is refused. -/
def capReturnFrame (fuel qid eid : Nat) : Option (List UInt8) :=
  (buildCapReturn fuel qid eid).bind fun c =>
    (capnWriteMem fuel c CAPN_RPC_MAX_ANSWER_BYTES false).bind fun w => if w.ret < 0 then none else some w.bytes

end Capnproto.Rpc.Wire

namespace Capnproto

/-! ## One segment -/

/-- A session from `capn_init_malloc`, with `n` bytes of its first segment in use. -/
def firstSegment (m : Mem) (n : Nat) : Capn := { capnInitMalloc with segs := [⟨m, n, createCap 8⟩] }

/-- What `capn_root` gives there. -/
def firstRoot : Ptr :=
  { type := .PTR_LIST, seg := some 0, data := some ⟨0, 0⟩, len := 1, nestingValid := true,
    nesting := CAPN_NESTING_DEFAULT }

theorem createCap_root : createCap 8 = 4016 := by decide

theorem firstSegment_seg (m : Mem) (n : Nat) : (firstSegment m n).seg 0 = ⟨m, n, 4016⟩ := by
  rw [← createCap_root]
  rfl

theorem firstSegment_write (m : Mem) (n : Nat) (o : Int) (bs : List UInt8) :
    (firstSegment m n).write ⟨0, o⟩ bs = firstSegment (m.write o bs) n := rfl

theorem root_init : capnRoot capnInitMalloc = (firstSegment Mem.zero 8, firstRoot) := by
  have hnew : newData capnInitMalloc 8 = some (firstSegment Mem.zero 8, 0, ⟨0, 0⟩) := by
    have hcreate : create 0 8 = some ⟨Mem.zero, 0, createCap 8⟩ := by
      rw [create, if_neg (by decide)]
    simp only [newData, capnInitMalloc, Capn.zeroed, List.findIdx?_nil, Capn.segnum, List.length_nil, hcreate]
    rfl
  have hlook : lookupSegment capnInitMalloc 0 = none := by decide
  simp only [capnRoot, hlook, hnew, firstSegment_seg]
  rw [if_neg (by decide), if_neg (by decide)]
  rfl

theorem root_firstSegment (m : Mem) {n : Nat} (hn : 8 ≤ n) :
    capnRoot (firstSegment m n) = (firstSegment m n, firstRoot) := by
  have hlook : lookupSegment (firstSegment m n) 0 = some 0 := if_pos Nat.one_pos
  simp only [capnRoot, hlook, firstSegment_seg]
  rw [if_neg (by decide), if_neg (by omega)]
  rfl

/-- What fits into the segment is taken from it. -/
theorem newObject_firstSegment (m : Mem) {n bytes : Nat} {p : Ptr} (hseg : p.seg = some 0) (hb : bytes ≠ 0)
    (hroom : n + (bytes + 7) / 8 * 8 ≤ 4016) :
    newObject (firstSegment m n) p bytes = (firstSegment m (n + (bytes + 7) / 8 * 8), { p with data := some ⟨0, n⟩ }) := by
  simp only [newObject, hseg, firstSegment_seg]
  rw [if_neg hb, if_pos hroom]
  rfl

theorem World.set_same (w : World) (i : Nat) : w.set i (w i) = w := by
  funext k
  rw [World.set]
  split
  · rename_i hk
    rw [hk]
  · rfl

/-- Pointers that need no resolving start the copy as they are. -/
theorem setpStart_resolved {w : World} {i j : Nat} {p tgt : Ptr} {off : Int} (hp : p.type ≠ .FAR_POINTER)
    (ht : tgt.type ≠ .FAR_POINTER) : setpStart w i p off j tgt = setpResolved w i p off j tgt := by
  simp only [setpStart, capnResolve, if_neg hp, if_neg ht, World.set_same]
  cases h : tgt.type <;> first | rfl | exact absurd h ht

/-- Setting a pointer to an object of the same session writes the slot. -/
theorem setField_writes {c c' : Capn} {p tgt : Ptr} {off s : Nat} {d : Addr} {n : Int} (fuel : Nat)
    (hp : (p.type = .STRUCT ∧ off < p.ptrs ∧ n = p.datasz + 8 * off) ∨ (p.type = .PTR_LIST ∧ off < p.len ∧ n = 8 * off))
    (hs : p.seg = some s) (hd : p.data = some d) (hnull : tgt.type ≠ .NULL) (hfar : tgt.type ≠ .FAR_POINTER)
    (hw : writePtr c s (d.add n) tgt false = (0, c')) : setField fuel c p off tgt = some c' := by
  have hpfar : p.type ≠ .FAR_POINTER := by
    obtain ⟨ht, -, -⟩ | ⟨ht, -, -⟩ := hp <;> rw [ht] <;> decide
  have hslot : setpSlot (fun _ => c) 0 s (d.add n) 0 tgt = .done (0, World.set (fun _ => c) 0 c') := by
    simp only [setpSlot, ne_eq, not_true_eq_false, decide_false, hw]
    rfl
  have hresolved : setpResolved (fun _ => c) 0 p off 0 tgt = .done (0, World.set (fun _ => c) 0 c') := by
    obtain ⟨ht, hlt, rfl⟩ | ⟨ht, hlt, rfl⟩ := hp
    · simp only [setpResolved, ht, hs, hd]
      rw [if_neg (by omega), hslot]
    · simp only [setpResolved, ht, hs, hd]
      rw [if_neg (by omega), hslot]
  rw [setField, if_pos hnull, capnSetp, setpStart_resolved hpfar hfar, hresolved]
  rfl

/-- A pointer to an object of the segment of the slot. -/
theorem writePtr_near {c : Capn} {s : Nat} {d a : Addr} {p : Ptr} {v : Nat}
    (ht : p.type = .STRUCT ∨ p.type = .LIST) (ha : p.data = some a) (hs : p.seg = some s)
    (hm : p.isListMember = false) (hne : p.datasz ≠ 0 ∨ p.ptrs ≠ 0)
    (hv : ptrTag p ((a.off - if p.isCompositeList then 8 else 0) - d.off - 8) = some v) :
    writePtr c s d p false = (0, c.store64 d v) := by
  have hempty : ¬ (p.datasz = 0 ∧ p.ptrs = 0) := by
    intro ⟨h0, h1⟩
    exact hne.elim (absurd h0) (absurd h1)
  have hcap : p.type ≠ .INTERFACE := by
    obtain ht | ht := ht <;> rw [ht] <;> decide
  have htag : writePtrTag c d p ((a.off - if p.isCompositeList then 8 else 0) - d.off - 8) = some (c.store64 d v) := by
    rw [writePtrTag, hv]
    rfl
  rw [writePtr, if_neg hcap]
  obtain ht | ht := ht
  all_goals
    simp only [ht, ha, hs, hm, if_neg hempty, reduceCtorEq, true_and, false_and, Bool.false_eq_true, or_self, if_false,
      if_true, htag]
    rfl

/-- A capability. -/
theorem writePtr_capability {c : Capn} {s : Nat} {d : Addr} {p : Ptr} (ht : p.type = .INTERFACE) (hl : p.len = 0) :
    writePtr c s d p false = (0, c.store64 d 3) := by
  rw [writePtr, if_pos ht, writePtrTag, ptrTag, if_pos ht, hl]
  rfl

/-- A struct of the first segment. -/
def structAt (o datasz ptrs : Nat) : Ptr :=
  { type := .STRUCT, seg := some 0, datasz := datasz, ptrs := ptrs, data := some ⟨0, o⟩ }

theorem structAt_resolve (c : Capn) (o datasz ptrs : Nat) :
    capnResolve c (structAt o datasz ptrs) = ⟨c, structAt o datasz ptrs, []⟩ := by
  rw [capnResolve, if_neg (by rintro ⟨⟩)]

section

variable {o a i datasz ptrs datasz' ptrs' v : Nat}

theorem firstSegment_capnWrite (m : Mem) (n k off val : Nat) (h : off + k ≤ datasz) :
    capnWrite k (firstSegment m n) (structAt o datasz ptrs) off val = firstSegment (m.write (o + off : Nat) (toLe k val)) n := by
  rw [capnWrite, structAt, if_pos h]
  simp only [Addr.add, firstSegment_write, Nat.cast_add]

/-- A pointer field that is set to a struct of the segment. -/
theorem setField_struct (fuel : Nat) (m : Mem) (n : Nat) (hi : i < ptrs) (hne : datasz' ≠ 0 ∨ ptrs' ≠ 0)
    (hv : ptrTag (structAt a datasz' ptrs') (a - (o + datasz + 8 * i : Nat) - 8) = some v) :
    setField fuel (firstSegment m n) (structAt o datasz ptrs) i (structAt a datasz' ptrs') =
      some (firstSegment (m.write (o + datasz + 8 * i : Nat) (toLe 8 v)) n) := by
  refine setField_writes fuel (n := datasz + 8 * i) (.inl ⟨rfl, hi, rfl⟩) rfl rfl nofun nofun ?_
  have hadd : Addr.add ⟨0, o⟩ (datasz + 8 * i) = ⟨0, (o + datasz + 8 * i : Nat)⟩ := by
    rw [Addr.add]
    push_cast
    rw [Int.add_assoc]
  rw [hadd]
  exact writePtr_near (.inl rfl) rfl rfl rfl hne (by
    show ptrTag _ ((a : Int) - 0 - (o + datasz + 8 * i : Nat) - 8) = some v
    rw [Int.sub_zero]
    exact hv)

end

end Capnproto

namespace Capnproto.Rpc.Wire

/-- A Return with a struct in its union. -/
theorem writeReturn_struct {which : Nat} (fuel qid : Nat) (m : Mem) (n : Nat) {o a datasz ptrs v : Nat}
    (hwhich : which ∈ [Return_results, Return_exception, Return_acceptFromThirdParty]) (h0 : m (o + 4 : Nat) = 0)
    (hne : datasz ≠ 0 ∨ ptrs ≠ 0) (hv : ptrTag (structAt a datasz ptrs) (a - (o + 16 + 8 * 0 : Nat) - 8) = some v) :
    writeReturn fuel (firstSegment m n) { answerId := qid, which := which, results := structAt a datasz ptrs } (structAt o 16 1) =
      some (firstSegment (((((m.write o (toLe 4 qid)).write (o + 4 : Nat) [1]).write (o + 4 : Nat) [1]).write (o + 6 : Nat)
        (toLe 2 which)).write (o + 16 + 8 * 0 : Nat) (toLe 8 v)) n) := by
  have hbit (v : Bool) (m : Mem) (off : Nat) (ho : off / 8 = 4) (b : UInt8)
      (hb : (if v then m (o + 4 : Nat) ||| 1 <<< UInt8.ofNat (off % 8)
        else m (o + 4 : Nat) &&& ~~~(1 <<< UInt8.ofNat (off % 8))) = b) :
      capnWrite1 (firstSegment m n) (structAt o 16 1) off v = firstSegment (m.write (o + 4 : Nat) [b]) n := by
    have hlt : ¬ (structAt o 16 1).datasz * 8 ≤ off := by
      show ¬ 16 * 8 ≤ off
      omega
    rw [capnWrite1, if_neg hlt, ← hb]
    rw [structAt]
    simp only [Addr.add, ho, Nat.cast_add]
    rfl
  have hfirst : m.write o (toLe 4 qid) (o + 4 : Nat) = 0 := by
    rw [← h0]
    exact Mem.write_apply_of_ge (by rw [length_toLe]; push_cast; omega)
  have hsecond (m : Mem) : m.write (o + 4 : Nat) [1] (o + 4 : Nat) = 1 := by
    simp [Mem.write]
  have htake : which ≠ Return_takeFromOtherQuestion := by
    rintro rfl
    exact absurd hwhich (by decide)
  simp only [writeReturn, structAt_resolve]
  rw [capnWrite32, firstSegment_capnWrite _ _ _ _ _ (by decide), hbit _ _ 32 rfl 1, hbit _ _ 33 rfl 1, capnWrite16,
    firstSegment_capnWrite _ _ _ _ _ (by decide), if_neg htake, if_pos hwhich]
  · exact setField_struct fuel _ n Nat.one_pos hne hv
  · rw [hsecond]
    decide
  · rw [Nat.add_zero, hfirst]
    decide

/-- A Message with a struct in its union. -/
theorem writeMessage_struct {which : Nat} (fuel : Nat) (m : Mem) (n : Nat) {o a datasz ptrs v : Nat}
    (hwhich : which ≤ Message_disembargo) (hne : datasz ≠ 0 ∨ ptrs ≠ 0)
    (hv : ptrTag (structAt a datasz ptrs) (a - (o + 8 + 8 * 0 : Nat) - 8) = some v) :
    writeMessage fuel (firstSegment m n) { which := which, body := structAt a datasz ptrs } (structAt o 8 1) =
      some (firstSegment ((m.write o (toLe 2 which)).write (o + 8 + 8 * 0 : Nat) (toLe 8 v)) n) := by
  simp only [writeMessage, structAt_resolve]
  rw [capnWrite16, firstSegment_capnWrite _ _ _ _ _ (by decide), if_pos hwhich]
  exact setField_struct fuel _ n Nat.one_pos hne hv

/-- The capTable and the payload, once they are written. -/
def builtTable : Ptr :=
  { type := .LIST, seg := some 0, len := 1, isCompositeList := true, datasz := 8, ptrs := 1, data := some ⟨0, 32⟩ }

def builtDescriptor : Ptr :=
  { type := .STRUCT, seg := some 0, isListMember := true, datasz := 8, ptrs := 1, data := some ⟨0, 32⟩,
    nestingValid := true, nesting := CAPN_NESTING_DEFAULT }

theorem newStructList_firstSegment (m : Mem) : capnNewStructList (firstSegment m 24) (some 0) 1 8 1 =
    (firstSegment (m.write 24 (toLe 8 (4 + 2 ^ 32 + 2 ^ 48))) 48, builtTable) := by
  have hobj := @newObject_firstSegment m 24 24
    { type := .LIST, seg := some 0, len := 1, isCompositeList := true, datasz := 8, ptrs := 1 } rfl (by decide)
    (by omega)
  simp only [capnNewStructList, Nat.reduceAdd, Nat.reduceMul, Nat.reduceDiv, Nat.reducePow, Nat.reduceMod] at hobj ⊢
  rw [Nat.cast_one, hobj]
  simp only [Capn.store64]
  rw [firstSegment_write]
  rfl

/-- `write_cap_payload` leaves a descriptor whose third byte is `255`. -/
theorem writeCapPayload_eq (fuel eid : Nat) (m : Mem) : writeCapPayload fuel (firstSegment m 24) (some 0) eid =
    some (firstSegment ((((m.write 24 (toLe 8 (4 + 2 ^ 32 + 2 ^ 48))).write 32 (toLe 2 1)).write 36 (toLe 4 eid)).write 34
      (toLe 1 255)) 48, { content := { type := .INTERFACE, seg := some 0 }, capTable := builtTable }) := by
  have hset (m : Mem) : setCapDescriptor fuel (firstSegment m 48)
      { which := CapDescriptor_senderHosted, senderHosted := eid } builtTable 0 =
      some (firstSegment (((m.write 32 (toLe 2 1)).write 36 (toLe 4 eid)).write 34 (toLe 1 255)) 48) := by
    have hmember : capnGetp (firstSegment m 48) builtTable 0 false =
        ⟨firstSegment m 48, builtDescriptor, []⟩ := rfl
    simp only [setCapDescriptor, hmember, writeCapDescriptor]
    rfl
  simp only [writeCapPayload, newStructList_firstSegment, hset, Option.map_some]
  rfl

/-- The message, piece by piece. -/
def builtMem (qid eid : Nat) : Mem :=
  let table := (((Mem.zero.write 24 (toLe 8 (4 + 2 ^ 32 + 2 ^ 48))).write 32 (toLe 2 1)).write 36 (toLe 4 eid)).write 34
    (toLe 1 255)
  let payload := (table.write 8 (toLe 8 3)).write 16 (toLe 8 (1 + 23 * 2 ^ 32))
  let ret := ((((payload.write 48 (toLe 4 qid)).write 52 [1]).write 52 [1]).write 54 (toLe 2 0)).write 64
    (toLe 8 (2 ^ 32 - 32 + 2 * 2 ^ 48))
  ((ret.write 72 (toLe 2 3)).write 80 (toLe 8 (2 ^ 32 - 20 + 2 * 2 ^ 32 + 2 ^ 48))).write 0 (toLe 8 (32 + 2 ^ 32 + 2 ^ 48))

/-- The payload, the Return and the Message. -/
def builtPayload : Ptr := { type := .STRUCT, seg := some 0, ptrs := 2, data := some ⟨0, 8⟩ }
def builtReturn : Ptr := { type := .STRUCT, seg := some 0, datasz := 16, ptrs := 1, data := some ⟨0, 48⟩ }
def builtMessage : Ptr := { type := .STRUCT, seg := some 0, datasz := 8, ptrs := 1, data := some ⟨0, 72⟩ }

theorem newStruct_firstSegment (m : Mem) {n datasz ptrs : Nat} (h0 : datasz + 8 * ptrs ≠ 0) (h8 : 8 ∣ datasz)
    (hd : datasz < 2 ^ 19) (hp : ptrs < 2 ^ 16) (hroom : n + datasz + 8 * ptrs ≤ 4016) :
    capnNewStruct (firstSegment m n) (some 0) datasz ptrs = (firstSegment m (n + (datasz + 8 * ptrs)),
      { type := .STRUCT, seg := some 0, datasz := datasz, ptrs := ptrs, data := some ⟨0, n⟩ }) := by
  have hdata : (datasz + 7) / 8 * 8 % 2 ^ 19 = datasz := by omega
  have hbytes : (datasz + 8 * ptrs + 7) / 8 * 8 = datasz + 8 * ptrs := by omega
  simp only [capnNewStruct, hdata, Nat.mod_eq_of_lt hp]
  rw [newObject_firstSegment m rfl h0 (by omega), hbytes]

theorem writePayload_eq (fuel : Nat) (m : Mem) :
    writePayload fuel (firstSegment m 48) { content := { type := .INTERFACE, seg := some 0 }, capTable := builtTable }
      builtPayload = some (firstSegment ((m.write 8 (toLe 8 3)).write 16 (toLe 8 (1 + 23 * 2 ^ 32))) 48) := by
  have hcontent : setField fuel (firstSegment m 48) builtPayload 0 { type := .INTERFACE, seg := some 0 } =
      some (firstSegment (m.write 8 (toLe 8 3)) 48) :=
    setField_writes fuel (.inl ⟨rfl, by decide, rfl⟩) rfl rfl (by decide) (by decide) (writePtr_capability rfl rfl)
  have htable (m : Mem) : setField fuel (firstSegment m 48) builtPayload 1 builtTable =
      some (firstSegment (m.write 16 (toLe 8 (1 + 23 * 2 ^ 32))) 48) :=
    setField_writes fuel (.inl ⟨rfl, by decide, rfl⟩) rfl rfl (by decide) (by decide)
      (writePtr_near (.inr rfl) rfl rfl rfl (.inl (by decide)) (by decide))
  have hresolve (c : Capn) : capnResolve c builtPayload = ⟨c, builtPayload, []⟩ := rfl
  simp only [writePayload, hresolve, hcontent, Option.bind_some, htable]

theorem writeReturn_eq (fuel qid : Nat) (m : Mem) (h52 : m 52 = 0) :
    writeReturn fuel (firstSegment m 72) { answerId := qid, which := Return_results, results := builtPayload } builtReturn =
      some (firstSegment (((((m.write 48 (toLe 4 qid)).write 52 [1]).write 52 [1]).write 54 (toLe 2 0)).write 64
        (toLe 8 (2 ^ 32 - 32 + 2 * 2 ^ 48))) 72) :=
  @writeReturn_struct Return_results fuel qid m 72 48 8 0 2 _ (by decide) h52 (.inr (by decide)) (by decide)

theorem writeMessage_eq (fuel : Nat) (m : Mem) :
    writeMessage fuel (firstSegment m 88) { which := Message_return, body := builtReturn } builtMessage =
      some (firstSegment ((m.write 72 (toLe 2 3)).write 80 (toLe 8 (2 ^ 32 - 20 + 2 * 2 ^ 32 + 2 ^ 48))) 88) :=
  @writeMessage_struct Message_return fuel m 88 72 48 16 1 _ (by decide) (.inl (by decide)) (by decide)

theorem buildCapReturn_eq (fuel qid eid : Nat) :
    buildCapReturn fuel qid eid = some (firstSegment (builtMem qid eid) 88) := by
  have hroot (m : Mem) : setField fuel (firstSegment m 88) firstRoot 0 builtMessage =
      some (firstSegment (m.write 0 (toLe 8 (32 + 2 ^ 32 + 2 ^ 48))) 88) :=
    setField_writes fuel (.inr ⟨rfl, by decide, rfl⟩) rfl rfl (by decide) (by decide)
      (writePtr_near (.inl rfl) rfl rfl rfl (.inr (by decide)) (by decide))
  have hplp (m : Mem) : capnNewStruct (firstSegment m 8) (some 0) 0 2 = (firstSegment m 24, builtPayload) :=
    newStruct_firstSegment m (by decide) (by decide) (by decide) (by decide) (by decide)
  have hrp (m : Mem) : capnNewStruct (firstSegment m 48) (some 0) 16 1 = (firstSegment m 72, builtReturn) :=
    newStruct_firstSegment m (by decide) (by decide) (by decide) (by decide) (by decide)
  have hmp (m : Mem) : capnNewStruct (firstSegment m 72) (some 0) 8 1 = (firstSegment m 88, builtMessage) :=
    newStruct_firstSegment m (by decide) (by decide) (by decide) (by decide) (by decide)
  have hseg : firstRoot.seg = some 0 := rfl
  simp only [buildCapReturn, root_init, hseg, hplp, writeCapPayload_eq, Option.bind_some, writePayload_eq, finishReturn,
    hrp]
  rw [writeReturn_eq _ _ _ (by simp [Mem.write, Mem.zero])]
  simp only [Option.bind_some, hmp, writeMessage_eq, root_firstSegment _ (show 8 ≤ 88 by decide), hroot]
  rfl

/-! ## The frame -/

/-- The frame of one segment of `k` words, in a buffer that has room for it. -/
theorem writeMem_firstSegment (fuel : Nat) (m : Mem) {k n cap : Nat} (hn : n = 8 * k) (hk : 0 < k) (hcap : n + 8 ≤ cap) :
    capnWriteMem fuel (firstSegment m n) cap false =
      some ⟨n + 8, toLe 4 0 ++ toLe 4 k ++ m.read 0 n, firstSegment m n⟩ := by
  have hbytes : (firstSegment m n).segs.flatMap Segment.bytes = m.read 0 n := by
    simp only [firstSegment, List.flatMap_cons, List.flatMap_nil, List.append_nil, Segment.bytes]
  have hheader : headerRender (firstSegment m n) = toLe 4 0 ++ toLe 4 k := by
    simp [headerRender, firstSegment, Capn.segnum, headerLen, hn]
  have hsize : dataSizeOf (firstSegment m n) = n := rfl
  have hsegnum : (firstSegment m n).segnum = 1 := rfl
  rw [capnWriteMem, if_neg (by rw [hsegnum]; decide), if_neg (by decide), writeMemPlain, root_firstSegment _ (by omega)]
  have hheadersz : headerSize 1 = 8 := rfl
  simp only [hsegnum, hsize, hbytes, hheader, hheadersz]
  rw [if_neg (by omega), if_neg nofun, if_neg (by omega), Nat.add_comm 8 n, Nat.cast_add, Nat.cast_ofNat]
/-- The bytes of the segment: the root, the payload with its table, the Return, and the
Message. -/
def capReturnSegment (qid eid : Nat) : List UInt8 :=
  toLe 8 (32 + 2 ^ 32 + 2 ^ 48) ++
  toLe 8 3 ++ toLe 8 (1 + 23 * 2 ^ 32) ++
  toLe 8 (4 + 2 ^ 32 + 2 ^ 48) ++ (toLe 2 1 ++ [255, 0] ++ toLe 4 eid) ++ toLe 8 0 ++
  (toLe 4 qid ++ [1, 0, 0, 0]) ++ toLe 8 0 ++ toLe 8 (2 ^ 32 - 32 + 2 * 2 ^ 48) ++
  toLe 8 3 ++ toLe 8 (2 ^ 32 - 20 + 2 * 2 ^ 32 + 2 ^ 48)

theorem length_capReturnSegment (qid eid : Nat) : (capReturnSegment qid eid).length = 88 := rfl

/-- The frame: one segment of eleven words. -/
def capReturnBytes (qid eid : Nat) : List UInt8 := toLe 4 0 ++ toLe 4 11 ++ capReturnSegment qid eid

theorem builtMem_read (qid eid : Nat) : (builtMem qid eid).read 0 88 = capReturnSegment qid eid := by
  simp only [Mem.read]
  rfl

theorem capReturnFrame_eq (fuel qid eid : Nat) : capReturnFrame fuel qid eid = some (capReturnBytes qid eid) := by
  have hwrite := writeMem_firstSegment fuel (builtMem qid eid) (show 88 = 8 * 11 by decide) (by decide)
    (show 88 + 8 ≤ CAPN_RPC_MAX_ANSWER_BYTES by decide)
  rw [capReturnFrame, buildCapReturn_eq, Option.bind_some, hwrite, builtMem_read]
  rfl

end Capnproto.Rpc.Wire

import Capnproto.Graph.Tour
import Capnproto.Object.Text
import Capnproto.Rpc.Received

/-!
# The Return that carries an exception

`send_return_exception` says that its reason, a literal, is in the segment of the message that it builds. So
`capn_set_text` does not copy it, and the word of the reason points from the message to where the literal is, out of the
segment; if the literal is too far away for that, the word stays null (`reasonWord`). What the peer reads is empty
(`arrived_reason`), and it rejects the message unless the word is null (`excepted_validates`).
-/

namespace Capnproto

/-- `capn_set_text` within a session, as a `write_` function calls it: the status is not looked at. -/
def setText (fuel : Nat) (c : Capn) (p : Ptr) (off : Nat) (tgt : AnyText) : Option Capn :=
  (capnSetText fuel (fun _ => c) 0 p off tgt).map fun r => r.2 0

end Capnproto

namespace Capnproto.Rpc.Wire

abbrev Exception_Type_failed : Nat := 0

/-! ## Writers and readers -/

/-- `struct Exception`, with its texts as they are written or read. -/
structure Exception (τ : Type) where
  reason : τ
  type : Nat
  obsoleteIsCallersFault : Bool := false
  obsoleteDurability : Nat := 0
  trace : τ

/-- `read_Exception`; the default of its texts is an empty text. -/
def readException (c : Capn) (p : Ptr) : Capn × Exception Text :=
  let r := capnResolve c p
  let (c, reason) := capnGetText r.capn r.ptr 0 {}
  let (c', trace) := capnGetText c r.ptr 1 {}
  (c', { reason := reason, type := capnRead16 c r.ptr 4, obsoleteIsCallersFault := (capnRead8 c r.ptr 0).testBit 0,
         obsoleteDurability := capnRead16 c r.ptr 2, trace := trace })

/-- `write_Exception`. -/
def writeException (fuel : Nat) (c : Capn) (s : Exception AnyText) (p : Ptr) : Option Capn :=
  let r := capnResolve c p
  (setText fuel r.capn r.ptr 0 s.reason).bind fun c =>
    let c := capnWrite16 c r.ptr 4 s.type
    let c := capnWrite1 c r.ptr 0 s.obsoleteIsCallersFault
    let c := capnWrite16 c r.ptr 2 s.obsoleteDurability
    setText fuel c r.ptr 1 s.trace

/-! ## The message -/

/-- The message of `send_return_exception`, with the text of its reason `off` bytes from those of the first segment. -/
def buildExceptionReturn (fuel qid : Nat) (reason : List UInt8) (off : Int) : Option Capn :=
  let (c, root) := capnRoot capnInitMalloc
  let cs := root.seg
  let (c, ep) := capnNewStruct c cs 8 2
  (writeException fuel c { reason := .within 0 ⟨reason.length, some ⟨0, off⟩, cs⟩, type := Exception_Type_failed,
                           trace := .null } ep).bind fun c =>
    let (c, rp) := capnNewStruct c cs 16 1
    (writeReturn fuel c { answerId := qid, which := Return_exception, results := ep } rp).bind fun c =>
      let (c, mp) := capnNewStruct c cs 8 1
      (writeMessage fuel c { which := Message_return, body := rp } mp).bind fun c =>
        let (c, root) := capnRoot c
        setField fuel c root 0 mp

/-- The frame that `send_message` makes of it; `none` if it is refused. -/
def exceptionFrame (fuel qid : Nat) (reason : List UInt8) (off : Int) : Option (List UInt8) :=
  (buildExceptionReturn fuel qid reason off).bind fun c =>
    (capnWriteMem fuel c CAPN_RPC_MAX_ANSWER_BYTES false).bind fun w => if w.ret < 0 then none else some w.bytes

/-- The word of the reason, if there is one: its slot ends 24 bytes into the segment. -/
def reasonWord (reason : List UInt8) (off : Int) : Option Nat :=
  ptrTag (Text.list ⟨reason.length, some ⟨0, off⟩, some 0⟩) (off - 16 - 8)

/-- The message, piece by piece. -/
def exceptedMem (qid v : Nat) : Mem :=
  let ex := ((((Mem.zero.write 16 (toLe 8 v)).write 12 (toLe 2 0)).write 8 [0]).write 10 (toLe 2 0)).write 24 (toLe 8 0)
  let ret := ((((ex.write 32 (toLe 4 qid)).write 36 [1]).write 36 [1]).write 38 (toLe 2 1)).write 48
    (toLe 8 (2 ^ 32 - 24 + 2 ^ 32 + 2 * 2 ^ 48))
  ((ret.write 56 (toLe 2 3)).write 64 (toLe 8 (2 ^ 32 - 20 + 2 * 2 ^ 32 + 2 ^ 48))).write 0 (toLe 8 (24 + 2 ^ 32 + 2 ^ 48))

/-- Setting a text is over before the loop of `capn_setp`. -/
theorem setText_done {fuel : Nat} {c c' : Capn} {p : Ptr} {i : Nat} {ret : Int} {d : Addr} (h : PointerSlot c p i d) {m : Ptr}
    {tgt : AnyText} (hm : m.type ≠ .FAR_POINTER)
    (htgt : capnSetText fuel (fun _ => c) 0 p i tgt = capnSetp fuel (fun _ => c) 0 p i 0 m)
    (hw : writePtr c d.seg d m false = (ret, c')) (hret : ret ≠ NEED_TO_COPY) : setText fuel c p i tgt = some c' := by
  have hslot := setpSlot_same (w := fun _ => c) (i := 0) (d := d) (m := m) (by rw [hw]; exact hret)
  have hstart : setpStart (fun _ => c) 0 p i 0 m = _ := (PointerSlot.setp (w := fun _ => c) (i := 0) h hm).trans hslot
  rw [setText, htgt, capnSetp, hstart, hw]
  exact congrArg some (World.set_self (fun _ => c) 0 c')

/-- A slot of a struct of the first segment. -/
theorem structAt_slot (m : Mem) {n o datasz ptrs i : Nat} (ho : 8 ∣ o) (hd : 8 ∣ datasz) (hi : i < ptrs)
    (hn : o + datasz + 8 * i + 8 ≤ n) :
    PointerSlot (firstSegment m n) (structAt o datasz ptrs) i ⟨0, (o + datasz + 8 * i : Nat)⟩ := by
  refine ⟨.inl rfl, ⟨by omega, ?_⟩, rfl, ?_, ⟨?_, ?_, ?_⟩⟩
  · show (i : Int) < (ptrs : Nat)
    omega
  · show some ((⟨0, o⟩ : Addr).add (datasz + 8 * i), 8) = _
    rw [Addr.add]
    push_cast
    rw [Int.add_assoc]
  · show (8 : Int) ∣ (o + datasz + 8 * i : Nat)
    omega
  · show (0 : Int) ≤ (o + datasz + 8 * i : Nat)
    omega
  · show ((o + datasz + 8 * i : Nat) : Int) + 8 ≤ (n : Nat)
    omega

section

variable {reason : List UInt8} {off : Int}

theorem write_zero (o : Int) : Mem.zero.write o (toLe 8 0) = Mem.zero := by
  funext x
  rw [Mem.write]
  split
  · rw [show toLe 8 0 = List.replicate 8 0 from rfl, List.getD_eq_getElem?_getD, List.getElem?_replicate]
    split <;> rfl
  · rfl

/-- The reason is not copied. -/
theorem reason_linked (fuel : Nat) : setText fuel (firstSegment Mem.zero 32) (structAt 8 8 2) 0
    (.within 0 ⟨reason.length, some ⟨0, off⟩, some 0⟩) =
      some (firstSegment (Mem.zero.write 16 (toLe 8 ((reasonWord reason off).getD 0))) 32) := by
  have hslot := @structAt_slot Mem.zero 32 8 8 2 0 (by decide) (by decide) (by decide) (by decide)
  have hwrite : writePtr (firstSegment Mem.zero 32) 0 ⟨0, (16 : Nat)⟩ (Text.list ⟨reason.length, some ⟨0, off⟩, some 0⟩) false =
      tagResult (firstSegment Mem.zero 32) (((reasonWord reason off)).map ((firstSegment Mem.zero 32).store64 ⟨0, (16 : Nat)⟩)) := by
    simp only [writePtr, Text.list, writePtrTag, reasonWord, reduceCtorEq, if_false, false_and, false_or,
      Bool.false_eq_true, if_true, Int.sub_zero, Nat.cast_ofNat]
  have hdone : writePtr (firstSegment Mem.zero 32) 0 ⟨0, (16 : Nat)⟩ (Text.list ⟨reason.length, some ⟨0, off⟩, some 0⟩) false =
      (if (reasonWord reason off).isSome then 0 else -1,
        firstSegment (Mem.zero.write 16 (toLe 8 ((reasonWord reason off).getD 0))) 32) := by
    refine hwrite.trans ?_
    cases reasonWord reason off with
    | none =>
      rw [Option.getD_none, write_zero]
      rfl
    | some v => rfl
  refine setText_done hslot (m := Text.list _) (by rintro ⟨⟩) rfl hdone ?_
  split <;> decide

/-- What `write_Exception` leaves. -/
theorem writeException_eq (fuel : Nat) : writeException fuel (firstSegment Mem.zero 32)
    { reason := .within 0 ⟨reason.length, some ⟨0, off⟩, some 0⟩, type := Exception_Type_failed, trace := .null }
      (structAt 8 8 2) =
    some (firstSegment (((((Mem.zero.write 16 (toLe 8 ((reasonWord reason off).getD 0))).write 12 (toLe 2 0)).write 8 [0]).write
      10 (toLe 2 0)).write 24 (toLe 8 0)) 32) := by
  generalize hword : (reasonWord reason off).getD 0 = v
  have hbit (m : Mem) (h8 : m 8 = 0) : capnWrite1 (firstSegment m 32) (structAt 8 8 2) 0 false =
      firstSegment (m.write 8 [0]) 32 := by
    have hold : [m 8 &&& ~~~(1 <<< UInt8.ofNat (0 % 8))] = [0] := by
      rw [h8]
      decide
    rw [← hold]
    rfl
  have hslot (m : Mem) := @structAt_slot m 32 8 8 2 1 (by decide) (by decide) (by decide) (by decide)
  have htrace (m : Mem) : setText fuel (firstSegment m 32) (structAt 8 8 2) 1 .null =
      some (firstSegment (m.write 24 (toLe 8 0)) 32) :=
    setText_done (hslot m) (m := {}) nofun rfl rfl (by decide)
  have htype (m : Mem) : capnWrite16 (firstSegment m 32) (structAt 8 8 2) 4 Exception_Type_failed =
      firstSegment (m.write 12 (toLe 2 0)) 32 := firstSegment_capnWrite m 32 2 4 0 (by decide)
  have hdurability (m : Mem) : capnWrite16 (firstSegment m 32) (structAt 8 8 2) 2 0 =
      firstSegment (m.write 10 (toLe 2 0)) 32 := firstSegment_capnWrite m 32 2 2 0 (by decide)
  simp only [writeException, structAt_resolve, reason_linked, Option.bind_some, hword, htype]
  rw [hbit _ rfl, hdurability, htrace]

theorem buildExceptionReturn_eq (fuel qid : Nat) : buildExceptionReturn fuel qid reason off =
    some (firstSegment (exceptedMem qid ((reasonWord reason off).getD 0)) 72) := by
  have hroot (m : Mem) : setField fuel (firstSegment m 72) firstRoot 0 (structAt 56 8 1) =
      some (firstSegment (m.write 0 (toLe 8 (24 + 2 ^ 32 + 2 ^ 48))) 72) :=
    setField_writes fuel (.inr ⟨rfl, by decide, rfl⟩) rfl rfl (by decide) (by decide)
      (writePtr_near (.inl rfl) rfl rfl rfl (.inr (by decide)) (by decide))
  have hep (m : Mem) : capnNewStruct (firstSegment m 8) (some 0) 8 2 = (firstSegment m 32, structAt 8 8 2) :=
    newStruct_firstSegment m (by decide) (by decide) (by decide) (by decide) (by decide)
  have hrp (m : Mem) : capnNewStruct (firstSegment m 32) (some 0) 16 1 = (firstSegment m 56, structAt 32 16 1) :=
    newStruct_firstSegment m (by decide) (by decide) (by decide) (by decide) (by decide)
  have hmp (m : Mem) : capnNewStruct (firstSegment m 56) (some 0) 8 1 = (firstSegment m 72, structAt 56 8 1) :=
    newStruct_firstSegment m (by decide) (by decide) (by decide) (by decide) (by decide)
  have hreturn (m : Mem) (h36 : m 36 = 0) := @writeReturn_struct Return_exception fuel qid m 56 32 8 8 2
    (2 ^ 32 - 24 + 2 ^ 32 + 2 * 2 ^ 48) (by decide) h36 (.inl (by decide)) (by decide)
  have hmessage (m : Mem) := @writeMessage_struct Message_return fuel m 72 56 32 16 1 (2 ^ 32 - 20 + 2 * 2 ^ 32 + 2 ^ 48)
    (by decide) (.inl (by decide)) (by decide)
  have hseg : firstRoot.seg = some 0 := rfl
  simp only [buildExceptionReturn, root_init, hseg, hep, writeException_eq, Option.bind_some, hrp]
  rw [hreturn _ rfl]
  simp only [Option.bind_some, hmp, hmessage, root_firstSegment _ (show 8 ≤ 72 by decide), hroot]
  rfl

end

/-! ## The frame -/

/-- The bytes of the segment: the root, the Exception, the Return, and the Message. -/
def exceptionSegment (qid v : Nat) : List UInt8 :=
  toLe 8 (24 + 2 ^ 32 + 2 ^ 48) ++
  toLe 8 0 ++ toLe 8 v ++ toLe 8 0 ++
  (toLe 4 qid ++ [1, 0, 1, 0]) ++ toLe 8 0 ++ toLe 8 (2 ^ 32 - 24 + 2 ^ 32 + 2 * 2 ^ 48) ++
  toLe 8 3 ++ toLe 8 (2 ^ 32 - 20 + 2 * 2 ^ 32 + 2 ^ 48)

theorem length_exceptionSegment (qid v : Nat) : (exceptionSegment qid v).length = 8 * 9 := rfl

theorem exceptedMem_read (qid v : Nat) : (exceptedMem qid v).read 0 72 = exceptionSegment qid v := by
  simp only [Mem.read]
  rfl

theorem exceptionFrame_eq (fuel qid : Nat) (reason : List UInt8) (off : Int) : exceptionFrame fuel qid reason off =
    some (toLe 4 0 ++ toLe 4 9 ++ exceptionSegment qid ((reasonWord reason off).getD 0)) := by
  have hwrite := writeMem_firstSegment fuel (exceptedMem qid ((reasonWord reason off).getD 0)) (show 72 = 8 * 9 by decide)
    (by decide) (show 72 + 8 ≤ CAPN_RPC_MAX_ANSWER_BYTES by decide)
  rw [exceptionFrame, buildExceptionReturn_eq, Option.bind_some, hwrite, exceptedMem_read]
  rfl

/-! ## The message that arrives -/

section

variable {qid v n : Nat}

/-- The session that the frame is read into, with `n` bytes of it charged for. -/
abbrev excepted (qid v n : Nat) : Capn := received (exceptionSegment qid v) n

theorem excepted_root : pointee (excepted qid v n) ⟨0, (0 : Nat)⟩ = some (structAt 56 8 1, 16) ∧
    landingPads (excepted qid v n) ⟨0, (0 : Nat)⟩ = [] :=
  received_struct (w := 6) (by decide) (show 56 + 16 ≤ 72 by decide) (by decide) (by decide) (show 0 + 8 ≤ 72 by decide)
    (show _ = toLe 8 (24 + 2 ^ 32 + 2 ^ 48) from rfl) (by decide) (by decide) (by decide)

theorem excepted_body : pointee (excepted qid v n) ⟨0, (64 : Nat)⟩ = some (structAt 32 16 1, 24) ∧
    landingPads (excepted qid v n) ⟨0, (64 : Nat)⟩ = [] :=
  received_struct (w := -5) (by decide) (show 32 + 24 ≤ 72 by decide) (by decide) (by decide) (show 64 + 8 ≤ 72 by decide)
    (show _ = toLe 8 (2 ^ 32 - 20 + 2 * 2 ^ 32 + 2 ^ 48) from rfl) (by decide) (by decide) (by decide)

theorem excepted_exception : pointee (excepted qid v n) ⟨0, (48 : Nat)⟩ = some (structAt 8 8 2, 24) ∧
    landingPads (excepted qid v n) ⟨0, (48 : Nat)⟩ = [] :=
  received_struct (w := -6) (by decide) (show 8 + 24 ≤ 72 by decide) (by decide) (by decide) (show 48 + 8 ≤ 72 by decide)
    (show _ = toLe 8 (2 ^ 32 - 24 + 2 ^ 32 + 2 * 2 ^ 48) from rfl) (by decide) (by decide) (by decide)

/-- The Message. -/
theorem excepted_message : frameMessage (excepted qid v 0) =
    (excepted qid v 16, { which := Message_return, body := slotAt 64 63 }) := by
  have hread := @received_message (exceptionSegment qid v) 56 (show 8 ≤ 72 by decide) (show 56 + 16 ≤ 72 by decide) excepted_root
  have hwhich : le (((exceptionSegment qid v).drop 56).take 2) = Message_return := rfl
  rw [hwhich] at hread
  exact hread

/-- The Return. -/
theorem excepted_return : readReturn (excepted qid v 16) (slotAt 64 63) = (excepted qid v 40,
    { answerId := qid % 2 ^ 32, releaseParamCaps := false, noFinishNeeded := false, which := Return_exception,
      takeFromOtherQuestion := 0, results := slotAt 48 62 }) := by
  have hread := @received_return (exceptionSegment qid v) 16 64 32 63 (by decide) (show 64 + 8 ≤ 72 by decide)
    (show 32 + 24 ≤ 72 by decide) excepted_body (by decide)
  have hid : le (((exceptionSegment qid v).drop 32).take 4) = qid % 2 ^ 32 := le_toLe 4 qid
  have hflags : le (((exceptionSegment qid v).drop (32 + 4)).take 1) = 1 := rfl
  have hwhich : le (((exceptionSegment qid v).drop (32 + 6)).take 2) = Return_exception := rfl
  have hother : le (((exceptionSegment qid v).drop (32 + 8)).take 4) = 0 := rfl
  rw [hid, hflags, hwhich, hother] at hread
  exact hread

/-- The slot of the reason, as `read_Exception` has it. -/
theorem excepted_slot : PointerSlot (excepted qid v n) (structRead 8 8 2 61) 0 ⟨0, (16 : Nat)⟩ :=
  ⟨.inl rfl, ⟨Int.le_refl 0, show (0 : Int) < (2 : Nat) by decide⟩, rfl, rfl,
    ⟨show (8 : Int) ∣ (16 : Nat) by decide, show (0 : Int) ≤ (16 : Nat) by decide, show ((16 : Nat) : Int) + 8 ≤ (72 : Nat) by decide⟩⟩

theorem excepted_word (hv : v < 2 ^ 64) : (excepted qid v n).load64 ⟨0, (16 : Nat)⟩ = v :=
  received_word (show 16 + 8 ≤ 72 by decide) rfl hv

/-- A reason that cannot be read is empty. -/
theorem excepted_reason (h : ∀ q cost, pointee (excepted qid v 64) ⟨0, (16 : Nat)⟩ = some (q, cost) → q.type ≠ .LIST) :
    (readException (excepted qid v 40) (slotAt 48 62)).2.reason = {} := by
  have hres : capnResolve (excepted qid v 40) (slotAt 48 62) = ⟨excepted qid v 64, structRead 8 8 2 61, []⟩ :=
    received_resolve (by decide) (show 48 + 8 ≤ 72 by decide) excepted_exception (by decide)
  have hread : (capnGetp (excepted qid v 64) (structRead 8 8 2 61) 0 true).ptr.type ≠ .LIST := by
    rw [excepted_slot.getp]
    rcases readPtr_cases (excepted qid v 64) (some 0) (some ⟨0, (16 : Nat)⟩) (hopRemaining (excepted qid v 64) (structRead 8 8 2 61))
      with ⟨reads, e, -⟩ | ⟨s, o, q, cost, -, -, hd, -, hq, -, e⟩
    · rw [e]
      exact nofun
    · cases hd
      rw [e]
      show (q.withNesting _).type ≠ _
      rw [type_withNesting]
      exact h q cost hq
  simp only [readException, hres]
  exact getText_default hread {}

/-! ## What there is of the reason -/

/-- No pointer from the message reaches the reason. -/
def OutOfReach (off : Int) : Prop :=
  (off - 16 - 8).tdiv 8 < CAPN_PTR_OFF_MIN_WORDS ∨ CAPN_PTR_OFF_MAX_WORDS < (off - 16 - 8).tdiv 8

instance (off : Int) : Decidable (OutOfReach off) := inferInstanceAs (Decidable (_ ∨ _))

/-- The reason and its NUL are not in the memory of the first segment, which has its `struct capn_segment` in front. -/
def Outside (reason : List UInt8) (off : Int) : Prop :=
  off + reason.length + 1 ≤ -sizeofSegment ∨ (createCap 8 : Int) ≤ off

end

section

variable {reason : List UInt8} {off : Int}

/-- A list pointer whose offset leads out of the segment. -/
theorem excepted_wild {qid v n : Nat} {w : Int} (hv : v < 2 ^ 64) (hlist : v % 4 = LIST_PTR) (hw : toInt32 v / 4 = w)
    (hout : 16 + (w + 1) * 8 < 0 ∨ 72 < 16 + (w + 1) * 8) : pointee (excepted qid v n) ⟨0, (16 : Nat)⟩ = none := by
  have hlist : v % 4 = 1 := hlist
  have hfollow : (followFar (excepted qid v n) 0 ⟨0, (16 : Nat)⟩ v).hit = some (0, ⟨0, (16 : Nat)⟩, v) := by
    rw [followFar, if_neg (show ¬ v % 8 = FAR_PTR by rw [FAR_PTR]; omega), if_neg (show ¬ v % 8 = DOUBLE_PTR by rw [DOUBLE_PTR]; omega)]
  have happly : applyOffset (excepted qid v n) 0 ⟨0, (16 : Nat)⟩ v = none := by
    have hlen : ((excepted qid v n).seg 0).len = 72 := rfl
    simp only [applyOffset, hw, hlen]
    exact if_pos (by omega)
  simp only [pointee, excepted_word hv, hfollow, decodeObject, happly, Option.map_none]
  exact if_neg (show ¬ v % 4 = 3 by omega)

/-- The word of a reason that is reached is a list pointer out of the segment. -/
theorem reasonWord_cases (hout : Outside reason off) :
    (OutOfReach off ∧ reasonWord reason off = none) ∨
    ∃ v, reasonWord reason off = some v ∧ ¬ OutOfReach off ∧ v < 2 ^ 64 ∧ v ≠ 0 ∧
      ∀ qid n, pointee (excepted qid v n) ⟨0, (16 : Nat)⟩ = none := by
  have hb : (Text.list ⟨reason.length, some ⟨0, off⟩, some 0⟩).IsBytes ⟨0, off⟩ (reason.length + 1) :=
    ⟨rfl, rfl, rfl, rfl, rfl, rfl, rfl, rfl⟩
  by_cases hr : OutOfReach off
  · refine .inl ⟨hr, ?_⟩
    simp only [reasonWord, ptrTag, Text.list, reduceCtorEq, if_false]
    exact if_pos hr
  · obtain ⟨v, hv⟩ : ∃ v, reasonWord reason off = some v := by
      simp only [reasonWord, ptrTag, Text.list, reduceCtorEq, if_false]
      exact ⟨_, if_neg hr⟩
    have htag : ptrTag (Text.list ⟨reason.length, some ⟨0, off⟩, some 0⟩).cut (off - 16 - 8) = some v := by
      rw [ptrTag_cut hb]
      exact hv
    have hshape := hb.cut.shape (Nat.mod_lt _ (by decide))
    obtain ⟨heq, hlo, hhi⟩ := ptrTag_eq hshape ⟨by rintro ⟨⟩, by rintro ⟨⟩, by rintro ⟨⟩⟩ htag
    have hkind : (Text.list ⟨reason.length, some ⟨0, off⟩, some 0⟩).cut.kindBits = 1 := rfl
    have hhigh := highBits_lt hshape
    obtain ⟨hbits, h4⟩ := offsetBits_lt ((off - 16 - 8).tdiv 8)
    rw [hkind] at heq
    have hw : toInt32 v / 4 = (off - 16 - 8).tdiv 8 := toInt32_offset hlo hhi (by decide : 1 < 2) (by omega)
    -- the offset is rounded towards zero
    have hdiv := Int.mul_tdiv_add_tmod (off - 16 - 8) 8
    have hlt := Int.tmod_lt_of_pos (off - 16 - 8) (by decide : (0 : Int) < 8)
    have hgt := Int.lt_tmod_of_pos (off - 16 - 8) (by decide : (0 : Int) < 8)
    refine .inr ⟨v, hv, hr, by omega, by omega, fun qid n => excepted_wild (by omega) (by show v % 4 = 1; omega) hw ?_⟩
    rcases hout with hout | hout
    · rw [sizeofSegment] at hout
      omega
    · rw [createCap_root] at hout
      omega

end

/-! ## The validation -/

section

variable {qid v : Nat}

theorem structAt_child (o datasz ptrs i : Nat) :
    childSlot (structAt o datasz ptrs) i = some (some 0, some ⟨0, (o + datasz + 8 * i : Nat)⟩) := by
  show some (some 0, some ((⟨0, o⟩ : Addr).add (datasz + 8 * i : Nat))) = _
  rw [Addr.add, Nat.add_assoc, Nat.cast_add o]

theorem excepted_trace : (excepted qid v 0).load64 ⟨0, (24 : Nat)⟩ = 0 := received_word (show 24 + 8 ≤ 72 by decide) rfl (by decide)

/-- The objects of the message, where there is no reason to read. -/
theorem excepted_met (h : ∀ q cost, pointee (excepted qid v 0) ⟨0, (16 : Nat)⟩ = some (q, cost) → q.type = .NULL) {p : Ptr}
    {d : Nat} (hm : Met (excepted qid v 0) ⟨0, (0 : Nat)⟩ p d) :
    p = structAt 56 8 1 ∧ d = 1 ∨ p = structAt 32 16 1 ∧ d = 2 ∨ p = structAt 8 8 2 ∧ d = 3 := by
  induction hm with
  | root hq hn =>
    cases hq.symm.trans excepted_root.1
    exact .inl ⟨rfl, rfl⟩
  | @child p q d i cost s a hm hi hs hq hn ih =>
    rcases ih with ⟨rfl, rfl⟩ | ⟨rfl, rfl⟩ | ⟨rfl, rfl⟩
    · have hi : (i : Int) < (1 : Nat) := hi
      obtain rfl : i = 0 := by omega
      cases (structAt_child 56 8 1 0).symm.trans hs
      cases hq.symm.trans excepted_body.1
      exact .inr (.inl ⟨rfl, rfl⟩)
    · have hi : (i : Int) < (1 : Nat) := hi
      obtain rfl : i = 0 := by omega
      cases (structAt_child 32 16 1 0).symm.trans hs
      cases hq.symm.trans excepted_exception.1
      exact .inr (.inr ⟨rfl, rfl⟩)
    · have hi : (i : Int) < (2 : Nat) := hi
      obtain rfl | rfl : i = 0 ∨ i = 1 := by omega
      · cases (structAt_child 8 8 2 0).symm.trans hs
        exact absurd (h q cost hq) hn
      · cases (structAt_child 8 8 2 1).symm.trans hs
        have hnull := pointee_zero (c := excepted qid v 0) (d := ⟨0, (24 : Nat)⟩)
          ⟨show (8 : Int) ∣ (24 : Nat) by decide, show (0 : Int) ≤ (24 : Nat) by decide,
            show ((24 : Nat) : Int) + 8 ≤ (72 : Nat) by decide⟩ excepted_trace
        cases hq.symm.trans hnull
        exact absurd rfl hn

/-- **`capn_validate`** accepts the message exactly when the word of the reason is null. -/
theorem excepted_validates {vhash : VKey → Nat} (hv : v < 2 ^ 64)
    (h : ∀ q cost, pointee (excepted qid v 0) ⟨0, (16 : Nat)⟩ = some (q, cost) → q.type = .NULL) :
    (∃ c', Validates vhash .unlimited (excepted qid v 0) (0, c')) ↔ v = 0 := by
  have hcap : capnRoot (excepted qid v 0) = (excepted qid v 0, firstRoot) := received_root (show 8 ≤ 72 by decide)
  have hnest : sessionNesting (excepted qid v 0) = 64 := rfl
  have hdepth : ∀ p d, Met (excepted qid v 0) ⟨0, (0 : Nat)⟩ p d → (d : Int) ≤ 64 := by
    intro p d hm
    rcases excepted_met h hm with ⟨-, rfl⟩ | ⟨-, rfl⟩ | ⟨-, rfl⟩ <;> decide
  have hbudget : ∀ n, n ≤ 64 → (excepted qid v 0).traversalUsed + n ≤ budget (excepted qid v 0) := by
    intro n hn
    show 0 + n ≤ CAPN_TRAVERSAL_DEFAULT
    rw [CAPN_TRAVERSAL_DEFAULT]
    omega
  have hroot : (excepted qid v 0).load64 ⟨0, (0 : Nat)⟩ ≠ 0 := by
    rw [received_word (v := 24 + 2 ^ 32 + 2 ^ 48) (show 0 + 8 ≤ 72 by decide) rfl (by decide)]
    decide
  have hbody : (excepted qid v 0).load64 ⟨0, (64 : Nat)⟩ ≠ 0 := by
    rw [received_word (v := 2 ^ 32 - 20 + 2 * 2 ^ 32 + 2 ^ 48) (show 64 + 8 ≤ 72 by decide) rfl (by decide)]
    decide
  have hexception : (excepted qid v 0).load64 ⟨0, (48 : Nat)⟩ ≠ 0 := by
    rw [received_word (v := 2 ^ 32 - 24 + 2 ^ 32 + 2 * 2 ^ 48) (show 48 + 8 ≤ 72 by decide) rfl (by decide)]
    decide
  obtain ⟨v₀, hstart, ht₀⟩ := @validateStart_next vhash (excepted qid v 0) ⟨0, (0 : Nat)⟩ 0 (by rw [hcap]; rfl)
    (by rw [hcap]; rfl) (by rw [hcap]; exact hroot) (structAt 56 8 1) 16 (by rw [hcap]; exact excepted_root.1) nofun
    (by rw [hcap]; exact hbudget 16 (by decide))
  rw [hcap, hnest] at ht₀
  rw [hnest] at hstart
  rw [validates_next hstart]
  -- the tour goes from the Message to the Return and to the Exception
  obtain ⟨v₁, hv₁, ht₁⟩ := ht₀.step (.enter (show ((0 : Nat) : Int) < (1 : Nat) by decide) (structAt_child 56 8 1 0) hbody
    excepted_body.1 nofun (by decide) (by decide)) hdepth (hbudget 40 (by decide))
  obtain ⟨v₂, hv₂, ht₂⟩ := ht₁.step (.enter (show ((0 : Nat) : Int) < (1 : Nat) by decide) (structAt_child 32 16 1 0) hexception
    excepted_exception.1 nofun (by decide) (by decide)) hdepth (hbudget 64 (by decide))
  simp only [Loop.ends_next hv₁, Loop.ends_next hv₂]
  by_cases h0 : v = 0
  · refine iff_of_true ?_ h0
    have hreason : (excepted qid v 0).load64 ⟨0, (16 : Nat)⟩ = 0 := (excepted_word hv).trans h0
    obtain ⟨v₃, hv₃, ht₃⟩ := ht₂.step (.null (show ((0 : Nat) : Int) < (2 : Nat) by decide) (structAt_child 8 8 2 0) hreason)
      hdepth (hbudget 64 (by decide))
    obtain ⟨v₄, hv₄, ht₄⟩ := ht₃.step (.null (show ((1 : Nat) : Int) < (2 : Nat) by decide) (structAt_child 8 8 2 1)
      excepted_trace) hdepth (hbudget 64 (by decide))
    -- and back
    obtain ⟨v₅, hv₅, ht₅⟩ := ht₄.step (.leave (show ((2 : Nat) : Int) ≤ (2 : Nat) by decide)) hdepth (hbudget 64 (by decide))
    obtain ⟨v₆, hv₆, ht₆⟩ := ht₅.step (.leave (show ((1 : Nat) : Int) ≤ (1 : Nat) by decide)) hdepth (hbudget 64 (by decide))
    obtain ⟨v₇, hv₇, ht₇⟩ := ht₆.step (.leave (show ((1 : Nat) : Int) ≤ (1 : Nat) by decide)) hdepth (hbudget 64 (by decide))
    simp only [Loop.ends_next hv₃, Loop.ends_next hv₄, Loop.ends_next hv₅, Loop.ends_next hv₆, Loop.ends_next hv₇]
    refine ⟨v₇.capn, (Loop.ends_done ?_).mpr rfl⟩
    rw [validateStep, ht₇.stack]
    rfl
  · refine iff_of_false ?_ h0
    rintro ⟨d, hend⟩
    -- the tour is stuck at the reason
    have hstuck : ¬ Tour.Clear (excepted qid v 0) ⟨[(structAt 8 8 2, 0), (structAt 32 16 1, 1), (structAt 56 8 1, 1)], [], 64⟩ := by
      intro hclear
      obtain ⟨q, cost, hq, hn, -⟩ := hclear _ _ _ _ rfl (show ((0 : Nat) : Int) < (2 : Nat) by decide)
        (structAt_child 8 8 2 0) (by rw [excepted_word hv]; exact h0)
      exact hn (h q cost hq)
    obtain ⟨r, hr, hneg⟩ := ht₂.stuck hstuck
    rw [(Loop.ends_done hr).mp hend] at hneg
    cases hneg

end

/-! ## The trip of a reason -/

/-- A peer decodes the frame, `capn_validate` accepts it, and it is the Return for question `qid`, with an exception that
has this reason. -/
def ReadsBack (vhash : VKey → Nat) (calloc : Nat → Option Nat) (qid : Nat) (reason frame : List UInt8) : Prop :=
  ∃ i : Init, InitsMem calloc frame false i ∧ i.ret = 0 ∧ (∃ c', Validates vhash .unlimited i.capn (0, c')) ∧
    let (c, m) := frameMessage i.capn
    let (c, r) := readReturn c m.body
    let (c, ex) := readException c r.results
    m.which = Message_return ∧ r.answerId = qid ∧ r.which = Return_exception ∧ textBytes c ex.reason = reason

/-- `send_return_exception` sends a Return that reads back. -/
def ExceptionArrives (vhash : VKey → Nat) (calloc : Nat → Option Nat) (qid : Nat) (reason : List UInt8) (off : Int) : Prop :=
  ∃ frame, (∃ fuel, exceptionFrame fuel qid reason off = some frame) ∧ ReadsBack vhash calloc qid reason frame

section

variable {vhash : VKey → Nat} {calloc : Nat → Option Nat} {qid v : Nat} {reason : List UInt8} {off : Int}

/-- The frame, once it is read: the reason is empty. -/
theorem readsBack_iff (hcalloc : CallocOk calloc) (hq : qid < 2 ^ 32) (hv : v < 2 ^ 64)
    (h : ∀ n q cost, pointee (excepted qid v n) ⟨0, (16 : Nat)⟩ = some (q, cost) → q.type = .NULL) :
    ReadsBack vhash calloc qid reason (toLe 4 0 ++ toLe 4 9 ++ exceptionSegment qid v) ↔ reason = [] ∧ v = 0 := by
  obtain ⟨stores, hinit⟩ := received_inits (b := exceptionSegment qid v) hcalloc (length_exceptionSegment qid v) (by decide)
  have hreason : (readException (excepted qid v 40) (slotAt 48 62)).2.reason = {} :=
    excepted_reason fun q cost hp => by
      rw [h 64 q cost hp]
      exact nofun
  have htext (c : Capn) : textBytes c {} = [] := rfl
  constructor
  · rintro ⟨i, hi, -, hvalid, hread⟩
    obtain rfl := InitsMem.unique hi hinit
    simp only [excepted_message, excepted_return, hreason, htext] at hread
    exact ⟨hread.2.2.2.symm, (excepted_validates hv (h 0)).mp hvalid⟩
  · rintro ⟨rfl, h0⟩
    refine ⟨_, hinit, rfl, (excepted_validates hv (h 0)).mpr h0, ?_⟩
    simp only [excepted_message, excepted_return, hreason, htext, Nat.mod_eq_of_lt hq, and_self]

/-- The word of the reason: nothing can be read there, and it is null if the reason is out of reach. -/
theorem reasonWord_unread (qid : Nat) (hout : Outside reason off) : ∃ v, (reasonWord reason off).getD 0 = v ∧ v < 2 ^ 64 ∧
    (∀ n q cost, pointee (excepted qid v n) ⟨0, (16 : Nat)⟩ = some (q, cost) → q.type = .NULL) ∧ (v = 0 ↔ OutOfReach off) := by
  rcases reasonWord_cases hout with ⟨hfar, hword⟩ | ⟨v, hword, hnear, hv, h0, hnone⟩
  · refine ⟨0, by rw [hword, Option.getD_none], by decide, fun n q cost hp => ?_, iff_of_true rfl hfar⟩
    rw [pointee_zero excepted_slot.inside (excepted_word (by decide))] at hp
    cases hp
    rfl
  · refine ⟨v, by rw [hword, Option.getD_some], hv, fun n q cost hp => ?_, iff_of_false h0 hnear⟩
    rw [hnone] at hp
    cases hp

theorem arrives_frame : ExceptionArrives vhash calloc qid reason off ↔ ReadsBack vhash calloc qid reason
    (toLe 4 0 ++ toLe 4 9 ++ exceptionSegment qid ((reasonWord reason off).getD 0)) := by
  simp only [ExceptionArrives, exceptionFrame_eq, exists_const, Option.some.injEq, exists_eq_left']

/-- **An exception reads back** only without a reason, and that from far away. -/
theorem exception_arrives (hcalloc : CallocOk calloc) (hq : qid < 2 ^ 32) (hout : Outside reason off) :
    ExceptionArrives vhash calloc qid reason off ↔ reason = [] ∧ OutOfReach off := by
  obtain ⟨v, hword, hv, hunread, hnull⟩ := reasonWord_unread qid hout
  rw [arrives_frame, hword, readsBack_iff hcalloc hq hv hunread, hnull]

end

/-- An empty reason, eight gigabytes behind the message, and so out of reach. -/
theorem exception_arrives_far : ExceptionArrives (fun _ => 0) some 7 [] (2 ^ 33) :=
  (exception_arrives callocOk_some (by decide) (.inr (by decide))).mpr ⟨rfl, by decide⟩

/-- The reason `no such export`, in a page in front of the message. -/
theorem exception_lost : ¬ ∀ (vhash : VKey → Nat) (calloc : Nat → Option Nat) (qid : Nat) (reason : List UInt8) (off : Int),
    CallocOk calloc → qid < 2 ^ 32 → Outside reason off → ExceptionArrives vhash calloc qid reason off := by
  intro hall
  have hout : Outside [110, 111, 32, 115, 117, 99, 104, 32, 101, 120, 112, 111, 114, 116] (-4096) := .inl (by decide)
  obtain ⟨v, hword, hv, hunread, -⟩ := reasonWord_unread 7 hout
  have harrives := arrives_frame.mp (hall (fun _ => 0) some 7 _ _ callocOk_some (by decide) hout)
  rw [hword, readsBack_iff callocOk_some (by decide) hv hunread] at harrives
  cases harrives.1

end Capnproto.Rpc.Wire

import Capnproto.Rpc.Sends
import Capnproto.Rpc.Step
import Mathlib.Tactic.ByContra

/-!
# One Return for every question

Which questions an event answers (`due`), and that it answers them, once each,
if the results of a Call fit the buffer (`returns_due`). Over a run, the
questions asked on a connection are those answered and those that wait, as a
part of a Join or as an Accept under embargo (`Balanced`).
-/

namespace Capnproto.Rpc

/-- The questions that the Returns among some messages answer. -/
def returnsOf (sent : List Outgoing) : List Nat :=
  sent.filterMap fun
    | .ret qid _ => some qid
    | _ => none

/-- Whether an Accept claims a provision. -/
def claims (c : Conn) (vat : Vat) (provision : Option Nat) : Bool :=
  provision.any fun nonce => (claimable vat nonce).any fun i => (vat i).any fun p =>
    (capnRpcExport c p.server p.dispatch).isSome

/-- The questions that a message is to be answered with: its own, unless it waits, and
those that waited for it. -/
def due (c : Conn) (vat : Vat) : Message → List Nat
  | .bootstrap qid => [qid]
  | .call qid _ _ _ _ => [qid]
  | .provide qid _ _ => [qid]
  | .accept qid provision embargo => if embargo ∧ claims c vat provision then [] else [qid]
  | .join qid target keyPart =>
    match accepted c keyPart with
    | none => [qid]
    | some (_, j, i) =>
      let j := j.park i qid (resolveTarget c target)
      if j.nseen = j.partCount then j.parts.map j.qids else []
  | .disembargo _ (.provide qid) =>
    (((liftable vat qid).bind fun i => vat i).map (·.acceptQuestionId)).toList
  | _ => []

/-- The results of a Call fit the buffer. -/
def Fits (env : Env) (c : Conn) : Message → Prop
  | .call qid target interfaceId methodId params =>
    ∀ e, callee c target = some e →
      (env.dispatch e.server e.dispatch interfaceId methodId params.content).1 = 0 →
      env.frameSize (.ret qid
        (.results ⟨(env.dispatch e.server e.dispatch interfaceId methodId params.content).2, []⟩)) ≤
          CAPN_RPC_MAX_ANSWER_BYTES
  | _ => True

section

variable {env : Env} {c : Conn} {vat : Vat}

theorem returnsOf_append (a b : List Outgoing) : returnsOf (a ++ b) = returnsOf a ++ returnsOf b :=
  List.filterMap_append

theorem returnsOf_ret (qid : Nat) (body : Return) : returnsOf [.ret qid body] = [qid] := rfl

theorem Answered.returns (hs : env.Small) {l l' : Local} {qid : Nat} (h : Answered env l l' qid) :
    returnsOf l'.sent = returnsOf l.sent ++ [qid] := by
  obtain ⟨body, hf, -, e⟩ := h
  rw [e, emit_fixed hs hf, returnsOf_append, returnsOf_ret]

theorem returns_parts (hs : env.Small) (j : Join) (is : List (Fin CAPN_RPC_MAX_JOIN_PARTS)) :
    returnsOf (is.flatMap fun i => emit env (joinReply j i)) = is.map j.qids := by
  rw [emit_replies hs]
  induction is with
  | nil => rfl
  | cons i is ih => exact congrArg (j.qids i :: ·) ih

theorem claims_none {provision : Option Nat} (h : ∀ nonce, provision = some nonce → ∀ i p,
    claimable vat nonce = some i → vat i = some p → capnRpcExport c p.server p.dispatch = none) :
    claims c vat provision = false := by
  rw [claims, Option.any_eq_false]
  intro nonce hn
  rw [Option.any_eq_false]
  intro i hi
  rw [Option.any_eq_false]
  intro p hp
  rw [h nonce hn i p hi hp]
  rfl

theorem claims_some {nonce : Nat} {i : Fin CAPN_RPC_MAX_PROVISIONS} {p : Provision} {r : ExportId × Conn}
    (hi : claimable vat nonce = some i) (hp : vat i = some p)
    (hr : capnRpcExport c p.server p.dispatch = some r) : claims c vat (some nonce) = true := by
  simp only [claims, Option.any_some, hi, hp, hr, Option.isSome_some]

/-- **Every question** that a message is to be answered with gets one Return, and no
other does, exactly if the results of a Call fit. -/
theorem returns_due (hs : env.Small) (m : Message) :
    returnsOf (capnRpcHandle env c vat m).sent = due c vat m ↔ Fits env c m := by
  cases m with
  | bootstrap qid => exact iff_of_true (handleBootstrap_sent env { conn := c, vat := vat } qid |>.returns hs) trivial
  | call qid target interfaceId methodId params =>
    show returnsOf (handleCall env { conn := c, vat := vat } qid target interfaceId methodId params).sent = [qid] ↔ _
    rcases handleCall_sent env { conn := c, vat := vat } qid target interfaceId methodId params with
      h | ⟨e, he, hrc, hsent⟩
    · refine iff_of_true (h.1.returns hs) fun e he hrc => ?_
      exact absurd hrc (h.2 e he)
    · replace he : callee c target = some e := he
      rw [hsent, emit]
      split
      · rename_i hlt
        refine iff_of_false (fun h => by cases h) fun h => ?_
        exact absurd (h e he hrc) (Nat.not_le.mpr hlt)
      · rename_i hle
        refine iff_of_true rfl fun e' he' _ => ?_
        rw [he] at he'
        cases he'
        exact Nat.not_lt.mp hle
  | finish qid => exact iff_of_true rfl trivial
  | release id referenceCount => exact iff_of_true rfl trivial
  | join qid target keyPart =>
    refine iff_of_true ?_ trivial
    show returnsOf (handleJoin env { conn := c, vat := vat } qid target keyPart).sent = due c vat (.join qid target keyPart)
    obtain ⟨hacc, id, e⟩ | ⟨slot, j, i, hacc, e⟩ := handleJoin_cases env { conn := c, vat := vat } qid target keyPart
    · replace hacc : accepted c keyPart = none := hacc
      have hfixed : (Outgoing.ret qid (.joinResult id false [])).Fixed := Nat.zero_le 1
      rw [e, due, hacc, sendJoinResult, sendMessage_emit, emit_fixed hs hfixed]
      rfl
    · replace hacc : accepted c keyPart = some (slot, j, i) := hacc
      simp only [e, due, hacc]
      split
      · rw [joinComplete_sent]
        exact returns_parts hs _ _
      · rfl
  | ret => exact iff_of_true rfl trivial
  | resolve =>
    refine iff_of_true ?_ trivial
    show returnsOf (sendUnimplemented env { conn := c, vat := vat } .resolve).sent = []
    rw [sendUnimplemented, sendMessage_emit, emit]
    split <;> rfl
  | obsolete =>
    refine iff_of_true ?_ trivial
    show returnsOf (sendUnimplemented env { conn := c, vat := vat } .obsolete).sent = []
    rw [sendUnimplemented, sendMessage_emit, emit]
    split <;> rfl
  | disembargo target context =>
    refine iff_of_true ?_ trivial
    show returnsOf (handleDisembargo env { conn := c, vat := vat } target context).sent = due c vat (.disembargo target context)
    cases context with
    | provide questionId =>
      rw [handleDisembargo]
      obtain ⟨hf, e⟩ | ⟨i, p, hf, hp, e⟩ := releaseProvideEmbargo_cases env { conn := c, vat := vat } questionId
      · replace hf : liftable vat questionId = none := hf
        rw [e, due, hf]
        rfl
      · replace hf : liftable vat questionId = some i := hf
        replace hp : vat i = some p := hp
        have hans := @answered_cap env { conn := c, vat := vat } { conn := c, vat := vat.set i none }
          p.acceptQuestionId rfl p.exportId
        rw [e, due, hf, Option.bind_some, hp]
        exact hans.returns hs
    | senderLoopback id =>
      rw [handleDisembargo, sendMessage_emit, emit]
      split <;> rfl
    | receiverLoopback id => rfl
    | accept => rfl
  | provide qid target recipient =>
    exact iff_of_true (handleProvide_sent env { conn := c, vat := vat } qid target recipient |>.returns hs) trivial
  | accept qid provision embargo =>
    refine iff_of_true ?_ trivial
    show returnsOf (handleAccept env { conn := c, vat := vat } qid provision embargo).sent =
      if embargo ∧ claims c vat provision then [] else [qid]
    obtain ⟨reason, e, hr, hnone⟩ | ⟨nonce, i, p, eid, conn, rfl, hf, hp, he, e⟩ :=
      handleAccept_cases env { conn := c, vat := vat } qid provision embargo
    · rw [e, claims_none hnone, if_neg (fun h => absurd h.2 (by decide))]
      exact (answered_exception hr).returns hs
    · rw [e, claims_some hf hp he]
      cases embargo with
      | true => rfl
      | false =>
        have hans := @answered_cap env { conn := c, vat := vat } { conn := conn, vat := vat.set i none } qid rfl eid
        exact hans.returns hs

end

/-! ## The questions of a run -/

/-- The question that an event asks. -/
def asks : Event → List Nat
  | .recv _ (.bootstrap qid) => [qid]
  | .recv _ (.call qid _ _ _ _) => [qid]
  | .recv _ (.provide qid _ _) => [qid]
  | .recv _ (.accept qid _ _) => [qid]
  | .recv _ (.join qid _ _) => [qid]
  | _ => []

/-- A run: the state, how often each question was asked and answered on a connection, and
the connection on which the Accept of a parked provision arrived. -/
structure History (ι : Type) where
  world : World ι := {}
  asked : ι → Nat → Int := fun _ _ => 0
  returned : ι → Nat → Int := fun _ _ => 0
  acceptor : Fin CAPN_RPC_MAX_PROVISIONS → Option ι := fun _ => none

/-- The parts of a set that wait under a question id. -/
def Join.waiting (j : Join) (q : Nat) : Int := ∑ i, if j.seen i ∧ j.qids i = q then 1 else 0

def Conn.waiting (c : Conn) (q : Nat) : Int := c.joins.total (·.waiting q)

section

variable {ι : Type} [DecidableEq ι]

/-- One for an Accept of connection `k` that waits under the id `q`. -/
def waits (k : ι) (q : Nat) (p : Option Provision) (acceptor : Option ι) : Int :=
  p.elim 0 fun p => if p.embargoed ∧ p.acceptQuestionId = q ∧ acceptor = some k then 1 else 0

def Vat.waiting (vat : Vat) (acceptor : Fin CAPN_RPC_MAX_PROVISIONS → Option ι) (k : ι) (q : Nat) : Int :=
  ∑ i, waits k q (vat i) (acceptor i)

/-- Where the parked Accepts arrived, after an event on connection `k`. -/
def acceptors (vat vat' : Vat) (k : ι) (acceptor : Fin CAPN_RPC_MAX_PROVISIONS → Option ι) :
    Fin CAPN_RPC_MAX_PROVISIONS → Option ι :=
  fun i => if (vat' i).any (·.embargoed) ∧ ¬ (vat i).any (·.embargoed) then some k else acceptor i

def History.step (h : History ι) (e : ι × Event) : History ι where
  world := h.world.step e
  asked := fun k q => h.asked k q + if k = e.1 then (asks e.2).count q else 0
  returned := fun k q => h.returned k q + if k = e.1 then (returnsOf (h.world.sent e)).count q else 0
  acceptor := acceptors h.world.vat (h.world.step e).vat e.1 h.acceptor

/-- The questions asked are those answered and those that wait. -/
def Balanced (h : History ι) : Prop :=
  ∀ k q, h.asked k q = h.returned k q + (h.world.conns k).waiting q + Vat.waiting h.world.vat h.acceptor k q

/-- The results of a Call fit, and a Disembargo lifts the embargo of an Accept that
arrived on its own connection. -/
def Answerable (h : History ι) (e : ι × Event) : Prop :=
  ∀ env m, e.2 = .recv env m → env.Small ∧ Fits env (h.world.conns e.1) m ∧
    ∀ target qid, m = .disembargo target (.provide qid) → ∀ i, liftable h.world.vat qid = some i →
      h.acceptor i = some e.1

/-! ## Sets of parts -/

/-- A set of parts: those seen are counted, and among those there are. -/
structure Join.Ok (j : Join) : Prop where
  size : j.partCount ≤ CAPN_RPC_MAX_JOIN_PARTS
  parts : ∀ i, j.seen i = true → (i : Nat) < j.partCount
  count : (j.nseen : Int) = ∑ i, if j.seen i then 1 else 0

/-- A list of slots, counted. -/
theorem countP_finRange {n : Nat} (p : Fin n → Bool) :
    (((List.finRange n).countP p : Nat) : Int) = ∑ i, if p i then 1 else 0 := by
  have hlist : ∀ l : List (Fin n), ((l.countP p : Nat) : Int) = (l.map fun i => if p i then (1 : Int) else 0).sum := by
    intro l
    induction l with
    | nil => rfl
    | cons i l ih =>
      rw [List.countP_cons, List.map_cons, List.sum_cons, ← ih]
      split
      · push_cast
        omega
      · push_cast
        omega
  rw [Fin.sum_univ_def]
  exact hlist _

theorem park_ok {j : Join} (h : j.Ok) {i : Fin CAPN_RPC_MAX_JOIN_PARTS} (hi : j.seen i = false)
    (hlt : (i : Nat) < j.partCount) (qid : Nat) (eid : Option ExportId) : (j.park i qid eid).Ok := by
  refine ⟨h.size, fun k hk => ?_, ?_⟩
  · by_cases hki : k = i
    · rw [hki]
      exact hlt
    · simp only [Join.park, if_neg hki] at hk
      exact h.parts k hk
  · rw [Table.sum_change (f := fun k => if j.seen k then 1 else 0) i fun k hki => by
      simp only [Join.park, if_neg hki], ← h.count]
    simp only [Join.park, hi, if_true]
    push_cast
    simp

theorem park_waiting {j : Join} {i : Fin CAPN_RPC_MAX_JOIN_PARTS} (hi : j.seen i = false) (qid : Nat)
    (eid : Option ExportId) (q : Nat) : (j.park i qid eid).waiting q = j.waiting q + if qid = q then 1 else 0 := by
  rw [Join.waiting, Table.sum_change (f := fun k => if j.seen k ∧ j.qids k = q then 1 else 0) i fun k hki => by
    simp only [Join.park, if_neg hki], Join.waiting]
  simp [Join.park, hi]

/-- In a complete set every part was seen. -/
theorem seen_of_complete {j : Join} (h : j.Ok) (hn : j.nseen = j.partCount) {i : Fin CAPN_RPC_MAX_JOIN_PARTS}
    (hi : (i : Nat) < j.partCount) : j.seen i = true := by
  by_contra hseen
  have hcard : (Finset.univ.filter fun k => j.seen k = true).card = j.partCount := by
    have hc := h.count
    rw [Finset.sum_boole] at hc
    rw [← hn]
    exact_mod_cast hc.symm
  have hsub : (Finset.univ.filter fun k => j.seen k = true).map Fin.valEmbedding ⊆
      (Finset.range j.partCount).erase i := by
    intro n hmem
    obtain ⟨k, hk, rfl⟩ := Finset.mem_map.mp hmem
    have hk' : j.seen k = true := (Finset.mem_filter.mp hk).2
    refine Finset.mem_erase.mpr ⟨fun e => hseen ?_, Finset.mem_range.mpr (h.parts k hk')⟩
    rw [← Fin.ext (show (k : Nat) = i from e)]
    exact hk'
  have hle := Finset.card_le_card hsub
  rw [Finset.card_map, hcard, Finset.card_erase_of_mem (Finset.mem_range.mpr hi), Finset.card_range] at hle
  omega

/-- The answers to a complete set are for the parts that wait. -/
theorem count_complete {j : Join} (h : j.Ok) (hn : j.nseen = j.partCount) (q : Nat) :
    (((j.parts.map j.qids).count q : Nat) : Int) = j.waiting q := by
  rw [List.count_eq_countP, List.countP_map, Join.parts, List.countP_filter, countP_finRange, Join.waiting]
  refine Finset.sum_congr rfl fun i _ => ?_
  refine if_congr ?_ rfl rfl
  rw [Bool.and_eq_true, decide_eq_true_eq, Function.comp_apply, beq_iff_eq]
  constructor
  · rintro ⟨hq, hi⟩
    exact ⟨seen_of_complete h hn hi, hq⟩
  · rintro ⟨hs, hq⟩
    exact ⟨hq, h.parts i hs⟩

/-! ## What waits after an event -/

/-- The sets of a connection count their parts. -/
def JoinsOk (c : Conn) : Prop := ∀ slot j, c.joins slot = some j → j.Ok

/-- A set that a part is added to, before and with the part. -/
theorem accepted_ok {c : Conn} (h : JoinsOk c) {keyPart : Option JoinKeyPart} {slot : Fin CAPN_RPC_MAX_JOINS}
    {j : Join} {i : Fin CAPN_RPC_MAX_JOIN_PARTS} (hacc : accepted c keyPart = some (slot, j, i)) (qid : Nat)
    (eid : Option ExportId) : (j.park i qid eid).Ok ∧
      (∀ q, (j.park i qid eid).waiting q = (c.joins slot).elim 0 (·.waiting q) + if qid = q then 1 else 0) := by
  obtain ⟨hseen, hlt, hsize, hold⟩ := accepted_some hacc
  rcases hold with hold | ⟨hnone, hnew⟩
  · refine ⟨park_ok (h slot j hold) hseen hlt qid eid, fun q => ?_⟩
    rw [park_waiting hseen, hold]
    rfl
  · have hok : j.Ok := by
      rw [hnew]
      refine ⟨hsize, fun i hi => ?_, ?_⟩
      · cases hi
      · simp
    refine ⟨park_ok hok hseen hlt qid eid, fun q => ?_⟩
    have hzero : j.waiting q = 0 := by
      rw [hnew, Join.waiting]
      simp
    rw [park_waiting hseen, hnone, hzero]
    rfl

/-- **A Join** waits, or answers its set. -/
theorem join_waiting {env : Env} {c : Conn} {vat : Vat} (hj : JoinsOk c) (qid : Nat) (target : Option MessageTarget)
    (keyPart : Option JoinKeyPart) :
    JoinsOk (capnRpcHandle env c vat (.join qid target keyPart)).conn ∧
      ∀ q, (if qid = q then 1 else 0 : Int) + c.waiting q =
        ((due c vat (.join qid target keyPart)).count q : Nat) +
          (capnRpcHandle env c vat (.join qid target keyPart)).conn.waiting q := by
  have hrun : capnRpcHandle env c vat (.join qid target keyPart) =
    handleJoin env { conn := c, vat := vat } qid target keyPart := rfl
  rw [hrun]
  obtain ⟨hacc, id, e⟩ | ⟨slot, j, i, hacc, e⟩ := handleJoin_cases env { conn := c, vat := vat } qid target keyPart
  · replace hacc : accepted c keyPart = none := hacc
    have hconn : (handleJoin env { conn := c, vat := vat } qid target keyPart).conn = c := by
      rw [e, sendJoinResult, sendMessage_conn]
    rw [hconn, due, hacc]
    refine ⟨hj, fun q => ?_⟩
    rw [List.count_singleton]
    split <;> simp_all
  · replace hacc : accepted c keyPart = some (slot, j, i) := hacc
    obtain ⟨hok, hwait⟩ := accepted_ok hj hacc qid (resolveTarget c target)
    simp only at e
    rw [due, hacc]
    simp only
    generalize j.park i qid (resolveTarget c target) = j' at e hok hwait ⊢
    split at e
    · rename_i hn
      have hjoins : (handleJoin env { conn := c, vat := vat } qid target keyPart).conn.joins = c.joins.set slot none := by
        rw [e, joinComplete_joins, Table.set_set]
      rw [if_pos hn]
      refine ⟨fun s k hk => ?_, fun q => ?_⟩
      · rw [hjoins] at hk
        by_cases hs : s = slot
        · rw [hs, Table.set_same] at hk
          cases hk
        · rw [Table.set_ne _ _ hs] at hk
          exact hj s k hk
      · rw [count_complete hok hn, hwait, Conn.waiting, Conn.waiting, hjoins, Table.total_set]
        show _ = _ + (_ - _ + 0)
        omega
    · rename_i hn
      have hjoins : (handleJoin env { conn := c, vat := vat } qid target keyPart).conn.joins =
          c.joins.set slot (some j') := by rw [e]
      rw [if_neg hn]
      refine ⟨fun s k hk => ?_, fun q => ?_⟩
      · rw [hjoins] at hk
        by_cases hs : s = slot
        · rw [hs, Table.set_same] at hk
          cases hk
          exact hok
        · rw [Table.set_ne _ _ hs] at hk
          exact hj s k hk
      · rw [Conn.waiting, Conn.waiting, hjoins, Table.total_set]
        show _ = ((0 : Nat) : Int) + (_ - _ + j'.waiting q)
        rw [hwait]
        omega

/-- The Accepts that wait after one provision changed. -/
theorem waiting_set (vat : Vat) (i : Fin CAPN_RPC_MAX_PROVISIONS) (p : Option Provision) (k j : ι) (q : Nat)
    (acceptor : Fin CAPN_RPC_MAX_PROVISIONS → Option ι) :
    Vat.waiting (vat.set i p) (acceptors vat (vat.set i p) k acceptor) j q =
      Vat.waiting vat acceptor j q - waits j q (vat i) (acceptor i) +
        waits j q p (if p.any (·.embargoed) ∧ ¬ (vat i).any (·.embargoed) then some k else acceptor i) := by
  rw [Vat.waiting, Table.sum_change (f := fun n => waits j q (vat n) (acceptor n)) i fun n hn => by
    simp only [acceptors, Table.set_ne _ _ hn, and_not_self, if_false], Vat.waiting]
  simp only [acceptors, Table.set_same]

omit [DecidableEq ι] in
theorem acceptors_self (vat : Vat) (k : ι) (acceptor : Fin CAPN_RPC_MAX_PROVISIONS → Option ι) :
    acceptors vat vat k acceptor = acceptor := by
  funext i
  simp only [acceptors, and_not_self, if_false]

/-- An event on connection `k` keeps the account of the Accepts that wait: what it asks
is answered or waits, and other connections' Accepts are left alone. -/
def Accounts (k : ι) (vat vat' : Vat) (acceptor : Fin CAPN_RPC_MAX_PROVISIONS → Option ι) (asked answered : List Nat) :
    Prop :=
  (∀ q, (asked.count q : Int) + Vat.waiting vat acceptor k q =
    answered.count q + Vat.waiting vat' (acceptors vat vat' k acceptor) k q) ∧
    ∀ j q, j ≠ k → Vat.waiting vat' (acceptors vat vat' k acceptor) j q = Vat.waiting vat acceptor j q

/-- The provisions are as before, and the question is answered. -/
theorem accounts_same (k : ι) (vat : Vat) (acceptor : Fin CAPN_RPC_MAX_PROVISIONS → Option ι) (asked : List Nat) :
    Accounts k vat vat acceptor asked asked := by
  rw [Accounts, acceptors_self]
  exact ⟨fun _ => rfl, fun _ _ _ => rfl⟩

/-- A provision that nobody waits for changes, to one that nobody waits for. -/
theorem accounts_quiet (k : ι) {vat : Vat} (acceptor : Fin CAPN_RPC_MAX_PROVISIONS → Option ι) (asked : List Nat)
    (i : Fin CAPN_RPC_MAX_PROVISIONS) (p : Option Provision) (hi : ¬ (vat i).any (·.embargoed) = true)
    (hp : ¬ p.any (·.embargoed) = true) : Accounts k vat (vat.set i p) acceptor asked asked := by
  have hquiet : ∀ (j : ι) (q : Nat) (p : Option Provision) (a : Option ι), ¬ p.any (·.embargoed) = true →
      waits j q p a = 0 := by
    intro j q p a h
    cases p with
    | none => rfl
    | some p => exact if_neg fun hw => h hw.1
  refine ⟨fun q => ?_, fun j q _ => ?_⟩
  · rw [waiting_set, hquiet _ _ _ _ hi, hquiet _ _ _ _ hp]
    omega
  · rw [waiting_set, hquiet _ _ _ _ hi, hquiet _ _ _ _ hp]
    omega

theorem vat_accounts {env : Env} {c : Conn} {vat : Vat} {k : ι} {m : Message}
    {acceptor : Fin CAPN_RPC_MAX_PROVISIONS → Option ι} (hjoin : ∀ qid target keyPart, m ≠ .join qid target keyPart)
    (hlift : ∀ target qid, m = .disembargo target (.provide qid) → ∀ i, liftable vat qid = some i →
      acceptor i = some k) :
    Accounts k vat (capnRpcHandle env c vat m).vat acceptor (asks (.recv env m)) (due c vat m) := by
  have hother : (∀ qid target recipient, m ≠ .provide qid target recipient) →
      (∀ qid provision embargo, m ≠ .accept qid provision embargo) →
      (∀ target qid, m ≠ .disembargo target (.provide qid)) → asks (.recv env m) = due c vat m →
      Accounts k vat (capnRpcHandle env c vat m).vat acceptor (asks (.recv env m)) (due c vat m) := by
    intro hp ha hd e
    have hvat : (capnRpcHandle env c vat m).vat = vat :=
      vat_event c vat (.recv env m) (fun _ q t r h => hp q t r (Event.recv.inj h).2)
        (fun _ q t r h => ha q t r (Event.recv.inj h).2) (fun _ t q h => hd t q (Event.recv.inj h).2)
    rw [hvat, e]
    exact accounts_same k vat acceptor _
  cases m with
  | join qid target keyPart => exact absurd rfl (hjoin qid target keyPart)
  | provide qid target recipient =>
    show Accounts k vat (handleProvide env { conn := c, vat := vat } qid target recipient).vat acceptor [qid] [qid]
    obtain ⟨reason, e, -⟩ | ⟨eid, x, nonce, i, -, -, -, hfree, e⟩ :=
      handleProvide_cases env { conn := c, vat := vat } qid target recipient
    · rw [e, sendReturnException, sendMessage_vat]
      exact accounts_same k vat acceptor _
    · replace hfree : vat.free = some i := hfree
      rw [e, sendEmptyReturn, sendAnswer_vat]
      refine accounts_quiet k acceptor _ i _ ?_ Bool.false_ne_true
      rw [Table.free_some hfree]
      decide
  | accept qid provision embargo =>
    show Accounts k vat (handleAccept env { conn := c, vat := vat } qid provision embargo).vat acceptor [qid]
      (if embargo ∧ claims c vat provision then [] else [qid])
    obtain ⟨reason, e, hr, hnone⟩ | ⟨nonce, i, p, eid, conn, rfl, hf, hp, he, e⟩ :=
      handleAccept_cases env { conn := c, vat := vat } qid provision embargo
    · rw [e, claims_none hnone, if_neg (fun h => absurd h.2 (by decide)), sendReturnException, sendMessage_vat]
      exact accounts_same k vat acceptor _
    · replace hp : vat i = some p := hp
      obtain ⟨p', hp', hemb, -⟩ := claimable_some hf
      replace hp' : vat i = some p' := hp'
      rw [hp] at hp'
      cases hp'
      have hquiet : ¬ (vat i).any (·.embargoed) = true := by
        rw [hp, Option.any_some, hemb]
        decide
      rw [e, claims_some hf hp he]
      cases embargo with
      | false =>
        show Accounts k vat (sendAcceptedCap env { conn := conn, vat := vat.set i none } qid eid).vat acceptor [qid] [qid]
        rw [sendAcceptedCap, sendAnswer_vat]
        exact accounts_quiet k acceptor _ i none hquiet (by decide)
      | true =>
        -- the Accept waits under its own id
        show Accounts k vat (vat.set i (some { p with exportId := eid, embargoed := true, acceptQuestionId := qid }))
          acceptor [qid] []
        have hold : ∀ j q, waits j q (vat i) (acceptor i) = 0 := by
          intro j q
          rw [hp]
          exact if_neg fun h => by rw [hemb] at h; exact absurd h.1 (by decide)
        refine ⟨fun q => ?_, fun j q hj => ?_⟩
        · rw [waiting_set, hold, if_pos ⟨rfl, hquiet⟩, List.count_singleton]
          simp [waits]
          omega
        · rw [waiting_set, hold, if_pos ⟨rfl, hquiet⟩]
          simp [waits, Ne.symm hj]
  | disembargo target context =>
    cases context with
    | provide questionId =>
      show Accounts k vat (releaseProvideEmbargo env { conn := c, vat := vat } questionId).vat acceptor []
        (((liftable vat questionId).bind fun i => vat i).map (·.acceptQuestionId)).toList
      obtain ⟨hf, e⟩ | ⟨i, p, hf, hp, e⟩ := releaseProvideEmbargo_cases env { conn := c, vat := vat } questionId
      · replace hf : liftable vat questionId = none := hf
        rw [e, hf]
        exact accounts_same k vat acceptor []
      · replace hf : liftable vat questionId = some i := hf
        replace hp : vat i = some p := hp
        obtain ⟨p', hp', hemb, -⟩ := liftable_some hf
        rw [hp] at hp'
        cases hp'
        have hacc := hlift target questionId rfl i hf
        rw [e, hf, Option.bind_some, hp, sendAcceptedCap, sendAnswer_vat]
        show Accounts k vat (vat.set i none) acceptor [] [p.acceptQuestionId]
        refine ⟨fun q => ?_, fun j q hj => ?_⟩
        · rw [waiting_set, hp, hacc, List.count_singleton]
          simp [waits, hemb]
        · rw [waiting_set, hp, hacc]
          simp [waits, Ne.symm hj]
    | senderLoopback id => exact hother (by simp) (by simp) (by simp) rfl
    | receiverLoopback id => exact hother (by simp) (by simp) (by simp) rfl
    | accept => exact hother (by simp) (by simp) (by simp) rfl
  | bootstrap qid => exact hother (by simp) (by simp) (by simp) rfl
  | call qid target interfaceId methodId params => exact hother (by simp) (by simp) (by simp) rfl
  | finish qid => exact hother (by simp) (by simp) (by simp) rfl
  | release id referenceCount => exact hother (by simp) (by simp) (by simp) rfl
  | ret => exact hother (by simp) (by simp) (by simp) rfl
  | resolve => exact hother (by simp) (by simp) (by simp) rfl
  | obsolete => exact hother (by simp) (by simp) (by simp) rfl

/-! ## Runs -/

/-- What is known after every event: the account is balanced, and the sets are fine. -/
structure Settled (h : History ι) : Prop where
  balanced : Balanced h
  joins : ∀ k, JoinsOk (h.world.conns k)

/-- The questions that an event is to answer. -/
def owes (c : Conn) (vat : Vat) : Event → List Nat
  | .recv _ m => due c vat m
  | _ => []

/-- An event on connection `k` conserves the questions of `k`, and leaves those of other
connections alone. -/
structure Conserves (h : History ι) (k : ι) (e : Event) (c' : Conn) (vat' : Vat) : Prop where
  joins : JoinsOk c'
  same : ∀ q, ((asks e).count q : Int) + (h.world.conns k).waiting q + Vat.waiting h.world.vat h.acceptor k q =
    (owes (h.world.conns k) h.world.vat e).count q + c'.waiting q +
      Vat.waiting vat' (acceptors h.world.vat vat' k h.acceptor) k q
  others : ∀ j q, j ≠ k → Vat.waiting vat' (acceptors h.world.vat vat' k h.acceptor) j q =
    Vat.waiting h.world.vat h.acceptor j q

/-- A Disembargo on connection `k` lifts the embargo of an Accept that arrived on `k`. -/
def LiftsOwn (h : History ι) (k : ι) : Event → Prop
  | .recv _ (.disembargo _ (.provide qid)) => ∀ i, liftable h.world.vat qid = some i → h.acceptor i = some k
  | _ => True

theorem conserves_event {h : History ι} {k : ι} {e : Event} (hs : JoinsOk (h.world.conns k)) (hok : LiftsOwn h k e) :
    Conserves h k e (e.run (h.world.conns k) h.world.vat).conn (e.run (h.world.conns k) h.world.vat).vat := by
  -- without a Join, the sets stay
  have hplain : (∀ env qid target keyPart, e ≠ .recv env (.join qid target keyPart)) →
      Accounts k h.world.vat (e.run (h.world.conns k) h.world.vat).vat h.acceptor (asks e)
        (owes (h.world.conns k) h.world.vat e) →
      Conserves h k e (e.run (h.world.conns k) h.world.vat).conn (e.run (h.world.conns k) h.world.vat).vat := by
    intro hnot hacc
    have hj := joins_event (h.world.conns k) h.world.vat e hnot
    refine ⟨fun s j hsj => hs s j (by rwa [hj] at hsj), fun q => ?_, hacc.2⟩
    have hq := hacc.1 q
    rw [Conn.waiting, Conn.waiting, hj]
    omega
  cases e with
  | exportCap server dispatch =>
    refine hplain nofun ?_
    have hvat : (Event.run (h.world.conns k) h.world.vat (.exportCap server dispatch)).vat = h.world.vat :=
      vat_event _ _ _ nofun nofun nofun
    rw [hvat]
    exact accounts_same k _ _ []
  | setBootstrap bootstrap => exact hplain nofun (accounts_same k _ _ [])
  | recv env m =>
    by_cases hjoin : ∃ qid target keyPart, m = .join qid target keyPart
    · obtain ⟨qid, target, keyPart, rfl⟩ := hjoin
      obtain ⟨hok', hcount⟩ := @join_waiting env _ h.world.vat hs qid target keyPart
      have hvat : (Event.run (h.world.conns k) h.world.vat (.recv env (.join qid target keyPart))).vat = h.world.vat :=
        vat_event _ _ _ nofun nofun nofun
      rw [hvat]
      refine ⟨hok', fun q => ?_, fun j q _ => by rw [acceptors_self]⟩
      have hq := hcount q
      rw [acceptors_self]
      simp only [asks, owes, List.count_singleton, beq_iff_eq, Event.run]
      split
      · rw [if_pos ‹_›] at hq
        omega
      · rw [if_neg ‹_›] at hq
        omega
    · have hnot : ∀ qid target keyPart, m ≠ .join qid target keyPart := fun q t kp h => hjoin ⟨q, t, kp, h⟩
      refine hplain (fun env' q t kp h => hnot q t kp (Event.recv.inj h).2) (vat_accounts hnot ?_)
      intro target qid hm
      subst hm
      exact hok

/-- No question is answered that is not owed an answer. -/
theorem returns_le (c : Conn) (vat : Vat) (e : Event) (hs : ∀ env m, e = .recv env m → env.Small) (q : Nat) :
    (returnsOf (e.run c vat).sent).count q ≤ (owes c vat e).count q := by
  cases e with
  | exportCap server dispatch =>
    rw [Event.run]
    split <;> exact Nat.zero_le _
  | setBootstrap bootstrap => exact Nat.zero_le _
  | recv env m =>
    by_cases hf : Fits env c m
    · exact Nat.le_of_eq (congrArg (List.count q) ((returns_due (hs env m rfl) m).mpr hf))
    · cases m with
      | call qid target interfaceId methodId params =>
        show (returnsOf (handleCall env { conn := c, vat := vat } qid target interfaceId methodId params).sent).count q ≤
          [qid].count q
        rcases handleCall_sent env { conn := c, vat := vat } qid target interfaceId methodId params with
          h | ⟨x, -, -, hsent⟩
        · rw [h.1.returns (hs env _ rfl)]
          exact Nat.le_refl _
        · rw [hsent, emit]
          split
          · exact Nat.zero_le _
          · exact Nat.le_refl _
      | _ => exact absurd trivial hf

/-- **One event** keeps the account. -/
theorem settled_step {h : History ι} {e : ι × Event} (hs : Settled h) (hok : Answerable h e) :
    Settled (h.step e) := by
  obtain ⟨k, e⟩ := e
  have hlift : LiftsOwn h k e := by
    unfold LiftsOwn
    split
    · rename_i env target qid
      exact (hok env _ rfl).2.2 target qid rfl
    · trivial
  have howes : returnsOf (h.world.sent (k, e)) = owes (h.world.conns k) h.world.vat e := by
    cases e with
    | exportCap server dispatch =>
      rw [World.sent, Event.run]
      split <;> rfl
    | setBootstrap bootstrap => rfl
    | recv env m => exact (returns_due (hok env m rfl).1 m).mpr (hok env m rfl).2.1
  obtain ⟨hjoins, hsame, hothers⟩ := conserves_event (hs.joins k) hlift
  refine ⟨fun j q => ?_, fun j => ?_⟩
  · have hb := hs.balanced j q
    by_cases hj : j = k
    · subst hj
      have hq := hsame q
      simp only [History.step, if_true, step_conns_same, step_vat, howes]
      omega
    · simp only [History.step, if_neg hj, step_conns_ne h.world e hj, step_vat, hothers j q hj]
      omega
  · by_cases hj : j = k
    · subst hj
      simp only [History.step, step_conns_same]
      exact hjoins
    · simp only [History.step, step_conns_ne h.world e hj]
      exact hs.joins j

theorem settled_init : Settled ({} : History ι) := by
  refine ⟨fun k q => ?_, fun k slot j h => by cases h⟩
  simp [Conn.waiting, Table.total, Vat.waiting, waits]

end

/-- **Every question gets one Return**: over a run that is answerable, the questions asked on
a connection are those answered and those that wait, and the next message gets the
Returns that are due, once each, exactly if the results of a Call fit. -/
theorem questions_answered {ι : Type} [DecidableEq ι] {h : History ι} (hrun : Runs History.step Answerable {} h) :
    Balanced h ∧ ∀ k env m, env.Small →
      (returnsOf (h.world.sent (k, .recv env m)) = due (h.world.conns k) h.world.vat m ↔
        Fits env (h.world.conns k) m) :=
  ⟨(hrun.inv (fun _ _ => settled_step) settled_init).balanced, fun _ _ m hs => returns_due hs m⟩

/-! ## Two runs -/

theorem quietEnv_small : quietEnv.Small := fun _ _ => show (256 : Nat) ≤ CAPN_RPC_MAX_ANSWER_BYTES by decide

theorem answerable_quiet (h : History Unit) (m : Message) (hm : ∀ target qid, m ≠ .disembargo target (.provide qid)) :
    Answerable h ((), .recv quietEnv m) := by
  intro env m' e
  cases e
  refine ⟨quietEnv_small, ?_, fun target qid e => absurd e (hm target qid)⟩
  cases m with
  | call qid target interfaceId methodId params =>
    exact fun _ _ _ => show (256 : Nat) ≤ CAPN_RPC_MAX_ANSWER_BYTES by decide
  | _ => trivial

/-- Two parts of a Join on the Bootstrap capability. -/
theorem questions_answered_join : ∃ h : History Unit, Runs History.step Answerable {} h ∧
    h.asked () 2 = 1 ∧ h.returned () 2 = 1 ∧ Balanced h ∧ ∀ k env m, env.Small →
      (returnsOf (h.world.sent (k, .recv env m)) = due (h.world.conns k) h.world.vat m ↔
        Fits env (h.world.conns k) m) := by
  have h₁ : Runs History.step Answerable {} (History.step ({} : History Unit) ((), .setBootstrap (some (1, 1)))) :=
    .tail .refl nofun
  have h₂ := h₁.tail (answerable_quiet _ (.bootstrap 1) nofun)
  have h₃ := h₂.tail (answerable_quiet _ (.join 2 (some (.importedCap 0)) (some ⟨5, 2, 0⟩)) nofun)
  have h₄ := h₃.tail (answerable_quiet _ (.join 3 (some (.importedCap 0)) (some ⟨5, 2, 1⟩)) nofun)
  exact ⟨_, h₄, by decide +kernel, by decide +kernel, questions_answered h₄⟩

/-- A server whose results take 9000 bytes. -/
def largeEnv : Env where
  dispatch _ _ _ _ _ := (0, fun _ => .struct)
  send _ := 0
  frameSize
    | .ret _ (.results pl) => match pl.content [] with
      | .struct => 9000
      | _ => 256
    | _ => 256

theorem largeEnv_small : largeEnv.Small := by
  intro msg hm
  have hsmall : 256 ≤ CAPN_RPC_MAX_ANSWER_BYTES := by decide
  cases msg with
  | disembargo target context => exact hsmall
  | unimplemented orig => exact hsmall
  | ret qid body =>
    cases body with
    | joinResult joinId succeeded capTable => exact hsmall
    | exception reason => exact hsmall
    | results pl =>
      obtain ⟨content, capTable⟩ := pl
      rcases hm with ⟨eid, he⟩ | ⟨-, he⟩
      · cases he
        exact hsmall
      · cases he
        exact hsmall

/-- A Call whose results are too large is not answered. -/
theorem questions_answered_fails : largeEnv.Small ∧
    let w := World.after ({} : World Unit) [((), .setBootstrap (some (1, 1))), ((), .recv largeEnv (.bootstrap 1))]
    let m : Message := .call 2 (some (.importedCap 0)) 0 0 ⟨fun _ => .other, []⟩
    returnsOf (w.sent ((), .recv largeEnv m)) = [] ∧ due (w.conns ()) w.vat m = [2] :=
  ⟨largeEnv_small, by decide +kernel⟩

end Capnproto.Rpc

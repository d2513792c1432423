import Capnproto.Rpc.Returns

/-!
# Embargoes

An Accept that matches a provision is answered at once, or parked until its
embargo is lifted. `Handed` is what a message is to do to the provisions, and
`Lifts` is when it does: the Disembargo finds the provision of its own connection,
whose Accept arrived there too.
-/

namespace Capnproto.Rpc

section

variable {ι : Type} [DecidableEq ι]

/-- A run, with the connections on which the provisions were made. -/
structure Handoffs (ι : Type) where
  history : History ι := {}
  provider : Fin CAPN_RPC_MAX_PROVISIONS → Option ι := fun _ => none

/-- Where the provisions were made, after an event on connection `k`. -/
def providers (vat vat' : Vat) (k : ι) (provider : Fin CAPN_RPC_MAX_PROVISIONS → Option ι) :
    Fin CAPN_RPC_MAX_PROVISIONS → Option ι :=
  fun i => if (vat' i).isSome ∧ (vat i).isNone then some k else provider i

def Handoffs.step (h : Handoffs ι) (e : ι × Event) : Handoffs ι where
  history := h.history.step e
  provider := providers h.history.world.vat (h.history.world.step e).vat e.1 h.provider

/-- One Return is sent, with a capability that is exported. -/
def Grants (sent : List Outgoing) (c : Conn) (qid : Nat) : Prop :=
  ∃ eid, sent = [.ret qid (.results (capPayload eid))] ∧ (c.exports eid).isSome = true

/-- What a message on connection `k` is to do to the provisions: `h'` is the state after
it. An Accept that matches is answered, or parked; a Disembargo from the provider
answers the Accept that is parked; nothing else touches an Accept that is parked. -/
structure Handed (h h' : Handoffs ι) (k : ι) (m : Message) (sent : List Outgoing) : Prop where
  claimed : ∀ qid nonce embargo i p, m = .accept qid (some nonce) embargo →
    claimable h.history.world.vat nonce = some i → h.history.world.vat i = some p →
    if embargo then
      sent = [] ∧ h'.history.acceptor i = some k ∧ h'.provider i = h.provider i ∧
        ∃ eid, h'.history.world.vat i =
          some { p with exportId := eid, embargoed := true, acceptQuestionId := qid }
    else h'.history.world.vat i = none ∧ Grants sent (h'.history.world.conns k) qid
  released : ∀ target qid i p, m = .disembargo target (.provide qid) → h.history.world.vat i = some p →
    p.embargoed = true → p.questionId = qid → h.provider i = some k →
    h.history.acceptor i = some k ∧ h'.history.world.vat i = none ∧
      Grants sent (h'.history.world.conns k) p.acceptQuestionId
  kept : ∀ i p, h.history.world.vat i = some p → p.embargoed = true →
    ¬ (h.provider i = some k ∧ ∃ target, m = .disembargo target (.provide p.questionId)) →
    h'.history.world.vat i = some p ∧ h'.history.acceptor i = h.history.acceptor i ∧ h'.provider i = h.provider i

/-- The message meets what the code counts on: an Accept that matches finds a slot for its
export; the parked Accept that a Disembargo finds first arrived on the Disembargo's
connection, which made its provision, its export is still used, and no other provision
of that connection is parked under the same question. -/
def Lifts (h : Handoffs ι) (k : ι) : Message → Prop
  | .accept _ (some nonce) _ => ∀ i, claimable h.history.world.vat nonce = some i →
    claims (h.history.world.conns k) h.history.world.vat (some nonce) = true
  | .disembargo _ (.provide qid) => ∀ i p, liftable h.history.world.vat qid = some i → h.history.world.vat i = some p →
    h.provider i = some k ∧ h.history.acceptor i = some k ∧
      ((h.history.world.conns k).exports p.exportId).isSome = true ∧
      ∀ j q, h.history.world.vat j = some q → q.embargoed = true → q.questionId = qid → h.provider j = some k → j = i
  | _ => True

/-- No question is answered more often than it was asked, counting those that wait. -/
def AtMostOnce (h : History ι) : Prop :=
  ∀ k q, h.returned k q + (h.world.conns k).waiting q + Vat.waiting h.world.vat h.acceptor k q ≤ h.asked k q

/-! ## What one message does -/

theorem handoffs_vat (h : Handoffs ι) (k : ι) (env : Env) (m : Message) :
    (h.step (k, .recv env m)).history.world.vat = (capnRpcHandle env (h.history.world.conns k) h.history.world.vat m).vat :=
  rfl

theorem handoffs_conn (h : Handoffs ι) (k : ι) (env : Env) (m : Message) :
    (h.step (k, .recv env m)).history.world.conns k =
      (capnRpcHandle env (h.history.world.conns k) h.history.world.vat m).conn := step_conns_same _ k _

/-- A provision that stays keeps where it came from. -/
theorem handoffs_kept {h : Handoffs ι} {k : ι} {env : Env} {m : Message} {i : Fin CAPN_RPC_MAX_PROVISIONS}
    {p : Provision} (hp : h.history.world.vat i = some p)
    (hp' : (h.step (k, .recv env m)).history.world.vat i = some p) :
    (h.step (k, .recv env m)).history.acceptor i = h.history.acceptor i ∧
      (h.step (k, .recv env m)).provider i = h.provider i := by
  constructor
  · show acceptors h.history.world.vat (h.step (k, .recv env m)).history.world.vat k h.history.acceptor i = _
    rw [acceptors, hp, hp']
    exact if_neg fun hn => hn.2 hn.1
  · show providers h.history.world.vat (h.step (k, .recv env m)).history.world.vat k h.provider i = _
    rw [providers, hp, hp']
    exact if_neg fun hn => absurd hn.2 Bool.false_ne_true

theorem handoffs_all {h : Handoffs ι} {k : ι} {env : Env} {m : Message} {i : Fin CAPN_RPC_MAX_PROVISIONS}
    {p : Provision} (hp : h.history.world.vat i = some p)
    (hp' : (h.step (k, .recv env m)).history.world.vat i = some p) :
    (h.step (k, .recv env m)).history.world.vat i = some p ∧
      (h.step (k, .recv env m)).history.acceptor i = h.history.acceptor i ∧
      (h.step (k, .recv env m)).provider i = h.provider i := ⟨hp', handoffs_kept hp hp'⟩

theorem grants_cap {env : Env} (hs : env.Small) (l : Local) (hl : l.sent = []) (qid : Nat) (eid : ExportId)
    (he : (l.conn.exports eid).isSome = true) :
    Grants (sendAcceptedCap env l qid eid).sent (sendAcceptedCap env l qid eid).conn qid := by
  refine ⟨eid, ?_, ?_⟩
  · have hfixed : (Outgoing.ret qid (.results (capPayload eid))).Fixed := by
      show (∃ e, capPayload eid = capPayload e) ∨ _
      exact .inl ⟨eid, rfl⟩
    rw [sendAcceptedCap, sendAnswer_emit, emit_fixed hs hfixed, hl]
    rfl
  · rw [sendAcceptedCap, sendAnswer_exports]
    exact he

/-- A message that is no Accept and lifts no embargo leaves the provisions as they are. -/
theorem provisions_kept {env : Env} {c : Conn} {vat : Vat} {m : Message}
    (ha : ∀ qid provision embargo, m ≠ .accept qid provision embargo)
    (hd : ∀ target qid, m ≠ .disembargo target (.provide qid)) {i : Fin CAPN_RPC_MAX_PROVISIONS} {p : Provision}
    (hp : vat i = some p) : (capnRpcHandle env c vat m).vat i = some p := by
  by_cases hprovide : ∃ qid target recipient, m = .provide qid target recipient
  · obtain ⟨qid, target, recipient, rfl⟩ := hprovide
    show (handleProvide env { conn := c, vat := vat } qid target recipient).vat i = some p
    obtain ⟨reason, e, -⟩ | ⟨eid, x, nonce, j, -, -, -, hfree, e⟩ :=
      handleProvide_cases env { conn := c, vat := vat } qid target recipient
    · rw [e, sendReturnException, sendMessage_vat]
      exact hp
    · have hij : i ≠ j := by
        intro hij
        have hnone : vat j = none := Table.free_some hfree
        rw [← hij, hp] at hnone
        cases hnone
      rw [e, sendEmptyReturn, sendAnswer_vat]
      show vat.set j _ i = some p
      rw [Table.set_ne _ _ hij, hp]
  · have hvat : (Event.run c vat (.recv env m)).vat = vat :=
      vat_event c vat (.recv env m) (fun _ q t r h => hprovide ⟨q, t, r, (Event.recv.inj h).2⟩)
        (fun _ q t r h => ha q t r (Event.recv.inj h).2) (fun _ t q h => hd t q (Event.recv.inj h).2)
    show (Event.run c vat (.recv env m)).vat i = some p
    rw [hvat, hp]

theorem capPayload_inj {eid eid' : ExportId} (h : capPayload eid = capPayload eid') : eid = eid' := by
  have htable : [CapDescriptor.senderHosted eid] = [CapDescriptor.senderHosted eid'] := congrArg Payload.capTable h
  simpa [Fin.ext_iff] using htable

/-- **`handle_accept`** hands over what the Accept matches, or there is no slot for it. -/
theorem handed_accept {env : Env} (hs : env.Small) (h : Handoffs ι) (k : ι) (qid : Nat) (provision : Option Nat)
    (embargo : Bool) :
    Handed h (h.step (k, .recv env (.accept qid provision embargo))) k (.accept qid provision embargo)
      (h.history.world.sent (k, .recv env (.accept qid provision embargo))) ↔ Lifts h k (.accept qid provision embargo) := by
  have hrun : capnRpcHandle env (h.history.world.conns k) h.history.world.vat (.accept qid provision embargo) =
    handleAccept env { conn := h.history.world.conns k, vat := h.history.world.vat } qid provision embargo := rfl
  have hvat := handoffs_vat h k env (.accept qid provision embargo)
  have hconn := handoffs_conn h k env (.accept qid provision embargo)
  have hsent : h.history.world.sent (k, .recv env (.accept qid provision embargo)) =
    (handleAccept env { conn := h.history.world.conns k, vat := h.history.world.vat } qid provision embargo).sent := rfl
  rw [hrun] at hvat hconn
  obtain ⟨reason, e, -, hnone⟩ | ⟨nonce, i, p, eid, conn, rfl, hf, hp, he, e⟩ :=
    handleAccept_cases env { conn := h.history.world.conns k, vat := h.history.world.vat } qid provision embargo
  · -- nothing changes, which is right if nothing matches
    rw [e, sendReturnException, sendMessage_vat] at hvat
    constructor
    · intro hh
      cases provision with
      | none => trivial
      | some nonce =>
        intro i hi
        obtain ⟨p, hp, hemb, -⟩ := claimable_some hi
        have hc := hh.claimed qid nonce embargo i p rfl hi hp
        rw [hvat] at hc
        cases embargo with
        | true =>
          obtain ⟨-, -, -, eid, heid⟩ := hc
          replace heid : h.history.world.vat i = _ := heid
          rw [hp] at heid
          rw [Option.some.inj heid] at hemb
          cases hemb
        | false =>
          have hnone' : h.history.world.vat i = none := hc.1
          rw [hp] at hnone'
          cases hnone'
    · intro hl
      refine ⟨fun q nonce b i p hm hi hp => ?_, by simp, fun i p hp _ _ => handoffs_all hp (by rw [hvat]; exact hp)⟩
      cases hm
      have hclaims := hl i hi
      rw [claims_none hnone] at hclaims
      cases hclaims
  · replace hf : claimable h.history.world.vat nonce = some i := hf
    replace hp : h.history.world.vat i = some p := hp
    obtain ⟨p', hp', hemb, -⟩ := claimable_some hf
    rw [hp] at hp'
    cases hp'
    refine iff_of_true ⟨fun q n b j p' hm hj hpj => ?_, by simp, fun j p' hpj hembj _ => ?_⟩ fun j hj => claims_some hf hp he
    · cases hm
      rw [hf] at hj
      cases hj
      rw [hp] at hpj
      cases hpj
      cases embargo with
      | true =>
        rw [e] at hvat
        have hi : (h.step (k, .recv env (.accept qid (some nonce) true))).history.world.vat i =
            some { p with exportId := eid, embargoed := true, acceptQuestionId := qid } := by
          rw [hvat]
          exact Table.set_same _ i _
        refine ⟨by rw [hsent, e]; rfl, ?_, ?_, eid, hi⟩
        · show acceptors h.history.world.vat _ k h.history.acceptor i = some k
          rw [acceptors, hp]
          refine if_pos ⟨?_, ?_⟩
          · exact congrArg (Option.any (·.embargoed)) hi
          · rw [Option.any_some, hemb]
            exact Bool.false_ne_true
        · show providers h.history.world.vat _ k h.provider i = h.provider i
          rw [providers, hp]
          exact if_neg fun hn => absurd hn.2 Bool.false_ne_true
      | false =>
        rw [e] at hvat hconn
        obtain ⟨e', hc, -⟩ := capnRpcExport_spec he
        refine ⟨?_, ?_⟩
        · rw [hvat]
          show (sendAcceptedCap env _ qid eid).vat i = none
          rw [sendAcceptedCap, sendAnswer_vat]
          exact Table.set_same _ i none
        · rw [hsent, e, hconn]
          refine grants_cap hs _ rfl qid eid ?_
          show (conn.exports eid).isSome = true
          rw [hc]
          exact congrArg Option.isSome (Table.set_same _ eid _)
    · have hij : j ≠ i := by
        rintro rfl
        rw [hp] at hpj
        cases hpj
        rw [hemb] at hembj
        cases hembj
      refine handoffs_all hpj ?_
      rw [hvat, e]
      cases embargo with
      | true =>
        show h.history.world.vat.set i _ j = _
        rw [Table.set_ne _ _ hij, hpj]
      | false =>
        show (sendAcceptedCap env _ qid eid).vat j = _
        rw [sendAcceptedCap, sendAnswer_vat]
        show h.history.world.vat.set i _ j = _
        rw [Table.set_ne _ _ hij, hpj]

/-- **`release_provide_embargo`** releases the Accept that waits for the provider, or finds
another. -/
theorem handed_disembargo {env : Env} (hs : env.Small) (h : Handoffs ι) (k : ι) (target : Option MessageTarget)
    (qid : Nat) :
    Handed h (h.step (k, .recv env (.disembargo target (.provide qid)))) k (.disembargo target (.provide qid))
      (h.history.world.sent (k, .recv env (.disembargo target (.provide qid)))) ↔
      Lifts h k (.disembargo target (.provide qid)) := by
  have hrun : capnRpcHandle env (h.history.world.conns k) h.history.world.vat (.disembargo target (.provide qid)) =
    releaseProvideEmbargo env { conn := h.history.world.conns k, vat := h.history.world.vat } qid := rfl
  have hvat := handoffs_vat h k env (.disembargo target (.provide qid))
  have hconn := handoffs_conn h k env (.disembargo target (.provide qid))
  have hsent : h.history.world.sent (k, .recv env (.disembargo target (.provide qid))) =
    (releaseProvideEmbargo env { conn := h.history.world.conns k, vat := h.history.world.vat } qid).sent := rfl
  rw [hrun] at hvat hconn
  obtain ⟨hf, e⟩ | ⟨i, p, hf, hp, e⟩ :=
    releaseProvideEmbargo_cases env { conn := h.history.world.conns k, vat := h.history.world.vat } qid
  · replace hf : liftable h.history.world.vat qid = none := hf
    rw [e] at hvat
    refine iff_of_true ⟨nofun, fun t q i p hm hp hemb hq _ => ?_, fun i p hp _ _ => ?_⟩ fun i p hi => ?_
    · cases hm
      have hn := Table.find_none hf hp
      rw [decide_eq_false_iff_not] at hn
      exact absurd ⟨hemb, hq⟩ hn
    · exact handoffs_all hp (by rw [hvat]; exact hp)
    · rw [hf] at hi
      cases hi
  · replace hf : liftable h.history.world.vat qid = some i := hf
    replace hp : h.history.world.vat i = some p := hp
    obtain ⟨p', hp', hemb, hqid⟩ := liftable_some hf
    rw [hp] at hp'
    cases hp'
    have hset : (h.step (k, .recv env (.disembargo target (.provide qid)))).history.world.vat =
        h.history.world.vat.set i none := by
      rw [hvat, e, sendAcceptedCap, sendAnswer_vat]
    have hgone : (h.step (k, .recv env (.disembargo target (.provide qid)))).history.world.vat i = none := by
      rw [hset, Table.set_same]
    constructor
    · intro hh j q hj hq
      rw [hf] at hj
      cases hj
      rw [hp] at hq
      cases hq
      have hprov : h.provider i = some k := by
        by_contra hne
        have hk := (hh.kept i p hp hemb fun hn => hne hn.1).1
        rw [hgone] at hk
        cases hk
      obtain ⟨hacc, -, eid, hs', hused⟩ := hh.released target qid i p rfl hp hemb hqid hprov
      refine ⟨hprov, hacc, ?_, fun j q hq hembq hqq hprovq => ?_⟩
      · have hfixed : (Outgoing.ret p.acceptQuestionId (.results (capPayload p.exportId))).Fixed := by
          show (∃ e, capPayload p.exportId = capPayload e) ∨ _
          exact .inl ⟨_, rfl⟩
        rw [hsent, e, sendAcceptedCap, sendAnswer_emit, emit_fixed hs hfixed] at hs'
        have hpl : capPayload p.exportId = capPayload eid := by
          injection hs' with hhead
          injection hhead with _ hbody
          injection hbody
        rw [hconn, e, sendAcceptedCap, sendAnswer_exports, ← capPayload_inj hpl] at hused
        exact hused
      · have hj := (hh.released target qid j q rfl hq hembq hqq hprovq).2.1
        by_contra hne
        rw [hset, Table.set_ne _ _ hne, hq] at hj
        cases hj
    · intro hl
      obtain ⟨hprov, hacc, hused, honly⟩ := hl i p hf hp
      refine ⟨nofun, fun t q j r hm hr hembr hqr hprovr => ?_, fun j r hr hembr hnot => ?_⟩
      · cases hm
        have hji := honly j r hr hembr hqr hprovr
        subst hji
        rw [hp] at hr
        cases hr
        refine ⟨hacc, hgone, ?_⟩
        rw [hsent, hconn, e]
        exact grants_cap hs _ rfl _ _ hused
      · have hji : j ≠ i := by
          rintro rfl
          rw [hp] at hr
          cases hr
          exact hnot ⟨hprov, target, by rw [hqid]⟩
        refine handoffs_all hr ?_
        rw [hset, Table.set_ne _ _ hji, hr]

/-- **A message** does to the provisions what it is to do, exactly if it meets what the
code counts on. -/
theorem handed_iff {env : Env} (hs : env.Small) (h : Handoffs ι) (k : ι) (m : Message) :
    Handed h (h.step (k, .recv env m)) k m (h.history.world.sent (k, .recv env m)) ↔ Lifts h k m := by
  have hother : (∀ qid provision embargo, m ≠ .accept qid provision embargo) →
      (∀ target qid, m ≠ .disembargo target (.provide qid)) → Lifts h k m →
      (Handed h (h.step (k, .recv env m)) k m (h.history.world.sent (k, .recv env m)) ↔ Lifts h k m) := by
    intro ha hd hl
    refine iff_of_true ⟨fun q n b i p hm => absurd hm (ha q _ b), fun t q i p hm => absurd hm (hd t q), ?_⟩ hl
    exact fun i p hp _ _ => handoffs_all hp (provisions_kept ha hd hp)
  cases m with
  | accept qid provision embargo => exact handed_accept hs h k qid provision embargo
  | disembargo target context =>
    cases context with
    | provide qid => exact handed_disembargo hs h k target qid
    | senderLoopback id => exact hother nofun nofun trivial
    | receiverLoopback id => exact hother nofun nofun trivial
    | accept => exact hother nofun nofun trivial
  | _ => exact hother nofun nofun trivial

/-! ## Runs -/

/-- The frames of an event's fixed Returns fit, and its message meets what the code
counts on. -/
def HandsOver (h : Handoffs ι) (e : ι × Event) : Prop :=
  ∀ env m, e.2 = .recv env m → env.Small ∧ Lifts h e.1 m

/-- What is known after every event. -/
structure Counted (h : History ι) : Prop where
  once : AtMostOnce h
  joins : ∀ k, JoinsOk (h.world.conns k)

theorem counted_init : Counted ({} : History ι) := by
  refine ⟨fun k q => ?_, fun k slot j h => by cases h⟩
  simp [Conn.waiting, Table.total, Vat.waiting, waits]

/-- **One event** answers no question that is not owed an answer. -/
theorem counted_step {h : Handoffs ι} {e : ι × Event} (hs : Counted h.history) (hok : HandsOver h e) :
    Counted (h.step e).history := by
  obtain ⟨k, e⟩ := e
  have hlift : LiftsOwn h.history k e := by
    unfold LiftsOwn
    split
    · rename_i env target qid
      intro i hi
      obtain ⟨p, hp, -⟩ := liftable_some hi
      exact ((hok env _ rfl).2 i p hi hp).2.1
    · trivial
  obtain ⟨hjoins, hsame, hothers⟩ := conserves_event (hs.joins k) hlift
  refine ⟨fun j q => ?_, fun j => ?_⟩
  · have hb := hs.once j q
    by_cases hj : j = k
    · subst hj
      have hq := hsame q
      have hle := returns_le (h.history.world.conns j) h.history.world.vat e (fun env m he => (hok env m he).1) q
      simp only [Handoffs.step, History.step, if_true, step_conns_same, step_vat, World.sent]
      omega
    · simp only [Handoffs.step, History.step, if_neg hj, step_conns_ne h.history.world e hj, step_vat, hothers j q hj]
      omega
  · by_cases hj : j = k
    · subst hj
      simp only [Handoffs.step, History.step, step_conns_same]
      exact hjoins
    · simp only [Handoffs.step, History.step, step_conns_ne h.history.world e hj]
      exact hs.joins j

end

/-- **An Accept** is answered at most once, on its own connection, and if it is embargoed
when the provider lifts the embargo: over any run that hands over, and for the next
message exactly if it meets what the code counts on. -/
theorem accepts_released {ι : Type} [DecidableEq ι] {h : Handoffs ι} (hrun : Runs Handoffs.step HandsOver {} h) :
    AtMostOnce h.history ∧ ∀ k env m, env.Small →
      (Handed h (h.step (k, .recv env m)) k m (h.history.world.sent (k, .recv env m)) ↔ Lifts h k m) :=
  ⟨(hrun.inv (I := fun h => Counted h.history) (fun _ _ => counted_step) counted_init).once,
    fun k _ m hs => handed_iff hs h k m⟩

/-! ## Two runs -/

/-- A connection provides its Bootstrap capability and accepts it, under an embargo. -/
def ownEmbargo : Handoffs Unit :=
  [((), .setBootstrap (some (1, 1))), ((), .recv quietEnv (.bootstrap 1)),
    ((), .recv quietEnv (.provide 2 (some (.importedCap 0)) (some 9))),
    ((), .recv quietEnv (.accept 3 (some 9) true))].foldl Handoffs.step {}

theorem ownEmbargo_vat : ownEmbargo.history.world.vat =
    (Table.empty.set 0 (some ⟨9, 1, 1, 0, 2, false, 0⟩)).set 0 (some ⟨9, 1, 1, 0, 2, true, 3⟩) := rfl

theorem ownEmbargo_only {i : Fin CAPN_RPC_MAX_PROVISIONS} {p : Provision}
    (hp : ownEmbargo.history.world.vat i = some p) : i = 0 ∧ p = ⟨9, 1, 1, 0, 2, true, 3⟩ := by
  rw [ownEmbargo_vat, Table.set_set] at hp
  by_cases hi : i = 0
  · rw [hi, Table.set_same] at hp
    exact ⟨hi, (Option.some.inj hp).symm⟩
  · rw [Table.set_ne _ _ hi] at hp
    cases hp

theorem ownEmbargo_run : Runs Handoffs.step HandsOver {} ownEmbargo := by
  have h₁ : Runs Handoffs.step HandsOver {} (Handoffs.step ({} : Handoffs Unit) ((), .setBootstrap (some (1, 1)))) :=
    .tail .refl nofun
  have h₂ := h₁.tail (e := ((), .recv quietEnv (.bootstrap 1))) fun _ _ e => by
    cases e
    exact ⟨quietEnv_small, trivial⟩
  have h₃ := h₂.tail (e := ((), .recv quietEnv (.provide 2 (some (.importedCap 0)) (some 9)))) fun _ _ e => by
    cases e
    exact ⟨quietEnv_small, trivial⟩
  exact h₃.tail (e := ((), .recv quietEnv (.accept 3 (some 9) true))) fun _ _ e => by
    cases e
    exact ⟨quietEnv_small, fun _ _ => by decide +kernel⟩

/-- Its Disembargo answers the Accept. -/
theorem accepts_released_own : ∃ h : Handoffs Unit, Runs Handoffs.step HandsOver {} h ∧
    h.history.asked () 3 = 1 ∧ h.history.returned () 3 = 1 ∧ AtMostOnce h.history ∧ ∀ k env m, env.Small →
      (Handed h (h.step (k, .recv env m)) k m (h.history.world.sent (k, .recv env m)) ↔ Lifts h k m) := by
  have hrun := ownEmbargo_run.tail (e := ((), .recv quietEnv (.disembargo none (.provide 2)))) fun _ _ e => by
    cases e
    refine ⟨quietEnv_small, fun i p _ hp => ?_⟩
    obtain ⟨rfl, rfl⟩ := ownEmbargo_only hp
    exact ⟨by decide +kernel, by decide +kernel, by decide +kernel, fun j q hq _ _ _ => (ownEmbargo_only hq).1⟩
  exact ⟨_, hrun, by decide +kernel, by decide +kernel, accepts_released hrun⟩

/-- The Accept of connection 1 on what connection 0 provides is answered on connection 0,
and a Disembargo of connection 1 under an equal question id does the same. -/
theorem accepts_released_fails :
    let w := World.after ({} : World (Fin 3)) [(0, .setBootstrap (some (1, 1))), (0, .recv quietEnv (.bootstrap 1)),
      (0, .recv quietEnv (.provide 5 (some (.importedCap 0)) (some 9))), (1, .recv quietEnv (.accept 3 (some 9) true))]
    let m : Message := .disembargo none (.provide 5)
    returnsOf (w.sent (0, .recv quietEnv m)) = [3] ∧ ((w.step (0, .recv quietEnv m)).vat 0).isNone ∧
      returnsOf (w.sent (2, .recv quietEnv m)) = [3] := by
  decide +kernel

end Capnproto.Rpc

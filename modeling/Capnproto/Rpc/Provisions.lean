import Capnproto.Rpc.Answers
import Capnproto.Rpc.Embargo

/-!
# Provisions

What a Provide offers, and which Accept claims it. A run numbers the offers,
and keeps for every slot the number of the offer in it; a claim is a slot that
an Accept could claim before an event and not after. A provision keeps to its
offer (`Bound`), so that a nonce is claimed once for every Provide with it.
-/

namespace Capnproto.Rpc

/-- The slot, the nonce and the server of a Provide that is accepted: the server that its
target resolves to. -/
def offer (c : Conn) (vat : Vat) : Message → Option (Fin CAPN_RPC_MAX_PROVISIONS × Nat × Nat)
  | .provide _ target (some nonce) => (callee c target).bind fun e => vat.free.map fun i => (i, nonce, e.server)
  | _ => none

def Event.offer (c : Conn) (vat : Vat) : Event → Option (Fin CAPN_RPC_MAX_PROVISIONS × Nat × Nat)
  | .recv _ m => Rpc.offer c vat m
  | _ => none

/-- A slot whose provision an Accept may claim. -/
def opens (vat : Vat) (i : Fin CAPN_RPC_MAX_PROVISIONS) : Bool := (vat i).any fun p => !p.embargoed

/-- The slots that were claimed between two states. -/
def claimedSlots (vat vat' : Vat) : List (Fin CAPN_RPC_MAX_PROVISIONS) :=
  (List.finRange CAPN_RPC_MAX_PROVISIONS).filter fun i => opens vat i && !opens vat' i

/-- The nonce of the Accept that an event asks. -/
def acceptNonce : Event → Option Nat
  | .recv _ (.accept _ provision _) => provision
  | _ => none

/-- A run: the offers in order, as nonces and servers, the offer in each slot, the offers
that were claimed, and the nonce of the Accept that a question id of a connection
stands for. -/
structure ProvisionRun (ι : Type) where
  world : World ι := {}
  offers : List (Nat × Nat) := []
  holder : Fin CAPN_RPC_MAX_PROVISIONS → Nat := fun _ => 0
  claimed : List Nat := []
  asker : ι → Nat → Option Nat := fun _ _ => none

/-- The Accepts that the questions of a connection stand for, after an event on it. -/
def askerAfter (asker : Nat → Option Nat) (e : Event) (q : Nat) : Option Nat :=
  if q ∈ asks e then acceptNonce e else if finishes e = some q then none else asker q

section

variable {ι : Type} [DecidableEq ι]

def ProvisionRun.step (r : ProvisionRun ι) (e : ι × Event) : ProvisionRun ι where
  world := r.world.step e
  offers := r.offers ++ ((e.2.offer (r.world.conns e.1) r.world.vat).map (·.2)).toList
  holder := fun i =>
    if (e.2.offer (r.world.conns e.1) r.world.vat).map (·.1) = some i then r.offers.length else r.holder i
  claimed := r.claimed ++ (claimedSlots r.world.vat (r.world.step e).vat).map r.holder
  asker := fun k => if k = e.1 then askerAfter (r.asker k) e.2 else r.asker k

end

/-! ## What an event does to the provisions -/

section

variable {vat : Vat} {i : Fin CAPN_RPC_MAX_PROVISIONS}

theorem claimedSlots_self (vat : Vat) : claimedSlots vat vat = [] := by
  unfold claimedSlots
  rw [List.filter_eq_nil_iff]
  intro j _
  cases opens vat j <;> decide

/-- The only slot that can be claimed is the one that changes. -/
theorem claimedSlots_set {a : Option Provision} (ha : opens (vat.set i a) i = false ∨ opens vat i = false) :
    claimedSlots vat (vat.set i a) = if opens vat i then [i] else [] := by
  have hone : ∀ j, (opens vat j && !opens (vat.set i a) j) = (decide (j = i) && opens vat i) := by
    intro j
    by_cases hj : j = i
    · subst hj
      obtain ha | ha := ha
      · rw [ha, decide_eq_true rfl, Bool.true_and, Bool.not_false, Bool.and_true]
      · rw [ha, Bool.false_and, Bool.and_false]
    · have hsame : opens (vat.set i a) j = opens vat j := by rw [opens, Table.set_ne _ _ hj, opens]
      rw [hsame, decide_eq_false hj, Bool.false_and, Bool.and_not_self]
  unfold claimedSlots
  rw [List.filter_congr fun j _ => hone j]
  cases hopen : opens vat i with
  | false =>
    rw [List.filter_eq_nil_iff.mpr fun j _ => by rw [Bool.and_false]; exact Bool.false_ne_true]
    rfl
  | true =>
    have hcount : (List.finRange CAPN_RPC_MAX_PROVISIONS).count i = 1 :=
      List.count_eq_one_of_mem (List.nodup_finRange _) (List.mem_finRange i)
    simp only [Bool.and_true, if_true]
    rw [List.filter_eq, hcount]
    rfl

theorem opens_of {p : Provision} (hp : vat i = some p) : opens vat i = !p.embargoed := by
  rw [opens, hp, Option.any_some]

/-- **A message** leaves the provisions, fills a slot with what is offered, or parks the
provision of a slot or takes it away. -/
theorem vat_cases (env : Env) (c : Conn) (vat : Vat) (m : Message) :
    ((capnRpcHandle env c vat m).vat = vat ∧ offer c vat m = none) ∨
    (∃ i nonce p, offer c vat m = some (i, nonce, p.server) ∧ vat i = none ∧ p.nonce = nonce ∧ p.embargoed = false ∧
      (capnRpcHandle env c vat m).vat = vat.set i (some p)) ∨
    ∃ i p a, vat i = some p ∧ offer c vat m = none ∧ (capnRpcHandle env c vat m).vat = vat.set i a ∧
      ∀ p', a = some p' → p'.nonce = p.nonce ∧ p'.server = p.server ∧ p'.embargoed = true := by
  by_cases hprovide : ∃ qid target recipient, m = .provide qid target recipient
  · obtain ⟨qid, target, recipient, rfl⟩ := hprovide
    have hrun : capnRpcHandle env c vat (.provide qid target recipient) =
      handleProvide env { conn := c, vat := vat } qid target recipient := rfl
    rw [hrun]
    cases hoffer : offer c vat (.provide qid target recipient) with
    | none =>
      refine .inl ⟨?_, rfl⟩
      obtain ⟨reason, e, -⟩ | ⟨eid, x, nonce, i, ht, hx, rfl, hf, -⟩ :=
        handleProvide_cases env { conn := c, vat := vat } qid target recipient
      · rw [e, sendReturnException, sendMessage_vat]
      · replace ht : resolveTarget c target = some eid := ht
        replace hx : c.exports eid = some x := hx
        replace hf : vat.free = some i := hf
        simp only [offer, callee, ht, Option.bind_some, hx, hf, Option.map_some] at hoffer
        cases hoffer
    | some o =>
      cases recipient with
      | none => cases hoffer
      | some nonce =>
        simp only [offer] at hoffer
        obtain ⟨x, hx, hoffer⟩ := Option.bind_eq_some_iff.mp hoffer
        obtain ⟨i, hf, rfl⟩ := Option.map_eq_some_iff.mp hoffer
        obtain ⟨eid, ht, hx⟩ := Option.bind_eq_some_iff.mp hx
        refine .inr (.inl ⟨i, nonce, ⟨nonce, x.server, x.dispatch, eid, qid, false, 0⟩, rfl, Table.free_some hf, rfl,
          rfl, ?_⟩)
        simp only [handleProvide, ht, hf, hx, sendEmptyReturn, sendAnswer_vat]
  have hnone : offer c vat m = none := by
    cases m with
    | provide qid target recipient => exact absurd ⟨qid, target, recipient, rfl⟩ hprovide
    | _ => rfl
  by_cases haccept : ∃ qid provision embargo, m = .accept qid provision embargo
  · obtain ⟨qid, provision, embargo, rfl⟩ := haccept
    have hrun : capnRpcHandle env c vat (.accept qid provision embargo) =
      handleAccept env { conn := c, vat := vat } qid provision embargo := rfl
    rw [hrun]
    obtain ⟨reason, e, -⟩ | ⟨nonce, i, p, eid, conn, rfl, hf, hp, he, e⟩ :=
      handleAccept_cases env { conn := c, vat := vat } qid provision embargo
    · exact .inl ⟨by rw [e, sendReturnException, sendMessage_vat], hnone⟩
    · cases embargo with
      | true =>
        refine .inr (.inr ⟨i, p, _, hp, hnone, by rw [e]; rfl, fun p' hp' => ?_⟩)
        cases hp'
        exact ⟨rfl, rfl, rfl⟩
      | false =>
        refine .inr (.inr ⟨i, p, none, hp, hnone, ?_, by rintro _ ⟨⟩⟩)
        rw [e]
        show (sendAcceptedCap env _ qid eid).vat = _
        rw [sendAcceptedCap, sendAnswer_vat]
  by_cases hdis : ∃ target qid, m = .disembargo target (.provide qid)
  · obtain ⟨target, qid, rfl⟩ := hdis
    have hrun : capnRpcHandle env c vat (.disembargo target (.provide qid)) =
      releaseProvideEmbargo env { conn := c, vat := vat } qid := rfl
    rw [hrun]
    obtain ⟨-, e⟩ | ⟨i, p, -, hp, e⟩ := releaseProvideEmbargo_cases env { conn := c, vat := vat } qid
    · exact .inl ⟨by rw [e], hnone⟩
    · refine .inr (.inr ⟨i, p, none, hp, hnone, ?_, by rintro _ ⟨⟩⟩)
      rw [e, sendAcceptedCap, sendAnswer_vat]
  · refine .inl ⟨?_, hnone⟩
    exact vat_event c vat (.recv env m) (fun _ q t r h => hprovide ⟨q, t, r, (Event.recv.inj h).2⟩)
      (fun _ q t r h => haccept ⟨q, t, r, (Event.recv.inj h).2⟩) (fun _ t q h => hdis ⟨t, q, (Event.recv.inj h).2⟩)

end

/-! ## Every provision keeps to its offer -/

section

variable {ι : Type} [DecidableEq ι]

/-- The provisions in the slots are offers of their own, and those that may be claimed
were not claimed. -/
structure Bound (r : ProvisionRun ι) : Prop where
  offered : ∀ i p, r.world.vat i = some p → r.offers[r.holder i]? = some (p.nonce, p.server)
  apart : ∀ i j p q, r.world.vat i = some p → r.world.vat j = some q → r.holder i = r.holder j → i = j
  unclaimed : ∀ i, opens r.world.vat i = true → r.holder i ∉ r.claimed
  known : ∀ n ∈ r.claimed, n < r.offers.length
  once : r.claimed.Nodup

omit [DecidableEq ι] in
theorem Bound.lt {r : ProvisionRun ι} (h : Bound r) {i : Fin CAPN_RPC_MAX_PROVISIONS} {p : Provision}
    (hp : r.world.vat i = some p) : r.holder i < r.offers.length :=
  (List.getElem?_eq_some_iff.mp (h.offered i p hp)).1

/-- **An event** keeps the provisions to their offers. -/
theorem bound_step {r : ProvisionRun ι} (h : Bound r) (e : ι × Event) : Bound (r.step e) := by
  obtain ⟨k, e⟩ := e
  have hcases : ((r.world.step (k, e)).vat = r.world.vat ∧ e.offer (r.world.conns k) r.world.vat = none) ∨
      (∃ i nonce p, e.offer (r.world.conns k) r.world.vat = some (i, nonce, p.server) ∧ r.world.vat i = none ∧
        p.nonce = nonce ∧ p.embargoed = false ∧ (r.world.step (k, e)).vat = r.world.vat.set i (some p)) ∨
      ∃ i p a, r.world.vat i = some p ∧ e.offer (r.world.conns k) r.world.vat = none ∧
        (r.world.step (k, e)).vat = r.world.vat.set i a ∧
        ∀ p', a = some p' → p'.nonce = p.nonce ∧ p'.server = p.server ∧ p'.embargoed = true := by
    cases e with
    | recv env m => exact vat_cases env (r.world.conns k) r.world.vat m
    | exportCap server dispatch => exact .inl ⟨vat_event _ _ _ nofun nofun nofun, rfl⟩
    | setBootstrap bootstrap => exact .inl ⟨rfl, rfl⟩
  obtain ⟨hvat, hoffer⟩ | ⟨i, nonce, p, hoffer, hi, hnonce, hemb, hvat⟩ | ⟨i, p, a, hp, hoffer, hvat, ha⟩ := hcases
  · -- nothing changes
    have hoffers : (r.step (k, e)).offers = r.offers := by
      simp only [ProvisionRun.step, hoffer, Option.map_none, Option.toList_none, List.append_nil]
    have hholder : (r.step (k, e)).holder = r.holder := by
      simp only [ProvisionRun.step, hoffer, Option.map_none, reduceCtorEq, if_false]
    have hclaimed : (r.step (k, e)).claimed = r.claimed := by
      simp only [ProvisionRun.step, hvat, claimedSlots_self, List.map_nil, List.append_nil]
    have hvat' : (r.step (k, e)).world.vat = r.world.vat := hvat
    exact ⟨by rw [hoffers, hholder, hvat']; exact h.offered, by rw [hholder, hvat']; exact h.apart,
      by rw [hholder, hclaimed, hvat']; exact h.unclaimed, by rw [hclaimed, hoffers]; exact h.known,
      by rw [hclaimed]; exact h.once⟩
  · -- a slot is filled, with a new offer
    have hoffers : (r.step (k, e)).offers = r.offers ++ [(nonce, p.server)] := by
      simp only [ProvisionRun.step, hoffer, Option.map_some, Option.toList_some]
    have hholder : ∀ j, (r.step (k, e)).holder j = if i = j then r.offers.length else r.holder j := by
      intro j
      simp only [ProvisionRun.step, hoffer, Option.map_some, Option.some.injEq]
    have hclosed : opens r.world.vat i = false := by rw [opens, hi]; rfl
    have hclaimed : (r.step (k, e)).claimed = r.claimed := by
      simp only [ProvisionRun.step, hvat, claimedSlots_set (.inr hclosed), hclosed, Bool.false_eq_true, if_false,
        List.map_nil, List.append_nil]
    have hvat' : (r.step (k, e)).world.vat = r.world.vat.set i (some p) := hvat
    have hslot : ∀ j q, (r.step (k, e)).world.vat j = some q →
        j = i ∧ q = p ∧ (r.step (k, e)).holder j = r.offers.length ∨
          j ≠ i ∧ r.world.vat j = some q ∧ (r.step (k, e)).holder j = r.holder j := by
      intro j q hq
      rw [hvat'] at hq
      by_cases hj : j = i
      · rw [hj, Table.set_same] at hq
        exact .inl ⟨hj, (Option.some.inj hq).symm, by rw [hholder, if_pos hj.symm]⟩
      · rw [Table.set_ne _ _ hj] at hq
        exact .inr ⟨hj, hq, by rw [hholder, if_neg fun e => hj e.symm]⟩
    refine ⟨fun j q hq => ?_, fun j j' q q' hq hq' hjj => ?_, fun j hj => ?_, fun n hn => ?_, ?_⟩
    · rw [hoffers]
      obtain ⟨rfl, rfl, hh⟩ | ⟨-, hq, hh⟩ := hslot j q hq
      · rw [hh, List.getElem?_concat_length, hnonce]
      · rw [hh, List.getElem?_append_left (h.lt hq)]
        exact h.offered j q hq
    · obtain ⟨rfl, -, hh⟩ | ⟨-, hq, hh⟩ := hslot j q hq
      · obtain ⟨rfl, -, -⟩ | ⟨-, hq', hh'⟩ := hslot j' q' hq'
        · rfl
        · have hlt := h.lt hq'
          omega
      · obtain ⟨-, -, hh'⟩ | ⟨-, hq', hh'⟩ := hslot j' q' hq'
        · have hlt := h.lt hq
          omega
        · rw [hh, hh'] at hjj
          exact h.apart j j' q q' hq hq' hjj
    · rw [hclaimed, hholder]
      split
      · intro hmem
        exact Nat.lt_irrefl _ (h.known _ hmem)
      · rename_i hij
        apply h.unclaimed
        rwa [opens, hvat', Table.set_ne _ _ fun e => hij e.symm] at hj
    · rw [hclaimed] at hn
      rw [hoffers, List.length_append]
      exact Nat.lt_add_right _ (h.known n hn)
    · rw [hclaimed]
      exact h.once
  · -- a provision is parked, or goes
    have hoffers : (r.step (k, e)).offers = r.offers := by
      simp only [ProvisionRun.step, hoffer, Option.map_none, Option.toList_none, List.append_nil]
    have hholder : (r.step (k, e)).holder = r.holder := by
      simp only [ProvisionRun.step, hoffer, Option.map_none, reduceCtorEq, if_false]
    have hclosed : opens (r.world.vat.set i a) i = false := by
      rw [opens, Table.set_same]
      cases a with
      | none => rfl
      | some p' => rw [Option.any_some, (ha p' rfl).2.2, Bool.not_true]
    have hclaimed : (r.step (k, e)).claimed = r.claimed ++ if opens r.world.vat i then [r.holder i] else [] := by
      simp only [ProvisionRun.step, hvat, claimedSlots_set (.inl hclosed)]
      split <;> rfl
    have hvat' : (r.step (k, e)).world.vat = r.world.vat.set i a := hvat
    have hslot : ∀ j q, (r.step (k, e)).world.vat j = some q →
        ∃ q₀, r.world.vat j = some q₀ ∧ q.nonce = q₀.nonce ∧ q.server = q₀.server := by
      intro j q hq
      rw [hvat'] at hq
      by_cases hj : j = i
      · rw [hj, Table.set_same] at hq
        exact ⟨p, by rw [hj, hp], (ha q hq).1, (ha q hq).2.1⟩
      · rw [Table.set_ne _ _ hj] at hq
        exact ⟨q, hq, rfl, rfl⟩
    refine ⟨fun j q hq => ?_, fun j j' q q' hq hq' => ?_, fun j hj => ?_, fun n hn => ?_, ?_⟩
    · obtain ⟨q₀, hq₀, hn, hs⟩ := hslot j q hq
      rw [hoffers, hholder, hn, hs]
      exact h.offered j q₀ hq₀
    · obtain ⟨q₀, hq₀, -⟩ := hslot j q hq
      obtain ⟨q₀', hq₀', -⟩ := hslot j' q' hq'
      rw [hholder]
      exact h.apart j j' q₀ q₀' hq₀ hq₀'
    · have hj' : j ≠ i := by
        rintro rfl
        rw [hvat', hclosed] at hj
        cases hj
      rw [hvat', opens, Table.set_ne _ _ hj'] at hj
      rw [hclaimed, hholder, List.mem_append]
      rintro (hmem | hmem)
      · exact h.unclaimed j hj hmem
      · split at hmem
        · obtain ⟨q, hq, -⟩ := (Option.any_eq_true _ _).mp hj
          exact hj' (h.apart j i q p hq hp (List.mem_singleton.mp hmem))
        · cases hmem
    · rw [hclaimed] at hn
      rw [hoffers]
      obtain hn | hn := List.mem_append.mp hn
      · exact h.known n hn
      · split at hn
        · rw [List.mem_singleton.mp hn]
          exact h.lt hp
        · cases hn
    · rw [hclaimed]
      split
      · rename_i hopen
        refine List.nodup_append.mpr ⟨h.once, List.nodup_singleton _, fun n hn m hm => ?_⟩
        rw [List.mem_singleton.mp hm]
        rintro rfl
        exact h.unclaimed i hopen hn
      · rw [List.append_nil]
        exact h.once

end

/-! ## What an Accept receives -/

section

variable {ι : Type} [DecidableEq ι]

/-- The Accepts that may receive what a message sends are the ones it is for: a Disembargo
finds, under the question id on its connection, an Accept of the provision's nonce or
none, and the export for it still with the provision's server; a Join that succeeds has
no part whose question id an Accept was asked under since. -/
def Binds (r : ProvisionRun ι) (k : ι) (m : Message) : Prop :=
  (∀ target qid i p n, m = .disembargo target (.provide qid) → liftable r.world.vat qid = some i →
    r.world.vat i = some p → r.asker k p.acceptQuestionId = some n →
    n = p.nonce ∧ ((r.world.conns k).exports p.exportId).map (·.server) = some p.server) ∧
  ∀ qid target keyPart slot j i, m = .join qid target keyPart → completesSame (r.world.conns k) m = true →
    accepted (r.world.conns k) keyPart = some (slot, j, i) → ∀ a, a ≠ i → r.asker k (j.qids a) = none

/-- What an unembargoed Accept is answered with: a capability of its own connection, for the
server of the one offer that it claims, with its nonce. -/
def Claims (r : ProvisionRun ι) (e : ι × Event) (qid nonce : Nat) : Prop :=
  ∀ q body, .ret q body ∈ r.world.sent e → body.Carries → q = qid ∧
    ∃ eid i x, body = .results (capPayload eid) ∧ claimedSlots r.world.vat (r.world.step e).vat = [i] ∧
      ((r.world.step e).conns e.1).exports eid = some x ∧ r.offers[r.holder i]? = some (nonce, x.server)

/-- An Accept that a message answers receives what a Provide with its nonce offered. -/
def Receives (r : ProvisionRun ι) (e : ι × Event) : Prop :=
  ∀ q body n, .ret q body ∈ r.world.sent e → body.Carries → (r.step e).asker e.1 q = some n →
    ∃ eid x, body = .results (capPayload eid) ∧ ((r.world.step e).conns e.1).exports eid = some x ∧
      (n, x.server) ∈ r.offers

section

variable {r : ProvisionRun ι} {k : ι} {env : Env}

theorem asker_own {m : Message} {qid : Nat} (h : asks (.recv env m) = [qid]) :
    (r.step (k, .recv env m)).asker k qid = acceptNonce (.recv env m) := by
  show (if k = k then askerAfter (r.asker k) (.recv env m) else r.asker k) qid = _
  rw [if_pos rfl, askerAfter, h, if_pos List.mem_cons_self]

theorem asker_other {m : Message} {q : Nat} (h : q ∉ asks (.recv env m)) (hfin : finishes (.recv env m) ≠ some q) :
    (r.step (k, .recv env m)).asker k q = r.asker k q := by
  show (if k = k then askerAfter (r.asker k) (.recv env m) else r.asker k) q = _
  rw [if_pos rfl, askerAfter, if_neg h, if_neg hfin]

/-- **`handle_accept`**, without an embargo, hands over what was offered. -/
theorem accept_claims (h : Bound r) (k : ι) (env : Env) (qid nonce : Nat) :
    Claims r (k, .recv env (.accept qid (some nonce) false)) qid nonce := by
  intro q body hmem hcap
  have hrun : (Event.recv env (.accept qid (some nonce) false)).run (r.world.conns k) r.world.vat =
    handleAccept env { conn := r.world.conns k, vat := r.world.vat } qid (some nonce) false := rfl
  rw [World.sent, hrun] at hmem
  rw [step_conns_same, step_vat, hrun]
  obtain ⟨reason, e, -⟩ | ⟨n, i, p, eid, conn, hn, hf, hp, he, e⟩ :=
    handleAccept_cases env { conn := r.world.conns k, vat := r.world.vat } qid (some nonce) false
  · rw [e] at hmem
    exact absurd hcap (bare_exception rfl reason q body hmem)
  · cases hn
    replace hf : claimable r.world.vat nonce = some i := hf
    replace hp : r.world.vat i = some p := hp
    simp only [Bool.false_eq_true, if_false] at e
    rw [e, sendAcceptedCap, sendAnswer_emit] at hmem
    have hbody := mem_emit (List.append_eq_nil_iff.mpr ⟨rfl, rfl⟩ ▸ hmem)
    cases hbody
    obtain ⟨p', hp', hemb, hnonce⟩ := claimable_some hf
    rw [hp] at hp'
    cases hp'
    obtain ⟨x, hc, hserver, -⟩ := capnRpcExport_spec he
    have hopen : opens r.world.vat i = true := by rw [opens_of hp, hemb, Bool.not_false]
    have hclosed : opens (r.world.vat.set i none) i = false := by rw [opens, Table.set_same]; rfl
    refine ⟨rfl, eid, i, x, rfl, ?_, ?_, ?_⟩
    · rw [e, sendAcceptedCap, sendAnswer_vat]
      show claimedSlots r.world.vat (r.world.vat.set i none) = [i]
      rw [claimedSlots_set (.inl hclosed), if_pos hopen]
    · rw [e, sendAcceptedCap, sendAnswer_exports, hc]
      exact Table.set_same _ _ _
    · rw [h.offered i p hp, hnonce, hserver]

/-- **A message** hands no Accept what was not offered with its nonce. -/
theorem message_receives (h : Bound r) {m : Message} (hok : Binds r k m) : Receives r (k, .recv env m) := by
  intro q body n hmem hcap hask
  have hsent : r.world.sent (k, .recv env m) = (capnRpcHandle env (r.world.conns k) r.world.vat m).sent := rfl
  cases hsame : completesSame (r.world.conns k) m with
  | true =>
    -- only a Join is answered, and no Accept has the id of a part
    cases m with
    | join qid target keyPart =>
      replace hsent : r.world.sent (k, .recv env (.join qid target keyPart)) =
        (handleJoin env { conn := r.world.conns k, vat := r.world.vat } qid target keyPart).sent := hsent
      rw [hsent] at hmem
      obtain ⟨hacc, id, e⟩ | ⟨slot, j, i, hacc, e⟩ :=
        handleJoin_cases env { conn := r.world.conns k, vat := r.world.vat } qid target keyPart
      · rw [e, sendJoinResult, sendMessage_emit] at hmem
        cases mem_emit (List.append_eq_nil_iff.mpr ⟨rfl, rfl⟩ ▸ hmem)
        exact absurd rfl hcap
      · simp only [e] at hmem
        split at hmem
        · rw [joinComplete_sent] at hmem
          obtain ⟨a, -, ha⟩ := List.mem_flatMap.mp (List.append_eq_nil_iff.mpr ⟨rfl, rfl⟩ ▸ hmem)
          have hq := mem_emit ha
          have hnone : (r.step (k, .recv env (.join qid target keyPart))).asker k q = none := by
            cases hq
            simp only [Join.park]
            split
            · exact asker_own rfl
            · rename_i hai
              by_cases hqid : j.qids a = qid
              · rw [hqid]
                exact asker_own rfl
              · rw [asker_other (fun hm => hqid (List.mem_singleton.mp hm)) fun hf => by cases hf]
                exact hok.2 qid target keyPart slot j i rfl hsame hacc a hai
          rw [hnone] at hask
          cases hask
        · cases hmem
    | _ => cases hsame
  | false =>
    by_cases hfin : ∃ qid, m = .finish qid
    · obtain ⟨qid, rfl⟩ := hfin
      cases hmem
    · obtain ⟨q₀, pl, hr, -, hs, -⟩ | ⟨hbare, -⟩ :=
        @answers_cases env (r.world.conns k) r.world.vat m hsame fun qid e => hfin ⟨qid, e⟩
      · rw [hsent, hs] at hmem
        cases List.mem_singleton.mp hmem
        have hown : ∀ {qid}, asks (.recv env m) = [qid] → acceptNonce (.recv env m) = none → q ≠ qid := by
          rintro qid ha hn rfl
          rw [asker_own ha, hn] at hask
          cases hask
        cases m with
        | bootstrap qid =>
          obtain ⟨x, -, e⟩ := Option.map_eq_some_iff.mp hr
          cases e
          exact absurd rfl (hown rfl rfl)
        | call qid target interfaceId methodId params =>
          obtain ⟨x, -, e⟩ := Option.bind_eq_some_iff.mp hr
          split at e
          · cases e
            exact absurd rfl (hown rfl rfl)
          · cases e
        | provide qid target recipient =>
          simp only [resultsFor] at hr
          split at hr
          · cases hr
            exact absurd rfl (hown rfl rfl)
          · cases hr
        | accept qid provision embargo =>
          cases provision with
          | none => cases hr
          | some nonce =>
            cases embargo with
            | true => cases hr
            | false =>
              obtain ⟨rfl, eid, i, x, hbody, -, hx, hoffer⟩ :=
                accept_claims h k env qid nonce q (.results pl) (by rw [hsent, hs]; exact List.mem_cons_self) hcap
              have hn : n = nonce := by
                rw [asker_own rfl] at hask
                exact (Option.some.inj hask).symm
              rw [hn]
              exact ⟨eid, x, hbody, hx, List.mem_of_getElem? hoffer⟩
        | disembargo target context =>
          cases context with
          | provide qid =>
            obtain ⟨p, hp, e⟩ := Option.map_eq_some_iff.mp hr
            obtain ⟨i, hi, hp⟩ := Option.bind_eq_some_iff.mp hp
            cases e
            rw [asker_other List.not_mem_nil fun hf => by cases hf] at hask
            obtain ⟨rfl, hserver⟩ := hok.1 target qid i p n rfl hi hp hask
            obtain ⟨x, hx, hxs⟩ := Option.map_eq_some_iff.mp hserver
            refine ⟨p.exportId, x, rfl, ?_, ?_⟩
            · rw [step_conns_same]
              show (handleDisembargo env { conn := r.world.conns k, vat := r.world.vat } target
                (.provide qid)).conn.exports p.exportId = some x
              rw [handleDisembargo]
              obtain ⟨-, e⟩ | ⟨i', p', -, -, e⟩ :=
                releaseProvideEmbargo_cases env { conn := r.world.conns k, vat := r.world.vat } qid
              · rw [e]
                exact hx
              · rw [e, sendAcceptedCap, sendAnswer_exports]
                exact hx
            · rw [hxs]
              exact List.mem_of_getElem? (h.offered i p hp)
          | _ => cases hr
        | _ => cases hr
      · rw [hsent] at hmem
        exact absurd hcap (hbare q body hmem)

end

/-- **Provisions are single use and bind**: over any run no offer is claimed twice; an
unembargoed Accept is answered with what the one offer it claims is for; and no Accept
receives what no Provide with its nonce offered, by a message that binds. -/
theorem provisions_bind {r : ProvisionRun ι} (hrun : Runs ProvisionRun.step (fun _ _ => True) {} r) :
    r.claimed.Nodup ∧
    (∀ k env qid nonce, Claims r (k, .recv env (.accept qid (some nonce) false)) qid nonce) ∧
    ∀ k env m, Binds r k m → Receives r (k, .recv env m) := by
  have h : Bound r :=
    hrun.inv (I := Bound) (fun _ e h _ => bound_step h e) ⟨nofun, nofun, nofun, nofun, List.nodup_nil⟩
  exact ⟨h.once, accept_claims h, fun k env m hok => message_receives h hok⟩

end

/-! ## Two runs -/

/-- A provision that one connection makes and another claims. -/
def handedOver : ProvisionRun (Fin 2) :=
  [(0, .setBootstrap (some (1, 1))), (0, .recv quietEnv (.bootstrap 1)),
    (0, .recv quietEnv (.provide 5 (some (.importedCap 0)) (some 9))),
    (1, .recv quietEnv (.accept 3 (some 9) false))].foldl ProvisionRun.step {}

theorem provisions_bind_handed : ∃ r : ProvisionRun (Fin 2), Runs ProvisionRun.step (fun _ _ => True) {} r ∧
    r.offers = [(9, 1)] ∧ r.claimed = [0] ∧ r.claimed.Nodup ∧
    (∀ k env qid nonce, Claims r (k, .recv env (.accept qid (some nonce) false)) qid nonce) ∧
    ∀ k env m, Binds r k m → Receives r (k, .recv env m) := by
  have hrun : Runs ProvisionRun.step (fun _ _ => True) {} handedOver :=
    .tail (.tail (.tail (.tail .refl trivial) trivial) trivial) trivial
  exact ⟨_, hrun, by decide +kernel, by decide +kernel, provisions_bind hrun⟩

/-- Connections 0 and 2 provide servers 1 and 2 for the nonces 9 and 10; connection 1 accepts
nonce 9 and connection 0 nonce 10, both as question 3 and under an embargo. -/
def crossed : ProvisionRun (Fin 3) :=
  [(0, .setBootstrap (some (1, 1))), (0, .recv quietEnv (.bootstrap 1)), (2, .setBootstrap (some (2, 2))),
    (2, .recv quietEnv (.bootstrap 1)), (0, .recv quietEnv (.provide 5 (some (.importedCap 0)) (some 9))),
    (2, .recv quietEnv (.provide 6 (some (.importedCap 0)) (some 10))),
    (1, .recv quietEnv (.accept 3 (some 9) true)),
    (0, .recv quietEnv (.accept 3 (some 10) true))].foldl ProvisionRun.step {}

/-- The Disembargo of connection 0 hands its Accept of nonce 10 the server for nonce 9. -/
theorem provisions_bind_fails :
    crossed.asker 0 3 = some 10 ∧ crossed.offers = [(9, 1), (10, 2)] ∧
    crossed.world.sent (0, .recv quietEnv (.disembargo none (.provide 5))) = [.ret 3 (.results (capPayload 0))] ∧
    (((crossed.world.step (0, .recv quietEnv (.disembargo none (.provide 5)))).conns 0).exports 0).map (·.server) =
      some 1 :=
  ⟨by decide +kernel, by decide +kernel, rfl, by decide +kernel⟩

end Capnproto.Rpc

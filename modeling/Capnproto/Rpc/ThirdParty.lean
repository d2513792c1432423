import Capnproto.Rpc.Provisions
import Capnproto.Rpc.Wire

/-!
# Provides and Accepts that do not decode

`handle_provide` and `handle_accept` look for a missing recipient or provision
by its type, before it is resolved. That finds a struct with no slot for it,
and not a slot with nothing in it that can be read: then the nonce is that of
what was read instead, 0 when it is nothing. A run keeps the nonce that was in the
Provide for every slot, and logs the two nonces of every match.
-/

namespace Capnproto.Rpc

open Wire

/-- The pointer leads to a struct. -/
def Decodes (c : Capn) (p : Ptr) : Prop := (capnResolve c p).ptr.type = .STRUCT

instance (c : Capn) (p : Ptr) : Decidable (Decodes c p) := inferInstanceAs (Decidable (_ = _))

/-- The nonce that is in a struct. -/
def presentNonce (c : Capn) (p : Ptr) : Option Nat :=
  if Decodes c p ∧ 8 ≤ (capnResolve c p).ptr.datasz then some (capnRead64 (capnResolve c p).capn (capnResolve c p).ptr 0)
  else none

/-- The session and the provision when `handle_accept` looks at the provision. -/
def acceptProvision (c : Capn) (ap : Ptr) : Capn × Ptr := ((readAccept c ap).1, (readAccept c ap).2.provision)

/-! ## Refusals -/

/-- A message that changes nothing and is answered with an exception. -/
def Refused (env : Env) (c : Conn) (vat : Vat) (m : Message) (qid : Nat) : Prop :=
  (capnRpcHandle env c vat m).conn = c ∧ (capnRpcHandle env c vat m).vat = vat ∧
    ∃ reason, (capnRpcHandle env c vat m).sent = [.ret qid (.exception reason)]

/-- A Provide has no slot for the recipient, its target names nothing, or there is no room
for a provision. -/
def RefusesProvide (conn : Conn) (vat : Vat) (c : Capn) (pp : Ptr) : Prop :=
  (provideRecipient c pp).2.type = .NULL ∨ resolveTarget conn (provideTarget c pp) = none ∨ vat.free = none

/-- An Accept has no slot for the provision, what is read for the nonce claims nothing, or
there is no room for an export. -/
def RefusesAccept (conn : Conn) (vat : Vat) (c : Capn) (ap : Ptr) : Prop :=
  (acceptProvision c ap).2.type = .NULL ∨
    ∀ i p, claimable vat (readProvisionId (acceptProvision c ap).1 (acceptProvision c ap).2).2 = some i →
      vat i = some p → conn.exports.find (·.server = p.server) = none ∧ conn.exports.free = none

section

variable {env : Env} {conn : Conn} {vat : Vat}

/-- An exception is an answer that changes nothing. -/
theorem refused_exception (hs : env.Small) {m : Message} {qid : Nat} {reason : String} (hr : reason ∈ reasons)
    (h : capnRpcHandle env conn vat m = sendReturnException env { conn := conn, vat := vat } qid reason) :
    Refused env conn vat m qid := by
  refine ⟨?_, ?_, reason, ?_⟩
  · rw [h, sendReturnException, sendMessage_conn]
  · rw [h, sendReturnException, sendMessage_vat]
  · have hfixed : (Outgoing.ret qid (.exception reason)).Fixed := hr
    rw [h, sendReturnException, sendMessage_emit, emit_fixed hs hfixed]
    rfl

theorem capnRpcExport_none (c : Conn) (server dispatch : Nat) :
    capnRpcExport c server dispatch = none ↔ c.exports.find (·.server = server) = none ∧ c.exports.free = none := by
  rw [capnRpcExport]
  cases c.exports.find (·.server = server) with
  | some i => exact ⟨by rintro ⟨⟩, fun h => by cases h.1⟩
  | none =>
    cases c.exports.free with
    | some i => exact ⟨by rintro ⟨⟩, fun h => by cases h.2⟩
    | none => exact iff_of_true rfl ⟨rfl, rfl⟩

/-- **`handle_provide`** refuses what it has no recipient, target or room for. -/
theorem provide_refused (hs : env.Small) (c : Capn) (pp : Ptr) :
    Refused env conn vat (decodeProvide c pp) (readProvide c pp).2.questionId ↔ RefusesProvide conn vat c pp := by
  have hrun : capnRpcHandle env conn vat (decodeProvide c pp) =
      handleProvide env { conn := conn, vat := vat } (readProvide c pp).2.questionId (provideTarget c pp)
        (if (provideRecipient c pp).2.type = .NULL then none
          else some (readRecipientId (provideRecipient c pp).1 (provideRecipient c pp).2).2) := rfl
  constructor
  · intro h
    by_contra hn
    simp only [RefusesProvide, not_or] at hn
    obtain ⟨hslot, htarget, hfree⟩ := hn
    obtain ⟨eid, ht⟩ := Option.ne_none_iff_exists'.mp htarget
    obtain ⟨i, hf⟩ := Option.ne_none_iff_exists'.mp hfree
    obtain ⟨e, he⟩ := resolveTarget_used ht
    have hvat := h.2.1
    rw [hrun, if_neg hslot] at hvat
    simp only [handleProvide, ht, hf, he, sendEmptyReturn, sendAnswer_vat] at hvat
    have hi := congrFun hvat i
    rw [Table.set_same, Table.free_some hf] at hi
    cases hi
  · intro h
    obtain ⟨reason, e, hr⟩ | ⟨eid, x, nonce, i, ht, -, hrec, hf, -⟩ :=
      handleProvide_cases env { conn := conn, vat := vat } (readProvide c pp).2.questionId (provideTarget c pp)
        (if (provideRecipient c pp).2.type = .NULL then none
          else some (readRecipientId (provideRecipient c pp).1 (provideRecipient c pp).2).2)
    · exact refused_exception hs hr (hrun.trans e)
    · obtain h | h | h := h
      · rw [if_pos h] at hrec
        cases hrec
      · exact absurd (ht.symm.trans h) (Option.some_ne_none _)
      · exact absurd (hf.symm.trans h) (Option.some_ne_none _)

/-- **`handle_accept`** refuses what it has no provision or room for. -/
theorem accept_refused (hs : env.Small) (c : Capn) (ap : Ptr) :
    Refused env conn vat (decodeAccept c ap) (readAccept c ap).2.questionId ↔ RefusesAccept conn vat c ap := by
  have hrun : capnRpcHandle env conn vat (decodeAccept c ap) =
      handleAccept env { conn := conn, vat := vat } (readAccept c ap).2.questionId
        (if (acceptProvision c ap).2.type = .NULL then none
          else some (readProvisionId (acceptProvision c ap).1 (acceptProvision c ap).2).2)
        (readAccept c ap).2.embargo := rfl
  obtain ⟨reason, e, hr, hnone⟩ | ⟨nonce, i, p, eid, conn', hpro, hf, hp, he, e⟩ :=
    handleAccept_cases env { conn := conn, vat := vat } (readAccept c ap).2.questionId
      (if (acceptProvision c ap).2.type = .NULL then none
        else some (readProvisionId (acceptProvision c ap).1 (acceptProvision c ap).2).2)
      (readAccept c ap).2.embargo
  · refine iff_of_true (refused_exception hs hr (hrun.trans e)) ?_
    by_cases hslot : (acceptProvision c ap).2.type = .NULL
    · exact .inl hslot
    · refine .inr fun i p hi hp => (capnRpcExport_none conn p.server p.dispatch).mp ?_
      exact hnone _ (if_neg hslot) i p hi hp
  · refine iff_of_false (fun h => ?_) ?_
    · have hvat := congrFun h.2.1 i
      rw [hrun, e] at hvat
      obtain ⟨q, hq, hopen, -⟩ := claimable_some hf
      split at hvat
      · replace hvat := (Table.set_same vat i _).symm.trans (hvat.trans hq)
        cases hvat
        cases hopen
      · rw [sendAcceptedCap, sendAnswer_vat] at hvat
        replace hvat := (Table.set_same vat i _).symm.trans (hvat.trans hq)
        cases hvat
    · rintro (h | h)
      · rw [if_pos h] at hpro
        cases hpro
      · split at hpro
        · cases hpro
        · cases hpro
          have hroom := (capnRpcExport_none conn p.server p.dispatch).mpr (h i p hf hp)
          cases hroom.symm.trans he

end

/-! ## Matches over a run -/

/-- A Provide or an Accept. -/
def Event.names : Event → Bool
  | .recv _ (.provide ..) => true
  | .recv _ (.accept ..) => true
  | _ => false

/-- What happens to a connection: a Provide or an Accept arrives, or another event. -/
inductive Arrival where
  | provide (env : Env) (c : Capn) (pp : Ptr)
  | accept (env : Env) (c : Capn) (ap : Ptr)
  | other (e : Event) (h : e.names = false)

def Arrival.event : Arrival → Event
  | .provide env c pp => .recv env (decodeProvide c pp)
  | .accept env c ap => .recv env (decodeAccept c ap)
  | .other e _ => e

/-- The nonce that is in a message. -/
def Arrival.nonce : Arrival → Option Nat
  | .provide _ c pp => presentNonce (provideRecipient c pp).1 (provideRecipient c pp).2
  | .accept _ c ap => presentNonce (acceptProvision c ap).1 (acceptProvision c ap).2
  | .other .. => none

/-- A run: the nonce in the Provide that filled each slot, and the nonces in the Provide and
in the Accept of each match. -/
structure NonceRun (ι : Type) where
  world : World ι := {}
  given : Fin CAPN_RPC_MAX_PROVISIONS → Option Nat := fun _ => none
  matched : List (Option Nat × Option Nat) := []

/-- The slots that an Accept matches. -/
def Arrival.matches (vat vat' : Vat) : Arrival → List (Fin CAPN_RPC_MAX_PROVISIONS)
  | .accept .. => claimedSlots vat vat'
  | _ => []

section

variable {ι : Type} [DecidableEq ι]

def NonceRun.step (r : NonceRun ι) (a : ι × Arrival) : NonceRun ι where
  world := r.world.step (a.1, a.2.event)
  given := fun i =>
    if (a.2.event.offer (r.world.conns a.1) r.world.vat).map (·.1) = some i then a.2.nonce else r.given i
  matched := r.matched ++
    (a.2.matches r.world.vat (r.world.step (a.1, a.2.event)).vat).map fun i => (r.given i, a.2.nonce)

/-- A Provide or an Accept has a nonce in it, or is refused. -/
def NonceRun.Ok (r : NonceRun ι) : ι × Arrival → Prop
  | (k, .provide env c pp) => (Arrival.provide env c pp).nonce ≠ none ∨ RefusesProvide (r.world.conns k) r.world.vat c pp
  | (k, .accept env c ap) => (Arrival.accept env c ap).nonce ≠ none ∨ RefusesAccept (r.world.conns k) r.world.vat c ap
  | (_, .other ..) => True

/-- The provisions that can be claimed have the nonces that were in their Provides, and
so have all matches. -/
structure Present (r : NonceRun ι) : Prop where
  given : ∀ i p, r.world.vat i = some p → p.embargoed = false → r.given i = some p.nonce
  matched : ∀ m ∈ r.matched, ∃ nonce, m = (some nonce, some nonce)

end

section

variable {ι : Type} [DecidableEq ι] {r : NonceRun ι}

theorem presentNonce_some {c : Capn} {p : Ptr} {nonce : Nat} (h : presentNonce c p = some nonce) :
    p.type ≠ .NULL ∧ capnRead64 (capnResolve c p).capn (capnResolve c p).ptr 0 = nonce := by
  unfold presentNonce at h
  split at h
  · rename_i hd
    exact ⟨ne_null_of_struct hd.1, Option.some.inj h⟩
  · cases h

omit [DecidableEq ι] in
/-- Provisions that are parked or go away. -/
theorem Present.sub (h : Present r) {r' : NonceRun ι} (hgiven : r'.given = r.given)
    (hmatched : ∀ m ∈ r'.matched, m ∈ r.matched ∨ ∃ nonce, m = (some nonce, some nonce))
    (hvat : ∀ i p, r'.world.vat i = some p → p.embargoed = false → r.world.vat i = some p) : Present r' := by
  refine ⟨fun i p hp he => ?_, fun m hm => ?_⟩
  · rw [hgiven]
    exact h.given i p (hvat i p hp he) he
  · obtain hm | hm := hmatched m hm
    · exact h.matched m hm
    · exact hm

/-- An unembargoed provision of a slot that is set to an embargoed one, or to none, is in
another slot. -/
theorem unembargoed_set {vat : Vat} {i : Fin CAPN_RPC_MAX_PROVISIONS} {a : Option Provision}
    (ha : ∀ p, a = some p → p.embargoed = true) {j : Fin CAPN_RPC_MAX_PROVISIONS} {p : Provision}
    (hp : vat.set i a j = some p) (he : p.embargoed = false) : vat j = some p := by
  by_cases hj : j = i
  · rw [hj, Table.set_same] at hp
    rw [ha p hp] at he
    cases he
  · rwa [Table.set_ne _ _ hj] at hp

/-- Events that are no Provide or Accept match nothing, and offer nothing. -/
theorem present_other (h : Present r) (k : ι) (e : Event) (hn : e.names = false) :
    Present (r.step (k, .other e hn)) := by
  have hoffer : e.offer (r.world.conns k) r.world.vat = none := by
    unfold Event.offer
    split
    · rename_i env m
      unfold offer
      split
      · cases hn
      · rfl
    · rfl
  have hgiven : (r.step (k, .other e hn)).given = r.given := by
    simp only [NonceRun.step, Arrival.event, hoffer, Option.map_none, reduceCtorEq, if_false]
  have hmatched : (r.step (k, .other e hn)).matched = r.matched := by
    simp only [NonceRun.step, Arrival.matches, List.map_nil, List.append_nil]
  have hvat : (r.step (k, .other e hn)).world.vat = (e.run (r.world.conns k) r.world.vat).vat := rfl
  refine h.sub hgiven (fun m hm => .inl (hmatched ▸ hm)) fun i p hp he => ?_
  rw [hvat] at hp
  cases e with
  | exportCap server dispatch =>
    rwa [vat_event _ _ (.exportCap server dispatch) nofun nofun nofun] at hp
  | setBootstrap bootstrap => exact hp
  | recv env m =>
    have hrun : ((Event.recv env m).run (r.world.conns k) r.world.vat).vat =
      (capnRpcHandle env (r.world.conns k) r.world.vat m).vat := rfl
    rw [hrun] at hp
    obtain ⟨hv, -⟩ | ⟨i', nonce, p', ho, -⟩ | ⟨i', p', a, -, -, hv, ha⟩ :=
      vat_cases env (r.world.conns k) r.world.vat m
    · rwa [hv] at hp
    · exact absurd (ho.symm.trans hoffer) nofun
    · rw [hv] at hp
      exact unembargoed_set (fun q hq => (ha q hq).2.2) hp he

/-- A Provide that is accepted has the nonce in it. -/
theorem present_provide (h : Present r) (k : ι) (env : Env) (c : Capn) (pp : Ptr)
    (hok : r.Ok (k, .provide env c pp)) : Present (r.step (k, .provide env c pp)) := by
  have hmatched : (r.step (k, .provide env c pp)).matched = r.matched := by
    simp only [NonceRun.step, Arrival.matches, List.map_nil, List.append_nil]
  have hvat : (r.step (k, .provide env c pp)).world.vat =
    (capnRpcHandle env (r.world.conns k) r.world.vat (decodeProvide c pp)).vat := rfl
  have hoff : (Arrival.provide env c pp).event.offer (r.world.conns k) r.world.vat =
    offer (r.world.conns k) r.world.vat (decodeProvide c pp) := rfl
  have hgiven : offer (r.world.conns k) r.world.vat (decodeProvide c pp) = none →
      (r.step (k, .provide env c pp)).given = r.given := by
    intro ho
    simp only [NonceRun.step, hoff, ho, Option.map_none, reduceCtorEq, if_false]
  obtain ⟨hv, ho⟩ | ⟨i, nonce, p, ho, hi, hnonce, -, hv⟩ | ⟨i, p, a, -, ho, hv, ha⟩ :=
    vat_cases env (r.world.conns k) r.world.vat (decodeProvide c pp)
  · exact h.sub (hgiven ho) (fun m hm => .inl (hmatched ▸ hm)) fun j q hq _ => by rwa [hvat, hv] at hq
  · have hpresent : (Arrival.provide env c pp).nonce = some nonce := by
      have hdec : decodeProvide c pp = .provide (readProvide c pp).2.questionId (provideTarget c pp)
        (if (provideRecipient c pp).2.type = .NULL then none
          else some (readRecipientId (provideRecipient c pp).1 (provideRecipient c pp).2).2) := rfl
      rw [hdec] at ho
      by_cases hslot : (provideRecipient c pp).2.type = .NULL
      · rw [if_pos hslot] at ho
        cases ho
      rw [if_neg hslot] at ho
      obtain ⟨x, hx, ho⟩ := Option.bind_eq_some_iff.mp ho
      obtain ⟨f, hf, ho⟩ := Option.map_eq_some_iff.mp ho
      obtain ⟨eid, ht, -⟩ := Option.bind_eq_some_iff.mp hx
      obtain hok | hok | hok | hok := hok
      · obtain ⟨n, hn⟩ := Option.ne_none_iff_exists'.mp hok
        rw [hn, ← (presentNonce_some hn).2]
        exact congrArg (fun o => some o.2.1) ho
      · exact absurd hok hslot
      · exact absurd (ht.symm.trans hok) nofun
      · exact absurd (hf.symm.trans hok) nofun
    refine ⟨fun j q hq he => ?_, fun m hm => h.matched m (hmatched ▸ hm)⟩
    rw [hvat, hv] at hq
    have hgivenj : (r.step (k, .provide env c pp)).given j = if i = j then some nonce else r.given j := by
      simp only [NonceRun.step, hoff, ho, Option.map_some, Option.some.injEq, hpresent]
    rw [hgivenj]
    by_cases hj : j = i
    · rw [hj, Table.set_same] at hq
      cases hq
      rw [if_pos hj.symm, hnonce]
    · rw [Table.set_ne _ _ hj] at hq
      rw [if_neg fun e => hj e.symm]
      exact h.given j q hq he
  · refine h.sub (hgiven ho) (fun m hm => .inl (hmatched ▸ hm)) fun j q hq he => ?_
    rw [hvat, hv] at hq
    exact unembargoed_set (fun q hq => (ha q hq).2.2) hq he

/-- An Accept that matches has the nonce in it that was in the Provide. -/
theorem present_accept (h : Present r) (k : ι) (env : Env) (c : Capn) (ap : Ptr)
    (hok : r.Ok (k, .accept env c ap)) : Present (r.step (k, .accept env c ap)) := by
  have hgiven : (r.step (k, .accept env c ap)).given = r.given := by
    have hoffer : (Arrival.accept env c ap).event.offer (r.world.conns k) r.world.vat = none := rfl
    simp only [NonceRun.step, hoffer, Option.map_none, reduceCtorEq, if_false]
  have hvat : (r.step (k, .accept env c ap)).world.vat =
    (handleAccept env { conn := r.world.conns k, vat := r.world.vat } (readAccept c ap).2.questionId
      (if (acceptProvision c ap).2.type = .NULL then none
        else some (readProvisionId (acceptProvision c ap).1 (acceptProvision c ap).2).2)
      (readAccept c ap).2.embargo).vat := rfl
  have hmatched : (r.step (k, .accept env c ap)).matched = r.matched ++
    (claimedSlots r.world.vat (r.step (k, .accept env c ap)).world.vat).map
      fun i => (r.given i, (Arrival.accept env c ap).nonce) := rfl
  rw [hvat] at hmatched
  obtain ⟨reason, e, -⟩ | ⟨nonce, i, p, eid, conn, hpro, hf, hp, he, e⟩ :=
    handleAccept_cases env { conn := r.world.conns k, vat := r.world.vat } (readAccept c ap).2.questionId
      (if (acceptProvision c ap).2.type = .NULL then none
        else some (readProvisionId (acceptProvision c ap).1 (acceptProvision c ap).2).2)
      (readAccept c ap).2.embargo
  · rw [e, sendReturnException, sendMessage_vat] at hvat
    rw [e, sendReturnException, sendMessage_vat, claimedSlots_self] at hmatched
    refine h.sub hgiven (fun m hm => .inl ?_) fun j q hq _ => by rwa [hvat] at hq
    rwa [hmatched, List.map_nil, List.append_nil] at hm
  · obtain ⟨p', hp', hopen, hnonce⟩ := claimable_some hf
    cases hp.symm.trans hp'
    have hset : ∃ a, (r.step (k, .accept env c ap)).world.vat = r.world.vat.set i a ∧
        ∀ q, a = some q → q.embargoed = true := by
      rw [hvat, e]
      split
      · refine ⟨_, rfl, fun q hq => ?_⟩
        cases hq
        rfl
      · exact ⟨none, by rw [sendAcceptedCap, sendAnswer_vat], by rintro _ ⟨⟩⟩
    obtain ⟨a, ha, hemb⟩ := hset
    have hpresent : (Arrival.accept env c ap).nonce = some nonce := by
      by_cases hslot : (acceptProvision c ap).2.type = .NULL
      · rw [if_pos hslot] at hpro
        cases hpro
      rw [if_neg hslot] at hpro
      obtain hok | hok | hok := hok
      · obtain ⟨n, hn⟩ := Option.ne_none_iff_exists'.mp hok
        rw [hn, ← (presentNonce_some hn).2]
        cases hpro
        rfl
      · exact absurd hok hslot
      · cases hpro
        have hroom := (capnRpcExport_none (r.world.conns k) p.server p.dispatch).mpr (hok i p hf hp)
        cases hroom.symm.trans he
    refine h.sub hgiven (fun m hm => ?_) fun j q hq he => ?_
    · rw [← hvat, ha] at hmatched
      rw [hmatched] at hm
      obtain hm | hm := List.mem_append.mp hm
      · exact .inl hm
      · obtain ⟨j, hj, rfl⟩ := List.mem_map.mp hm
        have hclosed : opens (r.world.vat.set i a) i = false := by
          rw [opens, Table.set_same]
          cases a with
          | none => rfl
          | some q => rw [Option.any_some, hemb q rfl, Bool.not_true]
        rw [claimedSlots_set (.inl hclosed)] at hj
        split at hj
        · rw [List.mem_singleton.mp hj, h.given i p hp hopen, hpresent, hnonce]
          exact .inr ⟨nonce, rfl⟩
        · cases hj
    · rw [ha] at hq
      exact unembargoed_set hemb hq he

end

/-- **Malformed third-party messages** are refused exactly if there is no slot for what they
lack, or nothing for it to match or to fill; and where every Provide and Accept has a nonce
in it or is refused, an Accept only matches by a nonce that was in both. -/
theorem third_party_refused (ι : Type) [DecidableEq ι] :
    (∀ env conn vat c pp, env.Small → ¬ Decodes (provideRecipient c pp).1 (provideRecipient c pp).2 →
      (Refused env conn vat (decodeProvide c pp) (readProvide c pp).2.questionId ↔ RefusesProvide conn vat c pp)) ∧
    (∀ env conn vat c ap, env.Small → ¬ Decodes (acceptProvision c ap).1 (acceptProvision c ap).2 →
      (Refused env conn vat (decodeAccept c ap) (readAccept c ap).2.questionId ↔ RefusesAccept conn vat c ap)) ∧
    ∀ r : NonceRun ι, Runs NonceRun.step NonceRun.Ok {} r → ∀ m ∈ r.matched, ∃ nonce, m = (some nonce, some nonce) := by
  refine ⟨fun env conn vat c pp hs _ => provide_refused hs c pp, fun env conn vat c ap hs _ => accept_refused hs c ap,
    fun r hrun => ?_⟩
  have h : Present r := by
    refine hrun.inv (I := Present) (fun s e hs hok => ?_) ⟨nofun, nofun⟩
    obtain ⟨k, a⟩ := e
    cases a with
    | provide env c pp => exact present_provide hs k env c pp hok
    | accept env c ap => exact present_accept hs k env c ap hok
    | other e hn => exact present_other hs k e hn
  exact h.matched

/-! ## Two runs -/

/-- A Provide and an Accept that arrive in two frames. -/
def handoff (provide accept : List UInt8) : NonceRun (Fin 2) :=
  let p := frameMessage (oneSegment provide)
  let a := frameMessage (oneSegment accept)
  [(0, .other (.setBootstrap (some (1, 1))) rfl), (0, .other (.recv quietEnv (.bootstrap 1)) rfl),
    (0, .provide quietEnv p.1 p.2.body), (1, .accept quietEnv a.1 a.2.body)].foldl NonceRun.step {}

/-- A Provide of export 0 whose recipient has the nonce 9. -/
def provideNine : List UInt8 :=
  [0, 0, 0, 0, 1, 0, 1, 0] ++ [10, 0, 0, 0, 0, 0, 0, 0] ++ [0, 0, 0, 0, 1, 0, 2, 0] ++ [5, 0, 0, 0, 0, 0, 0, 0] ++
    [4, 0, 0, 0, 1, 0, 0, 0] ++ [4, 0, 0, 0, 1, 0, 0, 0] ++ [0, 0, 0, 0, 0, 0, 0, 0] ++ [9, 0, 0, 0, 0, 0, 0, 0]

/-- An Accept whose provision has the nonce 9. -/
def acceptNine : List UInt8 :=
  [0, 0, 0, 0, 1, 0, 1, 0] ++ [11, 0, 0, 0, 0, 0, 0, 0] ++ [0, 0, 0, 0, 1, 0, 1, 0] ++ [3, 0, 0, 0, 0, 0, 0, 0] ++
    [0, 0, 0, 0, 1, 0, 0, 0] ++ [9, 0, 0, 0, 0, 0, 0, 0]

theorem third_party_refused_nine : ∃ r : NonceRun (Fin 2), Runs NonceRun.step NonceRun.Ok {} r ∧
    r.matched = [(some 9, some 9)] ∧ ∀ m ∈ r.matched, ∃ nonce, m = (some nonce, some nonce) := by
  have hrun : Runs NonceRun.step NonceRun.Ok {} (handoff provideNine acceptNine) :=
    .tail (.tail (.tail (.tail .refl trivial) trivial) (.inl (by decide +kernel))) (.inl (by decide +kernel))
  exact ⟨_, hrun, by decide +kernel, (third_party_refused (Fin 2)).2.2 _ hrun⟩

/-- The same Provide with a null recipient. -/
def provideNull : List UInt8 :=
  [0, 0, 0, 0, 1, 0, 1, 0] ++ [10, 0, 0, 0, 0, 0, 0, 0] ++ [0, 0, 0, 0, 1, 0, 2, 0] ++ [5, 0, 0, 0, 0, 0, 0, 0] ++
    [4, 0, 0, 0, 1, 0, 0, 0] ++ [0, 0, 0, 0, 0, 0, 0, 0] ++ [0, 0, 0, 0, 0, 0, 0, 0]

/-- The same Accept with a null provision. -/
def acceptNull : List UInt8 :=
  [0, 0, 0, 0, 1, 0, 1, 0] ++ [11, 0, 0, 0, 0, 0, 0, 0] ++ [0, 0, 0, 0, 1, 0, 1, 0] ++ [3, 0, 0, 0, 0, 0, 0, 0] ++
    [0, 0, 0, 0, 0, 0, 0, 0]

/-- A null recipient is provided for nonce 0, and a null provision claims it. -/
theorem third_party_refused_fails :
    let p := frameMessage (oneSegment provideNull)
    let a := frameMessage (oneSegment acceptNull)
    p.2.which = Message_provide ∧ a.2.which = Message_accept ∧
    ¬ Decodes (provideRecipient p.1 p.2.body).1 (provideRecipient p.1 p.2.body).2 ∧
    ¬ Decodes (acceptProvision a.1 a.2.body).1 (acceptProvision a.1 a.2.body).2 ∧
    (capnRpcHandle quietEnv { exports := Table.set .empty 0 (some ⟨1, 1, 1⟩) } .empty
      (decodeProvide p.1 p.2.body)).vat 0 = some ⟨0, 1, 1, 0, 5, false, 0⟩ ∧
    (handoff provideNull acceptNull).matched = [(none, none)] := by decide +kernel

end Capnproto.Rpc

import Capnproto.Rpc.Returns

/-!
# Reference counts

`Ledger` counts the references on each export: those handed out less those
released, and those that provisions hold. An event takes a reference on at most
one slot, and it hands out at most one capability (`Effect`). The count of a used
entry is what the ledger says (`Books`), as long as every reference is given back
(`Conserving`).
-/

namespace Capnproto.Rpc

/-- A run, with the references handed out for each export since its slot was filled less
those released, and the exports that each provision holds a reference on: the one
it was made for, and the one that an Accept under embargo was given. -/
structure Ledger (ι : Type) where
  world : World ι := {}
  refs : ι → ExportId → Int := fun _ _ => 0
  origin : Fin CAPN_RPC_MAX_PROVISIONS → Option (ι × ExportId) := fun _ => none
  claimant : Fin CAPN_RPC_MAX_PROVISIONS → Option (ι × ExportId) := fun _ => none

/-- The export that the application gets from an event. -/
def appExport (c : Conn) : Event → Option ExportId
  | .exportCap server dispatch => (capnRpcExport c server dispatch).map (·.1)
  | _ => none

/-- The references on a slot that an event hands out. -/
def given (c : Conn) (vat : Vat) (e : Event) (i : ExportId) : Int :=
  ((e.run c vat).sent.flatMap Outgoing.hosted).count (.senderHosted i) + if appExport c e = some i then 1 else 0

/-- The references on a slot that an event gives back. -/
def released : Event → ExportId → Int
  | .recv _ (.release id referenceCount), i => if id = i then referenceCount else 0
  | _, _ => 0

section

variable {ι : Type} [DecidableEq ι]

/-- An export that a provision holds, unless an event on connection `k` freed it. -/
def live (k : ι) (c' : Conn) (o : Option (ι × ExportId)) : Option (ι × ExportId) :=
  o.filter fun o => o.1 ≠ k ∨ (c'.exports o.2).isSome

def origins (k : ι) (vat vat' : Vat) (c' : Conn) (origin : Fin CAPN_RPC_MAX_PROVISIONS → Option (ι × ExportId)) :
    Fin CAPN_RPC_MAX_PROVISIONS → Option (ι × ExportId) :=
  fun s => (vat' s).bind fun p => if (vat s).isNone then some (k, p.exportId) else live k c' (origin s)

def claimants (k : ι) (vat vat' : Vat) (c' : Conn) (claimant : Fin CAPN_RPC_MAX_PROVISIONS → Option (ι × ExportId)) :
    Fin CAPN_RPC_MAX_PROVISIONS → Option (ι × ExportId) :=
  fun s => (vat' s).bind fun p =>
    if p.embargoed ∧ ¬ (vat s).any (·.embargoed) then some (k, p.exportId) else live k c' (claimant s)

def Ledger.step (h : Ledger ι) (e : ι × Event) : Ledger ι where
  world := h.world.step e
  refs := fun k i =>
    if k = e.1 then
      if ((h.world.step e).conns k).exports i = none then 0
      else h.refs k i + given (h.world.conns k) h.world.vat e.2 i - released e.2 i
    else h.refs k i
  origin := origins e.1 h.world.vat (h.world.step e).vat ((h.world.step e).conns e.1) h.origin
  claimant := claimants e.1 h.world.vat (h.world.step e).vat ((h.world.step e).conns e.1) h.claimant

/-- One for a provision that holds a reference on export `i` of connection `k`. -/
def holds (k : ι) (i : ExportId) (o : Option (ι × ExportId)) : Int := if o = some (k, i) then 1 else 0

/-- The references on an export that provisions hold. -/
def held (origin claimant : Fin CAPN_RPC_MAX_PROVISIONS → Option (ι × ExportId)) (k : ι) (i : ExportId) : Int :=
  ∑ s, (holds k i (origin s) + holds k i (claimant s))

def Ledger.held (h : Ledger ι) (k : ι) (i : ExportId) : Int := Rpc.held h.origin h.claimant k i

/-- The slot that an event takes a reference on. -/
def takes (c : Conn) (vat : Vat) : Event → Option ExportId
  | .recv _ (.bootstrap _) => c.bootstrap.bind fun b => (capnRpcExport c b.1 b.2).map (·.1)
  | .recv _ (.provide _ target recipient) => if recipient.isSome ∧ vat.free.isSome then resolveTarget c target else none
  | .recv _ (.accept _ (some nonce) _) =>
    ((claimable vat nonce).bind fun s => vat s).bind fun p => (capnRpcExport c p.server p.dispatch).map (·.1)
  | .recv _ (.join qid target keyPart) => (accepted c keyPart).bind fun (_, j, i) =>
    if (j.park i qid (resolveTarget c target)).nseen = j.partCount ∧ (j.park i qid (resolveTarget c target)).same then
      (j.park i qid (resolveTarget c target)).eids 0
    else none
  | .exportCap server dispatch => (capnRpcExport c server dispatch).map (·.1)
  | _ => none

/-- The event gives back what a provision holds: no provision ends while the export it was
made for is there, an embargo is lifted for the Accept's own connection, and a
Release is not negative as an `int`. -/
def GivesBack (h : Ledger ι) (k : ι) : Event → Prop
  | .recv _ (.release _ referenceCount) => referenceCount < 2 ^ 31
  | .recv _ (.accept _ (some nonce) false) =>
    claims (h.world.conns k) h.world.vat (some nonce) = true → ∀ s, claimable h.world.vat nonce = some s → h.origin s = none
  | .recv _ (.disembargo _ (.provide qid)) => ∀ s p, liftable h.world.vat qid = some s → h.world.vat s = some p →
    h.origin s = none ∧ (h.claimant s = some (k, p.exportId) ∨
      h.claimant s = none ∧ (h.world.conns k).exports p.exportId = none)
  | _ => True

/-- The fixed Returns fit their frames, no count is at the largest `int` when it is raised,
and the references that provisions hold are given back. -/
structure Conserving (h : Ledger ι) (e : ι × Event) : Prop where
  small : ∀ env m, e.2 = .recv env m → env.Small
  room : ∀ i x, takes (h.world.conns e.1) h.world.vat e.2 = some i → (h.world.conns e.1).exports i = some x →
    x.refcount < 2 ^ 31 - 1
  back : GivesBack h e.1 e.2

/-! ## What an event does to the references -/

/-- What an event on connection `k` does, but for a Release: the slot it takes a reference
on, the slot of the capability it hands out, and the provisions after it. -/
inductive Effect (h : Ledger ι) (k : ι) : Option ExportId → Option ExportId → Vat → Prop where
  | idle : Effect h k none none h.world.vat
  | grant (i : ExportId) : Effect h k (some i) (some i) h.world.vat
  | stale (i : ExportId) (hi : (h.world.conns k).exports i = none) : Effect h k none (some i) h.world.vat
  | provide (s : Fin CAPN_RPC_MAX_PROVISIONS) (p : Provision) (hs : h.world.vat s = none) (hp : p.embargoed = false) :
    Effect h k (some p.exportId) none (h.world.vat.set s (some p))
  | park (s : Fin CAPN_RPC_MAX_PROVISIONS) (p p' : Provision) (hs : h.world.vat s = some p)
    (hp : p.embargoed = false) (hp' : p'.embargoed = true) :
    Effect h k (some p'.exportId) none (h.world.vat.set s (some p'))
  | claim (s : Fin CAPN_RPC_MAX_PROVISIONS) (p : Provision) (i : ExportId) (hs : h.world.vat s = some p)
    (hp : p.embargoed = false) (ho : h.origin s = none) : Effect h k (some i) (some i) (h.world.vat.set s none)
  | lift (s : Fin CAPN_RPC_MAX_PROVISIONS) (p : Provision) (hs : h.world.vat s = some p) (ho : h.origin s = none)
    (hc : h.claimant s = some (k, p.exportId) ∨ h.claimant s = none ∧ (h.world.conns k).exports p.exportId = none) :
    Effect h k none (some p.exportId) (h.world.vat.set s none)

/-- The exports after a reference was taken. -/
def Taken (ex ex' : Table CAPN_RPC_MAX_EXPORTS Export) : Option ExportId → Prop
  | none => ex' = ex
  | some i => ∃ x', ex' = ex.set i (some x') ∧ ((ex i = none ∧ x'.refcount = 1) ∨ ∃ x, ex i = some x ∧ x' = x.ref)

end

theorem capnRpcExport_taken {c c' : Conn} {server dispatch : Nat} {i : ExportId}
    (h : capnRpcExport c server dispatch = some (i, c')) : Taken c.exports c'.exports (some i) := by
  obtain ⟨e', rfl, -, ⟨e, he, rfl, -⟩ | ⟨hnone, rfl, -, -⟩⟩ := capnRpcExport_spec h
  · exact ⟨e.ref, rfl, .inr ⟨e, he, rfl⟩⟩
  · exact ⟨_, rfl, .inl ⟨hnone, rfl⟩⟩

theorem retain_taken {ex : Table CAPN_RPC_MAX_EXPORTS Export} {i : ExportId} {x : Export} (h : ex i = some x) :
    Taken ex (retain ex (some i)) (some i) := ⟨x.ref, by rw [retain, h, Option.map_some], .inr ⟨x, h, rfl⟩⟩

/-! ## What is handed out -/

theorem count_hosted (eid i : ExportId) :
    (([CapDescriptor.senderHosted eid].count (.senderHosted i) : Nat) : Int) = if some eid = some i then 1 else 0 := by
  rw [List.count_singleton]
  by_cases h : eid = i
  · simp only [h, beq_self_eq_true, if_true]
    rfl
  · have hne : ((CapDescriptor.senderHosted eid == CapDescriptor.senderHosted i) : Bool) = false := by
      rw [beq_eq_false_iff_ne]
      intro he
      injection he with he
      exact h (Fin.ext he)
    rw [hne, if_neg fun he => h (Option.some.inj he)]
    rfl

section

variable {env : Env} {c : Conn} {vat : Vat}

/-- A message that hands nothing out. -/
theorem given_none {m : Message} {o : Outgoing} (hm : (capnRpcHandle env c vat m).sent = emit env o)
    (hmsg : o.hosted = []) (i : ExportId) : given c vat (.recv env m) i = 0 := by
  have hnil : (emit env o).flatMap Outgoing.hosted = [] := by
    rw [emit]
    split
    · rfl
    · rw [List.flatMap_singleton, hmsg]
  show (((capnRpcHandle env c vat m).sent.flatMap Outgoing.hosted).count _ : Int) + 0 = 0
  rw [hm, hnil]
  rfl

theorem given_silent {m : Message} (hm : (capnRpcHandle env c vat m).sent = []) (i : ExportId) :
    given c vat (.recv env m) i = 0 := by
  show (((capnRpcHandle env c vat m).sent.flatMap Outgoing.hosted).count _ : Int) + 0 = 0
  rw [hm]
  rfl

theorem given_hosted {m : Message} {eid : ExportId}
    (hm : (capnRpcHandle env c vat m).sent.flatMap Outgoing.hosted = [.senderHosted eid]) (i : ExportId) :
    given c vat (.recv env m) i = if some eid = some i then 1 else 0 := by
  show (((capnRpcHandle env c vat m).sent.flatMap Outgoing.hosted).count _ : Int) + 0 = _
  rw [hm, count_hosted, Int.add_zero]

/-- An answer with a capability. -/
theorem given_cap (hs : env.Small) {m : Message} {l : Local} {qid : Nat} {eid : ExportId} (hl : l.sent = [])
    (hm : capnRpcHandle env c vat m = sendAnswer env l qid (.results (capPayload eid))) (i : ExportId) :
    given c vat (.recv env m) i = if some eid = some i then 1 else 0 := by
  have hfixed : (Outgoing.ret qid (.results (capPayload eid))).Fixed := by
    show (∃ e, capPayload eid = capPayload e) ∨ _
    exact .inl ⟨eid, rfl⟩
  apply given_hosted
  rw [hm, sendAnswer_emit, emit_fixed hs hfixed, hl]
  rfl

theorem given_exception {m : Message} {l : Local} {qid : Nat} {reason : String} (hl : l.sent = [])
    (hm : capnRpcHandle env c vat m = sendReturnException env l qid reason) (i : ExportId) :
    given c vat (.recv env m) i = 0 := by
  apply given_none (o := .ret qid (.exception reason)) ?_ rfl
  rw [hm, sendReturnException, sendMessage_emit, hl, List.nil_append]

/-! ## The effect of each event -/

variable {ι : Type} [DecidableEq ι] {h : Ledger ι} {k : ι}

/-- What an event on connection `k` does to the references. -/
def Does (h : Ledger ι) (k : ι) (e : Event) : Prop :=
  ∃ taken handed, Effect h k taken handed (e.run (h.world.conns k) h.world.vat).vat ∧
    Taken (h.world.conns k).exports (e.run (h.world.conns k) h.world.vat).conn.exports taken ∧
    (∀ i, taken = some i → takes (h.world.conns k) h.world.vat e = some i) ∧
    ∀ i, given (h.world.conns k) h.world.vat e i = if handed = some i then 1 else 0

omit [DecidableEq ι] in
/-- An event that leaves the references alone. -/
theorem does_idle {e : Event} (hvat : (e.run (h.world.conns k) h.world.vat).vat = h.world.vat)
    (hex : (e.run (h.world.conns k) h.world.vat).conn.exports = (h.world.conns k).exports)
    (hg : ∀ i, given (h.world.conns k) h.world.vat e i = 0) : Does h k e := by
  refine ⟨none, none, ?_, hex, nofun, fun i => ?_⟩
  · rw [hvat]
    exact .idle
  · rw [hg i]
    rfl

omit [DecidableEq ι] in
theorem does_bootstrap {env : Env} (hs : env.Small) (qid : Nat) : Does h k (.recv env (.bootstrap qid)) := by
  have hrun : capnRpcHandle env (h.world.conns k) h.world.vat (.bootstrap qid) =
    handleBootstrap env { conn := h.world.conns k, vat := h.world.vat } qid := rfl
  obtain ⟨reason, e, -⟩ | ⟨server, dispatch, eid, conn, hb, he, e⟩ :=
    handleBootstrap_cases env { conn := h.world.conns k, vat := h.world.vat } qid
  · rw [e] at hrun
    refine does_idle ?_ ?_ (given_exception rfl hrun)
    · show (capnRpcHandle _ _ _ _).vat = _
      rw [hrun, sendReturnException, sendMessage_vat]
    · show (capnRpcHandle _ _ _ _).conn.exports = _
      rw [hrun, sendReturnException, sendMessage_conn]
  · replace hb : (h.world.conns k).bootstrap = some (server, dispatch) := hb
    replace he : capnRpcExport (h.world.conns k) server dispatch = some (eid, conn) := he
    rw [e] at hrun
    refine ⟨some eid, some eid, ?_, ?_, fun i hi => ?_, given_cap hs rfl hrun⟩
    · show Effect h k _ _ (capnRpcHandle _ _ _ _).vat
      rw [hrun, sendAnswer_vat]
      exact .grant eid
    · show Taken _ (capnRpcHandle _ _ _ _).conn.exports _
      rw [hrun, sendAnswer_exports]
      exact capnRpcExport_taken he
    · show ((h.world.conns k).bootstrap.bind fun b => (capnRpcExport (h.world.conns k) b.1 b.2).map (·.1)) = some i
      rw [hb, Option.bind_some, he, ← hi]
      rfl

omit [DecidableEq ι] in
theorem does_export (server dispatch : Nat) : Does h k (.exportCap server dispatch) := by
  cases he : capnRpcExport (h.world.conns k) server dispatch with
  | none =>
    have hrun : Event.run (h.world.conns k) h.world.vat (.exportCap server dispatch) =
        { conn := h.world.conns k, vat := h.world.vat } := by
      rw [Event.run, he]
    refine does_idle (by rw [hrun]) (by rw [hrun]) fun i => ?_
    rw [given, hrun, appExport, he]
    rfl
  | some r =>
    obtain ⟨eid, conn⟩ := r
    have hrun : Event.run (h.world.conns k) h.world.vat (.exportCap server dispatch) =
        { conn := conn, vat := h.world.vat } := by
      rw [Event.run, he]
    refine ⟨some eid, some eid, ?_, ?_, fun i hi => ?_, fun i => ?_⟩
    · rw [hrun]
      exact .grant eid
    · rw [hrun]
      exact capnRpcExport_taken he
    · rw [takes, he, ← hi]
      rfl
    · rw [given, hrun, appExport, he]
      exact Int.zero_add _

omit [DecidableEq ι] in
theorem does_call {env : Env} (qid : Nat) (target : Option MessageTarget) (interfaceId methodId : Nat)
    (params : Payload) : Does h k (.recv env (.call qid target interfaceId methodId params)) := by
  have hrun : capnRpcHandle env (h.world.conns k) h.world.vat (.call qid target interfaceId methodId params) =
    handleCall env { conn := h.world.conns k, vat := h.world.vat } qid target interfaceId methodId params := rfl
  rw [handleCall_eq] at hrun
  have hexc : ∀ {reason : String}, capnRpcHandle env (h.world.conns k) h.world.vat
      (.call qid target interfaceId methodId params) =
        sendReturnException env { conn := h.world.conns k, vat := h.world.vat } qid reason →
      Does h k (.recv env (.call qid target interfaceId methodId params)) := by
    intro reason e
    refine does_idle ?_ ?_ (given_exception rfl e)
    · show (capnRpcHandle _ _ _ _).vat = _
      rw [e, sendReturnException, sendMessage_vat]
    · show (capnRpcHandle _ _ _ _).conn.exports = _
      rw [e, sendReturnException, sendMessage_conn]
  split at hrun
  · exact hexc hrun
  rename_i x _
  split at hrun
  · exact hexc hrun
  refine does_idle ?_ ?_ (given_none (o := .ret qid
    (.results ⟨(env.dispatch x.server x.dispatch interfaceId methodId params.content).2, []⟩)) ?_ rfl)
  · show (capnRpcHandle _ _ _ _).vat = _
    rw [hrun, sendAnswer_vat]
  · show (capnRpcHandle _ _ _ _).conn.exports = _
    rw [hrun, sendAnswer_exports]
  · rw [hrun, sendAnswer_emit, List.nil_append]

omit [DecidableEq ι] in
theorem does_provide {env : Env} (qid : Nat) (target : Option MessageTarget) (recipient : Option Nat) :
    Does h k (.recv env (.provide qid target recipient)) := by
  have hrun : capnRpcHandle env (h.world.conns k) h.world.vat (.provide qid target recipient) =
    handleProvide env { conn := h.world.conns k, vat := h.world.vat } qid target recipient := rfl
  obtain ⟨reason, e, -⟩ | ⟨eid, x, nonce, s, ht, hx, rfl, hfree, e⟩ :=
    handleProvide_cases env { conn := h.world.conns k, vat := h.world.vat } qid target recipient
  · rw [e] at hrun
    refine does_idle ?_ ?_ (given_exception rfl hrun)
    · show (capnRpcHandle _ _ _ _).vat = _
      rw [hrun, sendReturnException, sendMessage_vat]
    · show (capnRpcHandle _ _ _ _).conn.exports = _
      rw [hrun, sendReturnException, sendMessage_conn]
  · replace ht : resolveTarget (h.world.conns k) target = some eid := ht
    replace hfree : h.world.vat.free = some s := hfree
    rw [e] at hrun
    refine ⟨some eid, none, ?_, ?_, fun i hi => ?_, fun i => ?_⟩
    · show Effect h k _ _ (capnRpcHandle _ _ _ _).vat
      rw [hrun, sendEmptyReturn, sendAnswer_vat]
      exact .provide s ⟨nonce, x.server, x.dispatch, eid, qid, false, 0⟩ (Table.free_some hfree) rfl
    · show Taken _ (capnRpcHandle _ _ _ _).conn.exports _
      rw [hrun, sendEmptyReturn, sendAnswer_exports]
      exact ⟨x.ref, rfl, .inr ⟨x, hx, rfl⟩⟩
    · rw [takes, hfree, ht, ← hi]
      rfl
    · refine given_none (o := .ret qid (.results ⟨fun _ => .other, []⟩)) ?_ rfl i
      rw [hrun, sendEmptyReturn, sendAnswer_emit, List.nil_append]

omit [DecidableEq ι] in
theorem does_join {env : Env} (hs : env.Small) (qid : Nat) (target : Option MessageTarget) (keyPart : Option JoinKeyPart) :
    Does h k (.recv env (.join qid target keyPart)) := by
  have hrun : capnRpcHandle env (h.world.conns k) h.world.vat (.join qid target keyPart) =
    handleJoin env { conn := h.world.conns k, vat := h.world.vat } qid target keyPart := rfl
  have hvat : (Event.run (h.world.conns k) h.world.vat (.recv env (.join qid target keyPart))).vat = h.world.vat :=
    vat_event _ _ _ (by simp) (by simp) (by simp)
  obtain ⟨-, jid, e⟩ | ⟨slot, j, n, hacc, e⟩ :=
    handleJoin_cases env { conn := h.world.conns k, vat := h.world.vat } qid target keyPart
  · rw [e] at hrun
    refine does_idle hvat ?_ (given_none (o := .ret qid (.joinResult jid false [])) ?_ rfl)
    · show (capnRpcHandle _ _ _ _).conn.exports = _
      rw [hrun, sendJoinResult_exports, retain]
    · rw [hrun, sendJoinResult, sendMessage_emit, List.nil_append]
  · replace hacc : accepted (h.world.conns k) keyPart = some (slot, j, n) := hacc
    obtain ⟨-, hlt, -, -⟩ := accepted_some hacc
    simp only at e
    split at e
    · rename_i hn
      rw [e] at hrun
      have hpos : 0 < (j.park n qid (resolveTarget (h.world.conns k) target)).partCount := Nat.zero_lt_of_lt hlt
      have hsent : (capnRpcHandle env (h.world.conns k) h.world.vat (.join qid target keyPart)).sent.flatMap
          Outgoing.hosted = if (j.park n qid (resolveTarget (h.world.conns k) target)).same then
            (((j.park n qid (resolveTarget (h.world.conns k) target)).eids 0).map
              fun eid : ExportId => CapDescriptor.senderHosted eid).toList else [] := by
        rw [hrun, joinComplete_sent, List.nil_append, emit_replies hs, join_hosted hpos]
      have hexports : (capnRpcHandle env (h.world.conns k) h.world.vat (.join qid target keyPart)).conn.exports =
          retain (h.world.conns k).exports (if (j.park n qid (resolveTarget (h.world.conns k) target)).same then
            (j.park n qid (resolveTarget (h.world.conns k) target)).eids 0 else none) := by
        rw [hrun, joinComplete_exports env _ slot hpos]
      by_cases hsame : (j.park n qid (resolveTarget (h.world.conns k) target)).same = true
      · rw [if_pos hsame] at hsent hexports
        cases heid : (j.park n qid (resolveTarget (h.world.conns k) target)).eids 0 with
        | none =>
          rw [heid] at hsent hexports
          refine does_idle hvat hexports fun i => ?_
          show (((capnRpcHandle _ _ _ _).sent.flatMap Outgoing.hosted).count _ : Int) + 0 = 0
          rw [hsent]
          rfl
        | some eid =>
          rw [heid] at hsent hexports
          cases hx : (h.world.conns k).exports eid with
          | none =>
            refine ⟨none, some eid, ?_, ?_, by simp, given_hosted hsent⟩
            · rw [hvat]
              exact .stale eid hx
            · rw [Taken]
              exact hexports.trans (Table.set_eq_self (by rw [hx]; rfl))
          | some x =>
            refine ⟨some eid, some eid, ?_, ?_, fun i hi => ?_, given_hosted hsent⟩
            · rw [hvat]
              exact .grant eid
            · show Taken _ (capnRpcHandle _ _ _ _).conn.exports _
              rw [hexports]
              exact retain_taken hx
            · rw [takes, hacc, ← hi]
              show (if _ then _ else none) = some eid
              rw [if_pos ⟨hn, hsame⟩, heid]
      · rw [if_neg hsame] at hsent hexports
        refine does_idle hvat hexports fun i => ?_
        show (((capnRpcHandle _ _ _ _).sent.flatMap Outgoing.hosted).count _ : Int) + 0 = 0
        rw [hsent]
        rfl
    · rw [e] at hrun
      refine does_idle hvat ?_ (given_silent (by rw [hrun]))
      show (capnRpcHandle _ _ _ _).conn.exports = _
      rw [hrun]

omit [DecidableEq ι] in
theorem does_accept {env : Env} (hs : env.Small) (qid : Nat) (provision : Option Nat) (embargo : Bool)
    (hback : GivesBack h k (.recv env (.accept qid provision embargo))) :
    Does h k (.recv env (.accept qid provision embargo)) := by
  have hrun : capnRpcHandle env (h.world.conns k) h.world.vat (.accept qid provision embargo) =
    handleAccept env { conn := h.world.conns k, vat := h.world.vat } qid provision embargo := rfl
  obtain ⟨reason, e, -, -⟩ | ⟨nonce, s, p, eid, conn, rfl, hf, hp, he, e⟩ :=
    handleAccept_cases env { conn := h.world.conns k, vat := h.world.vat } qid provision embargo
  · rw [e] at hrun
    refine does_idle ?_ ?_ (given_exception rfl hrun)
    · show (capnRpcHandle _ _ _ _).vat = _
      rw [hrun, sendReturnException, sendMessage_vat]
    · show (capnRpcHandle _ _ _ _).conn.exports = _
      rw [hrun, sendReturnException, sendMessage_conn]
  · replace hf : claimable h.world.vat nonce = some s := hf
    replace hp : h.world.vat s = some p := hp
    replace he : capnRpcExport (h.world.conns k) p.server p.dispatch = some (eid, conn) := he
    obtain ⟨p', hp', hemb, -⟩ := claimable_some hf
    rw [hp] at hp'
    cases hp'
    have htakes : ∀ i, some eid = some i →
        takes (h.world.conns k) h.world.vat (.recv env (.accept qid (some nonce) embargo)) = some i := by
      intro i hi
      rw [takes, hf, Option.bind_some, hp, Option.bind_some, he, ← hi]
      rfl
    rw [e] at hrun
    cases embargo with
    | true =>
      refine ⟨some eid, none, ?_, ?_, htakes, given_silent (by rw [hrun]; rfl)⟩
      · show Effect h k _ _ (capnRpcHandle _ _ _ _).vat
        rw [hrun]
        exact .park s p { p with exportId := eid, embargoed := true, acceptQuestionId := qid } hp hemb rfl
      · show Taken _ (capnRpcHandle _ _ _ _).conn.exports _
        rw [hrun]
        exact capnRpcExport_taken he
    | false =>
      replace hrun : capnRpcHandle env (h.world.conns k) h.world.vat (.accept qid (some nonce) false) =
        sendAnswer env { conn := conn, vat := h.world.vat.set s none } qid (.results (capPayload eid)) := hrun
      refine ⟨some eid, some eid, ?_, ?_, htakes, given_cap hs rfl hrun⟩
      · show Effect h k _ _ (capnRpcHandle _ _ _ _).vat
        rw [hrun, sendAnswer_vat]
        exact .claim s p eid hp hemb (hback (claims_some hf hp he) s hf)
      · show Taken _ (capnRpcHandle _ _ _ _).conn.exports _
        rw [hrun, sendAnswer_exports]
        exact capnRpcExport_taken he

omit [DecidableEq ι] in
theorem does_disembargo {env : Env} (hs : env.Small) (target : Option MessageTarget) (qid : Nat)
    (hback : GivesBack h k (.recv env (.disembargo target (.provide qid)))) :
    Does h k (.recv env (.disembargo target (.provide qid))) := by
  have hrun : capnRpcHandle env (h.world.conns k) h.world.vat (.disembargo target (.provide qid)) =
    releaseProvideEmbargo env { conn := h.world.conns k, vat := h.world.vat } qid := rfl
  obtain ⟨-, e⟩ | ⟨s, p, hf, hp, e⟩ :=
    releaseProvideEmbargo_cases env { conn := h.world.conns k, vat := h.world.vat } qid
  · rw [e] at hrun
    refine does_idle ?_ ?_ (given_silent (by rw [hrun]))
    · show (capnRpcHandle _ _ _ _).vat = _
      rw [hrun]
    · show (capnRpcHandle _ _ _ _).conn.exports = _
      rw [hrun]
  · replace hf : liftable h.world.vat qid = some s := hf
    replace hp : h.world.vat s = some p := hp
    obtain ⟨ho, hc⟩ := hback s p hf hp
    rw [e, sendAcceptedCap] at hrun
    refine ⟨none, some p.exportId, ?_, ?_, by simp, given_cap hs rfl hrun⟩
    · show Effect h k _ _ (capnRpcHandle _ _ _ _).vat
      rw [hrun, sendAnswer_vat]
      exact .lift s p hp ho hc
    · show (capnRpcHandle _ _ _ _).conn.exports = _
      rw [hrun, sendAnswer_exports]

omit [DecidableEq ι] in
/-- A message whose handler touches no table of references. -/
theorem does_message {env : Env} {m : Message} {o : Outgoing} (hout : o.hosted = [])
    (hconn : (capnRpcHandle env (h.world.conns k) h.world.vat m).conn.exports = (h.world.conns k).exports)
    (hvat : (capnRpcHandle env (h.world.conns k) h.world.vat m).vat = h.world.vat)
    (hsent : (capnRpcHandle env (h.world.conns k) h.world.vat m).sent = [] ∨
      (capnRpcHandle env (h.world.conns k) h.world.vat m).sent = emit env o) : Does h k (.recv env m) := by
  refine does_idle hvat hconn ?_
  rcases hsent with hsent | hsent
  · exact given_silent hsent
  · exact given_none hsent hout

omit [DecidableEq ι] in
/-- **An event** that is no Release. -/
theorem does_event {e : Event} (hok : Conserving h (k, e)) (hr : ∀ env id n, e ≠ .recv env (.release id n)) :
    Does h k e := by
  cases e with
  | setBootstrap bootstrap => exact does_idle rfl rfl fun _ => rfl
  | exportCap server dispatch => exact does_export server dispatch
  | recv env m =>
    have hs := hok.small env m rfl
    cases m with
    | bootstrap qid => exact does_bootstrap hs qid
    | call qid target interfaceId methodId params => exact does_call qid target interfaceId methodId params
    | finish qid =>
      refine does_message (o := .unimplemented .ret) rfl ?_ rfl (.inl rfl)
      show (answerDrop (h.world.conns k) qid).exports = _
      rw [answerDrop]
      split <;> rfl
    | release id n => exact absurd rfl (hr env id n)
    | join qid target keyPart => exact does_join hs qid target keyPart
    | ret => exact does_message (o := .unimplemented .ret) rfl rfl rfl (.inl rfl)
    | resolve =>
      refine does_message (o := .unimplemented .resolve) rfl ?_ ?_ (.inr ?_)
      · exact congrArg Conn.exports (sendMessage_conn env _ _)
      · exact sendMessage_vat env _ _
      · exact sendMessage_emit env _ _
    | obsolete =>
      refine does_message (o := .unimplemented .obsolete) rfl ?_ ?_ (.inr ?_)
      · exact congrArg Conn.exports (sendMessage_conn env _ _)
      · exact sendMessage_vat env _ _
      · exact sendMessage_emit env _ _
    | disembargo target context =>
      cases context with
      | provide qid => exact does_disembargo hs target qid hok.back
      | senderLoopback id =>
        refine does_message (o := .disembargo target (.receiverLoopback id)) rfl ?_ ?_ (.inr ?_)
        · exact congrArg Conn.exports (sendMessage_conn env _ _)
        · exact sendMessage_vat env _ _
        · exact sendMessage_emit env _ _
      | receiverLoopback id => exact does_message (o := .unimplemented .ret) rfl rfl rfl (.inl rfl)
      | accept => exact does_message (o := .unimplemented .ret) rfl rfl rfl (.inl rfl)
    | provide qid target recipient => exact does_provide qid target recipient
    | accept qid provision embargo => exact does_accept hs qid provision embargo hok.back

/-! ## The books -/

/-- The account of every export: what provisions hold is used, and a used entry counts the
references handed out and held. -/
structure Books (h : Ledger ι) : Prop where
  origin : ∀ s k i, h.origin s = some (k, i) → ((h.world.conns k).exports i).isSome = true ∧ (h.world.vat s).isSome = true
  claimant : ∀ s k i, h.claimant s = some (k, i) →
    ((h.world.conns k).exports i).isSome = true ∧ (h.world.vat s).any (·.embargoed) = true
  count : ∀ k i x, (h.world.conns k).exports i = some x →
    x.refcount = h.refs k i + h.held k i ∧ 0 < x.refcount ∧ x.refcount < 2 ^ 31
  empty : ∀ k i, (h.world.conns k).exports i = none → h.refs k i = 0

/-- Nothing is held on a slot that is not used. -/
theorem Books.held_empty (hb : Books h) {i : ExportId} (hi : (h.world.conns k).exports i = none) : h.held k i = 0 := by
  rw [Ledger.held, held]
  refine Finset.sum_eq_zero fun s _ => ?_
  have ho : h.origin s ≠ some (k, i) := by
    intro ho
    have hused := (hb.origin s k i ho).1
    rw [hi] at hused
    exact absurd hused (by decide)
  have hc : h.claimant s ≠ some (k, i) := by
    intro hc
    have hused := (hb.claimant s k i hc).1
    rw [hi] at hused
    exact absurd hused (by decide)
  rw [holds, holds, if_neg ho, if_neg hc]
  rfl

/-- A used slot is held as before, where a provision stayed. -/
theorem holds_live {c' : Conn} {j : ι} {i : ExportId} (hi : j ≠ k ∨ (c'.exports i).isSome = true)
    (o : Option (ι × ExportId)) : holds j i (live k c' o) = holds j i o := by
  by_cases ho : o = some (j, i)
  · have hlive : live k c' (some (j, i)) = some (j, i) := by
      rw [live, Option.filter_some]
      exact if_pos (decide_eq_true hi)
    rw [ho, hlive]
  · have hlive : live k c' o ≠ some (j, i) := fun hl => ho (Option.filter_eq_some_iff.mp hl).1
    rw [holds, holds, if_neg ho, if_neg hlive]

theorem Books.holds_origin (hb : Books h) {vat' : Vat} {c' : Conn} {j : ι} {i : ExportId}
    (hi : j ≠ k ∨ (c'.exports i).isSome = true) {s : Fin CAPN_RPC_MAX_PROVISIONS} (hs : vat' s = h.world.vat s) :
    holds j i (origins k h.world.vat vat' c' h.origin s) = holds j i (h.origin s) := by
  rw [origins, hs]
  cases hp : h.world.vat s with
  | some p => exact holds_live hi _
  | none =>
    have ho : h.origin s ≠ some (j, i) := by
      intro ho
      have hused := (hb.origin s j i ho).2
      rw [hp] at hused
      exact absurd hused (by decide)
    rw [holds, holds, if_neg ho]
    rfl

theorem Books.holds_claimant (hb : Books h) {vat' : Vat} {c' : Conn} {j : ι} {i : ExportId}
    (hi : j ≠ k ∨ (c'.exports i).isSome = true) {s : Fin CAPN_RPC_MAX_PROVISIONS} (hs : vat' s = h.world.vat s) :
    holds j i (claimants k h.world.vat vat' c' h.claimant s) = holds j i (h.claimant s) := by
  rw [claimants, hs]
  cases hp : h.world.vat s with
  | some p =>
    rw [Option.bind_some, Option.any_some, if_neg fun hn => hn.2 hn.1]
    exact holds_live hi _
  | none =>
    have hc : h.claimant s ≠ some (j, i) := by
      intro hc
      have hused := (hb.claimant s j i hc).2
      rw [hp] at hused
      exact absurd hused (by decide)
    rw [holds, holds, if_neg hc]
    rfl

/-- A provision that is not parked holds no export for an Accept. -/
theorem Books.claimant_none (hb : Books h) {s : Fin CAPN_RPC_MAX_PROVISIONS}
    (hs : (h.world.vat s).any (·.embargoed) = false) : h.claimant s = none := by
  cases hc : h.claimant s with
  | none => rfl
  | some o =>
    have hused := (hb.claimant s o.1 o.2 hc).2
    rw [hs] at hused
    exact absurd hused (by decide)

theorem Books.origin_none (hb : Books h) {s : Fin CAPN_RPC_MAX_PROVISIONS} (hs : h.world.vat s = none) :
    h.origin s = none := by
  cases ho : h.origin s with
  | none => rfl
  | some o =>
    have hused := (hb.origin s o.1 o.2 ho).2
    rw [hs] at hused
    exact absurd hused (by decide)

/-- What the provisions hold after one of them changed: the others hold what they held. -/
theorem Books.held_set (hb : Books h) {c' : Conn} {j : ι} {i : ExportId} (hi : j ≠ k ∨ (c'.exports i).isSome = true)
    (s : Fin CAPN_RPC_MAX_PROVISIONS) (p : Option Provision) :
    held (origins k h.world.vat (h.world.vat.set s p) c' h.origin)
        (claimants k h.world.vat (h.world.vat.set s p) c' h.claimant) j i =
      h.held j i - (holds j i (h.origin s) + holds j i (h.claimant s)) +
        (holds j i (origins k h.world.vat (h.world.vat.set s p) c' h.origin s) +
          holds j i (claimants k h.world.vat (h.world.vat.set s p) c' h.claimant s)) := by
  rw [held, Table.sum_change (f := fun t => holds j i (h.origin t) + holds j i (h.claimant t)) s fun t ht => by
    rw [hb.holds_origin hi (Table.set_ne _ _ ht), hb.holds_claimant hi (Table.set_ne _ _ ht)]]
  rfl

theorem Books.held_same (hb : Books h) {c' : Conn} {j : ι} {i : ExportId} (hi : j ≠ k ∨ (c'.exports i).isSome = true) :
    held (origins k h.world.vat h.world.vat c' h.origin) (claimants k h.world.vat h.world.vat c' h.claimant) j i =
      h.held j i := by
  rw [Ledger.held, held, held]
  exact Finset.sum_congr rfl fun s _ => by rw [hb.holds_origin hi rfl, hb.holds_claimant hi rfl]

/-- **What provisions hold** changes by what an event takes and does not hand out. -/
theorem Books.held_effect (hb : Books h) {taken handed : Option ExportId} {vat' : Vat} (he : Effect h k taken handed vat')
    {c' : Conn} (hkept : ∀ i, taken ≠ some i → c'.exports i = (h.world.conns k).exports i) {j : ι} {i : ExportId}
    (hi : j ≠ k ∨ (c'.exports i).isSome = true) :
    held (origins k h.world.vat vat' c' h.origin) (claimants k h.world.vat vat' c' h.claimant) j i +
        (if j = k ∧ handed = some i then 1 else 0) = h.held j i + if j = k ∧ taken = some i then 1 else 0 := by
  -- a slot that is not used gets nothing
  have hdead : ∀ {n : ExportId}, (h.world.conns k).exports n = none → taken = none → ¬ (j = k ∧ some n = some i) := by
    intro n hn ht ⟨hj, hni⟩
    rcases hi with hne | hused
    · exact hne hj
    · rw [hkept i (by rw [ht]; exact (Option.some_ne_none i).symm), ← Option.some.inj hni, hn] at hused
      exact absurd hused (by decide)
  cases he with
  | idle => simp only [hb.held_same hi]
  | grant n => simp only [hb.held_same hi]
  | stale n hn =>
    rw [hb.held_same hi, if_neg (hdead hn rfl)]
    simp only [reduceCtorEq, and_false, if_false]
  | provide s p hs hp =>
    rw [hb.held_set hi]
    have ho : origins k h.world.vat (h.world.vat.set s (some p)) c' h.origin s = some (k, p.exportId) := by
      rw [origins, Table.set_same, hs]
      rfl
    have hc : claimants k h.world.vat (h.world.vat.set s (some p)) c' h.claimant s = none := by
      rw [claimants, Table.set_same, Option.bind_some, if_neg fun hn => by rw [hp] at hn; exact absurd hn.1 (by decide),
        hb.claimant_none (by rw [hs]; rfl)]
      rfl
    rw [ho, hc, hb.origin_none hs, hb.claimant_none (by rw [hs]; rfl)]
    simp only [holds, Option.some.injEq, Prod.mk.injEq, reduceCtorEq, and_false, if_false, @eq_comm _ k j]
    omega
  | park s p p' hs hp hp' =>
    rw [hb.held_set hi]
    have hquiet : (h.world.vat s).any (·.embargoed) = false := by rw [hs, Option.any_some, hp]
    have ho : holds j i (origins k h.world.vat (h.world.vat.set s (some p')) c' h.origin s) = holds j i (h.origin s) := by
      rw [origins, Table.set_same, hs]
      exact holds_live hi _
    have hc : claimants k h.world.vat (h.world.vat.set s (some p')) c' h.claimant s = some (k, p'.exportId) := by
      rw [claimants, Table.set_same, Option.bind_some]
      exact if_pos ⟨hp', by rw [hquiet]; decide⟩
    rw [ho, hc, hb.claimant_none hquiet]
    simp only [holds, Option.some.injEq, Prod.mk.injEq, reduceCtorEq, and_false, if_false, @eq_comm _ k j]
    omega
  | claim s p n hs hp ho =>
    rw [hb.held_set hi, ho, hb.claimant_none (by rw [hs, Option.any_some, hp])]
    simp only [origins, claimants, Table.set_same, Option.bind_none, holds, reduceCtorEq, if_false]
    omega
  | lift s p hs ho hc =>
    rw [hb.held_set hi, ho]
    simp only [origins, claimants, Table.set_same, Option.bind_none, holds, reduceCtorEq, if_false]
    rcases hc with hc | ⟨hc, hn⟩
    · simp only [hc, Option.some.injEq, Prod.mk.injEq, @eq_comm _ k j]
      simp only [and_false, if_false]
      omega
    · rw [hc, if_neg (hdead hn rfl)]
      simp only [reduceCtorEq, and_false, if_false]
      omega

/-- The provisions after an event: a new one, and one newly parked, holds a used export,
and one that was parked stays so. -/
structure Moved (vat vat' : Vat) (c' : Conn) : Prop where
  fresh : ∀ s p', vat s = none → vat' s = some p' → (c'.exports p'.exportId).isSome = true
  parked : ∀ s p', vat' s = some p' → p'.embargoed = true → (vat s).any (·.embargoed) = false →
    (c'.exports p'.exportId).isSome = true
  stays : ∀ s p', vat' s = some p' → (vat s).any (·.embargoed) = true → p'.embargoed = true

theorem moved_same (vat : Vat) (c' : Conn) : Moved vat vat c' := by
  refine ⟨fun s p' h h' => ?_, fun s p' h hp hq => ?_, fun s p' h hq => ?_⟩
  · rw [h] at h'
    cases h'
  · rw [h, Option.any_some, hp] at hq
    exact absurd hq (by decide)
  · rw [h, Option.any_some] at hq
    exact hq

theorem moved_set {vat : Vat} {c' : Conn} {s : Fin CAPN_RPC_MAX_PROVISIONS} {p : Option Provision}
    (hp : ∀ p', p = some p' → (c'.exports p'.exportId).isSome = true)
    (hs : ∀ p', p = some p' → (vat s).any (·.embargoed) = true → p'.embargoed = true) : Moved vat (vat.set s p) c' := by
  have hsame := moved_same vat c'
  refine ⟨fun t p' h h' => ?_, fun t p' h hp' hq => ?_, fun t p' h hq => ?_⟩
  · by_cases ht : t = s
    · rw [ht, Table.set_same] at h'
      exact hp p' h'
    · rw [Table.set_ne _ _ ht] at h'
      exact hsame.fresh t p' h h'
  · by_cases ht : t = s
    · rw [ht, Table.set_same] at h
      exact hp p' h
    · rw [Table.set_ne _ _ ht] at h
      exact hsame.parked t p' h hp' hq
  · by_cases ht : t = s
    · rw [ht, Table.set_same] at h
      rw [ht] at hq
      exact hs p' h hq
    · rw [Table.set_ne _ _ ht] at h
      exact hsame.stays t p' h hq

omit [DecidableEq ι] in
theorem Effect.moved {taken handed : Option ExportId} {vat' : Vat} (he : Effect h k taken handed vat') {c' : Conn}
    (hnew : ∀ i, taken = some i → (c'.exports i).isSome = true) : Moved h.world.vat vat' c' := by
  cases he with
  | idle => exact moved_same _ c'
  | grant i => exact moved_same _ c'
  | stale i hi => exact moved_same _ c'
  | provide s p hs hp =>
    refine moved_set (fun p' e => hnew _ (by rw [Option.some.inj e])) fun p' _ hq => ?_
    rw [hs] at hq
    exact absurd hq (by decide)
  | park s p p' hs hp hp' =>
    refine moved_set (fun q e => hnew _ (by rw [Option.some.inj e])) fun q e _ => ?_
    rw [← Option.some.inj e, hp']
  | claim s p i hs hp ho => exact moved_set nofun nofun
  | lift s p hs ho hc => exact moved_set nofun nofun

/-- What the origins of an event hold: as before, or a new export. -/
theorem origins_some {vat vat' : Vat} {c' : Conn} {origin : Fin CAPN_RPC_MAX_PROVISIONS → Option (ι × ExportId)}
    {s : Fin CAPN_RPC_MAX_PROVISIONS} {j : ι} {i : ExportId} (ho : origins k vat vat' c' origin s = some (j, i)) :
    (vat' s).isSome = true ∧ ((∃ p', vat s = none ∧ vat' s = some p' ∧ j = k ∧ i = p'.exportId) ∨
      origin s = some (j, i) ∧ (j ≠ k ∨ (c'.exports i).isSome = true)) := by
  obtain ⟨p', hp', ho⟩ := Option.bind_eq_some_iff.mp ho
  refine ⟨by rw [hp']; rfl, ?_⟩
  split at ho
  · rename_i hnone
    obtain ⟨rfl, rfl⟩ := Prod.mk.inj (Option.some.inj ho)
    exact .inl ⟨p', Option.isNone_iff_eq_none.mp hnone, hp', rfl, rfl⟩
  · obtain ⟨ho, hlive⟩ := Option.filter_eq_some_iff.mp ho
    exact .inr ⟨ho, of_decide_eq_true hlive⟩

theorem claimants_some {vat vat' : Vat} {c' : Conn} {claimant : Fin CAPN_RPC_MAX_PROVISIONS → Option (ι × ExportId)}
    {s : Fin CAPN_RPC_MAX_PROVISIONS} {j : ι} {i : ExportId} (hc : claimants k vat vat' c' claimant s = some (j, i)) :
    ∃ p', vat' s = some p' ∧
      (p'.embargoed = true ∧ (vat s).any (·.embargoed) = false ∧ j = k ∧ i = p'.exportId ∨
        claimant s = some (j, i) ∧ (j ≠ k ∨ (c'.exports i).isSome = true)) := by
  obtain ⟨p', hp', hc⟩ := Option.bind_eq_some_iff.mp hc
  refine ⟨p', hp', ?_⟩
  split at hc
  · rename_i hnew
    obtain ⟨rfl, rfl⟩ := Prod.mk.inj (Option.some.inj hc)
    exact .inl ⟨hnew.1, Bool.eq_false_iff.mpr hnew.2, rfl, rfl⟩
  · obtain ⟨hc, hlive⟩ := Option.filter_eq_some_iff.mp hc
    exact .inr ⟨hc, of_decide_eq_true hlive⟩

/-- **The books after an event** on connection `k`: it is enough that the counts of its own
used entries are right. -/
theorem Books.step (hb : Books h) {e : Event}
    (hmoved : Moved h.world.vat (h.world.step (k, e)).vat ((h.world.step (k, e)).conns k))
    (hcount : ∀ i x, ((h.world.step (k, e)).conns k).exports i = some x →
      x.refcount = h.refs k i + given (h.world.conns k) h.world.vat e i - released e i + (h.step (k, e)).held k i ∧
        0 < x.refcount ∧ x.refcount < 2 ^ 31)
    (hother : ∀ j i, j ≠ k → (h.step (k, e)).held j i = h.held j i) : Books (h.step (k, e)) := by
  refine ⟨fun s j i ho => ?_, fun s j i hc => ?_, fun j i x hx => ?_, fun j i hi => ?_⟩
  · obtain ⟨hs, ⟨p', hn, hp', rfl, rfl⟩ | ⟨ho, hj⟩⟩ := origins_some (k := k) ho
    · exact ⟨hmoved.fresh s p' hn hp', hs⟩
    · refine ⟨?_, hs⟩
      by_cases hjk : j = k
      · rw [hjk]
        exact hj.resolve_left fun hne => hne hjk
      · show (((h.world.step (k, e)).conns j).exports i).isSome = true
        rw [step_conns_ne _ _ hjk]
        exact (hb.origin s j i ho).1
  · obtain ⟨p', hp', ⟨hemb, hn, rfl, rfl⟩ | ⟨hc, hj⟩⟩ := claimants_some (k := k) hc
    · refine ⟨hmoved.parked s p' hp' hemb hn, ?_⟩
      show ((h.world.step (j, e)).vat s).any _ = true
      rw [hp']
      exact hemb
    · refine ⟨?_, ?_⟩
      · by_cases hjk : j = k
        · rw [hjk]
          exact hj.resolve_left fun hne => hne hjk
        · show (((h.world.step (k, e)).conns j).exports i).isSome = true
          rw [step_conns_ne _ _ hjk]
          exact (hb.claimant s j i hc).1
      · show ((h.world.step (k, e)).vat s).any _ = true
        rw [hp']
        exact hmoved.stays s p' hp' (hb.claimant s j i hc).2
  · by_cases hjk : j = k
    · subst hjk
      have hused : ((h.world.step (j, e)).conns j).exports i ≠ none := by
        intro hn
        have hx' : ((h.world.step (j, e)).conns j).exports i = some x := hx
        rw [hn] at hx'
        cases hx'
      have hrefs : (h.step (j, e)).refs j i =
          h.refs j i + given (h.world.conns j) h.world.vat e i - released e i := by
        show (if j = j then _ else _) = _
        rw [if_pos rfl, if_neg hused]
      rw [hrefs]
      exact hcount i x hx
    · have hx' : ((h.world.step (k, e)).conns j).exports i = some x := hx
      rw [step_conns_ne _ _ hjk] at hx'
      have hrefs : (h.step (k, e)).refs j i = h.refs j i := if_neg hjk
      rw [hrefs, hother j i hjk]
      exact hb.count j i x hx'
  · by_cases hjk : j = k
    · subst hjk
      show (if j = j then _ else _) = _
      rw [if_pos rfl]
      exact if_pos hi
    · have hi' : ((h.world.step (k, e)).conns j).exports i = none := hi
      rw [step_conns_ne _ _ hjk] at hi'
      show (if j = k then _ else _) = _
      rw [if_neg hjk]
      exact hb.empty j i hi'

/-! ## Each event keeps the books -/

theorem intWrap_small {x : Int} (hlo : -2 ^ 31 ≤ x) (hhi : x < 2 ^ 31) : intWrap x = x := by
  rw [intWrap, Int.emod_eq_of_lt (by omega) (by omega)]
  omega

theorem taken_ne {ex ex' : Table CAPN_RPC_MAX_EXPORTS Export} {taken : Option ExportId} (ht : Taken ex ex' taken)
    {i : ExportId} (hi : taken ≠ some i) : ex' i = ex i := by
  cases taken with
  | none => exact congrFun ht i
  | some n =>
    obtain ⟨x', rfl, -⟩ := ht
    exact Table.set_ne _ _ fun hni => hi (by rw [hni])

theorem taken_some {ex ex' : Table CAPN_RPC_MAX_EXPORTS Export} {i : ExportId} (ht : Taken ex ex' (some i)) :
    ∃ x', ex' i = some x' ∧ ((ex i = none ∧ x'.refcount = 1) ∨ ∃ x, ex i = some x ∧ x' = x.ref) := by
  obtain ⟨x', rfl, hx'⟩ := ht
  exact ⟨x', Table.set_same _ i _, hx'⟩

/-- **An event** that is no Release keeps the books. -/
theorem books_effect (hb : Books h) {e : Event} (hok : Conserving h (k, e))
    (hr : ∀ env id n, e ≠ .recv env (.release id n)) : Books (h.step (k, e)) := by
  obtain ⟨taken, handed, heff, htaken, htakes, hgiven⟩ := does_event hok hr
  have hconn : (h.world.step (k, e)).conns k = (e.run (h.world.conns k) h.world.vat).conn := step_conns_same _ k e
  have hzero : ∀ i, released e i = 0 := by
    intro i
    unfold released
    split
    · exact absurd rfl (hr _ _ _)
    · rfl
  rw [← hconn] at htaken
  have hheld : ∀ j i, j ≠ k ∨ (((h.world.step (k, e)).conns k).exports i).isSome = true →
      (h.step (k, e)).held j i + (if j = k ∧ handed = some i then 1 else 0) =
        h.held j i + if j = k ∧ taken = some i then 1 else 0 :=
    fun j i hi => hb.held_effect heff (fun i hi => taken_ne htaken hi) hi
  refine hb.step ?_ (fun i x hx => ?_) fun j i hj => ?_
  · refine heff.moved fun i hi => ?_
    subst hi
    obtain ⟨x', hx', -⟩ := taken_some htaken
    rw [hx']
    rfl
  · have hi := hheld k i (.inr (by rw [hx]; rfl))
    simp only [true_and] at hi
    rw [hzero, hgiven]
    by_cases ht : taken = some i
    · subst ht
      rw [if_pos rfl] at hi
      obtain ⟨x', hx', hcount⟩ := taken_some htaken
      rw [hx] at hx'
      cases hx'
      rcases hcount with ⟨hnone, hone⟩ | ⟨y, hy, hx⟩
      · rw [hb.held_empty hnone] at hi
        rw [hb.empty k i hnone, hone]
        omega
      · obtain ⟨hcount, hpos, -⟩ := hb.count k i y hy
        have hroom : y.refcount < 2 ^ 31 - 1 := hok.room i y (htakes i rfl) hy
        have href : x.refcount = y.refcount + 1 := by
          rw [hx]
          exact intWrap_small (by omega) (by omega)
        omega
    · rw [if_neg ht] at hi
      rw [taken_ne htaken ht] at hx
      obtain ⟨hcount, hpos, hlt⟩ := hb.count k i x hx
      omega
  · have hi := hheld j i (.inl hj)
    simp only [hj, false_and, if_false] at hi
    omega

/-- What a Release leaves of a count. -/
theorem release_count {x : Export} {n : Nat} (hx : 0 < x.refcount ∧ x.refcount < 2 ^ 31) (hn : n < 2 ^ 31) :
    intWrap (x.refcount - toInt32 n) = x.refcount - n := by
  have hcast : toInt32 n = n := by
    rw [toInt32, Nat.mod_eq_of_lt (by omega), if_pos hn]
    omega
  rw [hcast]
  exact intWrap_small (by omega) (by omega)

/-- **`handle_release`** takes the references off the count, and frees the entry when none
is left. -/
theorem handleRelease_exports (c : Conn) {id : Nat} (hid : id < CAPN_RPC_MAX_EXPORTS) {x : Export}
    (hx : c.exports ⟨id, hid⟩ = some x) (hcount : 0 < x.refcount ∧ x.refcount < 2 ^ 31) {n : Nat} (hn : n < 2 ^ 31) :
    (handleRelease c id n).exports = c.exports.set ⟨id, hid⟩
      (if x.refcount - n ≤ 0 then none else some { x with refcount := x.refcount - n }) := by
  simp only [handleRelease, dif_pos hid, hx, release_count hcount hn]

/-- A Release of what is not used changes nothing. -/
theorem handleRelease_unused (c : Conn) {id : Nat} (h : ∀ hid : id < CAPN_RPC_MAX_EXPORTS, c.exports ⟨id, hid⟩ = none)
    (n : Nat) : handleRelease c id n = c := by
  rw [handleRelease]
  split
  · rename_i hid
    rw [h hid]
  · rfl

theorem books_release (hb : Books h) {env : Env} {id n : Nat} (hn : n < 2 ^ 31) :
    Books (h.step (k, .recv env (.release id n))) := by
  have hconn : (h.world.step (k, .recv env (.release id n))).conns k = handleRelease (h.world.conns k) id n :=
    step_conns_same _ k _
  have hvat : (h.world.step (k, .recv env (.release id n))).vat = h.world.vat := rfl
  have hgiven : ∀ i, given (h.world.conns k) h.world.vat (.recv env (.release id n)) i = 0 := fun _ => rfl
  have hheld : ∀ j i, j ≠ k ∨ (((h.world.step (k, .recv env (.release id n))).conns k).exports i).isSome = true →
      (h.step (k, .recv env (.release id n))).held j i = h.held j i := fun j i hi => hb.held_same hi
  refine hb.step (by rw [hvat]; exact moved_same _ _) (fun i x hx => ?_) fun j i hj => hheld j i (.inl hj)
  rw [hheld k i (.inr (by rw [hx]; rfl)), hgiven]
  rw [hconn] at hx
  have hrel : released (.recv env (.release id n)) i = if id = i then (n : Int) else 0 := rfl
  rw [hrel]
  by_cases hunused : ∀ hid : id < CAPN_RPC_MAX_EXPORTS, (h.world.conns k).exports ⟨id, hid⟩ = none
  · rw [handleRelease_unused _ hunused] at hx
    have hne : id ≠ i := by
      intro hi
      have hnone := hunused (by rw [hi]; exact i.isLt)
      rw [show (⟨id, _⟩ : ExportId) = i from Fin.ext hi, hx] at hnone
      cases hnone
    obtain ⟨hcount, hpos, hlt⟩ := hb.count k i x hx
    rw [if_neg hne]
    omega
  · obtain ⟨hid, hused⟩ := not_forall.mp hunused
    obtain ⟨y, hy⟩ := Option.ne_none_iff_exists'.mp hused
    obtain ⟨hcount, hpos⟩ := hb.count k ⟨id, hid⟩ y hy
    rw [handleRelease_exports _ hid hy hpos hn] at hx
    by_cases hi : i = ⟨id, hid⟩
    · rw [hi, Table.set_same] at hx
      rw [hi, if_pos rfl]
      split at hx
      · cases hx
      · cases hx
        simp only
        omega
    · rw [Table.set_ne _ _ hi] at hx
      obtain ⟨hcount, hpos, hlt⟩ := hb.count k i x hx
      rw [if_neg fun he => hi (Fin.ext he.symm)]
      omega

theorem books_init : Books ({} : Ledger ι) := ⟨nofun, nofun, nofun, fun _ _ _ => rfl⟩

/-- **One event** keeps the books. -/
theorem books_step (hb : Books h) {e : ι × Event} (hok : Conserving h e) : Books (h.step e) := by
  obtain ⟨k, e⟩ := e
  by_cases hr : ∃ env id n, e = .recv env (.release id n)
  · obtain ⟨env, id, n, rfl⟩ := hr
    exact books_release hb hok.back
  · exact books_effect hb hok fun env id n he => hr ⟨env, id, n, he⟩

/-- What an event does to one used entry: it goes exactly when nothing is left of it, and
only a Release makes its count smaller, which never makes it larger. -/
theorem Books.entry (hb : Books h) {e : Event} (hok : Conserving h (k, e)) {i : ExportId} {x : Export}
    (hx : (h.world.conns k).exports i = some x) :
    (((h.world.step (k, e)).conns k).exports i = none ↔ h.refs k i + h.held k i - released e i ≤ 0) ∧
      ∀ env id n, e = .recv env (.release id n) → ∀ x', ((h.world.step (k, e)).conns k).exports i = some x' →
        x'.refcount ≤ x.refcount := by
  obtain ⟨hcount, hpos⟩ := hb.count k i x hx
  have hconn : (h.world.step (k, e)).conns k = (e.run (h.world.conns k) h.world.vat).conn := step_conns_same _ k e
  rw [hconn]
  by_cases hr : ∃ env id n, e = .recv env (.release id n)
  · obtain ⟨env, id, n, rfl⟩ := hr
    have hn : n < 2 ^ 31 := hok.back
    have hrel : released (.recv env (.release id n)) i = if id = i then (n : Int) else 0 := rfl
    show ((handleRelease (h.world.conns k) id n).exports i = none ↔ _) ∧ ∀ _ _ _ _ _,
      (handleRelease (h.world.conns k) id n).exports i = _ → _
    rw [hrel]
    by_cases hi : id = i
    · subst hi
      rw [if_pos rfl, handleRelease_exports _ i.isLt hx hpos hn, Table.set_same, ← hcount]
      refine ⟨?_, fun _ _ _ _ x' hx' => ?_⟩
      · split
        · exact iff_of_true rfl ‹_›
        · exact iff_of_false (Option.some_ne_none _) ‹_›
      · split at hx'
        · cases hx'
        · cases hx'
          show x.refcount - n ≤ x.refcount
          omega
    · rw [if_neg hi]
      have hsame : (handleRelease (h.world.conns k) id n).exports i = some x := by
        by_cases hunused : ∀ hid : id < CAPN_RPC_MAX_EXPORTS, (h.world.conns k).exports ⟨id, hid⟩ = none
        · rw [handleRelease_unused _ hunused, hx]
        · obtain ⟨hid, hused⟩ := not_forall.mp hunused
          obtain ⟨y, hy⟩ := Option.ne_none_iff_exists'.mp hused
          rw [handleRelease_exports _ hid hy (hb.count k ⟨id, hid⟩ y hy).2 hn,
            Table.set_ne _ _ fun he => hi (by rw [he]), hx]
      rw [hsame]
      refine ⟨iff_of_false (Option.some_ne_none x) (by omega), fun _ _ _ _ x' hx' => ?_⟩
      rw [Option.some.inj hx']
  · obtain ⟨taken, handed, -, htaken, -, -⟩ := does_event hok fun env id n he => hr ⟨env, id, n, he⟩
    have hzero : released e i = 0 := by
      unfold released
      split
      · exact absurd ⟨_, _, _, rfl⟩ hr
      · rfl
    refine ⟨iff_of_false (fun hn => ?_) (by omega), fun env id n he => absurd ⟨env, id, n, he⟩ hr⟩
    by_cases ht : taken = some i
    · subst ht
      obtain ⟨x', hx', -⟩ := taken_some htaken
      rw [hn] at hx'
      cases hx'
    · rw [taken_ne htaken ht, hx] at hn
      cases hn

end

/-- **Reference counts are conserved**: over every run that gives references back, the count
of a used entry is the references handed out and not released, with those that
provisions hold, and positive; and the next event frees an entry exactly when
nothing is left of it, and a Release raises no count. -/
theorem refcounts_conserved {ι : Type} [DecidableEq ι] {h : Ledger ι} (hrun : Runs Ledger.step Conserving {} h) :
    (∀ k i x, (h.world.conns k).exports i = some x → x.refcount = h.refs k i + h.held k i ∧ 0 < x.refcount) ∧
      ∀ k e, Conserving h (k, e) → ∀ i x, (h.world.conns k).exports i = some x →
        (((h.world.step (k, e)).conns k).exports i = none ↔ h.refs k i + h.held k i - released e i ≤ 0) ∧
          ∀ env id n, e = .recv env (.release id n) → ∀ x', ((h.world.step (k, e)).conns k).exports i = some x' →
            x'.refcount ≤ x.refcount := by
  have hb : Books h := hrun.inv (fun _ _ hb hok => books_step hb hok) books_init
  refine ⟨fun k i x hx => ?_, fun k e hok i x hx => hb.entry hok hx⟩
  obtain ⟨hcount, hpos, -⟩ := hb.count k i x hx
  exact ⟨hcount, hpos⟩

/-! ## Two runs -/

/-- A message that raises a small count. -/
theorem conserving_quiet {h : Ledger Unit} {m : Message} {n : ExportId}
    (ht : takes (h.world.conns ()) h.world.vat (.recv quietEnv m) = some n)
    (hx : ((h.world.conns ()).exports n).all (fun x => x.refcount < 5) = true)
    (hback : GivesBack h () (.recv quietEnv m)) : Conserving h ((), .recv quietEnv m) := by
  refine ⟨fun _ _ e => by cases e; exact quietEnv_small, fun i x hi hix => ?_, hback⟩
  have hni : n = i := Option.some.inj (ht.symm.trans hi)
  rw [hni, show (h.world.conns ()).exports i = some x from hix, Option.all_some, decide_eq_true_eq] at hx
  omega

/-- A connection offers server 1, its peer asks for it twice and provides it once. -/
theorem refcounts_conserved_provide : ∃ h : Ledger Unit, Runs Ledger.step Conserving {} h ∧
    h.refs () 0 = 2 ∧ h.held () 0 = 1 ∧ ((h.world.conns ()).exports 0).map (·.refcount) = some 3 ∧
    (∀ k i x, (h.world.conns k).exports i = some x → x.refcount = h.refs k i + h.held k i ∧ 0 < x.refcount) ∧
      ∀ k e, Conserving h (k, e) → ∀ i x, (h.world.conns k).exports i = some x →
        (((h.world.step (k, e)).conns k).exports i = none ↔ h.refs k i + h.held k i - released e i ≤ 0) ∧
          ∀ env id n, e = .recv env (.release id n) → ∀ x', ((h.world.step (k, e)).conns k).exports i = some x' →
            x'.refcount ≤ x.refcount := by
  have h₁ : Runs Ledger.step Conserving {} (Ledger.step ({} : Ledger Unit) ((), .setBootstrap (some (1, 1)))) :=
    .tail .refl ⟨nofun, nofun, trivial⟩
  have h₂ := h₁.tail (conserving_quiet (m := .bootstrap 1) (n := 0) (by decide +kernel) (by decide +kernel) trivial)
  have h₃ := h₂.tail (conserving_quiet (m := .bootstrap 2) (n := 0) (by decide +kernel) (by decide +kernel) trivial)
  have h₄ := h₃.tail (conserving_quiet (m := .provide 3 (some (.importedCap 0)) (some 9)) (n := 0) (by decide +kernel)
    (by decide +kernel) trivial)
  exact ⟨_, h₄, by decide +kernel, by decide +kernel, by decide +kernel, refcounts_conserved h₄⟩

/-- A Release of 2^32 - 1 references raises a count from 1 to 2, and after a provision was
claimed on another connection the count of the export it was made for stays at 2. -/
theorem refcounts_conserved_fails :
    let w := World.after ({} : World (Fin 2)) [(0, .setBootstrap (some (1, 1))), (0, .recv quietEnv (.bootstrap 1))]
    let w' := w.after [(0, .recv quietEnv (.provide 2 (some (.importedCap 0)) (some 9))),
      (1, .recv quietEnv (.accept 3 (some 9) false))]
    ((w.conns 0).exports 0).map (·.refcount) = some 1 ∧
      (((w.step (0, .recv quietEnv (.release 0 (2 ^ 32 - 1)))).conns 0).exports 0).map (·.refcount) = some 2 ∧
      ((w'.conns 0).exports 0).map (·.refcount) = some 2 ∧ (w'.vat 0).isNone := by
  decide +kernel

end Capnproto.Rpc

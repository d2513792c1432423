import Capnproto.Rpc.Returns

/-!
# Joins prove identity

A part of a Join waits with the slot that its target had when it arrived.
`Denotes`: as long as no event gives such a slot to another object (`Stays`), the
slot is empty or has the object that the part denoted. So equal slots mean equal
objects when the set is complete.
-/

namespace Capnproto.Rpc

/-- A run, with the server that the target of each part of a set denoted when the part
arrived. -/
structure Joining (ι : Type) where
  world : World ι := {}
  denoted : ι → Fin CAPN_RPC_MAX_JOINS → Fin CAPN_RPC_MAX_JOIN_PARTS → Option Nat := fun _ _ _ => none

/-- The slot and the number of the part that an event adds, and what its target denotes. -/
def arrives (c : Conn) : Event → Option (Fin CAPN_RPC_MAX_JOINS × Fin CAPN_RPC_MAX_JOIN_PARTS × Option Nat)
  | .recv _ (.join _ target keyPart) =>
    (accepted c keyPart).map fun (slot, _, i) => (slot, i, (callee c target).map (·.server))
  | _ => none

/-- What the parts of a connection denoted, after an event on it. -/
def denotes (c : Conn) (e : Event) (denoted : Fin CAPN_RPC_MAX_JOINS → Fin CAPN_RPC_MAX_JOIN_PARTS → Option Nat) :
    Fin CAPN_RPC_MAX_JOINS → Fin CAPN_RPC_MAX_JOIN_PARTS → Option Nat :=
  match arrives c e with
  | none => denoted
  | some (slot, i, server) => fun s n => if s = slot ∧ n = i then server else denoted s n

def Joining.step {ι : Type} [DecidableEq ι] (h : Joining ι) (e : ι × Event) : Joining ι where
  world := h.world.step e
  denoted := fun k => if k = e.1 then denotes (h.world.conns k) e.2 (h.denoted k) else h.denoted k

/-- The event gives no slot that a part waits with to a new object. -/
def Stays (c : Conn) (vat : Vat) (e : Event) : Prop :=
  ∀ slot j i eid, c.joins slot = some j → j.seen i = true → j.eids i = some eid → fills c vat e ≠ some eid

/-- A part that denoted nothing waits with no slot; else its slot is empty or has what it
denoted. -/
def Means (ex : Table CAPN_RPC_MAX_EXPORTS Export) (eid : Option ExportId) (server : Option Nat) : Prop :=
  ∀ i, eid = some i → ∃ s, server = some s ∧ ∀ x, ex i = some x → x.server = s

/-- The parts that wait mean what they denoted. -/
def Denotes (c : Conn) (denoted : Fin CAPN_RPC_MAX_JOINS → Fin CAPN_RPC_MAX_JOIN_PARTS → Option Nat) : Prop :=
  ∀ slot j, c.joins slot = some j → ∀ i, j.seen i = true → Means c.exports (j.eids i) (denoted slot i)

/-! ## One event -/

section

variable {c : Conn} {vat : Vat} {denoted : Fin CAPN_RPC_MAX_JOINS → Fin CAPN_RPC_MAX_JOIN_PARTS → Option Nat}

/-- What a part means survives a change of the exports that does not fill its slot. -/
theorem Means.from {ex ex' : Table CAPN_RPC_MAX_EXPORTS Export} {filled eid : Option ExportId} {server : Option Nat}
    (h : Means ex eid server) (hex : ExportsFrom ex ex' filled) (hf : ∀ i, eid = some i → filled ≠ some i) :
    Means ex' eid server := by
  intro i hi
  obtain ⟨s, hs, hx⟩ := h i hi
  refine ⟨s, hs, fun x' hx' => ?_⟩
  rcases hex i x' hx' with ⟨x, hxi, hserver, -⟩ | hfill
  · rw [← hserver]
    exact hx x hxi
  · exact absurd hfill (hf i hi)

/-- A part that has just arrived means what its target denotes. -/
theorem means_new (c : Conn) (target : Option MessageTarget) :
    Means c.exports (resolveTarget c target) ((callee c target).map (·.server)) := by
  intro i hi
  obtain ⟨x, hx⟩ := resolveTarget_used hi
  refine ⟨x.server, ?_, fun y hy => ?_⟩
  · rw [callee, hi, Option.bind_some, hx]
    rfl
  · rw [hx] at hy
    rw [Option.some.inj hy]

/-- The parts of a set with one more. -/
theorem means_park (h : Denotes c denoted) {keyPart : Option JoinKeyPart} {slot : Fin CAPN_RPC_MAX_JOINS} {j : Join}
    {i : Fin CAPN_RPC_MAX_JOIN_PARTS} (hacc : accepted c keyPart = some (slot, j, i)) (qid : Nat)
    (target : Option MessageTarget) (n : Fin CAPN_RPC_MAX_JOIN_PARTS)
    (hn : (j.park i qid (resolveTarget c target)).seen n = true) :
    Means c.exports ((j.park i qid (resolveTarget c target)).eids n)
      (if n = i then (callee c target).map (·.server) else denoted slot n) := by
  by_cases hni : n = i
  · simp only [Join.park, hni, if_true]
    exact means_new c target
  · simp only [Join.park, if_neg hni] at hn ⊢
    obtain ⟨-, -, -, hold | ⟨-, hnew⟩⟩ := accepted_some hacc
    · exact h slot j hold n hn
    · rw [hnew] at hn
      exact absurd hn Bool.false_ne_true

/-- **An event** that keeps the slots of the parts. -/
theorem denotes_event {e : Event} (hok : Stays c vat e) (h : Denotes c denoted) :
    Denotes (e.run c vat).conn (denotes c e denoted) := by
  have hex := exports_event c vat e
  by_cases hjoin : ∃ env qid target keyPart, e = .recv env (.join qid target keyPart)
  · obtain ⟨env, qid, target, keyPart, rfl⟩ := hjoin
    have hrun : Event.run c vat (.recv env (.join qid target keyPart)) =
      handleJoin env { conn := c, vat := vat } qid target keyPart := rfl
    replace hex : ExportsFrom c.exports (Event.run c vat (.recv env (.join qid target keyPart))).conn.exports none := hex
    rw [hrun] at hex ⊢
    obtain ⟨hacc, id, e⟩ | ⟨slot, j, i, hacc, e⟩ := handleJoin_cases env { conn := c, vat := vat } qid target keyPart
    · replace hacc : accepted c keyPart = none := hacc
      rw [e, sendJoinResult, sendMessage_conn, denotes, arrives, hacc]
      exact h
    · replace hacc : accepted c keyPart = some (slot, j, i) := hacc
      have hden : denotes c (.recv env (.join qid target keyPart)) denoted = fun s n =>
          if s = slot ∧ n = i then (callee c target).map (·.server) else denoted s n := by
        rw [denotes, arrives, hacc]
        rfl
      have hjoins : ∀ s k, (handleJoin env { conn := c, vat := vat } qid target keyPart).conn.joins s = some k →
          s = slot ∧ k = j.park i qid (resolveTarget c target) ∨ s ≠ slot ∧ c.joins s = some k := by
        intro s k hk
        simp only at e
        rw [e] at hk
        by_cases hs : s = slot
        · refine .inl ⟨hs, ?_⟩
          split at hk
          · rw [joinComplete_joins, hs, Table.set_same] at hk
            exact absurd hk.symm (Option.some_ne_none k)
          · replace hk : c.joins.set slot (some _) s = some k := hk
            rw [hs, Table.set_same] at hk
            exact (Option.some.inj hk).symm
        · refine .inr ⟨hs, ?_⟩
          split at hk
          · rw [joinComplete_joins, Table.set_ne _ _ hs] at hk
            replace hk : c.joins.set slot (some _) s = some k := hk
            rwa [Table.set_ne _ _ hs] at hk
          · replace hk : c.joins.set slot (some _) s = some k := hk
            rwa [Table.set_ne _ _ hs] at hk
      intro s k hk n hn
      rw [hden]
      apply Means.from (h := ?_) hex (by simp)
      rcases hjoins s k hk with ⟨rfl, rfl⟩ | ⟨hs, hk⟩
      · simp only [true_and]
        exact means_park h hacc qid target n hn
      · simp only [hs, false_and, if_false]
        exact h s k hk n hn
  · have hjoins : (e.run c vat).conn.joins = c.joins :=
      joins_event c vat e fun env qid target keyPart he => hjoin ⟨env, qid, target, keyPart, he⟩
    have hden : denotes c e denoted = denoted := by
      unfold denotes arrives
      split
      · rfl
      · rename_i hsome
        split at hsome
        · exact absurd ⟨_, _, _, _, rfl⟩ hjoin
        · exact absurd hsome.symm (Option.some_ne_none _)
    intro s k hk n hn
    rw [hjoins] at hk
    rw [hden]
    exact (h s k hk n hn).from hex fun i hi => hok s k n i hk hn hi

theorem joinsOk_event {e : Event} (h : JoinsOk c) : JoinsOk (e.run c vat).conn := by
  by_cases hjoin : ∃ env qid target keyPart, e = .recv env (.join qid target keyPart)
  · obtain ⟨env, qid, target, keyPart, rfl⟩ := hjoin
    exact (join_waiting h qid target keyPart).1
  · intro slot j hj
    rw [joins_event c vat e fun env qid target keyPart he => hjoin ⟨env, qid, target, keyPart, he⟩] at hj
    exact h slot j hj

/-! ## What is answered -/

/-- A message that is no Join sends no result of a Join. -/
theorem joinResult_join {env : Env} {m : Message} {q id : Nat} {succeeded : Bool} {capTable : List CapDescriptor}
    (hmem : Outgoing.ret q (.joinResult id succeeded capTable) ∈ (capnRpcHandle env c vat m).sent) :
    ∃ qid target keyPart, m = .join qid target keyPart := by
  have hanswered : ∀ {l' : Local} {qid : Nat}, Answered env { conn := c, vat := vat } l' qid →
      Outgoing.ret q (.joinResult id succeeded capTable) ∉ l'.sent := by
    intro l' qid ha hin
    obtain ⟨body, -, hne, hsent⟩ := ha
    rw [hsent] at hin
    have hbody := mem_emit hin
    injection hbody with _ hb
    exact hne id succeeded capTable hb.symm
  have hcap : ∀ (l : Local) (qid : Nat) (eid : ExportId), l.sent = [] →
      Outgoing.ret q (.joinResult id succeeded capTable) ∉ (sendAcceptedCap env l qid eid).sent := by
    intro l qid eid hl
    exact @hanswered (sendAcceptedCap env l qid eid) _ (answered_cap hl eid)
  cases m with
  | join qid target keyPart => exact ⟨qid, target, keyPart, rfl⟩
  | bootstrap qid => exact absurd hmem (hanswered (handleBootstrap_sent env { conn := c, vat := vat } qid))
  | call qid target interfaceId methodId params =>
    rcases handleCall_sent env { conn := c, vat := vat } qid target interfaceId methodId params with
      ⟨h, -⟩ | ⟨x, -, -, hsent⟩
    · exact absurd hmem (hanswered h)
    · have hin : Outgoing.ret q (.joinResult id succeeded capTable) ∈
          (handleCall env { conn := c, vat := vat } qid target interfaceId methodId params).sent := hmem
      rw [hsent] at hin
      have hbody := mem_emit hin
      injection hbody with _ hb
      exact Return.noConfusion hb
  | finish qid => exact absurd hmem List.not_mem_nil
  | release eid referenceCount => exact absurd hmem List.not_mem_nil
  | ret => exact absurd hmem List.not_mem_nil
  | resolve =>
    have hin : Outgoing.ret q (.joinResult id succeeded capTable) ∈
      (sendUnimplemented env { conn := c, vat := vat } .resolve).sent := hmem
    rw [sendUnimplemented, sendMessage_emit] at hin
    exact Outgoing.noConfusion (mem_emit hin)
  | obsolete =>
    have hin : Outgoing.ret q (.joinResult id succeeded capTable) ∈
      (sendUnimplemented env { conn := c, vat := vat } .obsolete).sent := hmem
    rw [sendUnimplemented, sendMessage_emit] at hin
    exact Outgoing.noConfusion (mem_emit hin)
  | disembargo target context =>
    cases context with
    | provide questionId =>
      have hin : Outgoing.ret q (.joinResult id succeeded capTable) ∈
        (releaseProvideEmbargo env { conn := c, vat := vat } questionId).sent := hmem
      obtain ⟨-, e⟩ | ⟨i, p, -, -, e⟩ := releaseProvideEmbargo_cases env { conn := c, vat := vat } questionId
      · rw [e] at hin
        exact absurd hin List.not_mem_nil
      · rw [e] at hin
        exact absurd hin (hcap _ _ _ rfl)
    | senderLoopback lid =>
      have hin : Outgoing.ret q (.joinResult id succeeded capTable) ∈
        (sendMessage env { conn := c, vat := vat } (.disembargo target (.receiverLoopback lid))).sent := hmem
      rw [sendMessage_emit] at hin
      exact Outgoing.noConfusion (mem_emit hin)
    | receiverLoopback lid => exact absurd hmem List.not_mem_nil
    | accept => exact absurd hmem List.not_mem_nil
  | provide qid target recipient =>
    exact absurd hmem (hanswered (handleProvide_sent env { conn := c, vat := vat } qid target recipient))
  | accept qid provision embargo =>
    have hin : Outgoing.ret q (.joinResult id succeeded capTable) ∈
      (handleAccept env { conn := c, vat := vat } qid provision embargo).sent := hmem
    obtain ⟨reason, e, hr, -⟩ | ⟨nonce, i, p, eid, conn, -, -, -, -, e⟩ :=
      handleAccept_cases env { conn := c, vat := vat } qid provision embargo
    · rw [e] at hin
      exact absurd hin (hanswered (answered_exception hr))
    · rw [e] at hin
      split at hin
      · exact absurd hin List.not_mem_nil
      · exact absurd hin (hcap _ _ _ rfl)

/-- A success completes a set whose parts all have one slot. -/
theorem success_complete {env : Env} (hs : env.Small) {m : Message} {q id : Nat} {capTable : List CapDescriptor}
    (hmem : Outgoing.ret q (.joinResult id true capTable) ∈ (capnRpcHandle env c vat m).sent) :
    ∃ qid target keyPart slot j i, m = .join qid target keyPart ∧ accepted c keyPart = some (slot, j, i) ∧
      j.joinId = id ∧ (j.park i qid (resolveTarget c target)).nseen = j.partCount ∧
      (j.park i qid (resolveTarget c target)).same = true ∧
      (capnRpcHandle env c vat m).conn.exports = retain c.exports ((j.park i qid (resolveTarget c target)).eids 0) ∧
      (capnRpcHandle env c vat m).sent.flatMap Outgoing.hosted =
        (((j.park i qid (resolveTarget c target)).eids 0).map fun eid : ExportId => CapDescriptor.senderHosted eid).toList := by
  obtain ⟨qid, target, keyPart, rfl⟩ := joinResult_join hmem
  have hin : Outgoing.ret q (.joinResult id true capTable) ∈
    (handleJoin env { conn := c, vat := vat } qid target keyPart).sent := hmem
  have hrun : capnRpcHandle env c vat (.join qid target keyPart) =
    handleJoin env { conn := c, vat := vat } qid target keyPart := rfl
  obtain ⟨-, jid, e⟩ | ⟨slot, j, i, hacc, e⟩ := handleJoin_cases env { conn := c, vat := vat } qid target keyPart
  · rw [e, sendJoinResult, sendMessage_emit] at hin
    have hbody := mem_emit hin
    injection hbody with _ hb
    injection hb with _ hb
    exact absurd hb (by decide)
  · replace hacc : accepted c keyPart = some (slot, j, i) := hacc
    obtain ⟨-, hlt, -, -⟩ := accepted_some hacc
    simp only at e
    split at e
    · rename_i hn
      rw [e, joinComplete_sent, List.nil_append] at hin
      obtain ⟨n, -, hemit⟩ := List.mem_flatMap.mp hin
      have hreply := mem_emit hemit
      injection hreply with _ hb
      injection hb with hid hsame _
      refine ⟨qid, target, keyPart, slot, j, i, rfl, hacc, hid.symm, hn, hsame.symm, ?_⟩
      have hpos : 0 < (j.park i qid (resolveTarget c target)).partCount := Nat.zero_lt_of_lt hlt
      rw [hrun, e, joinComplete_exports env _ slot hpos, joinComplete_sent, List.nil_append, emit_replies hs,
        join_hosted hpos, if_pos hsame.symm, if_pos hsame.symm]
      exact ⟨rfl, rfl⟩
    · rw [e] at hin
      exact absurd hin List.not_mem_nil

end

/-- **A Join that succeeds** proves identity: in every run whose events keep the slots of
the parts, the targets of all parts denoted one server when they arrived, and the one
capability that is handed out names an export of that server. -/
theorem join_identity {ι : Type} [DecidableEq ι] {h : Joining ι}
    (hrun : Runs Joining.step (fun h e => Stays (h.world.conns e.1) h.world.vat e.2) {} h) {k : ι} {env : Env}
    (hs : env.Small) {m : Message} {q id : Nat} {capTable : List CapDescriptor}
    (hmem : .ret q (.joinResult id true capTable) ∈ h.world.sent (k, .recv env m)) :
    ∃ qid target keyPart slot j i server eid x, m = .join qid target keyPart ∧
      accepted (h.world.conns k) keyPart = some (slot, j, i) ∧ j.joinId = id ∧
      (∀ n : Fin CAPN_RPC_MAX_JOIN_PARTS, (n : Nat) < j.partCount →
        (h.step (k, .recv env m)).denoted k slot n = some server) ∧
      ((h.step (k, .recv env m)).world.conns k).exports eid = some x ∧ x.server = server ∧
      (h.world.sent (k, .recv env m)).flatMap Outgoing.hosted = [.senderHosted eid] := by
  have hinv : ∀ k, Denotes (h.world.conns k) (h.denoted k) ∧ JoinsOk (h.world.conns k) := by
    refine hrun.inv (I := fun h => ∀ k, Denotes (h.world.conns k) (h.denoted k) ∧ JoinsOk (h.world.conns k))
      (fun h e hk hok j => ?_) fun k => ⟨nofun, nofun⟩
    obtain ⟨i, e⟩ := e
    by_cases hj : j = i
    · subst hj
      simp only [Joining.step, step_conns_same, if_true]
      exact ⟨denotes_event hok (hk j).1, joinsOk_event (hk j).2⟩
    · simp only [Joining.step, step_conns_ne h.world e hj, if_neg hj]
      exact hk j
  obtain ⟨hden, hjok⟩ := hinv k
  obtain ⟨qid, target, keyPart, slot, j, i, rfl, hacc, hid, hn, hsame, hexports, hhost⟩ := success_complete hs hmem
  obtain ⟨-, hlt, -, -⟩ := accepted_some hacc
  -- the slot of all parts is that of the last one, which is in use
  simp only [Join.same, Bool.decide_and, Bool.and_eq_true, decide_eq_true_eq, List.all_eq_true] at hsame
  obtain ⟨hsome, hall⟩ := hsame
  obtain ⟨eid, heid⟩ := Option.isSome_iff_exists.mp hsome
  have hslot : ∀ n : Fin CAPN_RPC_MAX_JOIN_PARTS, (n : Nat) < j.partCount →
      (j.park i qid (resolveTarget (h.world.conns k) target)).eids n = some eid := by
    intro n hlt
    rw [← heid]
    exact hall n (List.mem_filter.mpr ⟨List.mem_finRange n, decide_eq_true hlt⟩)
  have hlast : resolveTarget (h.world.conns k) target = some eid := by
    rw [← hslot i hlt]
    simp only [Join.park, if_true]
  obtain ⟨x, hx⟩ := resolveTarget_used hlast
  have hparts : ∀ n : Fin CAPN_RPC_MAX_JOIN_PARTS, (n : Nat) < j.partCount →
      (h.step (k, .recv env (.join qid target keyPart))).denoted k slot n = some x.server := by
    intro n hlt
    have hok := (accepted_ok hjok hacc qid (resolveTarget (h.world.conns k) target)).1
    have hseen := seen_of_complete hok hn hlt
    obtain ⟨s, hs, hsx⟩ := means_park hden hacc qid target n hseen eid (hslot n hlt)
    rw [hsx x hx, ← hs]
    simp only [Joining.step, if_true, denotes, arrives, hacc, Option.map_some, true_and]
  obtain ⟨x', hx', hserver⟩ := retain_server (some eid) hx
  refine ⟨qid, target, keyPart, slot, j, i, x.server, eid, x', rfl, hacc, hid, hparts, ?_, hserver, ?_⟩
  · rw [← hx', ← heid]
    have htable := (congrArg Conn.exports (step_conns_same h.world k
      (.recv env (.join qid target keyPart)))).trans hexports
    exact congrFun htable eid
  · rw [World.sent, Event.run, hhost, heid]
    rfl

/-! ## Two runs -/

/-- A connection that offers server 1, with one part of a Join. -/
def halfJoined : Joining Unit :=
  [((), .setBootstrap (some (1, 1))), ((), .recv quietEnv (.bootstrap 1)),
    ((), .recv quietEnv (.join 2 (some (.importedCap 0)) (some ⟨5, 2, 0⟩)))].foldl Joining.step {}

theorem halfJoined_run :
    Runs Joining.step (fun h e => Stays (h.world.conns e.1) h.world.vat e.2) {} halfJoined := by
  have h₁ : Runs Joining.step (fun h e => Stays (h.world.conns e.1) h.world.vat e.2) {}
    (Joining.step ({} : Joining Unit) ((), .setBootstrap (some (1, 1)))) := .tail .refl nofun
  have h₂ := h₁.tail (e := ((), .recv quietEnv (.bootstrap 1))) nofun
  exact h₂.tail (e := ((), .recv quietEnv (.join 2 (some (.importedCap 0)) (some ⟨5, 2, 0⟩)))) nofun

/-- Its second part succeeds. -/
theorem join_identity_two :
    ∃ qid target keyPart slot j i server eid x,
      Message.join 3 (some (.importedCap 0)) (some ⟨5, 2, 1⟩) = .join qid target keyPart ∧
      accepted (halfJoined.world.conns ()) keyPart = some (slot, j, i) ∧ j.joinId = 5 ∧
      (∀ n : Fin CAPN_RPC_MAX_JOIN_PARTS, (n : Nat) < j.partCount →
        (halfJoined.step ((), .recv quietEnv (.join 3 (some (.importedCap 0)) (some ⟨5, 2, 1⟩)))).denoted () slot n =
          some server) ∧
      ((halfJoined.step ((), .recv quietEnv (.join 3 (some (.importedCap 0)) (some ⟨5, 2, 1⟩)))).world.conns
        ()).exports eid = some x ∧ x.server = server ∧
      (halfJoined.world.sent ((), .recv quietEnv (.join 3 (some (.importedCap 0)) (some ⟨5, 2, 1⟩)))).flatMap
        Outgoing.hosted = [.senderHosted eid] := by
  have hmem : Outgoing.ret 2 (.joinResult 5 true [.senderHosted 0]) ∈
      halfJoined.world.sent ((), .recv quietEnv (.join 3 (some (.importedCap 0)) (some ⟨5, 2, 1⟩))) := by
    show _ ∈ Outgoing.ret 2 (.joinResult 5 true [.senderHosted 0]) :: _
    exact List.mem_cons_self
  exact join_identity halfJoined_run quietEnv_small hmem

/-- Between two parts their slot is freed and given to server 2: the first part denoted
server 1 and the second denotes server 2, and the Join succeeds. -/
theorem join_identity_fails :
    let w := World.after halfJoined.world [((), .recv quietEnv (.release 0 1)), ((), .exportCap 2 2)]
    halfJoined.denoted () 0 0 = some 1 ∧ (callee (w.conns ()) (some (.importedCap 0))).map (·.server) = some 2 ∧
      .ret 2 (.joinResult 5 true [.senderHosted 0]) ∈
        w.sent ((), .recv quietEnv (.join 3 (some (.importedCap 0)) (some ⟨5, 2, 1⟩))) := by
  refine ⟨by decide +kernel, by decide +kernel, ?_⟩
  show _ ∈ Outgoing.ret 2 (.joinResult 5 true [.senderHosted 0]) :: _
  exact List.mem_cons_self

end Capnproto.Rpc

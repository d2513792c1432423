import Capnproto.Rpc.Sends

/-!
# Two connections and what is in flight

Two connections answer each other's messages. What a handler sends is a Return
or the echo of a Disembargo, to which there is no reply (`Terminal`), but for
the messages that are sent back as `unimplemented`, which the peer sends back in
turn (`Echoed`). Without one of these in flight the replies still to come are
bounded (`Link.pending`); with one the exchange goes on.
-/

namespace Capnproto.Rpc

/-- A message sent to the peer, as it arrives there. -/
def arrive : Outgoing → Message
  | .ret _ _ => .ret
  | .disembargo target context => .disembargo target context
  | .unimplemented _ => .obsolete

/-- The messages that `capn_rpc_handle` sends back as `unimplemented`; `obsolete` is one of
these that was sent back. -/
def Echoed : Message → Prop
  | .resolve => True
  | .obsolete => True
  | _ => False

/-- A message that is never answered. -/
def Terminal : Outgoing → Prop
  | .ret _ _ => True
  | .disembargo _ (.receiverLoopback _) => True
  | _ => False

/-- How many messages a message is answered with at most. -/
def replies : Message → Nat
  | .bootstrap _ => 1
  | .call _ _ _ _ _ => 1
  | .join _ _ _ => CAPN_RPC_MAX_JOIN_PARTS
  | .disembargo _ (.senderLoopback _) => 1
  | .disembargo _ (.provide _) => 1
  | .provide _ _ _ => 1
  | .accept _ _ _ => 1
  | _ => 0

/-- Two connections with the messages in flight to each, in order, and how many messages
were sent. -/
structure Link where
  conn : Bool → Conn := fun _ => {}
  vat : Bool → Vat := fun _ => .empty
  queue : Bool → List Message
  sends : Nat := 0

/-- The first message in flight to a connection is handled there. -/
def Link.step (l : Link) (e : Bool × Env) : Link :=
  match l.queue e.1 with
  | [] => l
  | m :: ms =>
    let r := capnRpcHandle e.2 (l.conn e.1) (l.vat e.1) m
    { conn := fun b => if b = e.1 then r.conn else l.conn b
      vat := fun b => if b = e.1 then r.vat else l.vat b
      queue := fun b => if b = e.1 then ms else l.queue b ++ r.sent.map arrive
      sends := l.sends + r.sent.length }

/-- The replies to the messages in flight, at most. -/
def Link.pending (l : Link) : Nat := ((l.queue false).map replies).sum + ((l.queue true).map replies).sum

/-! ## What is sent -/

/-- At most `n` messages are sent, all of them terminal. -/
def Replies (sent : List Outgoing) (n : Nat) : Prop := sent.length ≤ n ∧ ∀ o ∈ sent, Terminal o

section

variable {env : Env} {c : Conn} {vat : Vat} {l : Local}

theorem emit_replies_one {msg : Outgoing} (h : Terminal msg) : Replies (emit env msg) 1 := by
  refine ⟨?_, fun o ho => ?_⟩
  · unfold emit
    split
    · exact Nat.zero_le 1
    · exact Nat.le_refl 1
  · rw [mem_emit ho]
    exact h

theorem sendMessage_replies (h : l.sent = []) {msg : Outgoing} (ht : Terminal msg) :
    Replies (sendMessage env l msg).sent 1 := by
  rw [sendMessage_emit, h]
  exact emit_replies_one ht

theorem sendAnswer_replies (h : l.sent = []) (qid : Nat) (body : Return) :
    Replies (sendAnswer env l qid body).sent 1 := by
  rw [sendAnswer_emit, h]
  exact emit_replies_one trivial

theorem replies_none (n : Nat) : Replies [] n := ⟨Nat.zero_le n, nofun⟩

/-- The answers to the parts of a set. -/
theorem parts_replies (j : Join) (is : List (Fin CAPN_RPC_MAX_JOIN_PARTS)) :
    Replies (is.flatMap fun i => emit env (joinReply j i)) is.length := by
  induction is with
  | nil => exact replies_none 0
  | cons i is ih =>
    have hone : Replies (emit env (joinReply j i)) 1 := emit_replies_one trivial
    have h₁ := hone.1
    have h₂ := ih.1
    refine ⟨?_, fun o ho => ?_⟩
    · rw [List.flatMap_cons, List.length_append, List.length_cons]
      omega
    · rw [List.flatMap_cons] at ho
      obtain ho | ho := List.mem_append.mp ho
      · exact hone.2 o ho
      · exact ih.2 o ho

theorem join_replies (qid : Nat) (target : Option MessageTarget) (keyPart : Option JoinKeyPart) :
    Replies (handleJoin env { conn := c, vat := vat } qid target keyPart).sent CAPN_RPC_MAX_JOIN_PARTS := by
  obtain ⟨-, id, e⟩ | ⟨slot, j, i, -, e⟩ := handleJoin_cases env { conn := c, vat := vat } qid target keyPart
  · have hone : Replies (handleJoin env { conn := c, vat := vat } qid target keyPart).sent 1 := by
      rw [e]
      exact sendMessage_replies rfl trivial
    exact ⟨Nat.le_trans hone.1 (by decide), hone.2⟩
  · simp only [e]
    split
    · rw [joinComplete_sent]
      have hparts := @parts_replies env (j.park i qid (resolveTarget c target))
        (j.park i qid (resolveTarget c target)).parts
      refine ⟨Nat.le_trans hparts.1 ?_, hparts.2⟩
      refine Nat.le_trans (List.length_filter_le _ _) ?_
      rw [List.length_finRange]
    · exact replies_none _

/-- **`capn_rpc_handle`** sends at most the replies of a message, to which there are none, if
it does not send the message back. -/
theorem handle_replies (m : Message) (h : ¬ Echoed m) : Replies (capnRpcHandle env c vat m).sent (replies m) := by
  cases m with
  | bootstrap qid =>
    show Replies (handleBootstrap env { conn := c, vat := vat } qid).sent 1
    obtain ⟨reason, e, -⟩ | ⟨server, dispatch, eid, conn, -, -, e⟩ :=
      handleBootstrap_cases env { conn := c, vat := vat } qid
    · rw [e]
      exact sendMessage_replies rfl trivial
    · rw [e]
      exact sendAnswer_replies rfl _ _
  | call qid target interfaceId methodId params =>
    show Replies (handleCall env { conn := c, vat := vat } qid target interfaceId methodId params).sent 1
    rw [handleCall_eq]
    split
    · exact sendMessage_replies rfl trivial
    split
    · exact sendMessage_replies rfl trivial
    · exact sendAnswer_replies rfl _ _
  | finish qid => exact replies_none 0
  | release id referenceCount => exact replies_none 0
  | join qid target keyPart => exact join_replies qid target keyPart
  | ret => exact replies_none 0
  | resolve => exact absurd trivial h
  | obsolete => exact absurd trivial h
  | disembargo target context =>
    cases context with
    | senderLoopback id => exact sendMessage_replies rfl trivial
    | receiverLoopback id => exact replies_none 0
    | accept => exact replies_none 0
    | provide qid =>
      show Replies (releaseProvideEmbargo env { conn := c, vat := vat } qid).sent 1
      obtain ⟨-, e⟩ | ⟨i, p, -, -, e⟩ := releaseProvideEmbargo_cases env { conn := c, vat := vat } qid
      · rw [e]
        exact replies_none 1
      · rw [e]
        exact sendAnswer_replies rfl _ _
  | provide qid target recipient =>
    show Replies (handleProvide env { conn := c, vat := vat } qid target recipient).sent 1
    obtain ⟨reason, e, -⟩ | ⟨eid, x, nonce, i, -, -, -, -, e⟩ :=
      handleProvide_cases env { conn := c, vat := vat } qid target recipient
    · rw [e]
      exact sendMessage_replies rfl trivial
    · rw [e]
      exact sendAnswer_replies rfl _ _
  | accept qid provision embargo =>
    show Replies (handleAccept env { conn := c, vat := vat } qid provision embargo).sent 1
    obtain ⟨reason, e, -⟩ | ⟨nonce, i, p, eid, conn, -, -, -, -, e⟩ :=
      handleAccept_cases env { conn := c, vat := vat } qid provision embargo
    · rw [e]
      exact sendMessage_replies rfl trivial
    · rw [e]
      split
      · exact replies_none 1
      · exact sendAnswer_replies rfl _ _

end

/-- What arrives of a terminal message is answered with nothing. -/
theorem terminal_arrives {o : Outgoing} (h : Terminal o) : replies (arrive o) = 0 ∧ ¬ Echoed (arrive o) := by
  cases o with
  | ret qid body => exact ⟨rfl, id⟩
  | unimplemented orig => exact absurd h id
  | disembargo target context =>
    cases context with
    | receiverLoopback id => exact ⟨rfl, fun h => h⟩
    | _ => exact absurd h id

/-! ## Without an echo in flight -/

/-- No message in flight is sent back. -/
def Link.Calm (l : Link) : Prop := ∀ b, ∀ m ∈ l.queue b, ¬ Echoed m

theorem sum_terminal {sent : List Outgoing} (h : ∀ o ∈ sent, Terminal o) :
    ((sent.map arrive).map replies).sum = 0 := by
  apply List.sum_eq_zero
  intro n hn
  obtain ⟨m, hm, rfl⟩ := List.mem_map.mp hn
  obtain ⟨o, ho, rfl⟩ := List.mem_map.mp hm
  exact (terminal_arrives (h o ho)).1

/-- **A message handled** uses up the replies it is answered with. -/
theorem calm_step {l : Link} (h : l.Calm) (e : Bool × Env) :
    (l.step e).Calm ∧ (l.step e).sends + (l.step e).pending ≤ l.sends + l.pending := by
  obtain ⟨b, env⟩ := e
  unfold Link.step
  cases hq : l.queue b with
  | nil => exact ⟨h, Nat.le_refl _⟩
  | cons m ms =>
    obtain ⟨hlen, hterm⟩ := @handle_replies env (l.conn b) (l.vat b) m
      (h b m (by rw [hq]; exact List.mem_cons_self))
    refine ⟨fun b' m' hm' => ?_, ?_⟩
    · by_cases hb : b' = b
      · subst hb
        simp only [if_true] at hm'
        exact h b' m' (by rw [hq]; exact List.mem_cons_of_mem _ hm')
      · simp only [if_neg hb] at hm'
        obtain hm' | hm' := List.mem_append.mp hm'
        · exact h b' m' hm'
        · obtain ⟨o, ho, rfl⟩ := List.mem_map.mp hm'
          exact (terminal_arrives (hterm o ho)).2
    · have hzero := sum_terminal hterm
      cases b with
      | false =>
        simp only [Link.pending, hq, if_true, Bool.true_eq_false, if_false, List.map_cons, List.sum_cons,
          List.map_append, List.sum_append, hzero]
        omega
      | true =>
        simp only [Link.pending, hq, if_true, Bool.false_eq_true, if_false, List.map_cons, List.sum_cons,
          List.map_append, List.sum_append, hzero]
        omega

/-! ## With an echo in flight -/

theorem echo_sent {m : Message} (h : Echoed m) (c : Conn) (vat : Vat) :
    (capnRpcHandle quietEnv c vat m).sent = [.unimplemented m] := by
  cases m with
  | resolve => rfl
  | obsolete => rfl
  | _ => exact absurd h id

/-- The messages before an echo are handled, and it is sent back. -/
theorem echo_returns (pre : List Message) {post : List Message} {m : Message} (hm : Echoed m) {b : Bool} {l : Link}
    (hq : l.queue b = pre ++ m :: post) : ∃ l', Runs Link.step (fun _ _ => True) l l' ∧
      (∃ pre' post', l'.queue (!b) = pre' ++ .obsolete :: post') ∧ l.sends + 1 ≤ l'.sends := by
  have hne : ¬ (!b) = b := by cases b <;> decide
  induction pre generalizing l with
  | nil =>
    refine ⟨l.step (b, quietEnv), .tail .refl trivial, ?_, ?_⟩
    · refine ⟨l.queue (!b), [], ?_⟩
      simp only [Link.step, hq, List.nil_append, if_neg hne, echo_sent hm]
      rfl
    · simp only [Link.step, hq, List.nil_append, echo_sent hm]
      exact Nat.le_refl _
  | cons p pre ih =>
    have hnext : (l.step (b, quietEnv)).queue b = pre ++ m :: post := by
      simp only [Link.step, hq, List.cons_append, if_true]
    obtain ⟨l', hrun, hqueue, hsends⟩ := ih hnext
    refine ⟨l', ?_, hqueue, Nat.le_trans ?_ hsends⟩
    · exact Relation.ReflTransGen.head ⟨(b, quietEnv), trivial, rfl⟩ hrun
    · simp only [Link.step, hq, List.cons_append]
      omega

/-- An echo in flight is sent to and fro. -/
theorem echo_bounces (n : Nat) {l : Link} {b : Bool} {m : Message} (hm : Echoed m) (hmem : m ∈ l.queue b) :
    ∃ l', Runs Link.step (fun _ _ => True) l l' ∧ l.sends + n ≤ l'.sends := by
  induction n generalizing l b m with
  | zero => exact ⟨l, .refl, Nat.le_refl _⟩
  | succ n ih =>
    obtain ⟨pre, post, hq⟩ := List.append_of_mem hmem
    obtain ⟨l₁, hrun₁, ⟨pre', post', hq'⟩, hsends₁⟩ := echo_returns pre hm hq
    have hobs : Message.obsolete ∈ l₁.queue (!b) := by
      rw [hq']
      exact List.mem_append_right _ List.mem_cons_self
    obtain ⟨l₂, hrun₂, hsends₂⟩ := ih (m := .obsolete) trivial hobs
    exact ⟨l₂, hrun₁.trans hrun₂, by omega⟩

/-- **An exchange dies out**, and no message that was sent back is answered, exactly if no
message in flight is one that is sent back. -/
theorem exchange_dies_out (l : Link) :
    ((∃ n, ∀ l', Runs Link.step (fun _ _ => True) l l' → l'.sends ≤ n) ∧
      ∀ l', Runs Link.step (fun _ _ => True) l l' → ∀ b ms, l'.queue b = .obsolete :: ms →
        ∀ env, (capnRpcHandle env (l'.conn b) (l'.vat b) .obsolete).sent = []) ↔
    ∀ b, ∀ m ∈ l.queue b, ¬ Echoed m := by
  constructor
  · rintro ⟨⟨n, hn⟩, -⟩ b m hmem hm
    obtain ⟨l', hrun, hsends⟩ := echo_bounces (n + 1) hm hmem
    have hle := hn l' hrun
    omega
  · intro hcalm
    have hrun : ∀ l', Runs Link.step (fun _ _ => True) l l' →
        l'.Calm ∧ l'.sends + l'.pending ≤ l.sends + l.pending := by
      intro l' h
      refine h.rel (R := fun l l' => l'.Calm ∧ l'.sends + l'.pending ≤ l.sends + l.pending) ⟨hcalm, Nat.le_refl _⟩
        fun t e ht _ => ?_
      obtain ⟨hc, hle⟩ := calm_step ht.1 e
      exact ⟨hc, Nat.le_trans hle ht.2⟩
    refine ⟨⟨l.sends + l.pending, fun l' h => ?_⟩, fun l' h b ms hq => ?_⟩
    · exact Nat.le_trans (Nat.le_add_right _ _) (hrun l' h).2
    · refine absurd trivial ((hrun l' h).1 b .obsolete ?_)
      rw [hq]
      exact List.mem_cons_self

/-- One `unimplemented` in flight between two connections that did nothing yet: it is
answered, and messages are sent without end. -/
theorem exchange_dies_out_fails :
    (capnRpcHandle quietEnv {} .empty .obsolete).sent = [.unimplemented .obsolete] ∧
    ∀ n, ∃ l', Runs Link.step (fun _ _ => True) { queue := fun b => if b then [.obsolete] else [] } l' ∧ n ≤ l'.sends := by
  refine ⟨rfl, fun n => ?_⟩
  obtain ⟨l', hrun, hsends⟩ := echo_bounces n (l := { queue := fun b => if b then [.obsolete] else [] }) (b := true)
    (m := .obsolete) trivial List.mem_cons_self
  exact ⟨l', hrun, by omega⟩

end Capnproto.Rpc

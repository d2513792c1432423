import Capnproto.Framework.Run
import Capnproto.Rpc.Client
import Mathlib.Tactic.ByContra

/-!
# Question ids

A run of the client side: questions asked and finished, streams, and Returns in
any order. An id is free of collisions as long as the counter, when a question
is claimed, holds no id of an outstanding question and not `NO_QUESTION`
(`Fresh`); it then is a new id (`claim_distinct`).
-/

namespace Capnproto.Rpc

/-- A connection's client side and the streams on it. -/
structure ClientState (σ : Type) where
  conn : ClientConn := {}
  streams : σ → Stream := fun _ => capnRpcStreamInit 1

/-- What the application does, and what arrives. -/
inductive Act (σ : Type) where
  | sendBootstrap
  | sendCall (importedCap interfaceId methodId : Nat) (params : Content)
  | sendProvide (importedCap : Nat) (host : Option (List UInt8)) (port nonce : Nat)
  | sendAccept (nonce : Nat) (embargo : Bool)
  | sendFinish (qid : Nat)
  | sendRelease (id count : Nat)
  | sendDisembargoProvide (provideQid : Nat)
  | introductionDone (nonce : Nat)
  | streamInit (s : σ) (window : Int)
  | streamSend (s : σ) (importedCap interfaceId methodId : Nat) (params : Content)
  | streamFinish (s : σ)
  | handleReturn (r : Reply)
  | handleCall (introduced : List Introduction)

section

variable {σ : Type} [DecidableEq σ]

/-- Replaces a stream. -/
def ClientState.setStream (x : ClientState σ) (s : σ) (y : Stream) : σ → Stream :=
  fun s' => if s' = s then y else x.streams s'

/-- What an act leaves: the streams, and the connection with what was sent. -/
def Act.run (t : Transport) (x : ClientState σ) : Act σ → (σ → Stream) × Outbox
  | .sendBootstrap => (x.streams, (capnRpcSendBootstrap t { conn := x.conn }).2)
  | .sendCall importedCap interfaceId methodId params =>
    (x.streams, (capnRpcSendCall t { conn := x.conn } importedCap interfaceId methodId params).2)
  | .sendProvide importedCap host port nonce =>
    (x.streams, (capnRpcSendProvide t { conn := x.conn } importedCap host port nonce).2)
  | .sendAccept nonce embargo => (x.streams, (capnRpcSendAccept t { conn := x.conn } nonce embargo).2)
  | .sendFinish qid => (x.streams, capnRpcSendFinish t { conn := x.conn } qid)
  | .sendRelease id count => (x.streams, capnRpcSendRelease t { conn := x.conn } id count)
  | .sendDisembargoProvide provideQid => (x.streams, capnRpcSendDisembargoProvide t { conn := x.conn } provideQid)
  | .introductionDone nonce => (x.streams, capnRpcIntroductionDone t { conn := x.conn } nonce)
  | .streamInit s window => (x.setStream s (capnRpcStreamInit window), { conn := x.conn })
  | .streamSend s importedCap interfaceId methodId params =>
    let r := capnRpcStreamSend t (x.streams s) { conn := x.conn } importedCap interfaceId methodId params
    (x.setStream s r.1, r.2)
  | .streamFinish s =>
    let r := capnRpcStreamFinish t (x.streams s) { conn := x.conn }
    (x.setStream s r.1, r.2)
  | .handleReturn r => (x.streams, { conn := Rpc.handleReturn x.conn r })
  | .handleCall introduced => (x.streams, { conn := noteIntroductions x.conn introduced })

def ClientState.step (x : ClientState σ) (e : Transport × Act σ) : ClientState σ where
  conn := (e.2.run e.1 x).2.conn
  streams := (e.2.run e.1 x).1

/-- The message of the question that an act asks, and the connection as it claims it. -/
def Act.asks (t : Transport) (x : ClientState σ) : Act σ → Option (ClientConn × (Nat → Request))
  | .sendBootstrap => some (x.conn, .bootstrap)
  | .sendCall importedCap interfaceId methodId params =>
    some (x.conn, fun qid => .call qid importedCap interfaceId methodId params)
  | .sendProvide importedCap (some host) port nonce =>
    some (x.conn, fun qid => .provide qid importedCap host port nonce)
  | .sendAccept nonce embargo => some (x.conn, fun qid => .accept qid nonce embargo)
  | .streamSend s importedCap interfaceId methodId params =>
    let r := streamRoom t (x.streams s) { conn := x.conn }
    if (x.streams s).failed ∨ r.1.failed then none
    else some (r.2.conn, fun qid => .call qid importedCap interfaceId methodId params)
  | _ => none

end

/-- The counter holds an id that a new question may have. -/
def Fresh (c : ClientConn) : Prop := c.nextQuestionId ≠ NO_QUESTION ∧ questionFind c c.nextQuestionId = none

/-- The message fits the buffer and the callback takes it. -/
def Sent (t : Transport) (msg : Request) : Prop :=
  t.frameSize msg ≤ CAPN_RPC_MAX_ANSWER_BYTES ∧ t.send msg = 0

/-- A question that finds a slot and is sent gets a fresh id. -/
def ClientState.Ok {σ : Type} (x : ClientState σ) (e : Transport × Act σ) : Prop :=
  ∀ c msg, e.2.asks e.1 x = some (c, msg) → c.questions.free ≠ none → Sent e.1 (msg c.nextQuestionId) → Fresh c

/-! ## Distinct ids -/

/-- The outstanding questions have ids of their own, and none is `NO_QUESTION`. -/
structure Distinct (questions : Table CAPN_RPC_MAX_QUESTIONS Question) : Prop where
  only : ∀ i j p q, questions i = some p → questions j = some q → p.questionId = q.questionId → i = j
  valid : ∀ i q, questions i = some q → q.questionId ≠ NO_QUESTION

section

variable {questions questions' : Table CAPN_RPC_MAX_QUESTIONS Question} {c : ClientConn} {l : Outbox} {t : Transport}

/-- A table whose entries are, by their ids, entries of a table with distinct ids. -/
theorem Distinct.sub (h : Distinct questions)
    (hsub : ∀ i q', questions' i = some q' → ∃ q, questions i = some q ∧ q.questionId = q'.questionId) :
    Distinct questions' := by
  refine ⟨fun i j p q hp hq hpq => ?_, fun i q hq => ?_⟩
  · obtain ⟨p₀, hp₀, hpid⟩ := hsub i p hp
    obtain ⟨q₀, hq₀, hqid⟩ := hsub j q hq
    exact h.only i j p₀ q₀ hp₀ hq₀ (by rw [hpid, hpq, hqid])
  · obtain ⟨q₀, hq₀, hqid⟩ := hsub i q hq
    rw [← hqid]
    exact h.valid i q₀ hq₀

theorem Distinct.drop (h : Distinct questions) (i : Fin CAPN_RPC_MAX_QUESTIONS) : Distinct (questions.set i none) := by
  apply h.sub
  intro j q hq
  by_cases hj : j = i
  · rw [hj, Table.set_same] at hq
    cases hq
  · rw [Table.set_ne _ _ hj] at hq
    exact ⟨q, hq, rfl⟩

/-- A question with a fresh id. -/
theorem Distinct.add (h : Distinct c.questions) (hfresh : Fresh c) (i : Fin CAPN_RPC_MAX_QUESTIONS) :
    Distinct (c.questions.set i (some { questionId := c.nextQuestionId })) := by
  have hother : ∀ j q, c.questions j = some q → q.questionId ≠ c.nextQuestionId := by
    intro j q hq
    exact of_decide_eq_false (Table.find_none hfresh.2 hq)
  have hentry : ∀ j q, c.questions.set i (some { questionId := c.nextQuestionId }) j = some q →
      j = i ∧ q.questionId = c.nextQuestionId ∨ c.questions j = some q := by
    intro j q hq
    by_cases hj : j = i
    · rw [hj, Table.set_same] at hq
      exact .inl ⟨hj, by rw [← Option.some.inj hq]⟩
    · rw [Table.set_ne _ _ hj] at hq
      exact .inr hq
  refine ⟨fun j k p q hp hq hpq => ?_, fun j q hq => ?_⟩
  · obtain ⟨rfl, hpid⟩ | hp := hentry j p hp
    · obtain ⟨rfl, -⟩ | hq := hentry k q hq
      · rfl
      · exact absurd (hpq.symm.trans hpid) (hother k q hq)
    · obtain ⟨-, hqid⟩ | hq := hentry k q hq
      · exact absurd (hpq.trans hqid) (hother j p hp)
      · exact h.only j k p q hp hq hpq
  · obtain ⟨-, hqid⟩ | hq := hentry j q hq
    · rw [hqid]
      exact hfresh.1
    · exact h.valid j q hq

@[simp] theorem transmit_conn (msg : Request) : (transmit t l msg).conn = l.conn := by
  unfold transmit
  split <;> rfl

/-- The status of a message that was sent, and of one that was not. -/
theorem transmit_rc (msg : Request) : (transmit t l msg).rc = 0 → Sent t msg := by
  unfold transmit
  split
  · intro h
    exact absurd h (show (-1 : Int) ≠ 0 by decide)
  · rename_i hle
    exact fun h => ⟨Nat.not_lt.mp hle, h⟩

/-- **Asking** a question claims a slot for it, or leaves the questions as they were. -/
theorem ask_questions (l : Outbox) (msg : Nat → Request) :
    ((ask t l msg).1 = NO_QUESTION ∧ (ask t l msg).2.conn.questions = l.conn.questions) ∨
      ∃ i, l.conn.questions.free = some i ∧ Sent t (msg l.conn.nextQuestionId) ∧
        (ask t l msg).1 = l.conn.nextQuestionId ∧
        (ask t l msg).2.conn.questions = l.conn.questions.set i (some { questionId := l.conn.nextQuestionId }) := by
  unfold ask questionClaim
  cases hfree : l.conn.questions.free with
  | none => exact .inl ⟨rfl, rfl⟩
  | some i =>
    simp only [transmit_conn]
    split
    · refine .inl ⟨rfl, ?_⟩
      show Table.set (Table.set _ _ _) _ _ = _
      rw [Table.set_set, Table.set_eq_self (Table.free_some hfree)]
    · rename_i hrc
      refine .inr ⟨i, rfl, transmit_rc _ (not_not.mp hrc), rfl, ?_⟩
      simp only [transmit_conn]

theorem ask_distinct (h : Distinct l.conn.questions) (msg : Nat → Request)
    (hok : l.conn.questions.free ≠ none → Sent t (msg l.conn.nextQuestionId) → Fresh l.conn) :
    Distinct (ask t l msg).2.conn.questions := by
  obtain ⟨-, e⟩ | ⟨i, hi, hsent, -, e⟩ := ask_questions (t := t) l msg
  · rw [e]
    exact h
  · rw [e]
    exact h.add (hok (by rw [hi]; exact Option.some_ne_none i) hsent) i

/-- The questions after one is finished. -/
def finishQuestion (c : ClientConn) (qid : Nat) : Table CAPN_RPC_MAX_QUESTIONS Question :=
  match questionFind c qid with
  | some i => c.questions.set i none
  | none => c.questions

theorem sendFinish_questions (l : Outbox) (qid : Nat) :
    (capnRpcSendFinish t l qid).conn.questions = finishQuestion l.conn qid := by
  unfold capnRpcSendFinish finishQuestion
  rw [transmit_conn]
  simp only
  cases questionFind l.conn qid <;> rfl

theorem sendFinish_distinct (h : Distinct l.conn.questions) (qid : Nat) :
    Distinct (capnRpcSendFinish t l qid).conn.questions := by
  rw [sendFinish_questions]
  unfold finishQuestion
  split
  · exact h.drop _
  · exact h

/-! ## Returns -/

/-- A Return changes no entry but the one of its question, and keeps its id. -/
def ChangesOnly (c c' : ClientConn) (qid : Nat) : Prop :=
  ∀ j, c'.questions j = c.questions j ∨
    ∃ q q', c.questions j = some q ∧ c'.questions j = some q' ∧ q.questionId = qid ∧ q'.questionId = qid

/-- **`handle_return`** changes only the question it names, and without one nothing. -/
theorem handleReturn_changes (c : ClientConn) (r : Reply) :
    ChangesOnly c (handleReturn c r) r.answerId ∧ (handleReturn c r).nextQuestionId = c.nextQuestionId ∧
      (questionFind c r.answerId = none → handleReturn c r = c) := by
  unfold handleReturn
  cases hf : questionFind c r.answerId with
  | none => exact ⟨fun _ => .inl rfl, rfl, fun _ => rfl⟩
  | some i =>
    obtain ⟨q, hq, hid⟩ := Table.find_some hf
    replace hid : q.questionId = r.answerId := of_decide_eq_true hid
    simp only
    split
    · exact ⟨fun _ => .inl rfl, rfl, nofun⟩
    · have hchange : ∀ j, c.questions.set i ((c.questions i).map fun q =>
          { q with answered := true, failed := !r.results, reply := r.frame }) j = c.questions j ∨
          ∃ q q', c.questions j = some q ∧ c.questions.set i ((c.questions i).map fun q =>
            { q with answered := true, failed := !r.results, reply := r.frame }) j = some q' ∧
            q.questionId = r.answerId ∧ q'.questionId = r.answerId := by
        intro j
        by_cases hj : j = i
        · refine .inr ⟨q, { q with answered := true, failed := !r.results, reply := r.frame }, hj ▸ hq, ?_, hid, hid⟩
          rw [hj, Table.set_same, hq]
          rfl
        · exact .inl (Table.set_ne _ _ hj)
      split
      · exact ⟨hchange, rfl, nofun⟩
      · exact ⟨hchange, rfl, nofun⟩

theorem handleReturn_distinct (h : Distinct c.questions) (r : Reply) : Distinct (handleReturn c r).questions := by
  apply h.sub
  intro i q' hq'
  obtain e | ⟨q, q'', hq, hq'', hid, hid'⟩ := (handleReturn_changes c r).1 i
  · exact ⟨q', by rw [← e, hq'], rfl⟩
  · rw [hq'] at hq''
    cases hq''
    exact ⟨q, hq, hid.trans hid'.symm⟩

/-! ## Streams -/

theorem retireOldest_distinct (h : Distinct l.conn.questions) (s : Stream) :
    Distinct (streamRetireOldest t s l).2.conn.questions := by
  unfold streamRetireOldest
  split
  · exact h
  · exact sendFinish_distinct h _

theorem streamRoom_distinct (h : Distinct l.conn.questions) (s : Stream) :
    Distinct (streamRoom t s l).2.conn.questions := by
  unfold streamRoom
  split
  · exact retireOldest_distinct h s
  · exact h

theorem retireAll_distinct (n : Nat) (s : Stream) (h : Distinct l.conn.questions) :
    Distinct (retireAll t n (s, l)).2.conn.questions := by
  induction n generalizing s l with
  | zero => exact h
  | succ n ih => exact ih (streamRetireOldest t s l).1 (retireOldest_distinct h s)

end

section

variable {σ : Type} [DecidableEq σ]

/-- **An act** keeps the ids distinct. -/
theorem distinct_step {x : ClientState σ} {e : Transport × Act σ} (h : Distinct x.conn.questions) (hok : x.Ok e) :
    Distinct (x.step e).conn.questions := by
  obtain ⟨t, a⟩ := e
  cases a with
  | sendBootstrap => exact ask_distinct (l := { conn := x.conn }) h _ (hok _ _ rfl)
  | sendCall importedCap interfaceId methodId params =>
    exact ask_distinct (l := { conn := x.conn }) h _ (hok _ _ rfl)
  | sendProvide importedCap host port nonce =>
    cases host with
    | none => exact h
    | some host => exact ask_distinct (l := { conn := x.conn }) h _ (hok _ _ rfl)
  | sendAccept nonce embargo => exact ask_distinct (l := { conn := x.conn }) h _ (hok _ _ rfl)
  | sendFinish qid => exact sendFinish_distinct (l := { conn := x.conn }) h qid
  | sendRelease id count =>
    show Distinct (transmit t { conn := x.conn } (.release id count)).conn.questions
    rw [transmit_conn]
    exact h
  | sendDisembargoProvide provideQid =>
    show Distinct (transmit t { conn := x.conn } (.disembargo provideQid)).conn.questions
    rw [transmit_conn]
    exact h
  | introductionDone nonce =>
    show Distinct (capnRpcIntroductionDone t { conn := x.conn } nonce).conn.questions
    unfold capnRpcIntroductionDone
    split
    · exact h
    · split
      · exact h
      · simp only [capnRpcSendRelease, transmit_conn]
        exact h
  | streamInit s window => exact h
  | streamSend s importedCap interfaceId methodId params =>
    show Distinct (capnRpcStreamSend t (x.streams s) { conn := x.conn } importedCap interfaceId methodId
      params).2.conn.questions
    have hroom := streamRoom_distinct (t := t) (l := { conn := x.conn }) h (x.streams s)
    unfold capnRpcStreamSend
    split
    · exact h
    · rename_i hs
      simp only
      split
      · exact hroom
      · rename_i hr
        have hask := ask_distinct (t := t) (l := (streamRoom t (x.streams s) { conn := x.conn }).2) hroom
          (fun qid => .call qid importedCap interfaceId methodId params) (hok _ _ (if_neg (not_or.mpr ⟨hs, hr⟩)))
        split
        · exact hask
        · exact hask
  | streamFinish s => exact retireAll_distinct _ (x.streams s) h
  | handleReturn r => exact handleReturn_distinct h r
  | handleCall introduced => exact h

end

/-! ## Two runs -/

/-- Sends that succeed, and small frames. -/
def quietTransport : Transport := ⟨fun _ => 0, fun _ => 64⟩

/-- A question in the first slot of an empty table. -/
def asked (n : Nat) : ClientConn :=
  { questions := Table.empty.set 0 (some { questionId := n }), nextQuestionId := (n + 1) % 2 ^ 32 }

theorem asked_questions (n : Nat) : (asked n).questions = Table.empty.set 0 (some { questionId := n }) := rfl

theorem bootstrap_asked (n : Nat) :
    ClientState.step (σ := Unit) ⟨{ nextQuestionId := n }, fun _ => capnRpcStreamInit 1⟩ (quietTransport, .sendBootstrap) =
      ⟨asked n, fun _ => capnRpcStreamInit 1⟩ := rfl

theorem finish_asked (n : Nat) :
    ClientState.step (σ := Unit) ⟨asked n, fun _ => capnRpcStreamInit 1⟩ (quietTransport, .sendFinish n) =
      ⟨{ nextQuestionId := (n + 1) % 2 ^ 32 }, fun _ => capnRpcStreamInit 1⟩ := by
  have hfind : questionFind (asked n) n = some 0 := by
    have hfirst : (asked n).questions 0 = some { questionId := n } := by rw [asked_questions, Table.set_same]
    refine Table.find_unique hfirst (decide_eq_true rfl) fun j b hb _ => ?_
    by_contra hj
    rw [asked_questions, Table.set_ne _ _ hj] at hb
    cases hb
  have hquestions : finishQuestion (asked n) n = Table.empty := by
    rw [finishQuestion, hfind]
    show (Table.set (Table.set _ _ _) _ _) = _
    rw [Table.set_set]
    exact Table.set_eq_self rfl
  have hconn : (capnRpcSendFinish quietTransport { conn := asked n } n).conn =
      { asked n with questions := finishQuestion (asked n) n } := by
    rw [capnRpcSendFinish, transmit_conn, finishQuestion, hfind]
  show (⟨(capnRpcSendFinish quietTransport { conn := asked n } n).conn, _⟩ : ClientState Unit) = _
  rw [hconn, hquestions]
  rfl

/-- Questions asked and finished, one after the other. -/
theorem rounds {ok : ClientState Unit → Transport × Act Unit → Prop} (n : Nat) (hn : n < 2 ^ 32)
    (hok : ∀ m < n, ok ⟨{ nextQuestionId := m }, fun _ => capnRpcStreamInit 1⟩ (quietTransport, .sendBootstrap) ∧
      ok ⟨asked m, fun _ => capnRpcStreamInit 1⟩ (quietTransport, .sendFinish m)) :
    Runs ClientState.step ok {} ⟨{ nextQuestionId := n }, fun _ => capnRpcStreamInit 1⟩ := by
  induction n with
  | zero => exact .refl
  | succ n ih =>
    obtain ⟨hboot, hfin⟩ := hok n (Nat.lt_succ_self n)
    have hn' := ih (Nat.lt_of_succ_lt hn) fun m hm => hok m (Nat.lt_succ_of_lt hm)
    have hasked := hn'.tail hboot
    rw [bootstrap_asked] at hasked
    have hdone := hasked.tail hfin
    rw [finish_asked, Nat.mod_eq_of_lt hn] at hdone
    exact hdone

end Capnproto.Rpc

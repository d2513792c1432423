import Capnproto.Rpc.Questions

/-!
# Stream calls

A log of what happens to a stream: the calls sent, those retired with the answer
each had by then, and the Returns that arrived (`StreamLog`). The window over
the table of questions keeps to it (`Logged`): what is sent and not retired is
what the window holds, in order, and the failure it records is the first in the
log.
-/

namespace Capnproto.Rpc

/-- The calls and the Finishes among some messages, by their questions. -/
def callIds (sent : List Request) : List Nat :=
  sent.filterMap fun
    | .call qid _ _ _ _ => some qid
    | _ => none

def finishIds (sent : List Request) : List Nat :=
  sent.filterMap fun
    | .finish qid => some qid
    | _ => none

/-- What happened to a stream. An answer is whether the Return had results. -/
structure StreamLog where
  calls : List Nat := []
  retired : List (Nat × Option Bool) := []
  answers : Nat → Option Bool := fun _ => none

/-- Calls are retired. -/
def StreamLog.retire (g : StreamLog) (qids : List Nat) : StreamLog :=
  { g with retired := g.retired ++ qids.map fun q => (q, g.answers q) }

/-- A Return is an answer to a call that was sent, unless it is larger than the buffer
for it. -/
def StreamLog.reply (g : StreamLog) (r : Reply) : StreamLog :=
  { g with answers := fun q =>
      if q = r.answerId ∧ q ∈ g.calls ∧ r.frame.length ≤ CAPN_RPC_MAX_ANSWER_BYTES then some r.results
      else g.answers q }

/-- The first retired call that was not answered with results. -/
def StreamLog.failure (g : StreamLog) : Option Nat := (g.retired.find? fun x => x.2 ≠ some true).map (·.1)

/-- The window of a stream keeps to the log. -/
structure Logged (c : ClientConn) (s : Stream) (g : StreamLog) : Prop where
  only : ∀ i j p q, c.questions i = some p → c.questions j = some q → p.questionId = q.questionId → i = j
  below : ∀ i q, c.questions i = some q → q.questionId < c.nextQuestionId
  calls : g.calls = g.retired.map (·.1) ++ s.qids
  sorted : (g.calls ++ [c.nextQuestionId]).Pairwise (· < ·)
  known : ∀ q, g.answers q ≠ none → q ∈ g.calls
  recorded : ∀ q ∈ s.qids, ∃ i x, c.questions i = some x ∧ x.questionId = q ∧
    x.answered = (g.answers q).isSome ∧ ∀ b, g.answers q = some b → x.failed = !b
  failure : g.failure = if s.haveFailure then some s.firstFailure else none
  flag : s.failed = s.haveFailure
  window : (s.qids.length : Int) ≤ s.window

section

variable {c : ClientConn} {s : Stream} {g : StreamLog} {l : Outbox} {t : Transport} {q : Nat} {qs : List Nat}

theorem retire_nil (g : StreamLog) : g.retire [] = g := by
  show ({ g with retired := g.retired ++ [] } : StreamLog) = g
  rw [List.append_nil]

theorem retire_retire (g : StreamLog) (qs qs' : List Nat) : (g.retire qs).retire qs' = g.retire (qs ++ qs') := by
  unfold StreamLog.retire
  rw [List.append_assoc, List.map_append]

theorem Logged.mem (h : Logged c s g) (hq : q ∈ s.qids) : q ∈ g.calls := by
  rw [h.calls]
  exact List.mem_append_right _ hq

theorem Logged.lt (h : Logged c s g) (hq : q ∈ g.calls) : q < c.nextQuestionId :=
  (List.pairwise_append.mp h.sorted).2.2 q hq _ List.mem_cons_self

/-- The ids in a window are pairwise distinct. -/
theorem Logged.nodup (h : Logged c s g) (hq : s.qids = q :: qs) : q ∉ qs := by
  have hsorted := (List.pairwise_append.mp h.sorted).1
  rw [h.calls, hq] at hsorted
  intro hmem
  exact Nat.lt_irrefl q (List.rel_of_pairwise_cons (List.pairwise_append.mp hsorted).2.1 hmem)

/-- The question of a call in the window is found. -/
theorem Logged.find (h : Logged c s g) (hq : q ∈ s.qids) : ∃ i x, questionFind c q = some i ∧
    c.questions i = some x ∧ x.answered = (g.answers q).isSome ∧ ∀ b, g.answers q = some b → x.failed = !b := by
  obtain ⟨i, x, hx, hid, hans, hfail⟩ := h.recorded q hq
  refine ⟨i, x, Table.find_unique hx (decide_eq_true hid) fun j y hy hyq => ?_, hx, hans, hfail⟩
  exact h.only j i y x hy hx ((of_decide_eq_true hyq).trans hid.symm)

/-- What retiring sees of a call in the window. -/
theorem Logged.verdict (h : Logged c s g) (hq : q ∈ s.qids) :
    (!capnRpcIsAnswered c q || capnRpcIsFailed c q) = decide (g.answers q ≠ some true) := by
  obtain ⟨i, x, hi, hx, hans, hfail⟩ := h.find hq
  simp only [capnRpcIsAnswered, capnRpcIsFailed, hi, Option.bind_some, hx, Option.any_some, hans]
  cases ha : g.answers q with
  | none => rfl
  | some b =>
    rw [hfail b ha]
    cases b <;> rfl

/-! ## Retiring -/

/-- The stream after its oldest call is retired. -/
theorem retireOldest_stream (h : Logged l.conn s g) (hq : s.qids = q :: qs) :
    (streamRetireOldest t s l).2 = capnRpcSendFinish t l q ∧
    (streamRetireOldest t s l).1.qids = qs ∧ (streamRetireOldest t s l).1.window = s.window ∧
    (streamRetireOldest t s l).1.failed = (s.failed || decide (g.answers q ≠ some true)) ∧
    (streamRetireOldest t s l).1.haveFailure = (s.haveFailure || decide (g.answers q ≠ some true)) ∧
    (streamRetireOldest t s l).1.firstFailure =
      if g.answers q ≠ some true ∧ s.haveFailure = false then q else s.firstFailure := by
  have hv := h.verdict (q := q) (by rw [hq]; exact List.mem_cons_self)
  unfold streamRetireOldest
  simp only [hq, hv]
  by_cases hans : g.answers q = some true
  · simp [hans]
  · cases hf : s.haveFailure <;> simp [hans]

theorem sendFinish_sent (hs : t.frameSize (.finish q) ≤ CAPN_RPC_MAX_ANSWER_BYTES) :
    (capnRpcSendFinish t l q).sent = l.sent ++ [.finish q] := by
  unfold capnRpcSendFinish transmit
  rw [if_neg (Nat.not_lt.mpr hs)]

theorem sendFinish_next : (capnRpcSendFinish t l q).conn.nextQuestionId = l.conn.nextQuestionId := by
  unfold capnRpcSendFinish
  rw [transmit_conn]
  simp only
  split <;> rfl

theorem finishQuestion_cases (c : ClientConn) (q : Nat) : finishQuestion c q = c.questions ∨
    ∃ j y, c.questions j = some y ∧ y.questionId = q ∧ finishQuestion c q = c.questions.set j none := by
  unfold finishQuestion
  cases hf : questionFind c q with
  | none => exact .inl rfl
  | some j =>
    obtain ⟨y, hy, hyq⟩ := Table.find_some hf
    exact .inr ⟨j, y, hy, of_decide_eq_true hyq, rfl⟩

theorem finishQuestion_sub {i : Fin CAPN_RPC_MAX_QUESTIONS} {x : Question} (hx : finishQuestion c q i = some x) :
    c.questions i = some x := by
  obtain e | ⟨j, y, -, -, e⟩ := finishQuestion_cases c q
  · rwa [e] at hx
  · rw [e] at hx
    by_cases hi : i = j
    · rw [hi, Table.set_same] at hx
      cases hx
    · rwa [Table.set_ne _ _ hi] at hx

/-- A question under another id stays. -/
theorem finishQuestion_keeps {i : Fin CAPN_RPC_MAX_QUESTIONS} {x : Question} (hx : c.questions i = some x)
    (hne : x.questionId ≠ q) : finishQuestion c q i = some x := by
  obtain e | ⟨j, y, hy, hyq, e⟩ := finishQuestion_cases c q
  · rw [e, hx]
  · have hi : i ≠ j := by
      rintro rfl
      rw [hx] at hy
      cases hy
      exact hne hyq
    rw [e, Table.set_ne _ _ hi, hx]

/-- The questions of the window are untouched when another one is finished. -/
theorem Logged.finish (h : Logged c s g) {c' : ClientConn} (hquestions : c'.questions = finishQuestion c q)
    (hnext : c'.nextQuestionId = c.nextQuestionId) {s' : Stream} {g' : StreamLog}
    (hcalls : g'.calls = g.calls) (hanswers : g'.answers = g.answers)
    (hlog : g'.calls = g'.retired.map (·.1) ++ s'.qids) (hqids : ∀ p ∈ s'.qids, p ∈ s.qids ∧ p ≠ q)
    (hfailure : g'.failure = if s'.haveFailure then some s'.firstFailure else none)
    (hflag : s'.failed = s'.haveFailure) (hwindow : (s'.qids.length : Int) ≤ s'.window) : Logged c' s' g' := by
  refine ⟨fun i j x y hx hy => ?_, fun i x hx => ?_, hlog, ?_, fun p hp => ?_, fun p hp => ?_, hfailure, hflag, hwindow⟩
  · rw [hquestions] at hx hy
    exact h.only i j x y (finishQuestion_sub hx) (finishQuestion_sub hy)
  · rw [hquestions] at hx
    rw [hnext]
    exact h.below i x (finishQuestion_sub hx)
  · rw [hcalls, hnext]
    exact h.sorted
  · rw [hanswers] at hp
    rw [hcalls]
    exact h.known p hp
  · obtain ⟨hmem, hne⟩ := hqids p hp
    obtain ⟨i, x, hx, hid, hrest⟩ := h.recorded p hmem
    rw [hquestions, hanswers]
    exact ⟨i, x, finishQuestion_keeps hx (by rw [hid]; exact hne), hid, hrest⟩

/-- **`stream_retire_oldest`** logs the oldest call with the answer it has. -/
theorem retireOldest_logged (h : Logged l.conn s g) (hq : s.qids = q :: qs) :
    Logged (streamRetireOldest t s l).2.conn (streamRetireOldest t s l).1 (g.retire [q]) := by
  obtain ⟨hl, hqids, hwindow, hfailed, hhave, hfirst⟩ := retireOldest_stream (t := t) h hq
  have hlen := h.window
  rw [hq, List.length_cons] at hlen
  push_cast at hlen
  have hcalls : g.calls = (g.retire [q]).retired.map (·.1) ++ (streamRetireOldest t s l).1.qids := by
    rw [h.calls, hq, hqids]
    show _ = List.map _ (g.retired ++ [(q, g.answers q)]) ++ qs
    rw [List.map_append, List.append_assoc]
    rfl
  have hfailure : (g.retire [q]).failure =
      if (streamRetireOldest t s l).1.haveFailure then some (streamRetireOldest t s l).1.firstFailure else none := by
    have hold := h.failure
    unfold StreamLog.failure at hold ⊢
    show ((g.retired ++ [(q, g.answers q)]).find? _).map _ = _
    rw [List.find?_append, hhave, hfirst]
    cases hf : s.haveFailure with
    | true =>
      rw [hf, if_pos rfl] at hold
      obtain ⟨x, hx, hx1⟩ := Option.map_eq_some_iff.mp hold
      rw [hx]
      simp [hx1]
    | false =>
      rw [hf] at hold
      simp only [Bool.false_eq_true, if_false, Option.map_eq_none_iff] at hold
      rw [hold]
      by_cases hans : g.answers q = some true
      · simp [hans]
      · simp [hans]
  rw [hl]
  refine h.finish (q := q) (sendFinish_questions l q) sendFinish_next rfl rfl hcalls ?_ hfailure ?_ ?_
  · intro p hp
    rw [hqids] at hp
    refine ⟨by rw [hq]; exact List.mem_cons_of_mem _ hp, fun e => h.nodup hq ?_⟩
    rw [← e]
    exact hp
  · rw [hfailed, hhave, h.flag]
  · rw [hqids, hwindow]
    omega

/-- A window that is full is made room in. -/
theorem streamRoom_logged (h : Logged l.conn s g) (hone : 1 ≤ s.window)
    (hs : ∀ q, t.frameSize (.finish q) ≤ CAPN_RPC_MAX_ANSWER_BYTES) :
    ∃ qs, Logged (streamRoom t s l).2.conn (streamRoom t s l).1 (g.retire qs) ∧
      (streamRoom t s l).2.sent = l.sent ++ qs.map .finish ∧
      ((streamRoom t s l).1.qids.length : Int) < (streamRoom t s l).1.window ∧
      (streamRoom t s l).1.window = s.window ∧
      (streamRoom t s l).2.conn.nextQuestionId = l.conn.nextQuestionId := by
  unfold streamRoom
  split
  · rename_i hfull
    cases hq : s.qids with
    | nil =>
      rw [hq] at hfull
      exact absurd hfull (by simp only [List.length_nil, Nat.cast_zero]; omega)
    | cons q qs =>
      obtain ⟨hl, hqids, hwindow, -⟩ := retireOldest_stream (t := t) h hq
      have hlen := h.window
      rw [hq, List.length_cons] at hlen
      push_cast at hlen
      refine ⟨[q], retireOldest_logged h hq, ?_, ?_, hwindow, ?_⟩
      · rw [hl]
        exact sendFinish_sent (hs q)
      · rw [hqids, hwindow]
        omega
      · rw [hl, sendFinish_next]
  · rename_i hroom
    exact ⟨[], by rw [retire_nil]; exact h, (List.append_nil _).symm, Int.not_le.mp hroom, rfl, rfl⟩

/-- The loop of `capn_rpc_stream_finish` retires what is in the window, in order. -/
theorem retireAll_logged (hs : ∀ q, t.frameSize (.finish q) ≤ CAPN_RPC_MAX_ANSWER_BYTES) (h : Logged l.conn s g)
    (hq : s.qids = qs) :
    Logged (retireAll t qs.length (s, l)).2.conn (retireAll t qs.length (s, l)).1 (g.retire qs) ∧
      (retireAll t qs.length (s, l)).1.qids = [] ∧
      (retireAll t qs.length (s, l)).2.sent = l.sent ++ qs.map .finish ∧
      (retireAll t qs.length (s, l)).1.window = s.window ∧
      (retireAll t qs.length (s, l)).2.conn.nextQuestionId = l.conn.nextQuestionId := by
  induction qs generalizing s l g with
  | nil => exact ⟨by rw [retire_nil]; exact h, hq, (List.append_nil _).symm, rfl, rfl⟩
  | cons q qs ih =>
    obtain ⟨hl, hqids, hwindow, -⟩ := retireOldest_stream (t := t) h hq
    obtain ⟨hlog, hempty, hsent, hw, hnext⟩ := ih (retireOldest_logged (t := t) h hq) hqids
    rw [retire_retire] at hlog
    refine ⟨hlog, hempty, ?_, hw.trans hwindow, ?_⟩
    · rw [List.length_cons, retireAll, hsent, hl, sendFinish_sent (hs q), List.append_assoc]
      rfl
    · rw [List.length_cons, retireAll, hnext, hl, sendFinish_next]

end

/-! ## Asking -/

section

variable {c : ClientConn} {s : Stream} {g : StreamLog} {l : Outbox} {t : Transport} {q : Nat}

/-- The counter after a question is asked, whether or not it was sent. -/
theorem ask_next (l : Outbox) (msg : Nat → Request) : (ask t l msg).2.conn.nextQuestionId =
    if l.conn.questions.free.isSome then (l.conn.nextQuestionId + 1) % 2 ^ 32 else l.conn.nextQuestionId := by
  unfold ask questionClaim
  cases l.conn.questions.free with
  | none => rfl
  | some i =>
    simp only [transmit_conn, Option.isSome_some, if_true]
    split
    · rfl
    · simp only [transmit_conn]

theorem transmit_sent (msg : Request) :
    (transmit t l msg).sent = l.sent ∨ (transmit t l msg).sent = l.sent ++ [msg] := by
  unfold transmit
  split
  · exact .inl rfl
  · exact .inr rfl

theorem ask_sent (l : Outbox) (msg : Nat → Request) : (ask t l msg).2.sent = l.sent ∨
    (ask t l msg).2.sent = l.sent ++ [msg l.conn.nextQuestionId] := by
  unfold ask questionClaim
  cases l.conn.questions.free with
  | none => exact .inl rfl
  | some i =>
    simp only
    split
    · exact transmit_sent _
    · exact transmit_sent _

/-- A question that has an id was sent. -/
theorem ask_sent_of (l : Outbox) (msg : Nat → Request) (h : (ask t l msg).1 ≠ NO_QUESTION) :
    (ask t l msg).2.sent = l.sent ++ [msg l.conn.nextQuestionId] := by
  unfold ask questionClaim at h ⊢
  cases hfree : l.conn.questions.free with
  | none =>
    rw [hfree] at h
    exact absurd rfl h
  | some i =>
    simp only [hfree] at h ⊢
    split at h
    · exact absurd rfl h
    · rename_i hrc
      rw [if_neg hrc]
      unfold transmit at hrc ⊢
      split
      · rename_i hlt
        rw [if_pos hlt] at hrc
        exact absurd (show (-1 : Int) ≠ 0 by decide) hrc
      · rfl

/-- A question more, or none, with the counter on. -/
theorem Logged.ask (h : Logged c s g) {c' : ClientConn} {k : Nat}
    (hquestions : c'.questions = c.questions ∨ 0 < k ∧ ∃ i, c.questions.free = some i ∧
      c'.questions = c.questions.set i (some { questionId := c.nextQuestionId }))
    (hnext : c'.nextQuestionId = c.nextQuestionId + k) : Logged c' s g := by
  have hsub : ∀ i x, c'.questions i = some x →
      c.questions i = some x ∨ 0 < k ∧ x.questionId = c.nextQuestionId ∧ c.questions.free = some i := by
    intro i x hx
    obtain e | ⟨hk, j, hj, e⟩ := hquestions
    · exact .inl (by rw [← e, hx])
    · rw [e] at hx
      by_cases hij : i = j
      · rw [hij, Table.set_same] at hx
        exact .inr ⟨hk, by rw [← Option.some.inj hx], by rw [hij, hj]⟩
      · rw [Table.set_ne _ _ hij] at hx
        exact .inl hx
  refine ⟨fun i j x y hx hy hxy => ?_, fun i x hx => ?_, h.calls, ?_, h.known, fun p hp => ?_, h.failure, h.flag,
    h.window⟩
  · obtain hx | ⟨-, hxid, hi⟩ := hsub i x hx
    · obtain hy | ⟨-, hyid, -⟩ := hsub j y hy
      · exact h.only i j x y hx hy hxy
      · have hlt := h.below i x hx
        omega
    · obtain hy | ⟨-, hyid, hj⟩ := hsub j y hy
      · have hlt := h.below j y hy
        omega
      · rw [hi] at hj
        exact Option.some.inj hj
  · rw [hnext]
    obtain hx | ⟨hk, hxid, -⟩ := hsub i x hx
    · have hlt := h.below i x hx
      omega
    · omega
  · have hsorted := List.pairwise_append.mp h.sorted
    refine List.pairwise_append.mpr ⟨hsorted.1, List.pairwise_singleton _ _, fun a ha b hb => ?_⟩
    have hlt := hsorted.2.2 a ha _ List.mem_cons_self
    rw [List.mem_singleton.mp hb, hnext]
    omega
  · obtain ⟨i, x, hx, hid, hrest⟩ := h.recorded p hp
    refine ⟨i, x, ?_, hid, hrest⟩
    obtain e | ⟨-, j, hj, e⟩ := hquestions
    · rw [e, hx]
    · have hij : i ≠ j := by
        rintro rfl
        rw [Table.free_some hj] at hx
        cases hx
      rw [e, Table.set_ne _ _ hij, hx]

/-- **Asking a question** keeps the log, while the counter is below `NO_QUESTION`. -/
theorem ask_logged (h : Logged l.conn s g) (msg : Nat → Request)
    (hn : l.conn.questions.free.isSome = true → l.conn.nextQuestionId + 1 < NO_QUESTION) :
    Logged (ask t l msg).2.conn s g ∧ (ask t l msg).2.conn.nextQuestionId =
      l.conn.nextQuestionId + if l.conn.questions.free.isSome then 1 else 0 := by
  have hnext : (ask t l msg).2.conn.nextQuestionId =
      l.conn.nextQuestionId + if l.conn.questions.free.isSome then 1 else 0 := by
    rw [ask_next]
    split
    · rename_i hfree
      have hlt := hn hfree
      have hmax : NO_QUESTION = 2 ^ 32 - 1 := rfl
      exact Nat.mod_eq_of_lt (by omega)
    · rfl
  refine ⟨h.ask ?_ hnext, hnext⟩
  obtain ⟨-, e⟩ | ⟨i, hi, -, -, e⟩ := ask_questions (t := t) l msg
  · exact .inl e
  · exact .inr ⟨by rw [hi]; exact Nat.one_pos, i, hi, e⟩

/-- **A call of the stream** goes to the end of the window. -/
theorem ask_pushed (h : Logged l.conn s g) (msg : Nat → Request) (hroom : (s.qids.length : Int) < s.window)
    (hn : l.conn.questions.free.isSome = true → l.conn.nextQuestionId + 1 < NO_QUESTION)
    (hq : (ask t l msg).1 ≠ NO_QUESTION) :
    (ask t l msg).1 = l.conn.nextQuestionId ∧
      Logged (ask t l msg).2.conn { s with qids := s.qids ++ [(ask t l msg).1] }
        { g with calls := g.calls ++ [(ask t l msg).1] } := by
  obtain ⟨hlog, hnext⟩ := ask_logged (t := t) h msg hn
  obtain ⟨hno, -⟩ | ⟨i, hi, -, hid, e⟩ := ask_questions (t := t) l msg
  · exact absurd hno hq
  rw [hi] at hnext
  simp only [Option.isSome_some, if_true] at hnext
  have hnew : l.conn.nextQuestionId ∉ g.calls := fun hmem => Nat.lt_irrefl _ (h.lt hmem)
  have hnone : g.answers l.conn.nextQuestionId = none := by
    by_contra hne
    exact hnew (h.known _ hne)
  rw [hid]
  refine ⟨rfl, hlog.only, hlog.below, ?_, ?_, fun p hp => ?_, fun p hp => ?_, hlog.failure, hlog.flag, ?_⟩
  · show g.calls ++ _ = g.retired.map (·.1) ++ (s.qids ++ _)
    rw [h.calls, List.append_assoc]
  · show (g.calls ++ [l.conn.nextQuestionId] ++ [(ask t l msg).2.conn.nextQuestionId]).Pairwise (· < ·)
    refine List.pairwise_append.mpr ⟨h.sorted, List.pairwise_singleton _ _, fun a ha b hb => ?_⟩
    rw [List.mem_singleton.mp hb, hnext]
    obtain ha | ha := List.mem_append.mp ha
    · exact Nat.lt_succ_of_lt (h.lt ha)
    · rw [List.mem_singleton.mp ha]
      exact Nat.lt_succ_self _
  · exact List.mem_append_left _ (h.known p hp)
  · obtain hp | hp := List.mem_append.mp hp
    · exact hlog.recorded p hp
    · rw [List.mem_singleton.mp hp, e]
      refine ⟨i, { questionId := l.conn.nextQuestionId }, Table.set_same _ _ _, rfl, ?_, fun b hb => ?_⟩
      · rw [hnone]
        rfl
      · rw [hnone] at hb
        cases hb
  · show ((s.qids ++ [l.conn.nextQuestionId]).length : Int) ≤ s.window
    rw [List.length_append, List.length_singleton]
    push_cast
    omega

/-! ## Returns -/

/-- **`handle_return`** records what the log takes for an answer. -/
theorem handleReturn_logged (h : Logged c s g) (r : Reply) : Logged (handleReturn c r) s (g.reply r) := by
  obtain ⟨hchange, hnext, hnone⟩ := handleReturn_changes c r
  have hentry : ∀ i x', (handleReturn c r).questions i = some x' →
      ∃ x, c.questions i = some x ∧ x.questionId = x'.questionId := by
    intro i x' hx'
    obtain e | ⟨x, x'', hx, hx'', hid, hid'⟩ := hchange i
    · exact ⟨x', by rw [← e, hx'], rfl⟩
    · rw [hx'] at hx''
      cases hx''
      exact ⟨x, hx, hid.trans hid'.symm⟩
  refine ⟨fun i j x' y' hx' hy' hxy => ?_, fun i x' hx' => ?_, h.calls, ?_, fun p hp => ?_, fun p hp => ?_, h.failure,
    h.flag, h.window⟩
  · obtain ⟨x, hx, hxid⟩ := hentry i x' hx'
    obtain ⟨y, hy, hyid⟩ := hentry j y' hy'
    exact h.only i j x y hx hy (by rw [hxid, hxy, hyid])
  · obtain ⟨x, hx, hxid⟩ := hentry i x' hx'
    rw [hnext, ← hxid]
    exact h.below i x hx
  · rw [hnext]
    exact h.sorted
  · simp only [StreamLog.reply] at hp
    split at hp
    · rename_i hcond
      exact hcond.2.1
    · exact h.known p hp
  · by_cases hp' : p = r.answerId
    · obtain ⟨i, x, hi, hx, hans, hfail⟩ := h.find hp
      by_cases hsize : r.frame.length ≤ CAPN_RPC_MAX_ANSWER_BYTES
      · have hquestions : (handleReturn c r).questions i =
            some { x with answered := true, failed := !r.results, reply := r.frame } := by
          unfold handleReturn
          rw [← hp', hi]
          simp only [if_neg (Nat.not_lt.mpr hsize)]
          split
          · show Table.set _ _ _ i = _
            rw [Table.set_same, hx, Option.map_some]
          · show Table.set _ _ _ i = _
            rw [Table.set_same, hx, Option.map_some]
        have hanswer : (g.reply r).answers p = some r.results := if_pos ⟨hp', h.mem hp, hsize⟩
        obtain ⟨j, y, hy, hyid, -⟩ := h.recorded p hp
        have hij : i = j := by
          obtain ⟨z, hz, hzid⟩ := Table.find_some hi
          exact h.only i j z y hz hy ((of_decide_eq_true hzid).trans hyid.symm)
        have hxid : x.questionId = p := by
          rw [hij, hy] at hx
          cases hx
          exact hyid
        refine ⟨i, _, hquestions, hxid, by rw [hanswer]; rfl, fun b hb => ?_⟩
        rw [hanswer] at hb
        cases hb
        rfl
      · have hsame : handleReturn c r = c := by
          unfold handleReturn
          rw [← hp', hi]
          exact if_pos (Nat.not_le.mp hsize)
        have hanswer : (g.reply r).answers p = g.answers p := if_neg fun hcond => hsize hcond.2.2
        rw [hsame, hanswer]
        exact h.recorded p hp
    · obtain ⟨i, x, hx, hid, hrest⟩ := h.recorded p hp
      have hanswer : (g.reply r).answers p = g.answers p := if_neg fun hcond => hp' hcond.1
      refine ⟨i, x, ?_, hid, by rw [hanswer]; exact hrest⟩
      obtain e | ⟨y, -, hy, -, hyid, -⟩ := hchange i
      · rw [e, hx]
      · rw [hx] at hy
        cases hy
        exact absurd (hid.symm.trans hyid) hp'

end

/-! ## Runs -/

theorem finishIds_append (a b : List Request) : finishIds (a ++ b) = finishIds a ++ finishIds b := List.filterMap_append

theorem callIds_append (a b : List Request) : callIds (a ++ b) = callIds a ++ callIds b := List.filterMap_append

theorem finishIds_finishes (qs : List Nat) : finishIds (qs.map .finish) = qs := by
  induction qs with
  | nil => rfl
  | cons q qs ih =>
    show q :: finishIds (qs.map .finish) = q :: qs
    rw [ih]

theorem callIds_finishes (qs : List Nat) : callIds (qs.map .finish) = [] := by
  induction qs with
  | nil => rfl
  | cons q qs ih => exact ih

/-- The log after calls were retired and others sent. -/
def StreamLog.after (g : StreamLog) (retired calls : List Nat) : StreamLog :=
  { g.retire retired with calls := g.calls ++ calls }

theorem after_retire (g : StreamLog) (qs : List Nat) : g.after qs [] = g.retire qs := by
  show ({ g.retire qs with calls := g.calls ++ [] } : StreamLog) = _
  rw [List.append_nil]
  rfl

section

variable {c : ClientConn} {s : Stream} {g : StreamLog} {t : Transport}

/-- **`capn_rpc_stream_send`** logs the call it retires and the one it sends, and sends
none once there is a failure. -/
theorem streamSend_logged (h : Logged c s g) (hone : 1 ≤ s.window)
    (hs : ∀ q, t.frameSize (.finish q) ≤ CAPN_RPC_MAX_ANSWER_BYTES) (importedCap interfaceId methodId : Nat)
    (params : Content)
    (hn : ¬ (s.failed = true ∨ (streamRoom t s { conn := c }).1.failed = true) →
      (streamRoom t s { conn := c }).2.conn.questions.free.isSome = true → c.nextQuestionId + 1 < NO_QUESTION) :
    let o := capnRpcStreamSend t s { conn := c } importedCap interfaceId methodId params
    Logged o.2.conn o.1 (g.after (finishIds o.2.sent) (if o.2.rc = 0 then callIds o.2.sent else [])) ∧
      (o.1.haveFailure = true → callIds o.2.sent = []) ∧ o.1.window = s.window ∧
      o.2.conn.nextQuestionId = c.nextQuestionId +
        if s.failed = true ∨ (streamRoom t s { conn := c }).1.failed = true then 0
        else if (streamRoom t s { conn := c }).2.conn.questions.free.isSome then 1 else 0 := by
  intro o
  obtain ⟨qs, hlog, hsent, hroom, hwindow, hnext⟩ := streamRoom_logged (t := t) (l := { conn := c }) h hone hs
  have hrefused : ¬ (-1 : Int) = 0 := by decide
  simp only [List.nil_append] at hsent
  by_cases hfail : s.failed = true
  · have ho : o = (s, { conn := c, rc := -1 }) := if_pos hfail
    have hrc : ¬ o.2.rc = 0 := by
      rw [ho]
      exact hrefused
    rw [if_neg hrc, if_pos (.inl hfail), after_retire, ho]
    refine ⟨?_, fun _ => rfl, rfl, rfl⟩
    show Logged c s (g.retire [])
    rw [retire_nil]
    exact h
  by_cases hroomfail : (streamRoom t s { conn := c }).1.failed = true
  · have ho : o = ((streamRoom t s { conn := c }).1, { (streamRoom t s { conn := c }).2 with rc := -1 }) := by
      show capnRpcStreamSend t s { conn := c } importedCap interfaceId methodId params = _
      unfold capnRpcStreamSend
      rw [if_neg hfail]
      exact if_pos hroomfail
    have hrc : ¬ o.2.rc = 0 := by
      rw [ho]
      exact hrefused
    rw [if_neg hrc, if_pos (.inr hroomfail), after_retire, ho]
    simp only [hsent, finishIds_finishes, callIds_finishes]
    exact ⟨hlog, fun _ => trivial, hwindow, hnext⟩
  have hclaim : (streamRoom t s { conn := c }).2.conn.questions.free.isSome = true →
      (streamRoom t s { conn := c }).2.conn.nextQuestionId + 1 < NO_QUESTION := by
    rw [hnext]
    exact hn (not_or.mpr ⟨hfail, hroomfail⟩)
  have hhave : ¬ (streamRoom t s { conn := c }).1.haveFailure = true := by
    rw [← hlog.flag]
    exact hroomfail
  have hask := ask_logged (t := t) hlog (fun qid => .call qid importedCap interfaceId methodId params) hclaim
  have hcalled : o = if (ask t (streamRoom t s { conn := c }).2
        fun qid => .call qid importedCap interfaceId methodId params).1 = NO_QUESTION then
      ((streamRoom t s { conn := c }).1, { (ask t (streamRoom t s { conn := c }).2
        fun qid => .call qid importedCap interfaceId methodId params).2 with rc := -1 })
      else ({ (streamRoom t s { conn := c }).1 with qids := (streamRoom t s { conn := c }).1.qids ++
        [(ask t (streamRoom t s { conn := c }).2 fun qid => .call qid importedCap interfaceId methodId params).1] },
        { (ask t (streamRoom t s { conn := c }).2
          fun qid => .call qid importedCap interfaceId methodId params).2 with rc := 0 }) := by
    show capnRpcStreamSend t s { conn := c } importedCap interfaceId methodId params = _
    unfold capnRpcStreamSend
    rw [if_neg hfail]
    exact if_neg hroomfail
  rw [if_neg (not_or.mpr ⟨hfail, hroomfail⟩)]
  by_cases hq : (ask t (streamRoom t s { conn := c }).2
      fun qid => .call qid importedCap interfaceId methodId params).1 = NO_QUESTION
  · rw [if_pos hq] at hcalled
    have hrc : ¬ o.2.rc = 0 := by
      rw [hcalled]
      exact hrefused
    rw [if_neg hrc, after_retire, hcalled]
    refine ⟨?_, fun hf => absurd hf hhave, hwindow, hask.2.trans (by rw [hnext])⟩
    have hfin : finishIds (ask t (streamRoom t s { conn := c }).2
        fun qid => .call qid importedCap interfaceId methodId params).2.sent = qs := by
      obtain e | e := ask_sent (t := t) (streamRoom t s { conn := c }).2
        fun qid => .call qid importedCap interfaceId methodId params
      · rw [e, hsent, finishIds_finishes]
      · rw [e, hsent, finishIds_append, finishIds_finishes]
        exact List.append_nil qs
    rw [hfin]
    exact hask.1
  · rw [if_neg hq] at hcalled
    obtain ⟨hid, hpush⟩ := ask_pushed (t := t) hlog
      (fun qid => .call qid importedCap interfaceId methodId params) hroom hclaim hq
    have hs' := ask_sent_of (t := t) (streamRoom t s { conn := c }).2
      (fun qid => .call qid importedCap interfaceId methodId params) hq
    have hrc : o.2.rc = 0 := by rw [hcalled]
    rw [if_pos hrc, hcalled]
    refine ⟨?_, fun hf => absurd hf hhave, hwindow, hask.2.trans (by rw [hnext])⟩
    simp only [hs', hsent, finishIds_append, finishIds_finishes, callIds_append, callIds_finishes]
    show Logged _ _ (g.after (qs ++ []) [(streamRoom t s { conn := c }).2.conn.nextQuestionId])
    rw [List.append_nil, ← hid]
    exact hpush

/-- **`capn_rpc_stream_finish`** retires all calls, and fails if one of the stream did. -/
theorem streamFinish_logged (h : Logged c s g)
    (hs : ∀ q, t.frameSize (.finish q) ≤ CAPN_RPC_MAX_ANSWER_BYTES) :
    let o := capnRpcStreamFinish t s { conn := c }
    Logged o.2.conn o.1 (g.after (finishIds o.2.sent) []) ∧ o.1.qids = [] ∧
      (o.2.rc ≠ 0 ↔ o.1.haveFailure = true) ∧ o.1.window = s.window ∧
      o.2.conn.nextQuestionId = c.nextQuestionId := by
  obtain ⟨hlog, hempty, hsent, hwindow, hnext⟩ := retireAll_logged (t := t) (l := { conn := c }) hs h rfl
  simp only [List.nil_append] at hsent
  simp only [capnRpcStreamFinish, hsent, finishIds_finishes]
  refine ⟨?_, hempty, ?_, hwindow, hnext⟩
  · rw [after_retire]
    exact hlog
  · cases (retireAll t s.qids.length (s, { conn := c })).1.haveFailure <;> decide

end

/-- A run with one stream: the state, how many questions were asked, and the log. -/
structure StreamRun where
  state : ClientState Unit
  asked : Nat := 0
  log : StreamLog := {}

/-- A run that starts with `capn_rpc_stream_init`. -/
def StreamRun.init (window : Int) : StreamRun := ⟨⟨{}, fun _ => capnRpcStreamInit window⟩, 0, {}⟩

/-- The act asks a question, and there is a slot for it. -/
def Act.claims (t : Transport) (x : ClientState Unit) (a : Act Unit) : Bool :=
  (a.asks t x).any fun r => r.1.questions.free.isSome

/-- The log after an act that leaves `o`. -/
def StreamLog.act (g : StreamLog) (a : Act Unit) (o : Outbox) : StreamLog :=
  match a with
  | .streamSend .. => g.after (finishIds o.sent) (if o.rc = 0 then callIds o.sent else [])
  | .streamFinish _ => g.after (finishIds o.sent) []
  | .handleReturn r => g.reply r
  | _ => g

def StreamRun.step (r : StreamRun) (e : Transport × Act Unit) : StreamRun where
  state := r.state.step e
  asked := r.asked + if e.2.claims e.1 r.state then 1 else 0
  log := r.log.act e.2 (e.2.run e.1 r.state).2

/-- Fewer than 2³² − 1 questions are asked, Finishes fit the buffer, and the application
leaves the questions of the stream to it. -/
def StreamRun.Ok (r : StreamRun) (e : Transport × Act Unit) : Prop :=
  (∀ q, e.1.frameSize (.finish q) ≤ CAPN_RPC_MAX_ANSWER_BYTES) ∧
    (e.2.claims e.1 r.state = true → r.asked + 1 < NO_QUESTION) ∧ (∀ s window, e.2 ≠ .streamInit s window) ∧
    ∀ q, e.2 = .sendFinish q → q ∉ (r.state.streams ()).qids

/-- What a run keeps. -/
structure StreamRun.Kept (window : Int) (r : StreamRun) : Prop where
  logged : Logged r.state.conn (r.state.streams ()) r.log
  asked : r.state.conn.nextQuestionId = r.asked
  window : (r.state.streams ()).window = window

theorem kept_step {window : Int} (hone : 1 ≤ window) {r : StreamRun} {e : Transport × Act Unit}
    (h : r.Kept window) (hok : r.Ok e) : (r.step e).Kept window := by
  obtain ⟨t, a⟩ := e
  obtain ⟨hs, hclaims, hinit, hfin⟩ := hok
  have hsame : ∀ {c : ClientConn}, c.questions = r.state.conn.questions →
      c.nextQuestionId = r.state.conn.nextQuestionId → Logged c (r.state.streams ()) r.log := by
    intro c hq hn
    exact h.logged.ask (k := 0) (.inl hq) hn
  have hask : ∀ msg, (r.state.conn.questions.free.isSome = true → r.asked + 1 < NO_QUESTION) →
      Logged (ask t { conn := r.state.conn } msg).2.conn (r.state.streams ()) r.log ∧
        (ask t { conn := r.state.conn } msg).2.conn.nextQuestionId =
          r.asked + if r.state.conn.questions.free.isSome then 1 else 0 := by
    intro msg hn
    rw [← h.asked] at hn ⊢
    exact ask_logged (l := { conn := r.state.conn }) h.logged msg hn
  cases a with
  | sendBootstrap => exact ⟨(hask _ hclaims).1, (hask _ hclaims).2, h.window⟩
  | sendCall importedCap interfaceId methodId params =>
    exact ⟨(hask _ hclaims).1, (hask _ hclaims).2, h.window⟩
  | sendProvide importedCap host port nonce =>
    cases host with
    | none => exact h
    | some host => exact ⟨(hask _ hclaims).1, (hask _ hclaims).2, h.window⟩
  | sendAccept nonce embargo => exact ⟨(hask _ hclaims).1, (hask _ hclaims).2, h.window⟩
  | sendFinish q =>
    refine ⟨?_, sendFinish_next.trans h.asked, h.window⟩
    refine h.logged.finish (q := q) (sendFinish_questions _ q) sendFinish_next rfl rfl h.logged.calls (fun p hp => ?_)
      h.logged.failure h.logged.flag h.logged.window
    refine ⟨hp, ?_⟩
    rintro rfl
    exact hfin p rfl hp
  | sendRelease id count =>
    have hconn : (transmit t { conn := r.state.conn } (.release id count)).conn = r.state.conn := transmit_conn _
    exact ⟨hsame (congrArg _ hconn) (congrArg _ hconn), (congrArg _ hconn).trans h.asked, h.window⟩
  | sendDisembargoProvide provideQid =>
    have hconn : (transmit t { conn := r.state.conn } (.disembargo provideQid)).conn = r.state.conn := transmit_conn _
    exact ⟨hsame (congrArg _ hconn) (congrArg _ hconn), (congrArg _ hconn).trans h.asked, h.window⟩
  | introductionDone nonce =>
    have hconn : (capnRpcIntroductionDone t { conn := r.state.conn } nonce).conn.questions = r.state.conn.questions ∧
        (capnRpcIntroductionDone t { conn := r.state.conn } nonce).conn.nextQuestionId =
          r.state.conn.nextQuestionId := by
      unfold capnRpcIntroductionDone
      split
      · exact ⟨rfl, rfl⟩
      · split
        · exact ⟨rfl, rfl⟩
        · simp only [capnRpcSendRelease, transmit_conn, and_self]
    exact ⟨hsame hconn.1 hconn.2, hconn.2.trans h.asked, h.window⟩
  | streamInit s window => exact absurd rfl (hinit s window)
  | streamSend s importedCap interfaceId methodId params =>
    have hclaim : ¬ ((r.state.streams ()).failed = true ∨
          (streamRoom t (r.state.streams ()) { conn := r.state.conn }).1.failed = true) →
        (streamRoom t (r.state.streams ()) { conn := r.state.conn }).2.conn.questions.free.isSome = true →
        r.state.conn.nextQuestionId + 1 < NO_QUESTION := by
      intro hno hfree
      rw [h.asked]
      apply hclaims
      simp only [Act.claims, Act.asks, if_neg hno, Option.any_some]
      exact hfree
    obtain ⟨hlog, -, hwindow, hnext⟩ := streamSend_logged h.logged (by rw [h.window]; exact hone) hs importedCap
      interfaceId methodId params hclaim
    refine ⟨hlog, ?_, hwindow.trans h.window⟩
    refine hnext.trans ?_
    rw [h.asked]
    simp only [StreamRun.step, Act.claims, Act.asks]
    split
    · rfl
    · rfl
  | streamFinish s =>
    obtain ⟨hlog, -, -, hwindow, hnext⟩ := streamFinish_logged h.logged hs
    exact ⟨hlog, hnext.trans h.asked, hwindow.trans h.window⟩
  | handleReturn reply =>
    exact ⟨handleReturn_logged h.logged reply, (handleReturn_changes _ _).2.1.trans h.asked, h.window⟩
  | handleCall introduced => exact ⟨hsame rfl rfl, h.asked, h.window⟩

theorem kept_init {window : Int} (h : 1 ≤ window) (hle : window ≤ CAPN_RPC_STREAM_MAX_WINDOW) :
    (StreamRun.init window).Kept window := by
  have hwindow : capnRpcStreamInit window = { window := window } := by
    unfold capnRpcStreamInit
    simp only [if_neg (Int.not_lt.mpr h), if_neg (Int.not_lt.mpr hle)]
  refine ⟨⟨nofun, nofun, ?_, ?_, nofun, ?_, ?_, ?_, ?_⟩, rfl, ?_⟩
  · show _ = [] ++ (capnRpcStreamInit window).qids
    rw [hwindow]
    rfl
  · exact List.pairwise_singleton _ _
  · intro q hq
    replace hq : q ∈ (capnRpcStreamInit window).qids := hq
    rw [hwindow] at hq
    cases hq
  · show none = if (capnRpcStreamInit window).haveFailure then _ else none
    rw [hwindow]
    rfl
  · show (capnRpcStreamInit window).failed = (capnRpcStreamInit window).haveFailure
    rw [hwindow]
  · show ((capnRpcStreamInit window).qids.length : Int) ≤ (capnRpcStreamInit window).window
    rw [hwindow]
    exact Int.le_trans Int.one_nonneg h
  · show (capnRpcStreamInit window).window = window
    rw [hwindow]

/-- **The window of a stream**: over a run of fewer than 2³² − 1 questions, the calls not
retired are in the window, in order, and fit it; the failure that is recorded is the
first retired call that was not answered with results; no call is sent after one; and
at the end the stream fails exactly if one was recorded, with nothing outstanding. -/
theorem stream_calls {window : Int} (hone : 1 ≤ window) (hmax : window ≤ CAPN_RPC_STREAM_MAX_WINDOW) {r : StreamRun}
    (hrun : Runs StreamRun.step StreamRun.Ok (.init window) r) :
    (r.log.calls = r.log.retired.map (·.1) ++ (r.state.streams ()).qids ∧ r.log.calls.Nodup ∧
      ((r.state.streams ()).qids.length : Int) ≤ window) ∧
    ((r.state.streams ()).haveFailure = true ↔ ∃ x ∈ r.log.retired, x.2 ≠ some true) ∧
    ((r.state.streams ()).haveFailure = true → r.log.failure = some (r.state.streams ()).firstFailure) ∧
    (∀ t importedCap interfaceId methodId params,
      r.Ok (t, .streamSend () importedCap interfaceId methodId params) →
      let o := capnRpcStreamSend t (r.state.streams ()) { conn := r.state.conn } importedCap interfaceId methodId params
      o.1.haveFailure = true → callIds o.2.sent = []) ∧
    ∀ t, r.Ok (t, .streamFinish ()) →
      let o := capnRpcStreamFinish t (r.state.streams ()) { conn := r.state.conn }
      o.1.qids = [] ∧ (o.2.rc ≠ 0 ↔ o.1.haveFailure = true) := by
  have h : r.Kept window :=
    hrun.inv (I := fun r => r.Kept window) (fun _ _ => kept_step hone) (kept_init hone hmax)
  have hfailure := h.logged.failure
  refine ⟨⟨h.logged.calls, ?_, ?_⟩, ?_, fun hf => ?_, fun t importedCap interfaceId methodId params hok => ?_,
    fun t hok => ?_⟩
  · exact (List.pairwise_append.mp h.logged.sorted).1.imp fun hlt => Nat.ne_of_lt hlt
  · rw [← h.window]
    exact h.logged.window
  · constructor
    · intro hf
      rw [hf, if_pos rfl] at hfailure
      obtain ⟨x, hx, -⟩ := Option.map_eq_some_iff.mp hfailure
      have hbad := List.find?_some hx
      exact ⟨x, List.mem_of_find?_eq_some hx, of_decide_eq_true hbad⟩
    · intro ⟨x, hx, hne⟩
      by_contra hf
      rw [if_neg hf] at hfailure
      have hnone := List.find?_eq_none.mp (Option.map_eq_none_iff.mp hfailure) x hx
      exact hnone (decide_eq_true hne)
  · rw [hfailure, if_pos hf]
  · obtain ⟨hs, hclaims, -, -⟩ := hok
    refine (streamSend_logged h.logged (by rw [h.window]; exact hone) hs importedCap interfaceId methodId params
      fun hno hfree => ?_).2.1
    rw [h.asked]
    apply hclaims
    simp only [Act.claims, Act.asks, if_neg hno, Option.any_some]
    exact hfree
  · obtain ⟨-, hempty, hrc, -⟩ := streamFinish_logged h.logged hok.1
    exact ⟨hempty, hrc⟩

/-! ## Two runs -/

/-- A call of a stream, with nothing as its parameters. -/
def emptyCall : Act Unit := .streamSend () 0 0 0 fun _ => .other

/-- A window of one call, which is answered with an exception. -/
theorem stream_calls_failed : ∃ r : StreamRun, Runs StreamRun.step StreamRun.Ok (.init 1) r ∧
    r.log.retired = [(0, some false)] ∧ (r.state.streams ()).firstFailure = 0 ∧
    (r.log.calls = r.log.retired.map (·.1) ++ (r.state.streams ()).qids ∧ r.log.calls.Nodup ∧
      ((r.state.streams ()).qids.length : Int) ≤ 1) ∧
    ((r.state.streams ()).haveFailure = true ↔ ∃ x ∈ r.log.retired, x.2 ≠ some true) ∧
    ((r.state.streams ()).haveFailure = true → r.log.failure = some (r.state.streams ()).firstFailure) ∧
    (∀ t importedCap interfaceId methodId params,
      r.Ok (t, .streamSend () importedCap interfaceId methodId params) →
      let o := capnRpcStreamSend t (r.state.streams ()) { conn := r.state.conn } importedCap interfaceId methodId params
      o.1.haveFailure = true → callIds o.2.sent = []) ∧
    ∀ t, r.Ok (t, .streamFinish ()) →
      let o := capnRpcStreamFinish t (r.state.streams ()) { conn := r.state.conn }
      o.1.qids = [] ∧ (o.2.rc ≠ 0 ↔ o.1.haveFailure = true) := by
  have hsmall : ∀ q, quietTransport.frameSize (.finish q) ≤ CAPN_RPC_MAX_ANSWER_BYTES :=
    fun _ => show (64 : Nat) ≤ 8192 by decide
  have h₁ : Runs StreamRun.step StreamRun.Ok (.init 1) ((StreamRun.init 1).step (quietTransport, emptyCall)) :=
    .tail .refl ⟨hsmall, fun _ => by decide, nofun, nofun⟩
  have h₂ := h₁.tail (e := (quietTransport, .handleReturn ⟨0, false, [], [1]⟩)) ⟨hsmall, nofun, nofun, nofun⟩
  have h₃ := h₂.tail (e := (quietTransport, .streamFinish ())) ⟨hsmall, nofun, nofun, nofun⟩
  exact ⟨_, h₃, by decide +kernel, by decide +kernel, stream_calls (by decide) (by decide) h₃⟩

/-- A Return that is larger than the buffer is dropped. -/
theorem reply_dropped (r : StreamRun) (t : Transport) {reply : Reply}
    (h : CAPN_RPC_MAX_ANSWER_BYTES < reply.frame.length) : r.step (t, .handleReturn reply) = r := by
  have hconn : handleReturn r.state.conn reply = r.state.conn := by
    unfold handleReturn
    cases questionFind r.state.conn reply.answerId with
    | none => rfl
    | some i => exact if_pos h
  have hlog : r.log.reply reply = r.log := by
    unfold StreamLog.reply
    simp only [Nat.not_le.mpr h, and_false, if_false]
  show (⟨⟨handleReturn r.state.conn reply, r.state.streams⟩, r.asked, r.log.reply reply⟩ : StreamRun) = r
  rw [hconn, hlog]

/-- A stream with a window of one call, which was sent. -/
def streamed : StreamRun := (StreamRun.init 1).step (quietTransport, emptyCall)

/-- Results of 8193 bytes for the first call. -/
def largeReply : Reply := ⟨0, true, [], List.replicate 8193 0⟩

/-- The only call was answered with results, and the stream fails. -/
theorem stream_calls_fails : streamed.log.calls = [0] ∧ largeReply.answerId = 0 ∧ largeReply.results = true ∧
    (((streamed.step (quietTransport, .handleReturn largeReply)).step
      (quietTransport, .streamFinish ())).log.retired.map (·.1)) = [0] ∧
    (((streamed.step (quietTransport, .handleReturn largeReply)).step
      (quietTransport, .streamFinish ())).state.streams ()).haveFailure = true := by
  have hlarge : CAPN_RPC_MAX_ANSWER_BYTES < largeReply.frame.length := by
    rw [largeReply, List.length_replicate]
    decide
  rw [reply_dropped streamed quietTransport hlarge]
  exact ⟨by decide +kernel, rfl, rfl, by decide +kernel, by decide +kernel⟩

end Capnproto.Rpc

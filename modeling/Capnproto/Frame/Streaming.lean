import Capnproto.Frame.Image
import Capnproto.Stream.Chunks

/-!
# The streaming writers

`capn_write_fd` and `capn_write_fp` send what `capn_write_mem` writes, to a
receiver that takes some of each offer (`Sink.Accepts`), except that the count
they return is an `int`, that the packed table has to fit the rest of the buffer
the table is in, and that a segment is refused midway when the buffer it is
packed through cuts one of its raw words (`writeStream_spec`).
-/

namespace Capnproto

/-- A receiver that always takes some of what it is offered. -/
def Sink.Accepts {τ : Type} (k : Sink τ) : Prop :=
  ∀ t bytes, bytes ≠ [] → ∃ t' n, k.write t bytes = (t', .took n) ∧ 0 < n ∧ n ≤ bytes.length

theorem Sink.Accepts.stdio {τ : Type} {k : Sink τ} (h : k.Accepts) : k.stdio.Accepts := by
  intro t bytes hb
  obtain ⟨t', n, e, hn, hle⟩ := h t bytes hb
  obtain ⟨m, rfl⟩ : ∃ m, n = m + 1 := ⟨n - 1, by omega⟩
  refine ⟨t', m + 1, ?_, hn, hle⟩
  simp only [Sink.stdio, e]

section

variable {τ : Type} {k : Sink τ}

/-! ## More fuel gives the same result -/

theorem writeAll_mono {n m : Nat} {s : Sent τ} {bytes : List UInt8} {r : Int × Sent τ} (hnm : n ≤ m)
    (h : writeAll k n s bytes = some r) : writeAll k m s bytes = some r := Loop.run_mono h hnm

theorem emitStep_mono {n m : Nat} (hnm : n ≤ m) {s : Emit τ} {q : Step (Emit τ) (Option (Int × Emit τ))}
    (h : emitStep k n s = q) (hq : q ≠ .done none) : emitStep k m s = q := by
  subst h
  rw [emitStep] at hq ⊢
  rw [emitStep]
  split
  · rfl
  rename_i hi
  rw [if_neg hi] at hq
  cases hd : deflate n { s.z with out := [], availOut := ZBUF } with
  | none => rw [hd] at hq; exact absurd rfl hq
  | some p =>
    obtain ⟨ret, z⟩ := p
    rw [hd] at hq
    rw [deflate_mono hd hnm]
    simp only at hq ⊢
    split
    · rfl
    rename_i h1
    rw [if_neg h1] at hq
    split
    · rfl
    rename_i h2
    rw [if_neg h2] at hq
    cases hw : writeAll k n s.sent z.out with
    | none => rw [hw] at hq; exact absurd rfl hq
    | some p => rw [writeAll_mono hnm hw]

/-- `packed_emit_seg` from `s`, which returns with `r`. -/
def Emits (k : Sink τ) (s : Emit τ) (r : Int × Emit τ) : Prop :=
  ∃ fuel, Loop.run (emitStep k fuel) fuel s = some (some r)

theorem emitRun_mono {n m a b : Nat} (hnm : n ≤ m) (hab : a ≤ b) {s : Emit τ} {r : Int × Emit τ}
    (h : Loop.run (emitStep k n) a s = some (some r)) : Loop.run (emitStep k m) b s = some (some r) :=
  Loop.run_some_mono (fun _ _ => emitStep_mono hnm) hab h

theorem packedEmitSeg_mono {n m : Nat} (hnm : n ≤ m) {s : Sent τ} {src : List UInt8} {w : Nat}
    {r : Int × Emit τ} (h : packedEmitSeg k n s src w = some r) : packedEmitSeg k m s src w = some r := by
  rw [packedEmitSeg, Option.join_eq_some_iff] at h ⊢
  exact emitRun_mono hnm hnm h

theorem emitSegs_mono {n m : Nat} (hnm : n ≤ m) {pk : Bool} : ∀ {segs : List Segment} {s : Sent τ} {w : Nat}
    {r : Int × Sent τ × Nat}, emitSegs k n pk s w segs = some r → emitSegs k m pk s w segs = some r
  | [], _, _, _, h => h
  | seg :: segs, s, w, r, h => by
    rw [emitSegs] at h ⊢
    cases pk with
    | true =>
      rw [if_pos rfl] at h ⊢
      cases he : packedEmitSeg k n s seg.bytes w with
      | none => rw [he] at h; cases h
      | some q =>
        rw [he] at h
        rw [packedEmitSeg_mono hnm he]
        simp only at h ⊢
        split
        · rename_i hc
          rwa [if_pos hc] at h
        · rename_i hc
          rw [if_neg hc] at h
          exact emitSegs_mono hnm h
    | false =>
      rw [if_neg (by decide)] at h ⊢
      cases hw : writeAll k n s seg.bytes with
      | none => rw [hw] at h; cases h
      | some q =>
        rw [hw] at h
        rw [writeAll_mono hnm hw]
        simp only at h ⊢
        split
        · rename_i hc
          rwa [if_pos hc] at h
        · rename_i hc
          rw [if_neg hc] at h
          exact emitSegs_mono hnm h

theorem emitHeader_mono {n m : Nat} (hnm : n ≤ m) {c : Capn} {pk : Bool} {r : Option (List UInt8)}
    (h : emitHeader n c pk = some r) : emitHeader m c pk = some r := by
  unfold emitHeader at h ⊢
  cases pk with
  | false => exact h
  | true =>
    rw [if_pos rfl] at h ⊢
    split
    · rename_i hc
      rwa [if_pos hc] at h
    · rename_i hc
      rw [if_neg hc] at h
      cases hd : deflate n { nextIn := headerRender c, availOut := ZBUF - headerSize c.segnum } with
      | none => rw [hd] at h; cases h
      | some q =>
        rw [hd] at h
        rwa [deflate_mono hd hnm]

theorem writeStream_mono {n m : Nat} (hnm : n ≤ m) {flush : τ → Bool} {c : Capn} {t : τ} {pk : Bool}
    {r : Int × Sent τ} (h : writeStream k flush n c t pk = some r) :
    writeStream k flush m c t pk = some r := by
  unfold writeStream at h ⊢
  split
  · rename_i hc
    rwa [if_pos hc] at h
  rename_i hc
  rw [if_neg hc] at h
  generalize capnRoot c = q at h ⊢
  obtain ⟨d, root⟩ := q
  simp only at h ⊢
  split
  · rename_i hc
    rwa [if_pos hc] at h
  rename_i hc
  rw [if_neg hc] at h
  split
  · rename_i hc
    rwa [if_pos hc] at h
  rename_i hc
  rw [if_neg hc] at h
  cases hh : emitHeader n d pk with
  | none => rw [hh] at h; cases h
  | some header =>
    rw [hh] at h
    rw [emitHeader_mono hnm hh]
    cases header with
    | none => exact h
    | some header =>
      simp only at h ⊢
      cases hw : writeAll k n ⟨t, []⟩ header with
      | none => rw [hw] at h; cases h
      | some q =>
        rw [hw] at h
        rw [writeAll_mono hnm hw]
        simp only at h ⊢
        split
        · rename_i hc
          rwa [if_pos hc] at h
        rename_i hc
        rw [if_neg hc] at h
        cases he : emitSegs k n pk q.2 header.length d.segs with
        | none => rw [he] at h; cases h
        | some q' =>
          rw [he] at h
          rwa [emitSegs_mono hnm he]

/-! ## What is sent -/

/-- `_write_fd` to a receiver that accepts sends everything. -/
theorem writeAll_ok (hk : k.Accepts) (s : Sent τ) (bytes : List UInt8) :
    ∃ fuel s', writeAll k fuel s bytes = some (0, s') ∧ s'.bytes = s.bytes ++ bytes := by
  obtain ⟨⟨e, s'⟩, ⟨fuel, hr⟩, he, hs⟩ := Loop.total (writeStep k) (I := fun _ => True)
    (Q := fun s r => r.1 = 0 ∧ r.2.bytes = s.1.bytes ++ s.2) (fun s => s.2.length)
    (by
      rintro ⟨s, rest⟩ s' - e
      cases rest with
      | nil => simp [writeStep] at e
      | cons b rest =>
        obtain ⟨t, n, hw, hn, hle⟩ := hk s.sink (b :: rest) (by simp)
        simp only [writeStep, hw, Step.next.injEq] at e
        subst e
        refine ⟨trivial, ?_, ?_⟩
        · simp only [List.length_drop, List.length_cons]
          omega
        · rintro r ⟨h0, hb⟩
          refine ⟨h0, ?_⟩
          rw [hb, List.append_assoc, List.take_append_drop])
    (by
      rintro ⟨s, rest⟩ r - e
      cases rest with
      | nil =>
        simp only [writeStep, Step.done.injEq] at e
        subst e
        exact ⟨rfl, (List.append_nil _).symm⟩
      | cons b rest =>
        obtain ⟨t, n, hw, -⟩ := hk s.sink (b :: rest) (by simp)
        simp [writeStep, hw] at e)
    (s := (s, bytes)) trivial
  simp only at he
  subst he
  exact ⟨fuel, s', hr, hs⟩

theorem emits_next {n : Nat} {s s' : Emit τ} {r : Int × Emit τ} (h : emitStep k n s = .next s')
    (hr : Emits k s' r) : Emits k s r := by
  obtain ⟨m, hm⟩ := hr
  refine ⟨max n m + 1, ?_⟩
  rw [Loop.run_succ_next (emitStep_mono (by omega) h nofun)]
  exact emitRun_mono (by omega) (by omega) hm

theorem emits_done {n : Nat} {s : Emit τ} {r : Int × Emit τ} (h : emitStep k n s = .done (some r)) :
    Emits k s r := by
  refine ⟨n + 1, ?_⟩
  rw [Loop.run_succ_done (emitStep_mono (by omega) h nofun)]

/-- What `packed_emit_seg` leaves: all that was left to store, unless a raw word
is cut. -/
def EmitsAll (s : Emit τ) (r : Int × Emit τ) : Prop :=
  (¬ (s.z.fresh ZBUF).Cuts ZBUF → r.1 = 0 ∧ r.2.sent.bytes = s.sent.bytes ++ s.z.rest ∧
    r.2.written = s.written + s.z.rest.length) ∧
  ((s.z.fresh ZBUF).Cuts ZBUF → r.1 < 0)

/-- An iteration that stores a buffer and sends it. -/
theorem emitStep_chunk (hk : k.Accepts) {s : Emit τ} (hi : s.z.nextIn ≠ []) {c : Int} {z : Stream} {m : Nat}
    (hd : Deflates (s.z.fresh ZBUF) (c, z)) (hg : Stores (s.z.fresh ZBUF) z m) (hm : 0 < m)
    (hc : c = 0 ∨ c = CAPN_NEED_MORE) :
    ∃ fuel sent, sent.bytes = s.sent.bytes ++ s.z.rest.take m ∧ emitStep k fuel s =
      if c = 0 then .done (some (0, ⟨z, sent, s.written + m⟩)) else .next ⟨z, sent, s.written + m⟩ := by
  obtain ⟨n, hd⟩ := hd
  obtain ⟨n', sent, hw, hs⟩ := writeAll_ok hk s.sent z.out
  have hout : z.out = s.z.rest.take m := hg.delivers.out
  have hav : z.availOut = ZBUF - m := hg.delivers.availOut
  have hle : m ≤ ZBUF := hg.delivers.le_availOut
  have hd' : deflate (max n n') { s.z with out := [], availOut := ZBUF } = some (c, z) :=
    deflate_mono hd (Nat.le_max_left n n')
  refine ⟨max n n', sent, by rw [hs, hout], ?_⟩
  rw [emitStep, if_neg hi, hd']
  simp only
  rw [if_neg (by rcases hc with rfl | rfl <;> simp), if_neg (by omega),
    writeAll_mono (Nat.le_max_right n n') hw]
  simp only
  rw [if_neg (by decide), show ZBUF - z.availOut = m by omega]

/-- **`packed_emit_seg`** returns, and sends all that was left to store unless a
raw word is cut. -/
theorem emits_spec (hk : k.Accepts) {s : Emit τ} (hs : s.z.Resumes) (h8 : s.z.nextIn.length % 8 = 0) :
    ∃ r, Emits k s r ∧ EmitsAll s r := by
  induction hl : s.z.rest.length using Nat.strongRecOn generalizing s with
  | ind l ih =>
    by_cases hi : s.z.nextIn = []
    · have hr : s.z.raw = 0 := by have := hs.aligned.raw_le; rw [hi] at this; simpa using this
      have hrest : s.z.rest = [] := by simp [Stream.rest, hi]
      refine ⟨(0, s), emits_done (n := 0) (by rw [emitStep, if_pos hi]), fun _ => ?_, fun h => ?_⟩
      · rw [hrest, List.append_nil, List.length_nil]
        exact ⟨rfl, rfl, rfl⟩
      · rw [fresh_cuts (by rw [hr]; exact Nat.zero_le _), hi, List.drop_nil, packets_nil, CutsRaw] at h
        exact absurd h id
    obtain ⟨c, z, m, hd, hg, hm, hz, hc⟩ := @deflate_chunk ZBUF (by decide) (by decide) _ hs h8 hi
    have htodo : z.rest = s.z.rest.drop m := hg.delivers.todo
    have hle : m ≤ s.z.rest.length := hg.delivers.le_length
    obtain ⟨fuel, sent, hb, hstep⟩ := emitStep_chunk hk hi hd hg hm
      (hc.imp (fun h => h.1) fun h => h.1)
    rcases hc with ⟨rfl, hn, hcut⟩ | ⟨rfl, hn, hodd, heven⟩
    · -- the input is used up
      have hall : s.z.rest.take m = s.z.rest := by
        refine List.take_of_length_le ?_
        have := congrArg List.length htodo
        rw [List.length_drop] at this
        have hz0 : z.rest = [] := by simp [Stream.rest, hn]
        rw [hz0, List.length_nil] at this
        omega
      have hm' : m = s.z.rest.length := by
        have := congrArg List.length hall
        rw [List.length_take] at this
        omega
      rw [if_pos rfl] at hstep
      refine ⟨_, emits_done hstep, fun _ => ⟨rfl, ?_, ?_⟩, fun h => absurd h hcut⟩
      · rw [hb, hall]
      · rw [hm']
    rw [if_neg (by decide)] at hstep
    by_cases hmod : z.nextIn.length % 8 = 0
    · -- on to the next buffer
      have hlt : z.rest.length < l := by rw [htodo, List.length_drop]; omega
      obtain ⟨r, hr, hok, hbad⟩ := @ih _ hlt ⟨z, sent, s.written + m⟩ hz hmod rfl
      have hcuts := heven hmod
      refine ⟨r, emits_next hstep hr, fun h => ?_, fun h => hbad (hcuts.mpr h)⟩
      obtain ⟨h0, hbytes, hwr⟩ := hok (fun hc => h (hcuts.mp hc))
      refine ⟨h0, ?_, ?_⟩
      · rw [hbytes, hb, htodo, List.append_assoc, List.take_append_drop]
      · have hlen := congrArg List.length htodo
        rw [List.length_drop] at hlen
        rw [hwr]
        show s.written + m + z.rest.length = _
        omega
    · -- the next call refuses what is left
      have hbad : emitStep k 0 ⟨z, sent, s.written + m⟩ =
          .done (some (-1, ⟨{ z with out := [], availOut := ZBUF }, sent, s.written + m⟩)) := by
        have hd : deflate 0 { z with out := [], availOut := ZBUF } =
            some (CAPN_MISALIGNED, { z with out := [], availOut := ZBUF }) := by
          rw [deflate, if_pos hmod]
        rw [emitStep, if_neg hn, hd]
        rfl
      refine ⟨_, emits_next hstep (emits_done hbad), fun h => absurd (hodd hmod) h, fun _ => ?_⟩
      show (-1 : Int) < 0
      decide

/-! ## The segments -/

/-- The buffers that the packed form of `s` is sent through cut one of its raw
words. -/
def Segment.CutRaw (s : Segment) : Prop := CutsRaw ZBUF ZBUF (packets s.bytes)

/-- A segment that `capn_write_mem` packs. -/
theorem emitSeg_spec (hk : k.Accepts) {s : Segment} {room : Nat} (h8 : s.bytes.length % 8 = 0)
    (hroom : (packed s.bytes).length ≤ room)
    (hj : ¬ ({ nextIn := s.bytes, availOut := room } : Stream).Stalls) (sent : Sent τ) (w : Nat) :
    ∃ fuel r, packedEmitSeg k fuel sent s.bytes w = some r ∧
      (¬ s.CutRaw → r.1 = 0 ∧ r.2.sent.bytes = sent.bytes ++ packed s.bytes ∧
        r.2.written = w + (packed s.bytes).length) ∧ (s.CutRaw → r.1 < 0) := by
  have hres := resumes_of_not_stalls h8 hroom hj 0
  obtain ⟨r, ⟨fuel, hr⟩, hok, hbad⟩ :=
    @emits_spec _ _ hk ⟨{ nextIn := s.bytes, availOut := 0 }, sent, w⟩ hres h8
  have hrest : ({ nextIn := s.bytes, availOut := 0 } : Stream).rest = packed s.bytes := by
    simp [Stream.rest]
  have hcut : (({ nextIn := s.bytes, availOut := 0 } : Stream).fresh ZBUF).Cuts ZBUF ↔ s.CutRaw :=
    fresh_cuts (Nat.zero_le _)
  simp only [hrest, hcut] at hok hbad
  exact ⟨fuel, r, by rw [packedEmitSeg, hr]; rfl, hok, hbad⟩

/-- The segments, packed one by one. -/
theorem emitSegs_packed (hk : k.Accepts) {segs : List Segment} {room : Nat}
    (hp : Packs room (segs.map Segment.bytes)) (sent : Sent τ) (w : Nat) :
    ∃ fuel r, emitSegs k fuel true sent w segs = some r ∧
      ((∀ s ∈ segs, ¬ s.CutRaw) → r.1 = 0 ∧
        r.2.1.bytes = sent.bytes ++ packedAll (segs.map Segment.bytes) ∧
        r.2.2 = w + (packedAll (segs.map Segment.bytes)).length) ∧
      ((∃ s ∈ segs, s.CutRaw) → r.1 < 0) := by
  induction segs generalizing sent w room with
  | nil =>
    refine ⟨0, _, rfl, fun _ => ⟨rfl, ?_, rfl⟩, ?_⟩
    · exact (List.append_nil _).symm
    · rintro ⟨s, hs, -⟩
      cases hs
  | cons s segs ih =>
    rw [List.map_cons, packs_cons] at hp
    obtain ⟨⟨h8, hroom, hj⟩, hrest⟩ := hp
    obtain ⟨n, r, hr, hok, hbad⟩ := emitSeg_spec hk h8 hroom hj sent w
    obtain ⟨m, q, hq, hqok, hqbad⟩ := ih hrest r.2.sent r.2.written
    by_cases hcut : s.CutRaw
    · refine ⟨n, (-1, r.2.sent, r.2.written), ?_, fun h => ?_, fun _ => (by decide : (-1 : Int) < 0)⟩
      · rw [emitSegs, if_pos rfl, hr]
        simp only
        rw [if_pos (hbad hcut)]
      · exact absurd hcut (h s List.mem_cons_self)
    · obtain ⟨h0, hb, hw⟩ := hok hcut
      refine ⟨max n m, q, ?_, fun h => ?_, ?_⟩
      · rw [emitSegs, if_pos rfl, packedEmitSeg_mono (Nat.le_max_left n m) hr]
        simp only
        rw [if_neg (by omega), emitSegs_mono (Nat.le_max_right n m) hq]
      · obtain ⟨q0, qb, qw⟩ := hqok fun t ht => h t (List.mem_cons_of_mem _ ht)
        have hall : packedAll ((s :: segs).map Segment.bytes) =
            packed s.bytes ++ packedAll (segs.map Segment.bytes) := rfl
        rw [hall]
        refine ⟨q0, by rw [qb, hb, List.append_assoc], ?_⟩
        rw [qw, hw, List.length_append, Nat.add_assoc]
      · rintro ⟨t, ht, hc⟩
        rcases List.mem_cons.mp ht with rfl | ht
        · exact absurd hc hcut
        · exact hqbad ⟨t, ht, hc⟩

/-- The segments as they are. -/
theorem emitSegs_plain (hk : k.Accepts) (segs : List Segment) (sent : Sent τ) (w : Nat) :
    ∃ fuel r, emitSegs k fuel false sent w segs = some r ∧ r.1 = 0 ∧
      r.2.1.bytes = sent.bytes ++ segs.flatMap Segment.bytes ∧
      r.2.2 = w + (segs.flatMap Segment.bytes).length := by
  induction segs generalizing sent w with
  | nil => exact ⟨0, _, rfl, rfl, (List.append_nil _).symm, rfl⟩
  | cons s segs ih =>
    obtain ⟨n, sent', hr, hb⟩ := writeAll_ok hk sent s.bytes
    obtain ⟨m, q, hq, q0, qb, qw⟩ := ih sent' (w + s.len)
    refine ⟨max n m, q, ?_, q0, ?_, ?_⟩
    · rw [emitSegs, if_neg (by decide), writeAll_mono (Nat.le_max_left n m) hr]
      simp only
      rw [if_neg (by decide), emitSegs_mono (Nat.le_max_right n m) hq]
    · rw [qb, hb, List.flatMap_cons, List.append_assoc]
    · rw [qw, List.flatMap_cons, List.length_append, length_bytes, Nat.add_assoc]

/-! ## The whole message -/

/-- The table and its packed form fit the buffer of the header. -/
def TableRoom (c : Capn) : Prop :=
  2 * headerSize c.segnum + 2 ≤ ZBUF ∧ (packed (headerRender c)).length ≤ ZBUF - headerSize c.segnum

/-- The buffers that a session is packed through are enough for its table, and
cut none of its raw words. -/
def Sendable (c : Capn) (pk : Bool) : Prop := pk = true → TableRoom c ∧ ∀ s ∈ c.segs, ¬ s.CutRaw

theorem emitHeader_packed {c : Capn} (ht : headerSize c.segnum ≤ ZBUF) :
    (TableRoom c → ∃ fuel, emitHeader fuel c true = some (some (packed (headerRender c)))) ∧
      (¬ TableRoom c → ∃ fuel, emitHeader fuel c true = some none) := by
  have h8 : (headerRender c).length % 8 = 0 := by
    rw [length_headerRender]
    simp only [headerSize, headerLen]
    omega
  have hlen : (headerRender c).length < 2 ^ 32 := by
    rw [length_headerRender]
    exact Nat.lt_of_le_of_lt ht (by decide)
  have hz : ZBUF - headerSize c.segnum < 2 ^ 32 := Nat.lt_of_le_of_lt (Nat.sub_le _ _) (by decide)
  let z : Stream := { nextIn := headerRender c, availOut := ZBUF - headerSize c.segnum }
  have hj : ¬ z.Stalls := fun h => @not_packStalls [headerRender c] (by simpa using hlen) _ hz (.inl h)
  constructor
  · rintro ⟨h2, hroom⟩
    obtain ⟨fuel, hd⟩ := deflate_ok (s := z) rfl h8 hroom hj
    refine ⟨fuel, ?_⟩
    rw [emitHeader, if_pos rfl, if_neg (by omega), hd]
    rfl
  · intro hn
    by_cases h2 : ZBUF - headerSize c.segnum < headerSize c.segnum + 2
    · exact ⟨0, by rw [emitHeader, if_pos rfl, if_pos h2]⟩
    obtain ⟨r, z', m, he, -⟩ := deflateLoop_ok (z.aligned rfl h8) hj
    obtain ⟨fuel, hd⟩ := (deflates_iff (s := z) h8).mpr he
    refine ⟨fuel, ?_⟩
    have hr : r ≠ 0 := by
      rintro rfl
      exact hn ⟨by omega, ((deflates_zero (s := z) rfl).mp ⟨fuel, hd⟩).2.1⟩
    rw [emitHeader, if_pos rfl, if_neg h2, hd]
    simp only
    rw [if_pos hr]

/-- What is sent of the table. -/
def tableImage (c : Capn) (pk : Bool) : List UInt8 := if pk then packed (headerRender c) else headerRender c

/-- The segments of a session, after its table. -/
theorem emitSegs_sendable (hk : k.Accepts) {c : Capn} {pk : Bool} (hs : Sendable c pk)
    (hp : pk = true → ∃ room, Packs room (piecesOf c)) {sent : Sent τ} (hsent : sent.bytes = tableImage c pk) :
    ∃ fuel sent', emitSegs k fuel pk sent (tableImage c pk).length c.segs =
      some (0, sent', (image c pk).length) ∧ sent'.bytes = image c pk := by
  cases pk with
  | true =>
    obtain ⟨room, hp⟩ := hp rfl
    obtain ⟨fuel, ⟨e, sent', w⟩, hr, hok, -⟩ :=
      emitSegs_packed hk (packs_cons.mp hp).2 sent (tableImage c true).length
    obtain ⟨h0, hb, hw⟩ := hok (hs rfl).2
    have himage : image c true = tableImage c true ++ packedAll (c.segs.map Segment.bytes) := rfl
    simp only at h0 hb hw
    subst h0 hw
    exact ⟨fuel, sent', by rw [hr, himage, List.length_append], by rw [hb, hsent, himage]⟩
  | false =>
    obtain ⟨fuel, ⟨e, sent', w⟩, hr, h0, hb, hw⟩ :=
      emitSegs_plain hk c.segs sent (tableImage c false).length
    have himage : image c false = tableImage c false ++ c.segs.flatMap Segment.bytes := by
      show (piecesOf c).flatten = _
      rw [piecesOf, List.flatten_cons, flatten_bytes]
      rfl
    simp only at h0 hb hw
    subst h0 hw
    exact ⟨fuel, sent', by rw [hr, himage, List.length_append], by rw [hb, hsent, himage]⟩

/-- `capn_write_fd`, and `capn_write_fp` with a receiver that can be flushed:
they return. A session that the buffers are good for is sent as
`capn_write_mem` writes it, and its size is returned as an `int`; any other is
refused. -/
theorem writeStream_spec (hk : k.Accepts) {flush : τ → Bool} (hflush : ∀ t, flush t = true) {c : Capn}
    {pk : Bool} (t : τ) (h0 : c.segnum ≠ 0 ∧ (capnRoot c).2.seg ≠ none)
    (ht : headerSize (capnRoot c).1.segnum ≤ ZBUF)
    (hp : pk = true → ∃ room, Packs room (piecesOf (capnRoot c).1)) :
    ∃ fuel r, writeStream k flush fuel c t pk = some r ∧
      (Sendable (capnRoot c).1 pk → r.1 = toInt32 (image (capnRoot c).1 pk).length ∧
        r.2.bytes = image (capnRoot c).1 pk) ∧
      (¬ Sendable (capnRoot c).1 pk → r.1 < 0) := by
  obtain ⟨h0, hseg⟩ := h0
  have hopen : ∀ fuel, writeStream k flush fuel c t pk = _ := fun fuel => by
    unfold writeStream
    rw [if_neg h0]
  generalize capnRoot c = q at *
  obtain ⟨d, root⟩ := q
  simp only at *
  have hnt : ¬ ZBUF < headerSize d.segnum := Nat.not_lt.mpr ht
  simp only [if_neg hnt, if_neg hseg] at hopen
  by_cases hroom : pk = true ∧ ¬ TableRoom d
  · obtain ⟨rfl, hroom⟩ := hroom
    obtain ⟨fuel, hh⟩ := (emitHeader_packed ht).2 hroom
    refine ⟨fuel, (-1, ⟨t, []⟩), by rw [hopen, hh], fun h => absurd (h rfl).1 hroom, fun _ => ?_⟩
    exact (by decide : (-1 : Int) < 0)
  have hheader : ∃ fuel, emitHeader fuel d pk = some (some (tableImage d pk)) := by
    cases pk with
    | true => exact (emitHeader_packed ht).1 (by simpa using hroom)
    | false => exact ⟨0, by rw [emitHeader, if_neg (by decide)]; rfl⟩
  obtain ⟨n₁, hh⟩ := hheader
  obtain ⟨n₂, sent, hw, hb⟩ := writeAll_ok hk ⟨t, []⟩ (tableImage d pk)
  rw [List.nil_append] at hb
  by_cases hs : Sendable d pk
  · obtain ⟨n₃, sent', he, hb'⟩ := emitSegs_sendable hk hs hp hb
    refine ⟨max n₁ (max n₂ n₃), (toInt32 (image d pk).length, sent'), ?_, fun _ => ⟨rfl, hb'⟩,
      fun h => absurd hs h⟩
    rw [hopen, emitHeader_mono (by omega) hh]
    simp only
    rw [writeAll_mono (by omega) hw]
    simp only
    rw [if_neg (by decide), emitSegs_mono (by omega) he]
    simp only
    rw [if_neg (by decide), if_neg (by simpa using hflush sent'.sink)]
  · -- some raw word is cut
    have hpk : pk = true := by
      by_contra hf
      exact hs fun h => absurd h hf
    subst hpk
    have hcut : ∃ s ∈ d.segs, s.CutRaw := by
      by_contra hn
      refine hs fun _ => ⟨by simpa using hroom, fun s hm hc => hn ⟨s, hm, hc⟩⟩
    obtain ⟨room, hp⟩ := hp rfl
    obtain ⟨n₃, ⟨e, sent', w⟩, he, -, hbad⟩ :=
      emitSegs_packed hk (packs_cons.mp hp).2 sent (tableImage d true).length
    have hneg : e < 0 := hbad hcut
    refine ⟨max n₁ (max n₂ n₃), (-1, sent'), ?_, fun h => absurd h hs, fun _ => (by decide : (-1 : Int) < 0)⟩
    rw [hopen, emitHeader_mono (by omega) hh]
    simp only
    rw [writeAll_mono (by omega) hw]
    simp only
    rw [if_neg (by decide), emitSegs_mono (by omega) he]
    simp only
    rw [if_pos hneg]

end

end Capnproto

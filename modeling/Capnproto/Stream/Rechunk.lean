import Capnproto.Stream.Inflate

/-!
# Unpacking in pieces

A caller of `capn_inflate` that gives the packed bytes chunk by chunk, puts a new
chunk behind what is left of the one before, and takes the output in buffers of any
size, gets what one call on all the bytes gives and leaves the same bytes unread
(`rechunk_iff`), unless one of the calls comes to a run that it goes on with for ever.
What carries it is that nothing is lost between two calls: the bytes given and the
bytes that the rest of the input can still give are always those of the whole input
(`Unpacker.Holds`).
-/

namespace Capnproto

open Packing

/-- Nothing is given and nothing is read, with room left. -/
def Stream.Idle (s s' : Stream) : Prop :=
  s'.out.length = s.out.length ∧ s'.nextIn.length = s.nextIn.length ∧ 0 < s'.availOut

instance (s s' : Stream) : Decidable (s.Idle s') := inferInstanceAs (Decidable (_ ∧ _))

/-- A caller of `capn_inflate` between two calls. -/
structure Unpacker where
  stream : Stream
  chunks : List (List UInt8)
  calls : Nat := 0
  stuck : Bool := false

namespace Unpacker

/-- A caller of `capn_inflate` before the first call, with all the fields of its stream zero. -/
def start (chunks : List (List UInt8)) : Unpacker := { stream := { nextIn := [], availOut := 0 }, chunks }

section

-- the sizes of the output buffers, and how many chunks come before each call
variable (size feeds : Nat → Nat)

/-- How many chunks come before the next call: at least one after a call that did nothing. -/
def fed (u : Unpacker) : Nat := if u.stuck then max 1 (feeds u.calls) else feeds u.calls

/-- The chunks that come after the next call. -/
def rest (u : Unpacker) : List (List UInt8) := u.chunks.drop (u.fed feeds)

/-- The stream of the next call: the chunks behind what is left of the input, and a buffer. -/
def call (u : Unpacker) : Stream :=
  { u.stream with
    nextIn := u.stream.nextIn ++ (u.chunks.take (u.fed feeds)).flatten, availOut := size u.calls }

/-- The caller after a call that left the stream `s`. -/
def after (u : Unpacker) (s : Stream) : Unpacker :=
  { stream := s, chunks := u.rest feeds, calls := u.calls + 1, stuck := decide ((u.call size feeds).Idle s) }

/-- A call that did nothing is the last one, once there are no more chunks. -/
def Last (u : Unpacker) (s : Stream) : Prop := (u.call size feeds).Idle s ∧ u.rest feeds = []

/-- The next call returns, and it is not the last one. -/
inductive Calls (u : Unpacker) : Unpacker → Prop
  | call {c : Int} {s : Stream} (h : Inflates (u.call size feeds) (c, s)) (hl : ¬ u.Last size feeds s) :
    Calls u (u.after size feeds s)

/-- What the caller gets to. -/
abbrev Reaches : Unpacker → Unpacker → Prop := Relation.ReflTransGen (Calls size feeds)

/-- The caller's last call leaves the stream `t`. -/
def Finishes (u : Unpacker) (t : Stream) : Prop :=
  ∃ u' c, Reaches size feeds u u' ∧ Inflates (u'.call size feeds) (c, t) ∧ u'.Last size feeds t

end

end Unpacker

/-- Unpacking `bs` in the chunks `chunks`, into buffers of the sizes `size`, gives what one call with
`room` bytes of room gives, and leaves the same input. -/
def Rechunks (size feeds : Nat → Nat) (chunks : List (List UInt8)) (bs : List UInt8) (room : Nat) : Prop :=
  ∃ c s t, Inflates { nextIn := bs, availOut := room } (c, s) ∧
    (Unpacker.start chunks).Finishes size feeds t ∧ t.out = s.out ∧ t.nextIn = s.nextIn

/-! ## One call -/

/-- A stream that can give nothing more has read all it can. -/
theorem Stream.left_of_avail {s : Stream} (h : s.avail = []) : s.left = s.nextIn := by
  simp only [Stream.avail, List.append_eq_nil_iff] at h
  obtain ⟨⟨-, ht⟩, hu⟩ := h
  rw [Stream.left, leftover_of_unpack hu]
  rcases List.take_eq_nil_iff.mp ht with h0 | hn
  · rw [h0, List.drop_zero]
  · rw [hn, List.drop_nil]

/-- What is given and what can still be given are the same all along. -/
theorem Delivers.total {todo : Stream → List UInt8} {place : Stream → Nat → Nat → Prop} {s s' : Stream} {m : Nat}
    (h : Delivers todo place s s' m) : s'.out ++ todo s' = s.out ++ todo s := by
  rw [h.out, h.todo, List.append_assoc, List.take_append_drop]

/-- One call with room for all gives all, and reads all it can. -/
theorem inflate_whole {bs : List UInt8} {room : Nat} (hroom : (unpack bs).length ≤ room)
    (hn : ¬ ({ nextIn := bs, availOut := room } : Stream).Spins) :
    ∃ c s, Inflates { nextIn := bs, availOut := room } (c, s) ∧ s.out = unpack bs ∧ s.nextIn = leftover bs := by
  obtain ⟨c, s, m, he, hg, hc⟩ := inflate_any ⟨Nat.two_pow_pos 32, Nat.two_pow_pos 32⟩ hn
  have hgives := hg.gives.gives
  have hav : ({ nextIn := bs, availOut := room } : Stream).avail = unpack bs := by
    simp [Stream.avail, Stream.pre]
  have hnil : s.avail = [] := by
    rcases hc with ⟨-, h0⟩ | ⟨-, -, hst⟩
    · have hle := hgives.le_length
      have hout := hgives.availOut
      have hmo := hgives.le_availOut
      rw [hav] at hle
      rw [hgives.todo, hav]
      apply List.drop_of_length_le
      simp only at hout hmo
      omega
    · exact hst.avail
  refine ⟨c, s, he, ?_, ?_⟩
  · have ht := hgives.total
    rw [hnil, hav] at ht
    simpa using ht
  · have hl := hg.left []
    rw [Stream.feed_nil, Stream.feed_nil, Stream.left_of_avail hnil] at hl
    simpa [Stream.left] using hl

/-! ## The calls of a caller -/

namespace Unpacker

/-- The stream with all the chunks to come behind its input. -/
def whole (u : Unpacker) : Stream := u.stream.feed u.chunks.flatten

/-- Nothing of `bs` is lost. -/
structure Holds (bs : List UInt8) (u : Unpacker) : Prop where
  unsigned : u.stream.Unsigned
  total : u.stream.out ++ u.whole.avail = unpack bs
  left : u.whole.left = leftover bs
  shrinks : u.whole.nextIn.length ≤ bs.length

theorem Holds.start {bs : List UInt8} {chunks : List (List UInt8)} (h : chunks.flatten = bs) :
    (Unpacker.start chunks).Holds bs := by
  have hw : (Unpacker.start chunks).whole = { nextIn := bs, availOut := 0 } := by
    rw [whole, ← h]
    rfl
  refine ⟨⟨Nat.two_pow_pos 32, Nat.two_pow_pos 32⟩, ?_, ?_, ?_⟩
  · rw [hw]
    simp [Unpacker.start, Stream.avail, Stream.pre]
  · rw [hw]
    simp [Stream.left]
  · simp only [hw, Nat.le_refl]

variable {size feeds : Nat → Nat} {bs : List UInt8} {u u' : Unpacker} {s : Stream}

/-- The stream of the next call, with the chunks after it behind its input. -/
theorem call_feed : (u.call size feeds).feed (u.rest feeds).flatten = { u.whole with availOut := size u.calls } := by
  simp only [call, rest, Stream.feed, whole, List.append_assoc]
  rw [← List.flatten_append, List.take_append_drop]

theorem Holds.call (h : u.Holds bs) : (u.call size feeds).Unsigned := ⟨h.unsigned.zeros, h.unsigned.raw⟩

theorem Holds.call_avail (h : u.Holds bs) :
    (u.call size feeds).out ++ ((u.call size feeds).feed (u.rest feeds).flatten).avail = unpack bs := by
  rw [call_feed]
  exact h.total

/-- The input of the next call, and that of the chunks after it. -/
theorem call_length :
    (u.call size feeds).nextIn.length + (u.rest feeds).flatten.length = u.whole.nextIn.length := by
  rw [← List.length_append]
  exact congrArg (fun t => t.nextIn.length) call_feed

theorem after_length : (u.after size feeds s).whole.nextIn.length = s.nextIn.length + (u.rest feeds).flatten.length :=
  List.length_append

theorem Holds.after (h : u.Holds bs) {m : Nat} (hg : Advances (u.call size feeds) s m) :
    (u.after size feeds s).Holds bs := by
  refine ⟨hg.unsigned h.call, ?_, ?_, ?_⟩
  · have ht := (hg.gives.feed (u.rest feeds).flatten).total
    exact ht.trans h.call_avail
  · have hl := hg.left (u.rest feeds).flatten
    rw [call_feed] at hl
    exact hl.trans h.left
  · have hlen := @call_length size feeds u
    have hall := h.shrinks
    have hshrinks := hg.gives.shrinks
    rw [after_length]
    omega

/-- What decreases with each call: what can still be given and read, the chunks to come, and
whether the last call did something. -/
def measure (u : Unpacker) : Nat :=
  2 * (u.whole.avail.length + u.whole.nextIn.length + u.chunks.length) + if u.stuck then 0 else 1

theorem measure_after (hsize : 0 < size u.calls) {m : Nat} (hg : Advances (u.call size feeds) s m)
    (hl : ¬ u.Last size feeds s) : (u.after size feeds s).measure < u.measure := by
  have hall := hg.gives.feed (u.rest feeds).flatten
  have hshrinks := hg.gives.shrinks
  have hgives := hg.gives.gives
  have hav : ((u.call size feeds).feed (u.rest feeds).flatten).avail = u.whole.avail := by
    rw [call_feed]
    rfl
  have hin := @call_length size feeds u
  -- what is left to give and to read after the call
  have havail : (u.after size feeds s).whole.avail.length = u.whole.avail.length - m := by
    rw [← hav, ← List.length_drop, ← hall.todo]
    rfl
  have hchunks : (u.after size feeds s).chunks.length = u.chunks.length - u.fed feeds := List.length_drop
  have hle : m ≤ u.whole.avail.length := by
    rw [← hav]
    exact hall.le_length
  simp only [measure, havail, after_length, hchunks]
  by_cases hi : (u.call size feeds).Idle s
  · have hstuck : (u.after size feeds s).stuck = true := decide_eq_true hi
    have hrest : u.fed feeds < u.chunks.length := by
      by_contra h
      exact hl ⟨hi, List.drop_of_length_le (Nat.le_of_not_lt h)⟩
    rw [if_pos hstuck]
    by_cases hs : u.stuck = true
    · have hfed : 1 ≤ u.fed feeds := by
        rw [fed, if_pos hs]
        exact Nat.le_max_left _ _
      omega
    · rw [if_neg hs]
      omega
  · have hstuck : (u.after size feeds s).stuck = false := decide_eq_false hi
    have hmoved : 0 < m ∨ s.nextIn.length < (u.call size feeds).nextIn.length := by
      by_contra h
      have hm : m = 0 := by omega
      have hout := hgives.out
      have hroom := hgives.availOut
      rw [hm, List.take_zero, List.append_nil] at hout
      rw [hm, Nat.sub_zero] at hroom
      refine hi ⟨by rw [hout], by omega, ?_⟩
      rw [hroom]
      exact hsize
    rw [if_neg (by rw [hstuck]; decide)]
    omega

/-- From where no call spins, the caller finishes, with all there is to give. -/
theorem Holds.finishes (hsize : ∀ k, 0 < size k) (h : u.Holds bs)
    (hn : ∀ u', Reaches size feeds u u' → ¬ (u'.call size feeds).Spins) :
    ∃ t, u.Finishes size feeds t ∧ t.out = unpack bs ∧ t.nextIn = leftover bs := by
  induction hm : u.measure using Nat.strongRecOn generalizing u with
  | ind n ih =>
    obtain ⟨c, s, m, he, hg, hc⟩ := inflate_any h.call (hn u .refl)
    have ha := h.after hg
    by_cases hl : u.Last size feeds s
    · have hst : s.Starved := by
        rcases hc with ⟨-, h0⟩ | ⟨-, -, hst⟩
        · have hpos := hl.1.2.2
          omega
        · exact hst
      have hw : (u.after size feeds s).whole = s := by
        rw [whole, Unpacker.after, hl.2]
        exact Stream.feed_nil s
      have ht := ha.total
      have hleft := ha.left
      rw [hw, hst.avail, List.append_nil] at ht
      rw [hw, Stream.left_of_avail hst.avail] at hleft
      exact ⟨s, ⟨u, c, .refl, he, hl⟩, ht, hleft⟩
    · have hcall : Calls size feeds u (u.after size feeds s) := .call he hl
      obtain ⟨t, ⟨u', c', hr, hi, hlast⟩, hout, hnext⟩ := ih _ (hm ▸ measure_after (hsize _) hg hl) ha
        (fun u' hr => hn u' (.head hcall hr)) rfl
      exact ⟨t, ⟨u', c', .head hcall hr, hi, hlast⟩, hout, hnext⟩

theorem Calls.unique {a b : Unpacker} (h : Calls size feeds u a) (h' : Calls size feeds u b) : a = b := by
  cases h with
  | call h _ =>
    cases h' with
    | call h' _ =>
      cases h.unique h'
      rfl

/-- A call that returns loses nothing. -/
theorem Holds.calls (h : u.Holds bs) (hc : Calls size feeds u u') : u'.Holds bs := by
  cases hc with
  | call he _ =>
    have hn : ¬ (u.call size feeds).Spins := fun hs => inflate_spins h.call hs _ he
    obtain ⟨c, s, m, he', hg, -⟩ := inflate_any h.call hn
    cases he.unique he'
    exact h.after hg

theorem Holds.reaches (h : u.Holds bs) (hr : Reaches size feeds u u') : u'.Holds bs := by
  induction hr with
  | refl => exact h
  | tail _ hc ih => exact ih.calls hc

/-- All the calls of a caller that finishes return. -/
theorem Finishes.returns {t : Stream} (h : u.Finishes size feeds t) (hr : Reaches size feeds u u') :
    ∃ r, Inflates (u'.call size feeds) r := by
  obtain ⟨v, c, hv, he, hl⟩ := h
  -- the caller goes one way only, and stops at `v`
  rcases Relation.ReflTransGen.total_of_right_unique (fun _ _ _ h h' => h.unique h') hr hv with hu | hv'
  · rcases Relation.ReflTransGen.cases_head hu with rfl | ⟨w, hc, -⟩
    · exact ⟨_, he⟩
    · cases hc with
      | call h _ => exact ⟨_, h⟩
  · rcases Relation.ReflTransGen.cases_head hv' with rfl | ⟨w, hc, -⟩
    · exact ⟨_, he⟩
    · cases hc with
      | call h hn =>
        cases he.unique h
        exact absurd hl hn

end Unpacker

/-- **Unpacking does not depend on the chunks**, nor on the buffers, exactly when no call comes to a
run that it goes on with for ever: one of zeros or of raw bytes with a multiple of 2³² bytes of room
left in its buffer, or of raw bytes with a multiple of 2³² bytes of input left. -/
theorem rechunk_iff {size feeds : Nat → Nat} (hsize : ∀ k, 0 < size k) {chunks : List (List UInt8)}
    {bs : List UInt8} (hbs : chunks.flatten = bs) {room : Nat} (hroom : (unpack bs).length ≤ room) :
    Rechunks size feeds chunks bs room ↔
      ¬ ({ nextIn := bs, availOut := room } : Stream).Spins ∧
        ∀ u, Unpacker.Reaches size feeds (.start chunks) u → ¬ (u.call size feeds).Spins := by
  have hstart := Unpacker.Holds.start hbs
  constructor
  · rintro ⟨c, s, t, he, hf, -⟩
    refine ⟨fun hs => inflate_spins ⟨Nat.two_pow_pos 32, Nat.two_pow_pos 32⟩ hs _ he, fun u hr hs => ?_⟩
    obtain ⟨r, hi⟩ := hf.returns hr
    exact inflate_spins (hstart.reaches hr).call hs r hi
  · rintro ⟨hn, hcalls⟩
    obtain ⟨c, s, he, hout, hnext⟩ := inflate_whole hroom hn
    obtain ⟨t, hf, hout', hnext'⟩ := hstart.finishes hsize hcalls
    exact ⟨c, s, t, he, hf, hout'.trans hout.symm, hnext'.trans hnext.symm⟩

/-- With input and room below 2³² bytes the unpacker does not spin. -/
theorem Stream.not_spins {s : Stream} (hs : s.Unsigned) (ho : s.availOut < 2 ^ 32) (hi : s.nextIn.length < 2 ^ 32) :
    ¬ s.Spins := by
  intro h
  obtain ⟨o, n, ⟨o', -, hp⟩, -, hn⟩ := (Stream.Small.spins ⟨ho, hs.zeros, hs.raw⟩).mp h
  have hpos := hp.pos
  have hle := hp.le_length parsePlace_length
  omega

/-- So with all sizes below 2³² unpacking does not depend on the chunks. -/
theorem rechunk_small {size feeds : Nat → Nat} (hsize : ∀ k, 0 < size k ∧ size k < 2 ^ 32)
    {chunks : List (List UInt8)} {bs : List UInt8} (hbs : chunks.flatten = bs) (hlt : bs.length < 2 ^ 32) {room : Nat}
    (hroom : (unpack bs).length ≤ room) (hroom' : room < 2 ^ 32) : Rechunks size feeds chunks bs room := by
  obtain ⟨c, s, he, hout, hnext⟩ :=
    inflate_whole hroom (Stream.not_spins ⟨Nat.two_pow_pos 32, Nat.two_pow_pos 32⟩ hroom' hlt)
  obtain ⟨t, hf, hout', hnext'⟩ := (Unpacker.Holds.start hbs).finishes (fun k => (hsize k).1) fun u hr => by
    have hu := (Unpacker.Holds.start hbs).reaches hr
    have hlen := @Unpacker.call_length size feeds u
    have hall := hu.shrinks
    have hlt' : (u.call size feeds).nextIn.length < 2 ^ 32 := by omega
    exact Stream.not_spins hu.call (hsize u.calls).2 hlt'
  exact ⟨c, s, t, he, hf, hout'.trans hout.symm, hnext'.trans hnext.symm⟩

/-- Two bytes for a word of zeros, one at a time, into buffers of three bytes. -/
theorem rechunk_iff_zeros :
    Rechunks (fun _ => 3) (fun _ => 1) [[0], [0]] [0, 0] 8 ↔
      ¬ ({ nextIn := [0, 0], availOut := 8 } : Stream).Spins ∧
        ∀ u, Unpacker.Reaches (fun _ => 3) (fun _ => 1) (.start [[0], [0]]) u →
          ¬ (u.call (fun _ => 3) (fun _ => 1)).Spins :=
  rechunk_iff (fun _ => by decide) rfl (by
    show (unpack [0, 0]).length ≤ 8
    rw [unpack_of_some (show parse [0, 0] = some (List.replicate 8 0, 0, []) by decide)]
    simp)

/-- Two bytes for a word of zeros, into a buffer of 2³² bytes: the call never returns. -/
theorem rechunk_fails : ¬ Rechunks (fun _ => 2 ^ 32) (fun _ => 1) [[0, 0]] [0, 0] 8 := by
  rintro ⟨c, s, t, -, hf, -⟩
  obtain ⟨r, hr⟩ := hf.returns .refl
  have hp : parse [0, 0] = some (List.replicate 8 0, 0, []) := by decide
  have hrun : AtRun 0 0 [0, 0] 0 := (atRun_packet hp).mpr ⟨0, by decide, .zero (by decide)⟩
  exact inflate_spins ⟨by decide, by decide⟩ ⟨0, by decide, .inl ⟨⟨0, rfl, hrun⟩, by decide⟩⟩ r hr

end Capnproto

import Capnproto.Stream.Codec

/-!
# What `capn_inflate` gives

Whatever is pending in a stream, and whatever the split of the output into
calls, `capn_inflate` gives the bytes of `avail s` in order (`Gives`), stops
with 0 once the output is full and asks for more only when there are no more
(`inflateStep_any`, by cases on one iteration). The one exception is a stream
that spins (`Spins`): a run of zeros or of raw bytes moves nothing, for ever, with
a multiple of 2³² bytes of room left, and a raw copy with a multiple of 2³² bytes
of input left; with less room than that the raw copies alone are left (`Jams`).
`inflate_any` and `inflate_spins` say the same of whole calls.
-/

namespace Capnproto

open Packing

namespace Stream

/-- The bytes an unpacker has pending, before any raw run. -/
def pre (s : Stream) : List UInt8 := s.inflateBuf ++ List.replicate s.zeros 0

/-- All the bytes an unpacker can give. -/
def avail (s : Stream) : List UInt8 :=
  s.pre ++ s.nextIn.take s.raw ++ unpack (s.nextIn.drop s.raw)

/-- The input that the unpacker leaves once it has read all the whole packets. -/
def left (s : Stream) : List UInt8 := leftover (s.nextIn.drop s.raw)

/-- After `o` more bytes, the unpacker stands inside a raw run with `n` bytes
of input left. -/
def AtPos (s : Stream) (o n : Nat) : Prop :=
  ∃ o', o = s.pre.length + o' ∧ AtRaw parsePlace s.raw s.nextIn o' n

/-- The unpacker comes to a raw copy that moves nothing. -/
def Jams (s : Stream) : Prop := ∃ o n, s.AtPos o n ∧ o < s.availOut ∧ n % 2 ^ 32 = 0

/-- After `o` more bytes, the unpacker stands inside a run of zeros or of raw bytes. -/
def InRun (s : Stream) (o : Nat) : Prop := ∃ o', o = s.inflateBuf.length + o' ∧ AtRun s.zeros s.raw s.nextIn o'

/-- After `o` more bytes, the unpacker stands inside a run that it goes on with for ever: the output
or the input left is a multiple of 2³². -/
def SpinsAt (s : Stream) (o : Nat) : Prop :=
  o < s.availOut ∧ (s.InRun o ∧ (s.availOut - o) % 2 ^ 32 = 0 ∨ ∃ n, s.AtPos o n ∧ n % 2 ^ 32 = 0)

/-- The unpacker comes to a run that it goes on with for ever. -/
def Spins (s : Stream) : Prop := ∃ o, s.SpinsAt o

/-- The counters of type `unsigned`. -/
structure Unsigned (s : Stream) : Prop where
  zeros : s.zeros < 2 ^ 32
  raw : s.raw < 2 ^ 32

/-- The counters the unpacker compares, as `unsigned`. -/
structure Small (s : Stream) : Prop where
  availOut : s.availOut < 2 ^ 32
  zeros : s.zeros < 2 ^ 32
  raw : s.raw < 2 ^ 32

end Stream

/-- `s'` is `s` after the unpacker gave `m` bytes. -/
abbrev Gives : Stream → Stream → Nat → Prop := Delivers Stream.avail Stream.AtPos

/-- The stream with more input behind what it has. -/
def Stream.feed (s : Stream) (x : List UInt8) : Stream := { s with nextIn := s.nextIn ++ x }

theorem Stream.feed_nil (s : Stream) : s.feed [] = s := by rw [Stream.feed, List.append_nil]

theorem Stream.feed_feed (s : Stream) (x y : List UInt8) : (s.feed x).feed y = s.feed (x ++ y) := by
  simp only [Stream.feed, List.append_assoc]

/-- `Gives`, whatever input is still to come. -/
structure GivesOn (s s' : Stream) (m : Nat) : Prop where
  feed : ∀ x, Gives (s.feed x) (s'.feed x) m
  shrinks : s'.nextIn.length ≤ s.nextIn.length

theorem GivesOn.gives {s s' : Stream} {m : Nat} (h : GivesOn s s' m) : Gives s s' m := by
  have h0 := h.feed []
  rwa [Stream.feed_nil, Stream.feed_nil] at h0

theorem GivesOn.trans {s₁ s₂ s₃ : Stream} {a b : Nat} (h : GivesOn s₁ s₂ a) (h' : GivesOn s₂ s₃ b) :
    GivesOn s₁ s₃ (a + b) :=
  ⟨fun x => (h.feed x).trans (h'.feed x), Nat.le_trans h'.shrinks h.shrinks⟩

/-! ## One iteration -/

/-- The stream once its pending bytes are given. -/
def flush (s : Stream) : Stream :=
  { s with
    out := s.out ++ s.inflateBuf, availOut := s.availOut - s.inflateBuf.length, inflateBuf := [] }

/-- The stream once the output is filled from its pending bytes. -/
def fill (s : Stream) : Stream :=
  { s with
    out := s.out ++ s.inflateBuf.take s.availOut, availOut := 0
    inflateBuf := s.inflateBuf.drop s.availOut }

theorem inflateStep_eq (s : Stream) :
    inflateStep s =
      if s.availOut < s.inflateBuf.length then .done (0, fill s)
      else if (flush s).availOut = 0 then .done (0, flush s)
      else inflateNext (flush s) := by
  have hs : s.inflateBuf = [] → flush s = s := fun h => by
    simp [flush, h]
    cases s; simp_all
  simp only [inflateStep]
  by_cases h0 : s.availOut = 0
  · rw [if_pos h0]
    by_cases hb : s.inflateBuf = []
    · rw [if_neg (by simp [hb]), hs hb, if_pos h0]
    · have hl : 0 < s.inflateBuf.length := List.length_pos_iff.mpr hb
      rw [if_pos (by omega)]
      congr 2
      cases s; simp_all [fill]
  · rw [if_neg h0]
    by_cases hb : s.inflateBuf = []
    · rw [if_neg (by simp [hb]), if_neg (by simp [hb]), if_neg (by simp [hb]), hs hb, if_neg h0]
    · have hl : 0 < s.inflateBuf.length := List.length_pos_iff.mpr hb
      by_cases hle : s.inflateBuf.length ≤ s.availOut
      · rw [if_pos ⟨hl, hle⟩, if_neg (c := s.availOut < s.inflateBuf.length) (by omega)]
        rfl
      · rw [if_neg (by omega), if_pos hl, if_pos (by omega)]
        rfl

theorem gives_flush {s : Stream} (h : s.inflateBuf.length ≤ s.availOut) :
    Gives s (flush s) s.inflateBuf.length where
  le_availOut := h
  le_length := by simp only [Stream.avail, Stream.pre, List.length_append]; omega
  out := by simp only [flush, Stream.avail, Stream.pre, List.append_assoc, List.take_left]
  availOut := rfl
  todo := by
    simp only [flush, Stream.avail, Stream.pre, List.append_assoc, List.drop_left, List.nil_append]
  place o n := by
    simp only [flush, Stream.AtPos, Stream.pre, List.nil_append, List.length_append]
    constructor
    · rintro ⟨o', rfl, h⟩; exact ⟨o', by omega, h⟩
    · rintro ⟨o', e, h⟩; exact ⟨o', by omega, h⟩

theorem gives_fill {s : Stream} (h : s.availOut < s.inflateBuf.length) :
    Gives s (fill s) s.availOut where
  le_availOut := Nat.le_refl _
  le_length := by simp only [Stream.avail, Stream.pre, List.length_append]; omega
  out := by
    simp only [fill, Stream.avail, Stream.pre, List.append_assoc]
    rw [List.take_append_of_le_length (by omega)]
  availOut := by simp [fill]
  todo := by
    simp only [fill, Stream.avail, Stream.pre, List.append_assoc]
    rw [List.drop_append_of_le_length (by omega)]
  place o n := by
    simp only [fill, Stream.AtPos, Stream.pre, List.length_append, List.length_drop]
    constructor
    · rintro ⟨o', rfl, h⟩; exact ⟨o', by omega, h⟩
    · rintro ⟨o', e, h⟩; exact ⟨o', by omega, h⟩

/-- Giving `m` of the pending zero bytes. -/
theorem gives_zeros {s : Stream} {m : Nat} (hb : s.inflateBuf = []) (hm : m ≤ s.zeros)
    (ho : m ≤ s.availOut) :
    Gives s { s with
      out := s.out ++ List.replicate m 0, availOut := s.availOut - m, zeros := s.zeros - m } m where
  le_availOut := ho
  le_length := by
    simp only [Stream.avail, Stream.pre, List.length_append, List.length_replicate]; omega
  out := by
    simp only [Stream.avail, Stream.pre, hb, List.nil_append, List.append_assoc]
    rw [List.take_append_of_le_length (by simpa using hm), List.take_replicate, Nat.min_eq_left hm]
  availOut := rfl
  todo := by
    simp only [Stream.avail, Stream.pre, hb, List.nil_append, List.append_assoc]
    rw [List.drop_append_of_le_length (by simpa using hm), List.drop_replicate]
  place o n := by
    simp only [Stream.AtPos, Stream.pre, hb, List.nil_append, List.length_replicate]
    constructor
    · rintro ⟨o', rfl, h⟩; exact ⟨o', by omega, h⟩
    · rintro ⟨o', e, h⟩; exact ⟨o', by omega, h⟩

/-- Copying `m` bytes of a raw run. -/
theorem gives_raw {s : Stream} {m : Nat} (hp : s.pre = []) (hm : m ≤ s.raw)
    (hi : m ≤ s.nextIn.length) (ho : m ≤ s.availOut) :
    Gives s { s with
      out := s.out ++ s.nextIn.take m, nextIn := s.nextIn.drop m
      availOut := s.availOut - m, raw := s.raw - m } m where
  le_availOut := ho
  le_length := by simp only [Stream.avail, List.length_append, List.length_take]; omega
  out := by
    simp only [Stream.avail, hp, List.nil_append]
    rw [List.take_append_of_le_length (by rw [List.length_take]; omega), List.take_take,
      Nat.min_eq_left hm]
  availOut := rfl
  todo := by
    have e : ({ s with
        out := s.out ++ s.nextIn.take m, nextIn := s.nextIn.drop m
        availOut := s.availOut - m, raw := s.raw - m } : Stream).pre = [] := hp
    simp only [Stream.avail, e, hp, List.nil_append, List.drop_drop]
    rw [List.drop_append_of_le_length (by rw [List.length_take]; omega), ← List.drop_take,
      show m + (s.raw - m) = s.raw by omega]
  place o n := by
    have e : ({ s with
        out := s.out ++ s.nextIn.take m, nextIn := s.nextIn.drop m
        availOut := s.availOut - m, raw := s.raw - m } : Stream).pre = [] := hp
    simp only [Stream.AtPos, e, hp, List.length_nil, Nat.zero_add, exists_eq_left']
    exact AtRaw.drop hm hi

/-- Reading a packet gives nothing yet. -/
theorem gives_packet {s s' : Stream} {out r : List UInt8} {k : Nat} (hp : s.pre = []) (hr : s.raw = 0)
    (h : parse s.nextIn = some (out, k, r)) (ho : s'.out = s.out) (ha : s'.availOut = s.availOut)
    (hp' : s'.pre = out) (hr' : s'.raw = k) (hn : s'.nextIn = r) : Gives s s' 0 where
  le_availOut := Nat.zero_le _
  le_length := Nat.zero_le _
  out := by simp [ho]
  availOut := ha
  todo := by
    simp only [Stream.avail, hp, hr, hp', hr', hn, List.take_zero, List.drop_zero, List.nil_append]
    rw [unpack_of_some h]
  place o n := by
    simp only [Stream.AtPos, hp, hr, hp', hr', hn, List.length_nil, Nat.zero_add, exists_eq_left']
    exact (atRaw_zero (parsePlace_eq h)).symm

theorem givesOn_flush {s : Stream} (h : s.inflateBuf.length ≤ s.availOut) :
    GivesOn s (flush s) s.inflateBuf.length :=
  ⟨fun x => @gives_flush (s.feed x) h, Nat.le_refl _⟩

theorem givesOn_fill {s : Stream} (h : s.availOut < s.inflateBuf.length) : GivesOn s (fill s) s.availOut :=
  ⟨fun x => @gives_fill (s.feed x) h, Nat.le_refl _⟩

theorem givesOn_zeros {s : Stream} {m : Nat} (hb : s.inflateBuf = []) (hm : m ≤ s.zeros) (ho : m ≤ s.availOut) :
    GivesOn s { s with
      out := s.out ++ List.replicate m 0, availOut := s.availOut - m, zeros := s.zeros - m } m :=
  ⟨fun x => @gives_zeros (s.feed x) m hb hm ho, Nat.le_refl _⟩

theorem givesOn_raw {s : Stream} {m : Nat} (hp : s.pre = []) (hm : m ≤ s.raw) (hi : m ≤ s.nextIn.length)
    (ho : m ≤ s.availOut) :
    GivesOn s { s with
      out := s.out ++ s.nextIn.take m, nextIn := s.nextIn.drop m
      availOut := s.availOut - m, raw := s.raw - m } m where
  feed x := by
    have h := @gives_raw (s.feed x) m hp hm (by simp only [Stream.feed, List.length_append]; omega) ho
    simp only [Stream.feed] at h ⊢
    rwa [List.take_append_of_le_length hi, List.drop_append_of_le_length hi] at h
  shrinks := by
    rw [List.length_drop]
    exact Nat.sub_le _ _

theorem givesOn_packet {s s' : Stream} {out r : List UInt8} {k : Nat} (hp : s.pre = []) (hr : s.raw = 0)
    (h : parse s.nextIn = some (out, k, r)) (ho : s'.out = s.out) (ha : s'.availOut = s.availOut)
    (hp' : s'.pre = out) (hr' : s'.raw = k) (hn : s'.nextIn = r) : GivesOn s s' 0 where
  feed x := @gives_packet (s.feed x) (s'.feed x) _ _ _ hp hr (parse_append h x) ho ha hp' hr'
    (congrArg (· ++ x) hn)
  shrinks := by
    rw [hn]
    exact Nat.le_of_lt (parse_length h)

/-- With nothing pending and no raw run, an iteration reads a packet. -/
theorem inflateNext_packet {s : Stream} (hz : s.zeros = 0) (hr : s.raw = 0) (hb : s.inflateBuf = []) :
    (parse s.nextIn = none ∧ inflateNext s = .done (CAPN_NEED_MORE, s)) ∨
    ∃ out k r s', parse s.nextIn = some (out, k, r) ∧ inflateNext s = .next s' ∧
      s'.out = s.out ∧ s'.availOut = s.availOut ∧ s'.pre = out ∧ s'.zeros = zeroRun s.nextIn ∧ s'.raw = k ∧
      s'.nextIn = r := by
  simp only [inflateNext, hz, hr, Nat.lt_irrefl, ite_false]
  match hn : s.nextIn with
  | [] => exact .inl ⟨rfl, rfl⟩
  | [_] => exact .inl ⟨rfl, rfl⟩
  | hdr :: n :: next =>
    simp only [parse]
    by_cases hF : hdr = 0xFF
    · have hrun : zeroRun (hdr :: n :: next) = 0 := by
        rw [hF]
        rfl
      simp only [hF, ite_true]
      by_cases hl : next.length < 8
      · simp only [hl, ite_true]; exact .inl ⟨trivial, trivial⟩
      · simp only [hl, ite_false]
        rw [hF] at hrun
        exact .inr ⟨_, _, _, _, rfl, rfl, rfl, rfl, by simp [Stream.pre], hrun.symm, rfl, rfl⟩
    · simp only [hF, ite_false]
      by_cases h0 : hdr = 0
      · simp only [h0, ite_true]
        exact .inr ⟨_, _, _, _, rfl, rfl, rfl, rfl, by simp [Stream.pre, hb], rfl, rfl, rfl⟩
      · have hrun : zeroRun (hdr :: n :: next) = 0 := by
          rw [zeroRun.eq_2]
          intro n' next' e
          exact h0 (List.cons.inj e).1
        simp only [h0, ite_false]
        by_cases hl : (n :: next).length < (tagBits hdr).count true
        · simp only [hl, ite_true]; exact .inl ⟨trivial, trivial⟩
        · simp only [hl, ite_false]
          exact .inr ⟨_, _, _, _, rfl, rfl, rfl, rfl, by simp [Stream.pre], hrun.symm, rfl, rfl⟩

theorem parse_small {bs out r : List UInt8} {k : Nat} (h : parse bs = some (out, k, r)) :
    out.length < 2 ^ 32 ∧ k < 2 ^ 32 := by
  have hb : ∀ b : UInt8, b.toNat < 256 := fun b => b.toNat_lt
  match bs with
  | [] | [_] => cases h
  | t :: n :: r' =>
    simp only [parse] at h
    split at h
    · split at h
      · cases h
      · cases h
        have := hb (r'.getD 7 0)
        simp only [List.length_take]
        omega
    · split at h
      · cases h
        have := hb n
        simp only [List.length_replicate]
        omega
      · split at h
        · cases h
        · cases h
          rw [length_spread, length_tagBits]
          decide

/-- Nothing is pending, and what input is left is less than a packet's head. -/
structure Stream.Starved (s : Stream) : Prop where
  avail : s.avail = []
  short : s.nextIn.length < 10

/-- `s'` is `s` after the unpacker gave `m` bytes, comes to the same runs and leaves the same input. -/
structure Advances (s s' : Stream) (m : Nat) : Prop where
  gives : GivesOn s s' m
  place : ∀ o, s'.InRun o ↔ s.InRun (m + o)
  unsigned : s.Unsigned → s'.Unsigned
  left : ∀ x, (s'.feed x).left = (s.feed x).left

theorem Advances.refl (s : Stream) : Advances s s 0 :=
  ⟨⟨fun _ => .refl _, Nat.le_refl _⟩, fun o => by rw [Nat.zero_add], id, fun _ => rfl⟩

theorem Advances.trans {s₁ s₂ s₃ : Stream} {a b : Nat} (h : Advances s₁ s₂ a) (h' : Advances s₂ s₃ b) : Advances s₁ s₃ (a + b) :=
  ⟨h.gives.trans h'.gives, fun o => by rw [h'.place, h.place, Nat.add_assoc], fun hc => h'.unsigned (h.unsigned hc),
    fun x => (h'.left x).trans (h.left x)⟩

/-- A place to spin at is one for what is given before. -/
theorem Advances.spinsAt {s s' : Stream} {m : Nat} (h : Advances s s' m) (o : Nat) : s'.SpinsAt o ↔ s.SpinsAt (m + o) := by
  have hg := h.gives.gives
  have hout := hg.availOut
  have hle := hg.le_availOut
  simp only [Stream.SpinsAt, h.place, hg.place, hout, Nat.sub_sub]
  have hlt : o < s.availOut - m ↔ m + o < s.availOut := by omega
  rw [hlt]

theorem Stream.Spins.of_advances {s s' : Stream} {m : Nat} (h : Advances s s' m) (hj : s'.Spins) : s.Spins := by
  obtain ⟨o, ho⟩ := hj
  exact ⟨m + o, (h.spinsAt o).mp ho⟩

theorem advances_flush {s : Stream} (h : s.inflateBuf.length ≤ s.availOut) : Advances s (flush s) s.inflateBuf.length := by
  refine ⟨givesOn_flush h, fun o => ?_, fun hc => ⟨hc.zeros, hc.raw⟩, fun _ => rfl⟩
  simp only [Stream.InRun, flush, List.length_nil, Nat.zero_add, exists_eq_left', Nat.add_left_cancel_iff]

theorem advances_fill {s : Stream} (h : s.availOut < s.inflateBuf.length) : Advances s (fill s) s.availOut := by
  refine ⟨givesOn_fill h, fun o => ?_, fun hc => ⟨hc.zeros, hc.raw⟩, fun _ => rfl⟩
  simp only [Stream.InRun, fill, List.length_drop]
  constructor
  · rintro ⟨o', rfl, h⟩
    exact ⟨o', by omega, h⟩
  · rintro ⟨o', e, h⟩
    exact ⟨o', by omega, h⟩

theorem advances_zeros {s : Stream} {m : Nat} (hb : s.inflateBuf = []) (hm : m ≤ s.zeros) (ho : m ≤ s.availOut) :
    Advances s { s with
      out := s.out ++ List.replicate m 0, availOut := s.availOut - m, zeros := s.zeros - m } m := by
  refine ⟨givesOn_zeros hb hm ho, fun o => ?_, fun hc => ⟨Nat.lt_of_le_of_lt (Nat.sub_le _ _) hc.zeros, hc.raw⟩,
    fun _ => rfl⟩
  simp only [Stream.InRun, hb, List.length_nil, Nat.zero_add, exists_eq_left']
  exact AtRun.drop_zeros hm

theorem advances_raw {s : Stream} {m : Nat} (hp : s.pre = []) (hm : m ≤ s.raw) (hi : m ≤ s.nextIn.length)
    (ho : m ≤ s.availOut) :
    Advances s { s with
      out := s.out ++ s.nextIn.take m, nextIn := s.nextIn.drop m
      availOut := s.availOut - m, raw := s.raw - m } m := by
  obtain ⟨hb, hz⟩ := List.append_eq_nil_iff.mp hp
  have hz : s.zeros = 0 := by simpa using congrArg List.length hz
  refine ⟨givesOn_raw hp hm hi ho, fun o => ?_, fun hc => ⟨hc.zeros, Nat.lt_of_le_of_lt (Nat.sub_le _ _) hc.raw⟩,
    fun x => ?_⟩
  · simp only [Stream.InRun, hb, hz, List.length_nil, Nat.zero_add, exists_eq_left']
    exact AtRun.drop_raw hm hi
  · simp only [Stream.left, Stream.feed]
    rw [← List.drop_append_of_le_length hi, List.drop_drop, Nat.add_sub_cancel' hm]

theorem advances_packet {s s' : Stream} {out r : List UInt8} {k : Nat} (hp : s.pre = []) (hr : s.raw = 0)
    (h : parse s.nextIn = some (out, k, r)) (ho : s'.out = s.out) (ha : s'.availOut = s.availOut)
    (hp' : s'.pre = out) (hz' : s'.zeros = zeroRun s.nextIn) (hr' : s'.raw = k) (hn : s'.nextIn = r) : Advances s s' 0 := by
  obtain ⟨hb, hz⟩ := List.append_eq_nil_iff.mp hp
  have hz : s.zeros = 0 := by simpa using congrArg List.length hz
  have hlen : s'.inflateBuf.length + s'.zeros = out.length := by
    rw [← hp', Stream.pre, List.length_append, List.length_replicate]
  have hsm := parse_small h
  refine ⟨givesOn_packet hp hr h ho ha hp' hr' hn, fun o => ?_, fun _ => ⟨by omega, by omega⟩, fun x => ?_⟩
  · simp only [Stream.InRun, hb, hz, hr, hr', hn, List.length_nil, Nat.zero_add, exists_eq_left']
    rw [atRun_packet h, ← hz', show out.length - s'.zeros = s'.inflateBuf.length by omega]
  · simp only [Stream.left, Stream.feed, hr, hr', hn, List.drop_zero]
    rw [leftover_of_some (parse_append h x)]

/-- What one iteration of `capn_inflate` does, from any state: it gives some bytes, passing no
place where it would spin, and either goes on, closer to the end unless it spins, or stops, with the
output full or with nothing left to give. -/
theorem inflateStep_any {s : Stream} (hs : s.Unsigned) :
    (∃ s' m, inflateStep s = .next s' ∧ Advances s s' m ∧ (∀ o, s.SpinsAt o → m ≤ o) ∧
      (s'.availOut + s'.nextIn.length < s.availOut + s.nextIn.length ∨ s.Spins)) ∨
    ∃ c s' m, inflateStep s = .done (c, s') ∧ Advances s s' m ∧ ¬ s.Spins ∧
      (c = 0 ∧ s'.availOut = 0 ∨ c = CAPN_NEED_MORE ∧ 0 < s'.availOut ∧ s'.Starved) := by
  have hpre : ∀ o, s.SpinsAt o → s.inflateBuf.length ≤ o := by
    rintro o ⟨-, ⟨⟨o', rfl, -⟩, -⟩ | ⟨n, ⟨o', rfl, -⟩, -⟩⟩
    · exact Nat.le_add_right _ _
    · simp only [Stream.pre, List.length_append]
      omega
  rw [inflateStep_eq]
  by_cases hlt : s.availOut < s.inflateBuf.length
  · rw [if_pos hlt]
    refine .inr ⟨0, fill s, _, rfl, advances_fill hlt, ?_, .inl ⟨rfl, rfl⟩⟩
    rintro ⟨o, ho⟩
    have := hpre o ho
    have := ho.1
    omega
  rw [if_neg hlt]
  have hF := advances_flush (Nat.le_of_not_lt hlt)
  have hfs := hF.unsigned hs
  by_cases h0 : (flush s).availOut = 0
  · rw [if_pos h0]
    refine .inr ⟨0, flush s, _, rfl, hF, ?_, .inl ⟨rfl, h0⟩⟩
    rintro ⟨o, ho⟩
    have := hpre o ho
    have := ho.1
    simp only [flush] at h0
    omega
  rw [if_neg h0]
  -- from here on nothing is pending in `inflate_buf`
  have hle : (flush s).availOut ≤ s.availOut := Nat.sub_le _ _
  have hin : (flush s).nextIn.length = s.nextIn.length := rfl
  have hb : (flush s).inflateBuf = [] := rfl
  generalize flush s = t at hF hfs h0 hle hin hb
  have hpass : ∀ m, (∀ o, t.SpinsAt o → m ≤ o) → ∀ o, s.SpinsAt o → s.inflateBuf.length + m ≤ o := by
    intro m hm o ho
    have h1 := hpre o ho
    have h2 := hm (o - s.inflateBuf.length) ((hF.spinsAt _).mpr (by rwa [Nat.add_sub_cancel' h1]))
    omega
  have hback : ¬ t.Spins → ¬ s.Spins := by
    rintro hn ⟨o, ho⟩
    refine hn ⟨o - s.inflateBuf.length, (hF.spinsAt _).mpr ?_⟩
    rwa [Nat.add_sub_cancel' (hpre o ho)]
  -- fewer bytes than there is room for, modulo 2³², pass no place to spin at
  have hroom : ∀ {o m : Nat}, o < t.availOut → (t.availOut - o) % 2 ^ 32 = 0 → m ≤ t.availOut % 2 ^ 32 → m ≤ o := by
    intro o m ho hn hm
    omega
  by_cases hz : 0 < t.zeros
  · have h1 := min32_le_left t.availOut t.zeros
    have h2 := min32_le_right t.availOut t.zeros
    have h3 : min32 t.availOut t.zeros ≤ t.availOut % 2 ^ 32 := Nat.min_le_left _ _
    have hg := advances_zeros hb h2 h1
    refine .inl ⟨_, _, by rw [inflateNext, if_pos hz], hF.trans hg, hpass _ ?_, ?_⟩
    · rintro o ⟨ho, ⟨-, hn⟩ | ⟨n, ⟨o', rfl, -⟩, -⟩⟩
      · exact hroom ho hn h3
      · simp only [Stream.pre, List.length_append, List.length_replicate]
        omega
    · by_cases hmod : t.availOut % 2 ^ 32 = 0
      · refine .inr (.of_advances hF ⟨0, by omega, .inl ⟨⟨0, by rw [hb]; rfl, .zero hz⟩, by simpa using hmod⟩⟩)
      · have hpos : 0 < min32 t.availOut t.zeros := by
          have := hfs.zeros
          simp only [min32]
          omega
        refine .inl ?_
        show t.availOut - _ + t.nextIn.length < _
        omega
  have hz0 : t.zeros = 0 := by omega
  have hp : t.pre = [] := by simp [Stream.pre, hb, hz0]
  by_cases hr : 0 < t.raw
  · by_cases hi : t.nextIn = []
    · refine .inr ⟨_, _, _, by rw [inflateNext, if_neg hz, if_pos hr, if_pos (by simp [hi])], hF,
        hback ?_, .inr ⟨rfl, by omega, by simp [Stream.avail, hp, hi], by simp [hi]⟩⟩
      rintro ⟨o, -, ⟨⟨o', -, hq⟩, -⟩ | ⟨n, ⟨o', -, hq⟩, -⟩⟩
      · rw [hz0, hi] at hq
        exact not_atRun_nil hr hq
      · have h1 := hq.pos
        have h2 := hq.le_length parsePlace_length
        simp only [hi, List.length_nil] at h2
        omega
    · have hl : 0 < t.nextIn.length := List.length_pos_iff.mpr hi
      have h1 := min32_le_left (min32 t.availOut t.raw) t.nextIn.length
      have h2 := min32_le_left t.availOut t.raw
      have h3 := min32_le_right t.availOut t.raw
      have h4 := min32_le_right (min32 t.availOut t.raw) t.nextIn.length
      have h5 := min32_le_mod (min32 t.availOut t.raw) t.nextIn.length
      have h6 : min32 t.availOut t.raw ≤ t.availOut % 2 ^ 32 := Nat.min_le_left _ _
      have hg := advances_raw hp (Nat.le_trans h1 h3) h4 (Nat.le_trans h1 h2)
      refine .inl ⟨_, _, by rw [inflateNext, if_neg hz, if_pos hr, if_neg (by omega)], hF.trans hg, hpass _ ?_, ?_⟩
      · -- what is copied is at most the input left modulo 2³²
        rintro o ⟨ho, ⟨-, hn⟩ | ⟨n, ⟨o', rfl, hq⟩, hn⟩⟩
        · exact hroom ho hn (Nat.le_trans h1 h6)
        · simp only [hp, List.length_nil, Nat.zero_add]
          by_contra hlt'
          cases hq with
          | here hk hr' => omega
          | later hr' _ _ => omega
      · by_cases hmod : t.nextIn.length % 2 ^ 32 = 0
        · refine .inr (.of_advances hF ⟨0, by omega, .inr ⟨_, ⟨0, by simp [hp], .here hr hl⟩, ?_⟩⟩)
          simpa using hmod
        by_cases hmod' : t.availOut % 2 ^ 32 = 0
        · refine .inr (.of_advances hF ⟨0, by omega, .inl ⟨⟨0, by rw [hb]; rfl, ?_⟩, by simpa using hmod'⟩⟩)
          rw [hz0]
          exact .raw hr hl
        · have hpos : 0 < min32 (min32 t.availOut t.raw) t.nextIn.length := by
            have := hfs.raw
            simp only [min32]
            omega
          refine .inl ?_
          show t.availOut - _ + (t.nextIn.drop _).length < _
          simp only [List.length_drop]
          omega
  have hr0 : t.raw = 0 := by omega
  rcases inflateNext_packet hz0 hr0 hb with ⟨hn, e⟩ | ⟨out, k, r, t', hn, e, ho, ha, hp', hz', hr', hi'⟩
  · refine .inr ⟨_, _, _, e, hF, hback ?_, .inr ⟨rfl, by omega, ?_, parse_none hn⟩⟩
    · rintro ⟨o, -, ⟨⟨o', -, hq⟩, -⟩ | ⟨n, ⟨o', -, hq⟩, -⟩⟩
      · rw [hz0, hr0] at hq
        exact not_atRun hn hq
      · rw [hr0] at hq
        exact not_atRaw (parsePlace_none hn) hq
    · simp only [Stream.avail, hp, hr0, List.take_zero, List.drop_zero, List.nil_append, unpack_of_none hn]
  · have hlen := parse_length hn
    have hg := advances_packet hp hr0 hn ho ha hp' hz' hr' hi'
    refine .inl ⟨_, _, e, hF.trans hg, hpass _ fun o _ => Nat.zero_le _, .inl ?_⟩
    rw [ha, hi']
    rw [hin] at hlen
    omega

/-- With room below 2³², the unpacker spins where it jams. -/
theorem Stream.Small.spinsAt {s : Stream} (hs : s.Small) (o : Nat) :
    s.SpinsAt o ↔ o < s.availOut ∧ ∃ n, s.AtPos o n ∧ n % 2 ^ 32 = 0 := by
  have hA := hs.availOut
  refine and_congr_right fun ho => or_iff_right ?_
  rintro ⟨-, hn⟩
  omega

theorem Stream.Small.spins {s : Stream} (hs : s.Small) : s.Spins ↔ s.Jams := by
  constructor
  · rintro ⟨o, ho⟩
    obtain ⟨ho, n, hp, hn⟩ := (hs.spinsAt o).mp ho
    exact ⟨o, n, hp, ho, hn⟩
  · rintro ⟨o, n, hp, ho, hn⟩
    exact ⟨o, (hs.spinsAt o).mpr ⟨ho, n, hp, hn⟩⟩

/-! ## Whole calls -/

/-- From a stream that does not spin, `capn_inflate` returns: with 0 and the output full, or asking
for more with nothing left to give. -/
theorem inflate_any {s : Stream} (hs : s.Unsigned) (hj : ¬ s.Spins) :
    ∃ c s' m, Inflates s (c, s') ∧ Advances s s' m ∧
      (c = 0 ∧ s'.availOut = 0 ∨ c = CAPN_NEED_MORE ∧ 0 < s'.availOut ∧ s'.Starved) := by
  obtain ⟨⟨c, s'⟩, he, m, hg, hc⟩ := Loop.total inflateStep
    (I := fun s => s.Unsigned ∧ ¬ s.Spins)
    (Q := fun s r => ∃ m, Advances s r.2 m ∧
      (r.1 = 0 ∧ r.2.availOut = 0 ∨ r.1 = CAPN_NEED_MORE ∧ 0 < r.2.availOut ∧ r.2.Starved))
    (fun s => s.availOut + s.nextIn.length)
    (by
      rintro s s' ⟨hs, hj⟩ e
      rcases inflateStep_any hs with ⟨t, m, e', hg, -, hμ⟩ | ⟨c, t, m, e', -⟩
      · rw [e] at e'; cases e'
        refine ⟨⟨hg.unsigned hs, fun h => hj (.of_advances hg h)⟩, hμ.resolve_right hj, ?_⟩
        rintro r ⟨m', hg', hq⟩
        exact ⟨m + m', hg.trans hg', hq⟩
      · rw [e] at e'; cases e')
    (by
      rintro s r ⟨hs, hj⟩ e
      rcases inflateStep_any hs with ⟨t, m, e', -⟩ | ⟨c, t, m, e', hg, -, hc⟩
      · rw [e] at e'; cases e'
      · rw [e] at e'; cases e'
        exact ⟨m, hg, hc⟩)
    (s := s) ⟨hs, hj⟩
  exact ⟨c, s', m, he, hg, hc⟩

/-- From a stream that spins, `capn_inflate` never returns. -/
theorem inflate_spins {s : Stream} (hs : s.Unsigned) (hj : s.Spins) (r : Int × Stream) : ¬ Inflates s r := by
  refine Loop.diverges (D := fun s => s.Unsigned ∧ s.Spins) ?_ ⟨hs, hj⟩ r
  rintro s ⟨hs, o, ho⟩
  rcases inflateStep_any hs with ⟨t, m, e, hg, hm, -⟩ | ⟨c, t, m, e, -, hn, -⟩
  · refine ⟨t, e, hg.unsigned hs, o - m, (hg.spinsAt _).mpr ?_⟩
    rwa [Nat.add_sub_cancel' (hm o ho)]
  · exact absurd ⟨o, ho⟩ hn

theorem Stream.Small.unsigned {s : Stream} (hs : s.Small) : s.Unsigned := ⟨hs.zeros, hs.raw⟩

theorem Stream.Small.advances {s s' : Stream} {m : Nat} (hs : s.Small) (h : Advances s s' m) : s'.Small := by
  obtain ⟨hz, hr⟩ := h.unsigned hs.unsigned
  have hA := hs.availOut
  have hout := h.gives.gives.availOut
  exact ⟨by omega, hz, hr⟩

/-- **`capn_inflate`.** From a stream that does not jam it returns: with 0 and
the output full, or asking for more with nothing left to give. -/
theorem inflate_ok {s : Stream} (hs : s.Small) (hj : ¬ s.Jams) :
    ∃ c s' m, Inflates s (c, s') ∧ GivesOn s s' m ∧ s'.Small ∧
      (c = 0 ∧ s'.availOut = 0 ∨ c = CAPN_NEED_MORE ∧ 0 < s'.availOut ∧ s'.Starved) := by
  obtain ⟨c, s', m, he, hg, hc⟩ := inflate_any hs.unsigned (mt hs.spins.mp hj)
  exact ⟨c, s', m, he, hg.gives, hs.advances hg, hc⟩

/-- From a stream that jams, `capn_inflate` never returns. -/
theorem inflate_jams {s : Stream} (hs : s.Small) (hj : s.Jams) (r : Int × Stream) : ¬ Inflates s r :=
  inflate_spins hs.unsigned (hs.spins.mpr hj) r

/-- `inflate_ok`, by what the stream can give: enough to fill the output, or
not. -/
theorem inflate_cases {s : Stream} (hs : s.Small) (hj : ¬ s.Jams) :
    (s.availOut ≤ s.avail.length ∧ ∃ s', Inflates s (0, s') ∧ Gives s s' s.availOut ∧ s'.Small) ∨
    (s.avail.length < s.availOut ∧
      ∃ s', Inflates s (CAPN_NEED_MORE, s') ∧ Gives s s' s.avail.length ∧ s'.Small) := by
  obtain ⟨c, s', m, he, hg, hs', hc⟩ := inflate_ok hs hj
  have hg := hg.gives
  obtain ⟨rfl, h0⟩ | ⟨rfl, h0, ⟨ha, -⟩⟩ := hc
  · have e : m = s.availOut := by
      have := hg.availOut; have := hg.le_availOut; omega
    subst e
    exact .inl ⟨hg.le_length, s', he, hg, hs'⟩
  · have e : m = s.avail.length := by
      have := congrArg List.length (hg.todo.symm.trans ha)
      have := hg.le_length
      simp only [List.length_drop, List.length_nil] at *
      omega
    subst e
    have := hg.availOut
    exact .inr ⟨by omega, s', he, hg, hs'⟩

end Capnproto

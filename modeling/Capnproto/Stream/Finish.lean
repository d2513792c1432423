import Capnproto.Stream.Deflate
import Capnproto.Stream.Inflate

/-!
# When the codecs finish

Each iteration of `capn_deflate` and of `capn_inflate` moves no more than there is
(`deflateStep_within`, `inflateStep_within`), from any state. It uses up input or
output room, so that the call returns, as long as no `unsigned` minimum is zero:
exactly from the states where the packer does not stall and the unpacker does not
spin (`finish_iff`).
-/

namespace Capnproto

open Packing

/-- From `s` to `t`, `b` pending bytes, `z` zeros and `r` raw bytes go to the output: no more of
them than are pending, or in the input, or have room. -/
structure Moves (s t : Stream) (b z r : Nat) : Prop where
  buf : b ≤ s.inflateBuf.length
  zeros : z ≤ s.zeros
  raw : r ≤ s.raw
  availIn : r ≤ s.nextIn.length
  availOut : b + z + r ≤ s.availOut
  eq : t = { s with
    out := s.out ++ (s.inflateBuf.take b ++ List.replicate z 0 ++ s.nextIn.take r)
    nextIn := s.nextIn.drop r, availOut := s.availOut - (b + z + r)
    inflateBuf := s.inflateBuf.drop b, zeros := s.zeros - z, raw := s.raw - r }

/-- From `s` to `t`, `k` bytes of input are read and `h` bytes stored, with no raw run going on. -/
structure Takes (s t : Stream) (k h : Nat) : Prop where
  raw : s.raw = 0
  availIn : k ≤ s.nextIn.length
  availOut : h ≤ s.availOut
  nextIn : t.nextIn = s.nextIn.drop k
  out : ∃ x, x.length = h ∧ t.out = s.out ++ x
  room : t.availOut = s.availOut - h

/-- From `s` to `t`, no more is moved than there is. -/
def Stream.Within (s t : Stream) : Prop :=
  ∃ u b z r, Moves s u b z r ∧ (t = u ∨ ∃ k h, Takes u t k h)

/-- Wherever a loop gets to from `s`, an iteration moves no more than there is, and it uses up
input or output room unless it leaves. -/
structure Proceeds (step : Stream → Step Stream (Int × Stream)) (s : Stream) : Prop where
  next : ∀ t t', Loop.Path step s t → step t = .next t' →
    t.Within t' ∧ (t'.nextIn.length < t.nextIn.length ∨ t'.availOut < t.availOut)
  done : ∀ t r, Loop.Path step s t → step t = .done r → t.Within r.2

/-- `capn_deflate` finishes. -/
def DeflateFinishes (s : Stream) : Prop :=
  (∃ r, Deflates s r) ∧ (s.nextIn.length % 8 = 0 → Proceeds deflateStep s)

/-- `capn_inflate` finishes. -/
def InflateFinishes (s : Stream) : Prop := (∃ r, Inflates s r) ∧ Proceeds inflateStep s

/-! ## What one iteration moves -/

theorem Moves.refl (s : Stream) : Moves s s 0 0 0 :=
  ⟨Nat.zero_le _, Nat.zero_le _, Nat.zero_le _, Nat.zero_le _, Nat.zero_le _, by simp⟩

theorem Stream.Within.refl (s : Stream) : s.Within s := ⟨s, 0, 0, 0, .refl s, .inl rfl⟩

theorem moves_flush {s : Stream} (h : s.inflateBuf.length ≤ s.availOut) :
    Moves s (flush s) s.inflateBuf.length 0 0 :=
  ⟨Nat.le_refl _, Nat.zero_le _, Nat.zero_le _, Nat.zero_le _, h, by simp [flush]⟩

theorem moves_fill {s : Stream} (h : s.availOut < s.inflateBuf.length) : Moves s (fill s) s.availOut 0 0 :=
  ⟨Nat.le_of_lt h, Nat.zero_le _, Nat.zero_le _, Nat.zero_le _, Nat.le_refl _, by simp [fill]⟩

theorem deflateStep_within {s s' : Stream} (e : deflateStep s = .next s') : s.Within s' := by
  by_cases hi : s.nextIn.length = 0
  · rw [deflateStep, if_pos hi] at e
    cases e
  by_cases h0 : s.availOut = 0
  · rw [deflateStep, if_neg hi, if_pos h0] at e
    cases e
  by_cases hr : 0 < s.raw
  · rw [deflateStep, if_neg hi, if_neg h0, if_pos hr] at e
    cases e
    have h1 := min32_le_left s.raw (min32 s.nextIn.length s.availOut)
    have h2 := min32_le_right s.raw (min32 s.nextIn.length s.availOut)
    have h3 := min32_le_left s.nextIn.length s.availOut
    have h4 := min32_le_right s.nextIn.length s.availOut
    refine ⟨_, 0, 0, min32 s.raw (min32 s.nextIn.length s.availOut), ⟨Nat.zero_le _, Nat.zero_le _, h1, ?_, ?_, rfl⟩,
      .inl ?_⟩
    · omega
    · omega
    · simp
  have hr0 : s.raw = 0 := by omega
  by_cases h8 : s.nextIn.length < 8
  · rw [deflateStep, if_neg hi, if_neg h0, if_neg hr, if_pos h8] at e
    cases e
  have h8 : 8 ≤ s.nextIn.length := Nat.le_of_not_lt h8
  rw [deflateStep_packet hr0 h8 h0] at e
  by_cases hf : s.availOut < (firstPacket s.nextIn).head.length
  · rw [if_pos hf] at e
    cases e
  · rw [if_neg hf] at e
    cases e
    have hb := congrArg List.length (firstPacket_spec h8).2.1
    rw [List.length_take] at hb
    exact ⟨s, 0, 0, 0, .refl s, .inr ⟨(firstPacket s.nextIn).base.length, (firstPacket s.nextIn).head.length,
      hr0, by omega, by omega, rfl, ⟨_, rfl, rfl⟩, rfl⟩⟩

theorem deflateStep_done {s : Stream} {r : Int × Stream} (e : deflateStep s = .done r) : r.2 = s := by
  simp only [deflateStep] at e
  repeat' split at e
  all_goals cases e
  all_goals rfl

/-- Reading a packet takes its bytes from the input. -/
theorem parse_drop {bs out r : List UInt8} {k : Nat} (h : parse bs = some (out, k, r)) :
    r = bs.drop (bs.length - r.length) := by
  have hsuf : r <:+ bs := by
    match bs with
    | [] | [_] => cases h
    | t :: n :: next =>
      simp only [parse] at h
      split at h
      · split at h
        · cases h
        · cases h
          exact (List.drop_suffix _ _).trans ⟨[t, n], rfl⟩
      · split at h
        · cases h
          exact ⟨[t, n], rfl⟩
        · split at h
          · cases h
          · cases h
            exact (List.drop_suffix _ _).trans ⟨[t], rfl⟩
  exact List.suffix_iff_eq_drop.mp hsuf

theorem inflateStep_within (s : Stream) :
    (∀ s', inflateStep s = .next s' → s.Within s') ∧ ∀ r, inflateStep s = .done r → s.Within r.2 := by
  rw [inflateStep_eq]
  by_cases hlt : s.availOut < s.inflateBuf.length
  · rw [if_pos hlt]
    refine ⟨fun s' e => (by cases e), fun r e => ?_⟩
    cases e
    exact ⟨_, _, _, _, moves_fill hlt, .inl rfl⟩
  have hle := Nat.le_of_not_lt hlt
  have hF := moves_flush hle
  rw [if_neg hlt]
  by_cases h0 : (flush s).availOut = 0
  · rw [if_pos h0]
    refine ⟨fun s' e => (by cases e), fun r e => ?_⟩
    cases e
    exact ⟨_, _, _, _, hF, .inl rfl⟩
  rw [if_neg h0]
  have ho : (flush s).availOut = s.availOut - s.inflateBuf.length := rfl
  by_cases hz : 0 < (flush s).zeros
  · have h1 := min32_le_left (flush s).availOut (flush s).zeros
    have h2 := min32_le_right (flush s).availOut (flush s).zeros
    rw [inflateNext, if_pos hz]
    refine ⟨fun s' e => ?_, fun r e => (by cases e)⟩
    cases e
    generalize min32 (flush s).availOut (flush s).zeros = m at h1 h2
    refine ⟨_, s.inflateBuf.length, m, 0, ⟨Nat.le_refl _, h2, Nat.zero_le _, Nat.zero_le _, by omega, rfl⟩, .inl ?_⟩
    simp [flush, Nat.sub_sub]
  by_cases hr : 0 < (flush s).raw
  · by_cases hi : (flush s).nextIn.length = 0
    · rw [inflateNext, if_neg hz, if_pos hr, if_pos hi]
      refine ⟨fun s' e => (by cases e), fun r e => ?_⟩
      cases e
      exact ⟨_, _, _, _, hF, .inl rfl⟩
    · have h1 := min32_le_left (min32 (flush s).availOut (flush s).raw) (flush s).nextIn.length
      have h2 := min32_le_left (flush s).availOut (flush s).raw
      have h3 := min32_le_right (flush s).availOut (flush s).raw
      have h4 := min32_le_right (min32 (flush s).availOut (flush s).raw) (flush s).nextIn.length
      rw [inflateNext, if_neg hz, if_pos hr, if_neg hi]
      refine ⟨fun s' e => ?_, fun r e => (by cases e)⟩
      cases e
      generalize min32 (min32 (flush s).availOut (flush s).raw) (flush s).nextIn.length = m at h1 h4
      refine ⟨_, s.inflateBuf.length, 0, m, ⟨Nat.le_refl _, Nat.zero_le _, Nat.le_trans h1 h3, h4, by omega, rfl⟩,
        .inl ?_⟩
      simp [flush, Nat.sub_sub]
  · have hr0 : (flush s).raw = 0 := by omega
    rcases inflateNext_packet (by omega) hr0 rfl with ⟨-, e⟩ | ⟨out, k, r, t, hn, e, hout, ha, -, -, -, hi⟩
    · rw [e]
      refine ⟨fun s' e => (by cases e), fun r e => ?_⟩
      cases e
      exact ⟨_, _, _, _, hF, .inl rfl⟩
    · rw [e]
      refine ⟨fun s' e => ?_, fun r e => (by cases e)⟩
      cases e
      refine ⟨_, _, _, _, hF, .inr ⟨(flush s).nextIn.length - r.length, 0, hr0, Nat.sub_le _ _, Nat.zero_le _, ?_,
        ⟨[], rfl, by rw [hout, List.append_nil]⟩, ha⟩⟩
      rw [hi]
      exact parse_drop hn

/-! ## Whole calls -/

/-- The packer proceeds where it does not stall. -/
theorem proceeds_deflate {s : Stream} (hs : s.Unsigned) (hj : ¬ s.Stalls) : Proceeds deflateStep s := by
  have hinv : ∀ t, Loop.Path deflateStep s t → t.raw < 2 ^ 32 ∧ ¬ t.Stalls := by
    intro t hp
    refine hp.inv (I := fun t => t.raw < 2 ^ 32 ∧ ¬ t.Stalls) (fun t t' ht e => ?_) ⟨hs.raw, hj⟩
    rcases deflateStep_any ht.1 with ⟨u, m, e', hg, hu, -⟩ | ⟨c, e', -⟩
    · rw [e] at e'
      cases e'
      exact ⟨hu, fun h => ht.2 (.of_stores hg h)⟩
    · rw [e] at e'
      cases e'
  refine ⟨fun t t' hp e => ⟨deflateStep_within e, ?_⟩, fun t r hp e => ?_⟩
  · obtain ⟨hR, hn⟩ := hinv t hp
    rcases deflateStep_any hR with ⟨u, m, e', -, -, -, -, hl⟩ | ⟨c, e', -⟩
    · rw [e] at e'
      cases e'
      exact .inl (hl.resolve_right hn)
    · rw [e] at e'
      cases e'
  · rw [deflateStep_done e]
    exact .refl t

/-- The unpacker proceeds where it does not spin. -/
theorem proceeds_inflate {s : Stream} (hs : s.Unsigned) (hj : ¬ s.Spins) : Proceeds inflateStep s := by
  have hinv : ∀ t, Loop.Path inflateStep s t → t.Unsigned ∧ ¬ t.Spins := by
    intro t hp
    refine hp.inv (I := fun t => t.Unsigned ∧ ¬ t.Spins) (fun t t' ht e => ?_) ⟨hs, hj⟩
    rcases inflateStep_any ht.1 with ⟨u, m, e', hg, -⟩ | ⟨c, u, m, e', -⟩
    · rw [e] at e'
      cases e'
      exact ⟨hg.unsigned ht.1, fun h => ht.2 (.of_advances hg h)⟩
    · rw [e] at e'
      cases e'
  refine ⟨fun t t' hp e => ⟨(inflateStep_within t).1 t' e, ?_⟩, fun t r _ e => (inflateStep_within t).2 r e⟩
  obtain ⟨hU, hn⟩ := hinv t hp
  rcases inflateStep_any hU with ⟨u, m, e', -, -, hl⟩ | ⟨c, u, m, e', -⟩
  · rw [e] at e'
    cases e'
    have hlt := hl.resolve_right hn
    omega
  · rw [e] at e'
    cases e'

/-- From whole words, a stream that does not stall is packed. -/
theorem deflates_of_not_stalls {s : Stream} (h8 : s.nextIn.length % 8 = 0) (hs : s.Unsigned) (hj : ¬ s.Stalls) :
    ∃ r, Deflates s r := by
  obtain ⟨r, he, -⟩ := Loop.total deflateStep (I := fun s => s.raw < 2 ^ 32 ∧ ¬ s.Stalls) (Q := fun _ _ => True)
    (fun s => s.nextIn.length)
    (by
      rintro s s' ⟨hs, hj⟩ e
      rcases deflateStep_any hs with ⟨t, m, e', hg, ht, -, -, hμ⟩ | ⟨c, e', -⟩
      · rw [e] at e'; cases e'
        exact ⟨⟨ht, fun h => hj (.of_stores hg h)⟩, hμ.resolve_right hj, fun _ _ => trivial⟩
      · rw [e] at e'; cases e')
    (fun _ _ _ _ => trivial) (s := s) ⟨hs.raw, hj⟩
  exact ⟨r, (deflates_iff h8).mpr he⟩

/-- **The codecs finish** exactly where no `unsigned` minimum of theirs is zero: `capn_deflate`
unless it comes to a raw copy with a multiple of 2³² bytes of input or of room left, `capn_inflate`
unless it comes to a run of zeros or of raw bytes with a multiple of 2³² bytes of room left, or to
a raw copy with a multiple of 2³² bytes of input left. -/
theorem finish_iff {s : Stream} (hs : s.Unsigned) :
    (DeflateFinishes s ↔ s.nextIn.length % 8 ≠ 0 ∨ ¬ s.Stalls) ∧ (InflateFinishes s ↔ ¬ s.Spins) := by
  constructor
  · constructor
    · rintro ⟨⟨r, hr⟩, -⟩
      by_cases h8 : s.nextIn.length % 8 = 0
      · exact .inr fun hj => deflateLoop_stalls hs.raw hj r ((deflates_iff h8).mp hr)
      · exact .inl h8
    · intro h
      by_cases h8 : s.nextIn.length % 8 = 0
      · have hj := h.resolve_left (not_not_intro h8)
        exact ⟨deflates_of_not_stalls h8 hs hj, fun _ => proceeds_deflate hs hj⟩
      · exact ⟨⟨_, 0, by rw [deflate, if_pos h8]⟩, fun h => absurd h h8⟩
  · constructor
    · rintro ⟨⟨r, hr⟩, -⟩ hj
      exact inflate_spins hs hj r hr
    · intro hj
      obtain ⟨c, s', m, he, -⟩ := inflate_any hs hj
      exact ⟨⟨_, he⟩, proceeds_inflate hs hj⟩

/-- Two bytes packed as a run of zeros, for sixteen bytes of room. -/
theorem finish_iff_zeros :
    (DeflateFinishes { nextIn := [0, 0], availOut := 16 } ↔
      [(0 : UInt8), 0].length % 8 ≠ 0 ∨ ¬ ({ nextIn := [0, 0], availOut := 16 } : Stream).Stalls) ∧
    (InflateFinishes { nextIn := [0, 0], availOut := 16 } ↔
      ¬ ({ nextIn := [0, 0], availOut := 16 } : Stream).Spins) :=
  finish_iff ⟨by decide, by decide⟩

/-- With 2³² bytes of room `capn_inflate` never returns from a run of zeros, and with 2³² + 10
bytes `capn_deflate` never returns from two words of ones. -/
theorem finish_fails : ¬ InflateFinishes { nextIn := [0, 0], availOut := 2 ^ 32 } ∧
    ¬ DeflateFinishes { nextIn := List.replicate 16 1, availOut := 2 ^ 32 + 10 } := by
  constructor
  · rintro ⟨⟨r, hr⟩, -⟩
    have hp : parse [0, 0] = some (List.replicate 8 0, 0, []) := by decide
    have hrun : AtRun 0 0 [0, 0] 0 := (atRun_packet hp).mpr ⟨0, by decide, .zero (by decide)⟩
    exact inflate_spins ⟨by decide, by decide⟩ ⟨0, by decide, .inl ⟨⟨0, rfl, hrun⟩, by decide⟩⟩ r hr
  · rintro ⟨⟨r, hr⟩, -⟩
    have hp : packPlace (List.replicate 16 1) = some (10, 8, List.replicate 8 1) := by decide
    have hraw : AtRaw packPlace 0 (List.replicate 16 1) 10 8 :=
      (atRaw_zero hp).mpr ⟨0, rfl, .here (by decide) (by decide)⟩
    have hst : ({ nextIn := List.replicate 16 1, availOut := 2 ^ 32 + 10 } : Stream).Stalls :=
      ⟨10, 8, hraw, by decide, .inr (by decide)⟩
    exact deflateLoop_stalls (by decide) hst r ((deflates_iff (by decide)).mp hr)

end Capnproto

import Capnproto.Stream.Deflate
import Capnproto.Stream.Inflate

/-!
# Packing is lossless

Packing a byte string of whole words and unpacking the result gives the string
back (`lossless_iff`), unless a raw copy comes to a multiple of 2³² bytes of
output room (when packing) or of packed input (when unpacking): `min` compares
these `size_t` counters as `unsigned`, so that the copy moves nothing and the
loop never ends. The places inside raw runs are the same for the packer and the
unpacker, counted from the other end (`atRaw_packed`).
-/

namespace Capnproto

open Packing

/-- The places where an unpacker of a packed form stands inside a raw run are
those of the packer: what is left to read is what was left to store. -/
theorem atRaw_packed {inp : List UInt8} {k n : Nat} (hk : k ≤ inp.length) :
    (∃ o', AtRaw parsePlace k (inp.take k ++ packed (inp.drop k)) o' n) ↔
      ∃ o m, AtRaw packPlace k inp o m ∧ n = (inp.take k ++ packed (inp.drop k)).length - o := by
  induction hl : inp.length using Nat.strongRecOn generalizing inp k n with
  | ind l ih =>
    have htake : (inp.take k).length = k := by rw [List.length_take]; omega
    have hdrop : (inp.take k ++ packed (inp.drop k)).drop k = packed (inp.drop k) :=
      List.drop_left' htake
    have htail : (inp.take k ++ packed (inp.drop k)).length = k + (packed (inp.drop k)).length := by
      rw [List.length_append, htake]
    -- after the raw run, the first packet of what is left
    have hpkt : 8 ≤ (inp.drop k).length → ∃ b e inp',
        parsePlace (packed (inp.drop k)) = some (b, e, inp'.take e ++ packed (inp'.drop e)) ∧
        packPlace (inp.drop k) = some ((firstPacket (inp.drop k)).head.length, e, inp') ∧
        e ≤ inp'.length ∧ inp'.length < l ∧
        (packed (inp.drop k)).length =
          (firstPacket (inp.drop k)).head.length + (inp'.take e ++ packed (inp'.drop e)).length := by
      intro h8
      obtain ⟨hv, -, -, hb, -⟩ := firstPacket_spec h8
      refine ⟨(firstPacket (inp.drop k)).base.length, (firstPacket (inp.drop k)).ext.length,
        (inp.drop k).drop (firstPacket (inp.drop k)).base.length, ?_, by rw [packPlace, if_pos h8], firstPacket_ext_le h8, ?_, ?_⟩
      · rw [packed_eq h8]; exact parsePlace_eq (parse_head hv _)
      · simp only [List.length_drop] at h8 ⊢; omega
      · rw [packed_eq h8, List.length_append]
    constructor
    · rintro ⟨o', h⟩
      generalize e : inp.take k ++ packed (inp.drop k) = tail at h
      cases h with
      | here hk' hr' => exact ⟨o', _, .here hk' (by omega), rfl⟩
      | later hr' hp ht =>
        rw [← e, hdrop] at hp
        by_cases h8 : 8 ≤ (inp.drop k).length
        · obtain ⟨b, x, inp', hq, hq', hle, hlt, hlen⟩ := hpkt h8
          rw [hq] at hp
          cases hp
          obtain ⟨o, m, ho, rfl⟩ := (ih _ hlt hle rfl).mp ⟨_, ht⟩
          refine ⟨_, m, .later hk hq' ho, ?_⟩
          rw [← e, htail, hlen]
          omega
        · rw [packed, packets, dif_neg h8] at hp
          cases hp
    · rintro ⟨o, m, h, rfl⟩
      cases h with
      | here hk' hr' =>
        exact ⟨o, .here hk' (by rw [htail]; omega)⟩
      | later hr' hp ht =>
        have h8 : 8 ≤ (inp.drop k).length := by
          by_contra hn
          rw [packPlace, if_neg hn] at hp
          cases hp
        obtain ⟨b, x, inp', hq, hq', hle, hlt, hlen⟩ := hpkt h8
        rw [hq'] at hp
        cases hp
        obtain ⟨o', h'⟩ := (ih _ hlt hle rfl).mpr ⟨_, m, ht, rfl⟩
        have := AtRaw.later (k := k) (r := inp.take k ++ packed (inp.drop k))
          (by rw [htail]; omega) (by rw [hdrop]; exact hq) h'
        refine ⟨k + b + o', ?_⟩
        rw [htail, hlen]
        rwa [show ∀ a b c : Nat, k + (a + b) - (k + a + c) = b - c by omega]

/-- Packing `bs` with `room` bytes of output, then unpacking as many bytes, gives
`bs` back, uses exactly the packed bytes and leaves nothing pending. -/
def Lossless (bs : List UInt8) (room : Nat) : Prop :=
  ∃ s, Deflates { nextIn := bs, availOut := room } (0, s) ∧
    s.nextIn = [] ∧ s.zeros = 0 ∧ s.raw = 0 ∧ s.inflateBuf = [] ∧
    ∃ t, Inflates { nextIn := s.out, availOut := bs.length } (0, t) ∧
      t.out = bs ∧ t.nextIn = [] ∧ t.zeros = 0 ∧ t.raw = 0 ∧ t.inflateBuf = []

/-- An unpacker whose input is, after the raw run, the bytes of packets. -/
def OnPackets (s : Stream) : Prop :=
  s.raw ≤ s.nextIn.length ∧ ∃ ps : List Packet, (∀ p ∈ ps, p.Valid) ∧
    s.nextIn.drop s.raw = ps.flatMap Packet.bytes

theorem onPackets_step {s : Stream} (h : OnPackets s) :
    (∀ s', inflateStep s = .next s' → OnPackets s') ∧
      ∀ r, inflateStep s = .done r → OnPackets r.2 := by
  have hflush : OnPackets (flush s) := h
  have hfill : OnPackets (fill s) := h
  rw [inflateStep_eq]
  split
  · exact ⟨by simp, by rintro r ⟨⟩; exact hfill⟩
  split
  · exact ⟨by simp, by rintro r ⟨⟩; exact hflush⟩
  have hb : (flush s).inflateBuf = [] := rfl
  generalize flush s = t at hflush hb
  obtain ⟨hle, ps, hv, hps⟩ := hflush
  by_cases hz : 0 < t.zeros
  · rw [inflateNext, if_pos hz]
    exact ⟨by rintro s' ⟨⟩; exact ⟨hle, ps, hv, hps⟩, by simp⟩
  by_cases hr : 0 < t.raw
  · rw [inflateNext, if_neg hz, if_pos hr]
    split
    · exact ⟨by simp, by rintro r ⟨⟩; exact ⟨hle, ps, hv, hps⟩⟩
    · have h1 := min32_le_left (min32 t.availOut t.raw) t.nextIn.length
      have h2 := min32_le_right t.availOut t.raw
      refine ⟨?_, by simp⟩
      rintro s' ⟨⟩
      refine ⟨by simp only [List.length_drop]; omega, ps, hv, ?_⟩
      simp only [List.drop_drop]
      rwa [show ∀ a b : Nat, a ≤ b → a + (b - a) = b by omega]
      omega
  · have hr0 : t.raw = 0 := by omega
    rcases inflateNext_packet (by omega) hr0 hb with ⟨hn, e⟩ | ⟨out, k, r, t', hn, e, -, -, -, -, hr', hi'⟩
    · rw [e]
      exact ⟨by simp, by rintro r ⟨⟩; exact ⟨hle, ps, hv, hps⟩⟩
    · rw [e]
      refine ⟨?_, by simp⟩
      rintro s' ⟨⟩
      rw [hr0, List.drop_zero] at hps
      cases ps with
      | nil => rw [hps] at hn; cases hn
      | cons p ps =>
        rw [hps, List.flatMap_cons, Packet.bytes, List.append_assoc,
          parse_head (hv p List.mem_cons_self)] at hn
        cases hn
        refine ⟨by rw [hr', hi', List.length_append]; omega, ps,
          fun q hq => hv q (List.mem_cons_of_mem _ hq), ?_⟩
        rw [hr', hi', List.drop_left]

/-- An unpacker of packets with nothing left to give has read them all. -/
theorem OnPackets.nextIn_eq_nil {s : Stream} (h : OnPackets s) (ha : s.avail = []) :
    s.nextIn = [] ∧ s.zeros = 0 ∧ s.raw = 0 ∧ s.inflateBuf = [] := by
  obtain ⟨hle, ps, hv, hps⟩ := h
  simp only [Stream.avail, Stream.pre, List.append_eq_nil_iff, List.replicate_eq_nil_iff,
    List.take_eq_nil_iff, hps] at ha
  obtain ⟨⟨⟨hb, hz⟩, hr⟩, hu⟩ := ha
  have hn : ps = [] := by
    cases ps with
    | nil => rfl
    | cons p ps =>
      rw [← List.append_nil (List.flatMap _ _), unpack_packets hv, unpack_nil, List.append_nil,
        List.flatMap_cons, Packet.expand] at hu
      have hp := hv p List.mem_cons_self
      simp only [List.append_eq_nil_iff] at hu
      cases p with
      | zeros n => simp [Packet.base] at hu
      | dense w _ => have := hp.1; rw [show w = [] from hu.1.1] at this; cases this
      | sparse w => have := hp.1; rw [show w = [] from hu.1.1] at this; cases this
  rw [hn, List.flatMap_nil, List.drop_eq_nil_iff] at hps
  have hr0 : s.raw = 0 := by
    rcases hr with h | h
    · exact h
    · rw [h] at hle; simpa using hle
  refine ⟨List.length_eq_zero_iff.mp (by omega), hz, hr0, hb⟩

/-- A stream that stalls is not packed at all. -/
theorem Lossless.not_stalls {bs : List UInt8} {room : Nat} (h8 : bs.length % 8 = 0)
    (h : Lossless bs room) : ¬ ({ nextIn := bs, availOut := room } : Stream).Stalls := fun hs => by
  have ha : ({ nextIn := bs, availOut := room } : Stream).Aligned :=
    ⟨Nat.zero_le _, Nat.dvd_of_mod_eq_zero h8, Nat.two_pow_pos 32⟩
  obtain ⟨s, hd, -⟩ := h
  exact deflateLoop_stalls ha.raw_lt hs _ ((deflates_iff h8).mp hd)

/-- **Packing is lossless**, for whole words below 2³² bytes and room for their
packed form, exactly when no raw byte is stored with a multiple of 2³² bytes of
room left, or read with a multiple of 2³² packed bytes left. -/
theorem lossless_iff {bs : List UInt8} {room : Nat} (h8 : bs.length % 8 = 0)
    (hlt : bs.length < 2 ^ 32) (hroom : (packed bs).length ≤ room) :
    Lossless bs room ↔ ∀ o n, AtRaw packPlace 0 bs o n →
      (room - o) % 2 ^ 32 ≠ 0 ∧ ((packed bs).length - o) % 2 ^ 32 ≠ 0 := by
  have hle : ∀ o n, AtRaw packPlace 0 bs o n → o < (packed bs).length := by
    intro o n h
    obtain ⟨o', h'⟩ := (atRaw_packed (Nat.zero_le bs.length)).mpr ⟨o, n, h, rfl⟩
    have := h'.pos
    simp only [List.take_zero, List.drop_zero, List.nil_append] at this
    omega
  have hst : ({ nextIn := bs, availOut := room } : Stream).Stalls ↔
      ∃ o n, AtRaw packPlace 0 bs o n ∧ (room - o) % 2 ^ 32 = 0 := by
    constructor
    · rintro ⟨o, n, hp, ho, hn | hn⟩
      · have h1 := hp.pos
        have h2 := hp.le_length packPlace_length
        simp only at h2
        omega
      · exact ⟨o, n, hp, hn⟩
    · rintro ⟨o, n, hp, hn⟩
      exact ⟨o, n, hp, Nat.lt_of_lt_of_le (hle o n hp) hroom, .inr hn⟩
  have hsm : ({ nextIn := packed bs, availOut := bs.length } : Stream).Small :=
    ⟨hlt, Nat.two_pow_pos 32, Nat.two_pow_pos 32⟩
  have hav : ({ nextIn := packed bs, availOut := bs.length } : Stream).avail = bs := by
    simp [Stream.avail, Stream.pre, unpack_packed (Nat.dvd_of_mod_eq_zero h8)]
  have hjm : ({ nextIn := packed bs, availOut := bs.length } : Stream).Jams ↔
      ∃ o n, AtRaw packPlace 0 bs o n ∧ ((packed bs).length - o) % 2 ^ 32 = 0 := by
    have hpos : ∀ o n, ({ nextIn := packed bs, availOut := bs.length } : Stream).AtPos o n ↔
        AtRaw parsePlace 0 (packed bs) o n := by
      intro o n
      simp [Stream.AtPos, Stream.pre]
    have hat := fun n => @atRaw_packed bs 0 n (Nat.zero_le _)
    simp only [List.take_zero, List.drop_zero, List.nil_append] at hat
    constructor
    · rintro ⟨o, n, hp, -, hn⟩
      obtain ⟨o', m, h, rfl⟩ := (hat n).mp ⟨o, (hpos o n).mp hp⟩
      exact ⟨o', m, h, hn⟩
    · rintro ⟨o, m, h, hn⟩
      obtain ⟨o', h'⟩ := (hat _).mpr ⟨o, m, h, rfl⟩
      refine ⟨o', _, (hpos _ _).mpr h', ?_, hn⟩
      have := h'.lt_unpack
      rwa [List.take_zero, List.drop_zero, List.nil_append,
        unpack_packed (Nat.dvd_of_mod_eq_zero h8)] at this
  constructor
  · intro hL o n hp
    have hns := hL.not_stalls h8
    obtain ⟨s, hd, -, -, -, -, t, hi, -⟩ := hL
    have e := Loop.Ends.unique ((deflates_iff h8).mp hd)
      ((deflates_iff h8).mp (deflate_ok rfl h8 hroom hns))
    cases e
    refine ⟨fun h => hns (hst.mpr ⟨o, n, hp, h⟩), fun h => ?_⟩
    simp only [List.nil_append] at hi
    exact inflate_jams hsm (hjm.mpr ⟨o, n, hp, h⟩) _ hi
  · intro h
    have hns : ¬ ({ nextIn := bs, availOut := room } : Stream).Stalls := fun hs => by
      obtain ⟨o, n, hp, hn⟩ := hst.mp hs
      exact (h o n hp).1 hn
    have hnj : ¬ ({ nextIn := packed bs, availOut := bs.length } : Stream).Jams := fun hj => by
      obtain ⟨o, n, hp, hn⟩ := hjm.mp hj
      exact (h o n hp).2 hn
    refine ⟨_, deflate_ok rfl h8 hroom hns, rfl, rfl, rfl, rfl, ?_⟩
    rcases inflate_cases hsm hnj with ⟨-, t, hi, hg, -⟩ | ⟨hl, -⟩
    · have hon : OnPackets t := Loop.ends_inv (Q := fun r => OnPackets r.2)
        (fun s s' hs e => (onPackets_step hs).1 s' e) (fun s r hs e => (onPackets_step hs).2 r e)
        (s := { nextIn := packed bs, availOut := bs.length })
        ⟨Nat.zero_le _, packets bs, packets_valid bs, rfl⟩ hi
      have ht : t.avail = [] := by rw [hg.todo, hav]; simp
      obtain ⟨h1, h2, h3, h4⟩ := hon.nextIn_eq_nil ht
      refine ⟨t, hi, ?_, h1, h2, h3, h4⟩
      rw [hg.out, hav]
      simp
    · rw [hav] at hl
      exact absurd hl (Nat.lt_irrefl _)

/-- At 16 bytes of room, two words of ones are packed and unpacked. -/
theorem lossless_iff_ones : Lossless (List.replicate 16 1) 32 ↔
    ∀ o n, AtRaw packPlace 0 (List.replicate 16 1) o n →
      (32 - o) % 2 ^ 32 ≠ 0 ∧ ((packed (List.replicate 16 1)).length - o) % 2 ^ 32 ≠ 0 :=
  lossless_iff (by decide) (by decide) (packed_length_le _)

/-- Two words of ones and 2³² + 10 bytes of room: the raw word is copied with
2³² bytes of room left, and `capn_deflate` never returns. -/
theorem lossless_fails : (List.replicate 16 (1 : UInt8)).length % 8 = 0 ∧
    (packed (List.replicate 16 1)).length ≤ 2 ^ 32 + 10 ∧
    ¬ Lossless (List.replicate 16 1) (2 ^ 32 + 10) := by
  refine ⟨by decide, Nat.le_trans (packed_length_le _) (by decide), fun h => ?_⟩
  refine h.not_stalls (by decide) ⟨10, 8, ?_, by decide, .inr (by decide)⟩
  have hp : packPlace (List.replicate 16 1) = some (10, 8, List.replicate 8 1) := by decide
  exact (atRaw_zero hp).mpr ⟨0, rfl, .here (by decide) (by decide)⟩

end Capnproto

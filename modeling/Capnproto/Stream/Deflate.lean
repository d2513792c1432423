import Capnproto.Stream.Codec
import Mathlib.Data.List.GetD
import Mathlib.Data.List.Induction

/-!
# What `capn_deflate` stores

`capn_deflate` cuts its input into packets (`packets`), which stand for the
input (`packets_expand`), and stores their bytes in order (`Stores`), however
the output is split into calls: a call stops with 0 once the input is used up,
and asks for more once the output is full or the next packet's head does not
fit (`deflateStep_spec`, by cases on one iteration; `deflate_ok`). It jams
(`Stream.Stalls`) at a raw copy with a multiple of 2³² bytes of input or of
output left.
-/

namespace Capnproto

open Packing

/-! ## The packets of an input -/

/-- The packet `capn_deflate` makes of the first words of its input. -/
def firstPacket (inp : List UInt8) : Packet :=
  let w := inp.take 8
  let next := inp.drop 8
  if (w.filter (· ≠ 0)).length = 0 then .zeros (zeroWords (min32 (inp.length / 8) 256 - 1) next)
  else if (w.filter (· ≠ 0)).length = 8 then
    .dense w (next.take (rawWords (min (next.length / 8) 255) next * 8))
  else .sparse w

theorem zeroWords_le (n : Nat) (w : List UInt8) : zeroWords n w ≤ n := by
  induction n generalizing w with
  | zero => exact Nat.le_refl _
  | succ n ih =>
    rw [zeroWords]
    have := ih (w.drop 8)
    split <;> omega

theorem zeroWords_take (n : Nat) (w : List UInt8) :
    w.take (zeroWords n w * 8) = List.replicate (zeroWords n w * 8) 0 := by
  induction n generalizing w with
  | zero => simp [zeroWords]
  | succ n ih =>
    rw [zeroWords]
    split
    · rename_i h
      rw [Nat.add_mul, Nat.one_mul, Nat.add_comm, List.take_add, h, ih, List.replicate_append_replicate]
    · simp

theorem rawWords_le (n : Nat) (w : List UInt8) : rawWords n w ≤ n := by
  induction n generalizing w with
  | zero => exact Nat.le_refl _
  | succ n ih =>
    rw [rawWords]
    have := ih (w.drop 8)
    split <;> omega

/-- The loop of a scan, with the bits for the bytes that are nonzero. -/
theorem foldl_bits (bs : List Bool) :
    (List.range bs.length).foldl
      (fun (p : Nat × UInt8) i => if bs.getD i false = true then (p.1 + 1, p.2 ||| UInt8.ofNat (1 <<< i)) else p) (0, 0) =
      (bs.count true, UInt8.ofNat (ofBits bs)) := by
  induction bs using List.reverseRecOn with
  | nil => rfl
  | append_singleton bs b ih =>
    rw [List.length_append, List.length_singleton, List.range_succ, List.foldl_append]
    have hfold : ∀ (is : List Nat) (r : Nat × UInt8), (∀ i ∈ is, i < bs.length) → is.foldl
        (fun (p : Nat × UInt8) i => if (bs ++ [b]).getD i false = true then (p.1 + 1, p.2 ||| UInt8.ofNat (1 <<< i)) else p) r =
        is.foldl (fun (p : Nat × UInt8) i => if bs.getD i false = true then (p.1 + 1, p.2 ||| UInt8.ofNat (1 <<< i)) else p) r := by
      intro is r hi
      refine List.foldl_ext _ _ _ fun p i hmem => ?_
      rw [List.getD_append _ _ _ _ (hi i hmem)]
    rw [hfold _ _ fun i hi => List.mem_range.mp hi, ih]
    have hlast : (bs ++ [b]).getD bs.length false = b := by
      rw [List.getD_append_right _ _ _ _ (Nat.le_refl _), Nat.sub_self]
      rfl
    simp only [List.foldl_cons, List.foldl_nil, hlast]
    cases b with
    | false => simp [ofBits_append]
    | true =>
      have hor : ofBits bs ||| 1 <<< bs.length = ofBits (bs ++ [true]) := by
        have hadd := Nat.two_pow_add_eq_or_of_lt (ofBits_lt bs) 1
        rw [Nat.mul_one] at hadd
        rw [ofBits_append, Nat.one_shiftLeft, Nat.or_comm, ← hadd, Bool.toNat_true, Nat.mul_one, Nat.add_comm]
      rw [if_pos rfl, ← UInt8.ofNat_or, hor]
      simp

/-- The scan of a word counts its nonzero bytes and makes its tag. -/
theorem scanWord_eq {w : List UInt8} (h : w.length = 8) :
    scanWord w = ((w.filter (· ≠ 0)).length, tagOf w) := by
  have hbits := foldl_bits (w.map fun b => decide (b ≠ 0))
  rw [List.length_map, h, count_map_nonzero] at hbits
  rw [tagOf, ← hbits, scanWord]
  refine List.foldl_ext _ _ _ fun p i hi => ?_
  have hi := List.mem_range.mp hi
  have hget : (w.map fun b => decide (b ≠ 0)).getD i false = decide (w.getD i 0 ≠ 0) := by
    simp [List.getD_eq_getElem?_getD, List.getElem?_eq_getElem (show i < w.length by omega)]
  obtain ⟨sz, hdr⟩ := p
  rw [hget]
  simp only [decide_eq_true_eq]

/-- What a word with all, some or none of its bytes nonzero has for a tag. -/
theorem tagOf_ne {w : List UInt8} (hw : w.length = 8) (h0 : (w.filter (· ≠ 0)).length ≠ 0)
    (h8 : (w.filter (· ≠ 0)).length ≠ 8) : tagOf w ≠ 0 ∧ tagOf w ≠ 0xFF := by
  have hc : (tagBits (tagOf w)).count true = (w.filter (· ≠ 0)).length := by
    rw [tagBits_tagOf hw, count_map_nonzero]
  constructor
  · intro h
    rw [h] at hc
    exact h0 (hc.symm.trans (by decide))
  · intro h
    rw [h] at hc
    exact h8 (hc.symm.trans (by decide))

theorem firstPacket_spec {inp : List UInt8} (h : 8 ≤ inp.length) :
    (firstPacket inp).Valid ∧ (firstPacket inp).base = inp.take (firstPacket inp).base.length ∧
      (firstPacket inp).ext = (inp.drop (firstPacket inp).base.length).take (firstPacket inp).ext.length ∧
      8 ≤ (firstPacket inp).base.length ∧ 8 ∣ (firstPacket inp).base.length ∧
      8 ∣ (firstPacket inp).ext.length := by
  have hw : (inp.take 8).length = 8 := by rw [List.length_take]; omega
  simp only [firstPacket]
  split
  · rename_i h0
    have hz : inp.take 8 = List.replicate 8 0 := by
      refine List.eq_replicate_iff.mpr ⟨hw, fun b hb => ?_⟩
      by_contra hne
      have : b ∈ (inp.take 8).filter (· ≠ 0) := List.mem_filter.mpr ⟨hb, by simpa using hne⟩
      rw [List.length_eq_zero_iff.mp h0] at this
      cases this
    have hle := zeroWords_le (min32 (inp.length / 8) 256 - 1) (inp.drop 8)
    have ht := zeroWords_take (min32 (inp.length / 8) 256 - 1) (inp.drop 8)
    have hm := min32_le_right (inp.length / 8) 256
    generalize zeroWords (min32 (inp.length / 8) 256 - 1) (inp.drop 8) = n at hle ht
    refine ⟨show n < 256 by omega, ?_, rfl, ?_, ?_, by simp [Packet.ext]⟩
    · simp only [Packet.base, List.length_replicate]
      rw [show (n + 1) * 8 = 8 + n * 8 by omega, List.take_add, hz, ht,
        List.replicate_append_replicate]
    · simp only [Packet.base, List.length_replicate]; omega
    · simp only [Packet.base, List.length_replicate]; exact Nat.dvd_mul_left _ _
  · split
    · have hle := rawWords_le (min ((inp.drop 8).length / 8) 255) (inp.drop 8)
      generalize rawWords (min ((inp.drop 8).length / 8) 255) (inp.drop 8) = n at hle
      have hl : ((inp.drop 8).take (n * 8)).length = n * 8 := by
        rw [List.length_take]; omega
      refine ⟨⟨hw, ?_, ?_⟩, ?_, ?_, ?_, ?_, ?_⟩
      · rw [hl]; exact Nat.dvd_mul_left _ _
      · rw [hl]; omega
      · simp only [Packet.base, hw]
      · simp only [Packet.base, Packet.ext, hw, hl]
      · simp only [Packet.base, hw]; omega
      · simp only [Packet.base, hw]; exact Nat.dvd_refl 8
      · simp only [Packet.ext, hl]; exact Nat.dvd_mul_left _ _
    · rename_i h0 h8
      refine ⟨⟨hw, tagOf_ne hw h0 h8⟩, ?_, rfl, ?_, ?_, by simp [Packet.ext]⟩
      · simp only [Packet.base, hw]
      · simp only [Packet.base, hw]; omega
      · simp only [Packet.base, hw]; exact Nat.dvd_refl 8

theorem firstPacket_ext_le {inp : List UInt8} (h : 8 ≤ inp.length) :
    (firstPacket inp).ext.length ≤ (inp.drop (firstPacket inp).base.length).length := by
  obtain ⟨-, -, he, -⟩ := firstPacket_spec h
  have := congrArg List.length he
  rw [List.length_take] at this
  omega

theorem firstPacket_expand {inp : List UInt8} (h : 8 ≤ inp.length) :
    (firstPacket inp).expand ++ inp.drop (firstPacket inp).expand.length = inp := by
  obtain ⟨-, hb, he, -⟩ := firstPacket_spec h
  have hl := congrArg List.length hb
  have hm := firstPacket_ext_le h
  rw [Packet.expand, List.length_append, ← List.drop_drop]
  conv_lhs => enter [1]; rw [hb, he]
  rw [List.append_assoc, List.take_append_drop, List.take_append_drop]

/-- The packets `capn_deflate` makes of its input. -/
def packets (inp : List UInt8) : List Packet :=
  if _h : 8 ≤ inp.length then
    firstPacket inp :: packets (inp.drop (firstPacket inp).expand.length)
  else []
termination_by inp.length
decreasing_by
  have := (firstPacket_spec _h).2.2.2.1
  simp only [List.length_drop, Packet.expand, List.length_append]
  omega

/-- The packed form of an input. -/
def packed (inp : List UInt8) : List UInt8 := (packets inp).flatMap Packet.bytes

theorem packets_nil : packets [] = [] := by rw [packets, dif_neg (by simp)]

@[simp] theorem packed_nil : packed [] = [] := by simp [packed, packets_nil]

theorem packed_cons {inp : List UInt8} (h : 8 ≤ inp.length) :
    packed inp = (firstPacket inp).head ++ (firstPacket inp).ext ++
      packed (inp.drop (firstPacket inp).expand.length) := by
  rw [packed, packets, dif_pos h, List.flatMap_cons]
  rfl

/-- The packed form of an input, by what the packer has done once it stored the
head of the first packet: its raw words are still in the input. -/
theorem packed_eq {inp : List UInt8} (h : 8 ≤ inp.length) :
    packed inp = (firstPacket inp).head ++
      ((inp.drop (firstPacket inp).base.length).take (firstPacket inp).ext.length ++
        packed ((inp.drop (firstPacket inp).base.length).drop (firstPacket inp).ext.length)) := by
  obtain ⟨-, -, he, -⟩ := firstPacket_spec h
  rw [packed_cons h, ← he, List.drop_drop, ← List.length_append, List.append_assoc]
  rfl

theorem packets_valid (inp : List UInt8) : ∀ p ∈ packets inp, p.Valid := by
  induction inp using packets.induct with
  | case1 inp h ih =>
    rw [packets, dif_pos h]
    exact List.forall_mem_cons.mpr ⟨(firstPacket_spec h).1, ih⟩
  | case2 inp h => rw [packets, dif_neg h]; simp

/-- The packets stand for the input. -/
theorem packets_expand (inp : List UInt8) (h8 : 8 ∣ inp.length) :
    (packets inp).flatMap Packet.expand = inp := by
  induction inp using packets.induct with
  | case1 inp h ih =>
    obtain ⟨-, -, -, -, hb, he⟩ := firstPacket_spec h
    have hd : 8 ∣ (firstPacket inp).expand.length := by
      rw [Packet.expand, List.length_append]; exact Nat.dvd_add hb he
    rw [packets, dif_pos h, List.flatMap_cons, ih (by rw [List.length_drop]; exact Nat.dvd_sub h8 hd),
      firstPacket_expand h]
  | case2 inp h =>
    rw [packets, dif_neg h]
    have : inp.length = 0 := by omega
    rw [List.length_eq_zero_iff.mp this]; rfl

/-- A packed form is at most twice as long as its input. -/
theorem packed_length_le (inp : List UInt8) : (packed inp).length ≤ 2 * inp.length := by
  induction inp using packets.induct with
  | case1 inp h ih =>
    obtain ⟨hv, hb, -, h8, -⟩ := firstPacket_spec h
    have hl := congrArg List.length (firstPacket_expand h)
    have hh : (firstPacket inp).head.length ≤ 2 * (firstPacket inp).base.length := by
      cases hp : firstPacket inp with
      | zeros n => simp only [Packet.head, Packet.base, List.length_replicate, List.length_cons]; simp; omega
      | dense w ext =>
        rw [hp] at hv
        simp only [Packet.head, Packet.base, List.length_cons, List.length_append, hv.1]; simp
      | sparse w =>
        rw [hp] at hv
        have := List.length_filter_le (· ≠ 0) w
        simp only [Packet.head, Packet.base, List.length_cons, hv.1] at this ⊢
        omega
    rw [packed_cons h]
    simp only [List.length_append, Packet.expand] at hl ih ⊢
    omega
  | case2 inp h => rw [packed, packets, dif_neg h]; simp

/-- **Unpacking undoes packing.** -/
theorem unpack_packed {inp : List UInt8} (h8 : 8 ∣ inp.length) : unpack (packed inp) = inp := by
  have := unpack_packets (packets_valid inp) []
  rwa [List.append_nil, unpack_nil, List.append_nil, packets_expand inp h8] at this

/-- `firstPacket`, for the places inside raw runs. -/
def packPlace (inp : List UInt8) : Option (Nat × Nat × List UInt8) :=
  if 8 ≤ inp.length then
    some ((firstPacket inp).head.length, (firstPacket inp).ext.length,
      inp.drop (firstPacket inp).base.length)
  else none

theorem packPlace_length {inp r : List UInt8} {a k : Nat} (h : packPlace inp = some (a, k, r)) :
    r.length < inp.length := by
  rw [packPlace] at h
  split at h
  · rename_i h8
    cases h
    have := (firstPacket_spec h8).2.2.2.1
    simp only [List.length_drop]
    omega
  · cases h

namespace Stream

/-- All the bytes a packer has to store for its input. -/
def rest (s : Stream) : List UInt8 := s.nextIn.take s.raw ++ packed (s.nextIn.drop s.raw)

/-- After `o` more bytes, the packer stands inside a raw run with `n` bytes of
input left. -/
def InRaw (s : Stream) (o n : Nat) : Prop := AtRaw packPlace s.raw s.nextIn o n

/-- The packer comes to a raw copy that moves nothing. -/
def Stalls (s : Stream) : Prop :=
  ∃ o n, s.InRaw o n ∧ o < s.availOut ∧ (n % 2 ^ 32 = 0 ∨ (s.availOut - o) % 2 ^ 32 = 0)

/-- A packer inside a raw run of whole words, with whole words after it. -/
structure Aligned (s : Stream) : Prop where
  raw_le : s.raw ≤ s.nextIn.length
  words : 8 ∣ s.nextIn.length - s.raw
  raw_lt : s.raw < 2 ^ 32

theorem aligned {s : Stream} (hr : s.raw = 0) (h8 : s.nextIn.length % 8 = 0) : s.Aligned :=
  ⟨by omega, by rw [hr]; omega, by omega⟩

end Stream

/-- `s'` is `s` after the packer stored `m` bytes; what only the unpacker uses
is kept. -/
structure Stores (s s' : Stream) (m : Nat) : Prop where
  delivers : Delivers Stream.rest Stream.InRaw s s' m
  zeros : s'.zeros = s.zeros
  inflateBuf : s'.inflateBuf = s.inflateBuf

theorem Stores.trans {s₁ s₂ s₃ : Stream} {a b : Nat} (h : Stores s₁ s₂ a) (h' : Stores s₂ s₃ b) :
    Stores s₁ s₃ (a + b) :=
  ⟨h.delivers.trans h'.delivers, h'.zeros.trans h.zeros, h'.inflateBuf.trans h.inflateBuf⟩

/-- A packer that does not stall still does not after storing some bytes. -/
theorem Stream.Stalls.of_stores {s s' : Stream} {m : Nat} (h : Stores s s' m) (hj : s'.Stalls) :
    s.Stalls := by
  obtain ⟨o, n, hp, ho, hn⟩ := hj
  rw [h.delivers.availOut] at ho hn
  refine ⟨m + o, n, (h.delivers.place o n).mp hp, by omega, ?_⟩
  rwa [← Nat.sub_sub]

/-! ## One iteration -/

/-- With no raw run, an iteration stores the head of a packet, if it fits. -/
theorem deflateStep_packet {s : Stream} (hr : s.raw = 0) (h : 8 ≤ s.nextIn.length)
    (h0 : s.availOut ≠ 0) :
    deflateStep s =
      if s.availOut < (firstPacket s.nextIn).head.length then .done (CAPN_NEED_MORE, s)
      else .next { s with
        out := s.out ++ (firstPacket s.nextIn).head
        nextIn := s.nextIn.drop (firstPacket s.nextIn).base.length
        availOut := s.availOut - (firstPacket s.nextIn).head.length
        raw := (firstPacket s.nextIn).ext.length } := by
  have hw : (s.nextIn.take 8).length = 8 := by rw [List.length_take]; omega
  simp only [deflateStep, scanWord_eq hw, firstPacket]
  rw [if_neg (by omega), if_neg h0, if_neg (by omega), if_neg (by omega)]
  by_cases h0 : ((s.nextIn.take 8).filter (· ≠ 0)).length = 0
  · simp only [h0, ite_true, Packet.head, Packet.base, Packet.ext, List.length_cons, List.length_nil,
      List.length_replicate, Nat.add_sub_cancel, hr]
  · simp only [h0, ite_false]
    by_cases h8 : ((s.nextIn.take 8).filter (· ≠ 0)).length = 8
    · have hle := rawWords_le (min ((s.nextIn.drop 8).length / 8) 255) (s.nextIn.drop 8)
      have hl : ((s.nextIn.drop 8).take
          (rawWords (min ((s.nextIn.drop 8).length / 8) 255) (s.nextIn.drop 8) * 8)).length =
          rawWords (min ((s.nextIn.drop 8).length / 8) 255) (s.nextIn.drop 8) * 8 := by
        rw [List.length_take]; omega
      simp only [h8, ite_true, Packet.head, Packet.base, Packet.ext, hl, List.length_cons,
        List.length_append, List.length_nil, hw]
    · simp only [h8, ite_false, Packet.head, Packet.base, Packet.ext, List.length_cons, hw,
        List.length_nil, hr, Nat.add_comm 1]

/-- Storing the head of a packet. -/
theorem stores_packet {s s' : Stream} (hr : s.raw = 0) (h : 8 ≤ s.nextIn.length)
    (hf : (firstPacket s.nextIn).head.length ≤ s.availOut)
    (e : s' = { s with
      out := s.out ++ (firstPacket s.nextIn).head
      nextIn := s.nextIn.drop (firstPacket s.nextIn).base.length
      availOut := s.availOut - (firstPacket s.nextIn).head.length
      raw := (firstPacket s.nextIn).ext.length }) :
    Stores s s' (firstPacket s.nextIn).head.length := by
  have hrest : s.rest = (firstPacket s.nextIn).head ++ s'.rest := by
    subst e
    simp only [Stream.rest, hr, List.take_zero, List.drop_zero, List.nil_append]
    exact packed_eq h
  refine ⟨⟨hf, ?_, ?_, by rw [e], ?_, fun o n => ?_⟩, by rw [e], by rw [e]⟩
  · rw [hrest, List.length_append]; omega
  · rw [hrest, List.take_left, e]
  · rw [hrest, List.drop_left]
  · have hp : packPlace s.nextIn = some ((firstPacket s.nextIn).head.length,
        (firstPacket s.nextIn).ext.length, s.nextIn.drop (firstPacket s.nextIn).base.length) := by
      rw [packPlace, if_pos h]
    simp only [Stream.InRaw, hr]
    rw [atRaw_zero hp, e]
    constructor
    · intro h; exact ⟨o, rfl, h⟩
    · rintro ⟨o', e', h⟩
      rwa [show o = o' by omega]

/-- Copying `m` bytes of a raw run. -/
theorem stores_raw {s : Stream} {m : Nat} (hm : m ≤ s.raw) (hi : m ≤ s.nextIn.length)
    (ho : m ≤ s.availOut) :
    Stores s { s with
      out := s.out ++ s.nextIn.take m, nextIn := s.nextIn.drop m
      availOut := s.availOut - m, raw := s.raw - m } m where
  delivers :=
    { le_availOut := ho
      le_length := by simp only [Stream.rest, List.length_append, List.length_take]; omega
      out := by
        simp only [Stream.rest]
        rw [List.take_append_of_le_length (by rw [List.length_take]; omega), List.take_take,
          Nat.min_eq_left hm]
      availOut := rfl
      todo := by
        simp only [Stream.rest, List.drop_drop]
        rw [List.drop_append_of_le_length (by rw [List.length_take]; omega), ← List.drop_take,
          show m + (s.raw - m) = s.raw by omega]
      place := fun o n => AtRaw.drop hm hi }
  zeros := rfl
  inflateBuf := rfl

/-- Where a call of `capn_deflate` stops: at the end of its input, or for lack
of room, at a full output or before a head that does not fit. -/
def Stops (c : Int) (s : Stream) : Prop :=
  c = 0 ∧ s.nextIn = [] ∨
  c = CAPN_NEED_MORE ∧ s.nextIn ≠ [] ∧
    (s.availOut = 0 ∨ s.raw = 0 ∧ s.availOut < (firstPacket s.nextIn).head.length)

/-- What one iteration of `capn_deflate` does, from any state: it stores some bytes, passing no
place where it would stall, and goes on with less input unless it stalls; or it stops. -/
theorem deflateStep_any {s : Stream} (hR : s.raw < 2 ^ 32) :
    (∃ s' m, deflateStep s = .next s' ∧ Stores s s' m ∧ s'.raw < 2 ^ 32 ∧ (s.Aligned → s'.Aligned) ∧
      (∀ o n, s.InRaw o n → o < s.availOut → n % 2 ^ 32 = 0 ∨ (s.availOut - o) % 2 ^ 32 = 0 → m ≤ o) ∧
      (s'.nextIn.length < s.nextIn.length ∨ s.Stalls)) ∨
    ∃ c, deflateStep s = .done (c, s) ∧ (s.Aligned → Stops c s) ∧ ¬ s.Stalls := by
  by_cases hi : s.nextIn = []
  · refine .inr ⟨0, by simp [deflateStep, hi], fun _ => .inl ⟨rfl, hi⟩, ?_⟩
    rintro ⟨o, n, hp, -⟩
    have h1 := hp.pos
    have h2 := hp.le_length packPlace_length
    simp only [hi, List.length_nil] at h2
    omega
  have hl : 0 < s.nextIn.length := List.length_pos_iff.mpr hi
  by_cases h0 : s.availOut = 0
  · refine .inr ⟨CAPN_NEED_MORE, ?_, fun _ => .inr ⟨rfl, hi, .inl h0⟩, ?_⟩
    · rw [deflateStep, if_neg (by omega), if_pos h0]
    · rintro ⟨o, n, -, ho, -⟩; omega
  by_cases hr : 0 < s.raw
  · have h1 := min32_le_left s.raw (min32 s.nextIn.length s.availOut)
    have h2 := min32_le_right s.raw (min32 s.nextIn.length s.availOut)
    have h3 := min32_le_left s.nextIn.length s.availOut
    have h4 := min32_le_right s.nextIn.length s.availOut
    have h5 := min32_le_mod s.nextIn.length s.availOut
    have h6 : min32 s.nextIn.length s.availOut ≤ s.nextIn.length % 2 ^ 32 := Nat.min_le_left _ _
    have hg := stores_raw h1 (Nat.le_trans h2 h3) (Nat.le_trans h2 h4)
    refine .inl ⟨_, _, by rw [deflateStep, if_neg (by omega), if_neg h0, if_pos hr], hg,
      Nat.lt_of_le_of_lt (Nat.sub_le _ _) hR, fun hs => ⟨?_, ?_, ?_⟩, ?_, ?_⟩
    · have hA := hs.raw_le
      simp only [List.length_drop]
      omega
    · have hA := hs.raw_le
      simp only [List.length_drop]
      rw [show s.nextIn.length - min32 s.raw (min32 s.nextIn.length s.availOut) -
        (s.raw - min32 s.raw (min32 s.nextIn.length s.availOut)) = s.nextIn.length - s.raw by omega]
      exact hs.words
    · exact Nat.lt_of_le_of_lt (Nat.sub_le _ _) hR
    · -- what is copied is at most the input, and the room, left modulo 2³²
      intro o n hp ho hn
      by_contra hlt
      simp only [Stream.InRaw] at hp
      cases hp with
      | here hk hr' => omega
      | later hr' _ _ => omega
    · by_cases hmod : s.nextIn.length % 2 ^ 32 = 0 ∨ s.availOut % 2 ^ 32 = 0
      · exact .inr ⟨0, s.nextIn.length, .here hr hl, by omega, by simpa using hmod⟩
      · refine .inl ?_
        simp only [List.length_drop, min32]
        omega
  have hr0 : s.raw = 0 := by omega
  by_cases h8 : s.nextIn.length < 8
  · refine .inr ⟨CAPN_NEED_MORE, ?_, fun hs => ?_, ?_⟩
    · rw [deflateStep, if_neg (by omega), if_neg h0, if_neg hr, if_pos h8]
    · have hW := hs.words
      omega
    · rintro ⟨o, n, hp, -⟩
      simp only [Stream.InRaw, hr0] at hp
      exact not_atRaw (by rw [packPlace, if_neg (by omega)]) hp
  have h8 : 8 ≤ s.nextIn.length := Nat.le_of_not_lt h8
  rw [deflateStep_packet hr0 h8 h0]
  by_cases hf : s.availOut < (firstPacket s.nextIn).head.length
  · rw [if_pos hf]
    refine .inr ⟨_, rfl, fun _ => .inr ⟨rfl, hi, .inr ⟨hr0, hf⟩⟩, ?_⟩
    rintro ⟨o, n, hp, ho, -⟩
    simp only [Stream.InRaw, hr0] at hp
    obtain ⟨o', rfl, -⟩ := (atRaw_zero (by rw [packPlace, if_pos h8])).mp hp
    omega
  rw [if_neg hf]
  obtain ⟨hv, -, -, hb8, hbd, hed⟩ := firstPacket_spec h8
  have hlt : (firstPacket s.nextIn).ext.length < 2 ^ 32 := by
    cases hp : firstPacket s.nextIn with
    | zeros | sparse => simp [Packet.ext]
    | dense w ext =>
      rw [hp] at hv
      have := hv.2.2
      simp only [Packet.ext]
      omega
  have hle := firstPacket_ext_le h8
  simp only [List.length_drop] at hle
  refine .inl ⟨_, _, rfl, stores_packet hr0 h8 (Nat.le_of_not_lt hf) rfl, hlt, fun hs => ⟨?_, ?_, hlt⟩, ?_, .inl ?_⟩
  · simpa only [List.length_drop] using hle
  · have hW := hs.words
    simp only [List.length_drop]
    rw [hr0, Nat.sub_zero] at hW
    exact Nat.dvd_sub (Nat.dvd_sub hW hbd) hed
  · intro o n hp _ _
    simp only [Stream.InRaw, hr0] at hp
    obtain ⟨o', rfl, -⟩ := (atRaw_zero (by rw [packPlace, if_pos h8])).mp hp
    omega
  · simp only [List.length_drop]
    omega

/-- One iteration of `capn_deflate` between whole words. -/
theorem deflateStep_spec {s : Stream} (hs : s.Aligned) :
    (∃ s' m, deflateStep s = .next s' ∧ Stores s s' m ∧ s'.Aligned ∧
      (∀ o n, s.InRaw o n → o < s.availOut → n % 2 ^ 32 = 0 ∨ (s.availOut - o) % 2 ^ 32 = 0 → m ≤ o) ∧
      (s'.nextIn.length < s.nextIn.length ∨ s.Stalls)) ∨
    ∃ c, deflateStep s = .done (c, s) ∧ Stops c s ∧ ¬ s.Stalls := by
  rcases deflateStep_any hs.raw_lt with ⟨s', m, e, hg, -, ha, hp, hl⟩ | ⟨c, e, hc, hn⟩
  · exact .inl ⟨s', m, e, hg, ha hs, hp, hl⟩
  · exact .inr ⟨c, e, hc hs, hn⟩

/-! ## Whole calls -/

/-- The loop of `capn_deflate` ends from a stream that does not stall. -/
theorem deflateLoop_ok {s : Stream} (hs : s.Aligned) (hj : ¬ s.Stalls) :
    ∃ c s' m, Loop.Ends deflateStep s (c, s') ∧ Stores s s' m ∧ s'.Aligned ∧ Stops c s' := by
  obtain ⟨⟨c, s'⟩, he, m, hg, hs', hc⟩ := Loop.total deflateStep (I := fun s => s.Aligned ∧ ¬ s.Stalls)
    (Q := fun s r => ∃ m, Stores s r.2 m ∧ r.2.Aligned ∧ Stops r.1 r.2)
    (fun s => s.nextIn.length)
    (by
      rintro s s' ⟨hs, hj⟩ e
      rcases deflateStep_spec hs with ⟨t, m, e', hg, ht, -, hμ⟩ | ⟨c, e', -⟩
      · rw [e] at e'; cases e'
        refine ⟨⟨ht, fun h => hj (.of_stores hg h)⟩, hμ.resolve_right hj, ?_⟩
        rintro r ⟨m', hg', hq⟩
        exact ⟨m + m', hg.trans hg', hq⟩
      · rw [e] at e'; cases e')
    (by
      rintro s r ⟨hs, hj⟩ e
      rcases deflateStep_spec hs with ⟨t, m, e', -⟩ | ⟨c, e', hc, -⟩
      · rw [e] at e'; cases e'
      · rw [e] at e'; cases e'
        exact ⟨0, ⟨.refl s, rfl, rfl⟩, hs, hc⟩)
    (s := s) ⟨hs, hj⟩
  exact ⟨c, s', m, he, hg, hs', hc⟩

/-- From a stream that stalls, the loop of `capn_deflate` never ends. -/
theorem deflateLoop_stalls {s : Stream} (hs : s.raw < 2 ^ 32) (hj : s.Stalls) (r : Int × Stream) :
    ¬ Loop.Ends deflateStep s r := by
  refine Loop.diverges (D := fun s => s.raw < 2 ^ 32 ∧ s.Stalls) ?_ ⟨hs, hj⟩ r
  rintro s ⟨hs, hj⟩
  rcases deflateStep_any hs with ⟨t, m, e, hg, ht, -, hm, -⟩ | ⟨c, e, -, hn⟩
  · refine ⟨t, e, ht, ?_⟩
    obtain ⟨o, n, hp, ho, hn⟩ := hj
    have := hm o n hp ho hn
    refine ⟨o - m, n, (hg.delivers.place _ _).mpr (by rwa [Nat.add_sub_cancel' this]), ?_, ?_⟩
    · rw [hg.delivers.availOut]; omega
    · rw [hg.delivers.availOut, show s.availOut - m - (o - m) = s.availOut - o by omega]
      exact hn
  · exact absurd hj hn

theorem deflates_iff {s : Stream} {r : Int × Stream} (h : s.nextIn.length % 8 = 0) :
    Deflates s r ↔ Loop.Ends deflateStep s r := by
  simp only [Deflates, deflate, h, ne_eq, not_true_eq_false, ite_false]
  rfl

/-- A packer that stored some bytes and is at the end of its input stored the
packed form of it. -/
theorem Stores.whole {s s' : Stream} {m : Nat} (hg : Stores s s' m) (hs' : s'.Aligned) (hr : s.raw = 0)
    (hn : s'.nextIn = []) : (packed s.nextIn).length ≤ s.availOut ∧ s' = { s with
      nextIn := [], out := s.out ++ packed s.nextIn, availOut := s.availOut - (packed s.nextIn).length } := by
  have hd := hg.delivers
  have hrest : s.rest = packed s.nextIn := by simp [Stream.rest, hr]
  have hout := hd.out
  have hav := hd.availOut
  have htodo := congrArg List.length hd.todo
  have hle := hd.le_length
  have hroom := hd.le_availOut
  rw [hrest] at hout htodo hle
  rw [List.length_drop] at htodo
  have hr' : s'.raw = 0 := by have := hs'.raw_le; rw [hn] at this; simpa using this
  have hm : m = (packed s.nextIn).length := by
    simp only [Stream.rest, hn, List.take_nil, List.drop_nil, packed_nil, List.append_nil,
      List.length_nil] at htodo
    omega
  rw [hm, List.take_length] at hout
  refine ⟨by omega, ?_⟩
  cases s'
  simp only at hn hout hav hr'
  simp only [hn, hout, hav, hm, hr', hr, Stream.mk.injEq, true_and]
  exact ⟨hg.zeros, hg.inflateBuf⟩

/-- **`capn_deflate`.** With whole words of input and room for their packed
form, it stores that form, unless it stalls. -/
theorem deflate_ok {s : Stream} (hr : s.raw = 0) (h8 : s.nextIn.length % 8 = 0)
    (hroom : (packed s.nextIn).length ≤ s.availOut) (hj : ¬ s.Stalls) :
    Deflates s (0, { s with
      nextIn := [], out := s.out ++ packed s.nextIn, availOut := s.availOut - (packed s.nextIn).length }) := by
  have ha := s.aligned hr h8
  have hrest : s.rest = packed s.nextIn := by simp [Stream.rest, hr]
  obtain ⟨c, s', m, he, hg, hs', hc⟩ := deflateLoop_ok ha hj
  have hav := hg.delivers.availOut
  have htodo := congrArg List.length hg.delivers.todo
  have hle := hg.delivers.le_length
  rw [hrest] at htodo hle
  rw [List.length_drop] at htodo
  rcases hc with ⟨rfl, hn⟩ | ⟨rfl, hn, hc⟩
  · rw [← (hg.whole hs' hr hn).2]
    exact (deflates_iff h8).mpr he
  · -- there is room for all that is left, so for the next head
    exfalso
    have hl := List.length_pos_iff.mpr hn
    rcases hc with h0 | ⟨hr', hf⟩
    · by_cases hr' : 0 < s'.raw
      · have := hs'.raw_le
        simp only [Stream.rest, List.length_append, List.length_take] at htodo
        omega
      · have h8' : 8 ≤ s'.nextIn.length := by have := hs'.words; omega
        have hh : 0 < (firstPacket s'.nextIn).head.length := by
          cases firstPacket s'.nextIn <;> simp [Packet.head]
        simp only [Stream.rest, show s'.raw = 0 by omega, List.take_zero, List.drop_zero,
          List.nil_append, packed_cons h8', List.length_append] at htodo
        omega
    · have h8' : 8 ≤ s'.nextIn.length := by have := hs'.words; omega
      simp only [Stream.rest, hr', List.take_zero, List.drop_zero, List.nil_append, packed_cons h8',
        List.length_append] at htodo
      omega

/-- `capn_deflate` packs all of its input exactly if that is whole words, whose
packed form there is room for, and it does not stall. -/
theorem deflates_zero {s s' : Stream} (hr : s.raw = 0) : Deflates s (0, s') ↔
    s.nextIn.length % 8 = 0 ∧ (packed s.nextIn).length ≤ s.availOut ∧ ¬ s.Stalls ∧ s' = { s with
      nextIn := [], out := s.out ++ packed s.nextIn
      availOut := s.availOut - (packed s.nextIn).length } := by
  constructor
  · intro h
    by_cases h8 : s.nextIn.length % 8 = 0
    · have ha := s.aligned hr h8
      have he := (deflates_iff h8).mp h
      have hj : ¬ s.Stalls := fun hj => deflateLoop_stalls ha.raw_lt hj _ he
      obtain ⟨c, t, m, he', hg, ht, hc⟩ := deflateLoop_ok ha hj
      cases he.unique he'
      rcases hc with ⟨-, hn⟩ | ⟨hc, -⟩
      · exact ⟨h8, (hg.whole ht hr hn).1, hj, (hg.whole ht hr hn).2⟩
      · exact absurd hc (by decide)
    · obtain ⟨fuel, h⟩ := h
      rw [deflate, if_pos h8] at h
      cases h
  · rintro ⟨h8, hroom, hj, rfl⟩
    exact deflate_ok hr h8 hroom hj

theorem deflate_mono {n m : Nat} {s : Stream} {r : Int × Stream} (h : deflate n s = some r) (hnm : n ≤ m) :
    deflate m s = some r := by
  rw [deflate] at h ⊢
  split
  · rename_i h8
    rwa [if_pos h8] at h
  · rename_i h8
    rw [if_neg h8] at h
    exact Loop.run_mono h hnm

end Capnproto

import Capnproto.Framework.Loop
import Capnproto.Packing.Format

/-!
# `capn_deflate` and `capn_inflate`

The packer and the unpacker of `capn-stream.c`, loop iteration by loop
iteration. A `Stream` is a `struct capn_stream`: `nextIn` are the `avail_in`
bytes at `next_in`, `out` the bytes stored through `next_out` so far, and
`inflateBuf` the `avail_buf` pending bytes of `inflate_buf`. The counters
`avail_in` and `avail_out` are `size_t`, but `min` takes and returns
`unsigned`: what it compares is taken modulo 2³² (`min32`).
-/

namespace Capnproto

open Packing (tagBits spread)

def CAPN_MISALIGNED : Int := -1
def CAPN_NEED_MORE : Int := -2

/-- `struct capn_stream`. -/
structure Stream where
  nextIn : List UInt8
  out : List UInt8 := []
  availOut : Nat
  zeros : Nat := 0
  raw : Nat := 0
  inflateBuf : List UInt8 := []
deriving DecidableEq, Repr

/-- `min`, on `unsigned` arguments. -/
def min32 (a b : Nat) : Nat := min (a % 2 ^ 32) (b % 2 ^ 32)

theorem min32_le_left (a b : Nat) : min32 a b ≤ a :=
  Nat.le_trans (Nat.min_le_left _ _) (Nat.mod_le _ _)

theorem min32_le_right (a b : Nat) : min32 a b ≤ b :=
  Nat.le_trans (Nat.min_le_right _ _) (Nat.mod_le _ _)

theorem min32_le_mod (a b : Nat) : min32 a b ≤ b % 2 ^ 32 := Nat.min_le_right _ _

/-- `s'` is `s` after a codec that has the bytes `todo` to deliver, and comes to
the places `place`, delivered the next `m` of them. -/
structure Delivers (todo : Stream → List UInt8) (place : Stream → Nat → Nat → Prop)
    (s s' : Stream) (m : Nat) : Prop where
  le_availOut : m ≤ s.availOut
  le_length : m ≤ (todo s).length
  out : s'.out = s.out ++ (todo s).take m
  availOut : s'.availOut = s.availOut - m
  todo : todo s' = (todo s).drop m
  place : ∀ o n, place s' o n ↔ place s (m + o) n

section Delivers

variable {todo : Stream → List UInt8} {place : Stream → Nat → Nat → Prop}

theorem Delivers.refl (s : Stream) : Delivers todo place s s 0 :=
  ⟨Nat.zero_le _, Nat.zero_le _, by simp, rfl, rfl, fun o n => by rw [Nat.zero_add]⟩

theorem Delivers.trans {s₁ s₂ s₃ : Stream} {a b : Nat} (h : Delivers todo place s₁ s₂ a)
    (h' : Delivers todo place s₂ s₃ b) : Delivers todo place s₁ s₃ (a + b) := by
  have e : (todo s₂).length = (todo s₁).length - a := by rw [h.todo, List.length_drop]
  have hb := h'.le_length
  have ha := h.le_length
  refine ⟨?_, by omega, ?_, ?_, ?_, fun o n => ?_⟩
  · have := h'.le_availOut; rw [h.availOut] at this
    have := h.le_availOut
    omega
  · rw [h'.out, h.out, h.todo, List.take_add, List.append_assoc]
  · rw [h'.availOut, h.availOut, Nat.sub_sub]
  · rw [h'.todo, h.todo, List.drop_drop]
  · rw [h'.place, h.place, Nat.add_assoc]

end Delivers

/-! ## `capn_deflate` -/

/-- The count of nonzero bytes of the word at `next_in`, and its tag. -/
def scanWord (w : List UInt8) : Nat × UInt8 :=
  (List.range 8).foldl
    (fun (sz, hdr) i => if w.getD i 0 ≠ 0 then (sz + 1, hdr ||| UInt8.ofNat (1 <<< i)) else (sz, hdr))
    (0, 0)

/-- How many of the next `n` words are zero, up to the first that is not. -/
def zeroWords : Nat → List UInt8 → Nat
  | 0, _ => 0
  | n + 1, w => if w.take 8 = List.replicate 8 0 then zeroWords n (w.drop 8) + 1 else 0

/-- How many of the next `n` words have fewer than two zero bytes, up to the
first that has more. -/
def rawWords : Nat → List UInt8 → Nat
  | 0, _ => 0
  | n + 1, w => if 2 ≤ ((w.take 8).filter (· = 0)).length then 0 else rawWords n (w.drop 8) + 1

/-- One iteration of the loop of `capn_deflate`. -/
def deflateStep (s : Stream) : Step Stream (Int × Stream) :=
  if s.nextIn.length = 0 then .done (0, s)
  else if s.availOut = 0 then .done (CAPN_NEED_MORE, s)
  else if 0 < s.raw then
    let sz := min32 s.raw (min32 s.nextIn.length s.availOut)
    .next { s with
      out := s.out ++ s.nextIn.take sz, nextIn := s.nextIn.drop sz
      availOut := s.availOut - sz, raw := s.raw - sz }
  else if s.nextIn.length < 8 then .done (CAPN_NEED_MORE, s)
  else
    let w := s.nextIn.take 8
    let (sz, hdr) := scanWord w
    if sz = 0 then
      if s.availOut < 2 then .done (CAPN_NEED_MORE, s)
      else
        let n := zeroWords (min32 (s.nextIn.length / 8) 256 - 1) (s.nextIn.drop 8) + 1
        .next { s with
          out := s.out ++ [0, UInt8.ofNat (n - 1)], nextIn := s.nextIn.drop (n * 8)
          availOut := s.availOut - 2 }
    else if sz = 8 then
      if s.availOut < 10 then .done (CAPN_NEED_MORE, s)
      else
        let next := s.nextIn.drop 8
        let raw := rawWords (min (next.length / 8) 255) next * 8
        .next { s with
          out := s.out ++ (0xFF :: w ++ [UInt8.ofNat (raw / 8)]), nextIn := next
          availOut := s.availOut - 10, raw := raw }
    else
      if s.availOut < 1 + sz then .done (CAPN_NEED_MORE, s)
      else
        .next { s with
          out := s.out ++ hdr :: w.filter (· ≠ 0), nextIn := s.nextIn.drop 8
          availOut := s.availOut - (sz + 1) }

/-- `capn_deflate`, with at most `fuel` iterations of its loop. -/
def deflate (fuel : Nat) (s : Stream) : Option (Int × Stream) :=
  if s.nextIn.length % 8 ≠ 0 then some (CAPN_MISALIGNED, s) else Loop.run deflateStep fuel s

/-- `capn_deflate` returns from `s`, with the code and the stream `r`. -/
def Deflates (s : Stream) (r : Int × Stream) : Prop := ∃ fuel, deflate fuel s = some r

/-! ## `capn_inflate` -/

/-- The rest of an iteration of `capn_inflate`, once no byte is pending in
`inflate_buf`. -/
def inflateNext (s : Stream) : Step Stream (Int × Stream) :=
  if 0 < s.zeros then
    let sz := min32 s.availOut s.zeros
    .next { s with
      out := s.out ++ List.replicate sz 0, availOut := s.availOut - sz, zeros := s.zeros - sz }
  else if 0 < s.raw then
    if s.nextIn.length = 0 then .done (CAPN_NEED_MORE, s)
    else
      let sz := min32 (min32 s.availOut s.raw) s.nextIn.length
      .next { s with
        out := s.out ++ s.nextIn.take sz, nextIn := s.nextIn.drop sz
        availOut := s.availOut - sz, raw := s.raw - sz }
  else
    match s.nextIn with
    | [] | [_] => .done (CAPN_NEED_MORE, s)
    | hdr :: n :: next =>
      if hdr = 0xFF then
        if next.length < 8 then .done (CAPN_NEED_MORE, s)
        else
          .next { s with
            inflateBuf := (n :: next).take 8, raw := (next.getD 7 0).toNat * 8, nextIn := next.drop 8 }
      else if hdr = 0 then .next { s with zeros := (n.toNat + 1) * 8, nextIn := next }
      else
        let sz := (tagBits hdr).count true
        if (n :: next).length < sz then .done (CAPN_NEED_MORE, s)
        else
          .next { s with
            inflateBuf := spread (tagBits hdr) (n :: next), nextIn := (n :: next).drop sz }

/-- One iteration of the loop of `capn_inflate`. -/
def inflateStep (s : Stream) : Step Stream (Int × Stream) :=
  if s.availOut = 0 then .done (0, s)
  else if 0 < s.inflateBuf.length ∧ s.inflateBuf.length ≤ s.availOut then
    let s' := { s with
      out := s.out ++ s.inflateBuf, availOut := s.availOut - s.inflateBuf.length, inflateBuf := [] }
    if s'.availOut = 0 then .done (0, s') else inflateNext s'
  else if 0 < s.inflateBuf.length then
    .done (0, { s with
      out := s.out ++ s.inflateBuf.take s.availOut, availOut := 0
      inflateBuf := s.inflateBuf.drop s.availOut })
  else inflateNext s

/-- `capn_inflate`, with at most `fuel` iterations of its loop. -/
def inflate (fuel : Nat) (s : Stream) : Option (Int × Stream) := Loop.run inflateStep fuel s

/-- `capn_inflate` returns from `s`, with the code and the stream `r`. -/
def Inflates (s : Stream) (r : Int × Stream) : Prop := Loop.Ends inflateStep s r

end Capnproto

import Capnproto.Pointer.Decode
import Capnproto.Stream.Codec

/-!
# Writing a framed message

`capn_write_mem`, `capn_size`, and the streaming writers `capn_write_fd` and
`capn_write_fp`. A writer starts at `capn_root`, from where the segments are those
of the session in the order of their ids. What a write callback or `fwrite`
takes of the bytes it is offered is up to a `Sink`.

The packed writer of `capn_write_mem` keeps the table it reads in the buffer it
writes to, `headersz + 2` bytes further on; the input of a `Stream` is a list of
its own, which is right as long as the packed bytes stay behind the table.
-/

namespace Capnproto

/-- `header_calc`: the words of the table with the count, and their bytes. -/
def headerLen (segnum : Nat) : Nat := (2 + segnum) / 2 * 2
def headerSize (segnum : Nat) : Nat := 4 * headerLen segnum

/-- `header_render`: the count, the sizes in words, and, for an even count, the
spare position. -/
def headerRender (c : Capn) : List UInt8 :=
  toLe 4 (c.segnum - 1) ++ c.segs.flatMap (fun s => toLe 4 (s.len / 8)) ++
    if headerLen c.segnum - 1 = c.segnum then [] else toLe 4 0

/-- The bytes of all segments. -/
def dataSizeOf (c : Capn) : Nat := (c.segs.map Segment.len).sum

/-- What a writer returns, the bytes it produced, and the session it leaves. -/
structure Written where
  ret : Int
  bytes : List UInt8
  capn : Capn

/-- The loop over the segments in `capn_write_mem_packed`, after the header. -/
def packSegs (fuel : Nat) : Stream → List Segment → Option (Int × Stream)
  | z, [] => some (0, z)
  | z, s :: segs =>
    match deflate fuel { z with nextIn := s.bytes } with
    | none => none
    | some (ret, z) => if ret ≠ 0 ∨ z.nextIn ≠ [] then some (-1, z) else packSegs fuel z segs

/-- `capn_write_mem_packed`. -/
def writeMemPacked (fuel : Nat) (c : Capn) (sz : Nat) : Option Written :=
  let (c, root) := capnRoot c
  let headersz := headerSize c.segnum
  if sz < headersz ∨ sz - headersz < 2 then some ⟨-1, [], c⟩
  else if (sz - headersz - 2) / 4 < headerLen c.segnum then some ⟨-1, [], c⟩
  else if root.seg = none then some ⟨-1, [], c⟩
  else
    match deflate fuel { nextIn := headerRender c, availOut := sz } with
    | none => none
    | some (ret, z) =>
      if ret ≠ 0 ∨ z.nextIn ≠ [] then some ⟨-1, z.out, c⟩
      else
        match packSegs fuel z c.segs with
        | none => none
        | some (ret, z) => if ret ≠ 0 then some ⟨-1, z.out, c⟩ else some ⟨(sz - z.availOut : Nat), z.out, c⟩

/-- `capn_write_mem`, unpacked. -/
def writeMemPlain (c : Capn) (sz : Nat) : Written :=
  let (c, root) := capnRoot c
  let headersz := headerSize c.segnum
  if sz < headersz then ⟨-1, [], c⟩
  else if root.seg = none then ⟨-1, [], c⟩
  else if sz < headersz + dataSizeOf c then ⟨-1, headerRender c, c⟩
  else ⟨(headersz + dataSizeOf c : Nat), headerRender c ++ c.segs.flatMap Segment.bytes, c⟩

/-- `capn_write_mem`, with at most `fuel` iterations of each call to
`capn_deflate`. -/
def capnWriteMem (fuel : Nat) (c : Capn) (sz : Nat) (packed : Bool) : Option Written :=
  if c.segnum = 0 then some ⟨-1, [], c⟩
  else if packed then writeMemPacked fuel c sz
  else some (writeMemPlain c sz)

/-- `capn_write_mem` returns, with `r`. -/
def WritesMem (c : Capn) (sz : Nat) (packed : Bool) (r : Written) : Prop :=
  ∃ fuel, capnWriteMem fuel c sz packed = some r

/-- `capn_size`. -/
def capnSize (c : Capn) : Int :=
  if c.segnum = 0 then -1
  else
    let (c, root) := capnRoot c
    if root.seg = none then -1 else (8 * ((2 + c.segnum) / 2) + dataSizeOf c : Nat)

/-! ## Streaming -/

/-- What the receiver of a write does with what it is offered: it takes some of
it, it asks to try again (`EAGAIN`, `EINTR`), or it fails. -/
inductive Answer where
  | took (n : Nat)
  | again
  | failed
deriving DecidableEq, Repr

/-- A receiver of writes: its state, and what it answers. -/
structure Sink (τ : Type) where
  write : τ → List UInt8 → τ × Answer

/-- What has gone out, and the state of the receiver. -/
structure Sent (τ : Type) where
  sink : τ
  bytes : List UInt8 := []

section Streaming

variable {τ : Type} (k : Sink τ)

/-- One iteration of the loop of `_write_fd`, with the bytes that are still to be
sent. -/
def writeStep (s : Sent τ × List UInt8) : Step (Sent τ × List UInt8) (Int × Sent τ) :=
  match s.2 with
  | [] => .done (0, s.1)
  | rest =>
    match k.write s.1.sink rest with
    | (t, .took n) => .next (⟨t, s.1.bytes ++ rest.take n⟩, rest.drop n)
    | (t, .again) => .next (⟨t, s.1.bytes⟩, rest)
    | (t, .failed) => .done (-1, ⟨t, s.1.bytes⟩)

/-- `_write_fd`. -/
def writeAll (fuel : Nat) (s : Sent τ) (bytes : List UInt8) : Option (Int × Sent τ) :=
  Loop.run (writeStep k) fuel (s, bytes)

def ZBUF : Nat := 4096

/-- What the loop of `packed_emit_seg` carries: the stream, what was sent, and how
much was written. -/
structure Emit (τ : Type) where
  z : Stream
  sent : Sent τ
  written : Nat

/-- One iteration of the loop of `packed_emit_seg`, with `fuel` for the calls in it;
the result is `none` if one of them has not returned by then. -/
def emitStep (fuel : Nat) (s : Emit τ) : Step (Emit τ) (Option (Int × Emit τ)) :=
  if s.z.nextIn = [] then .done (some (0, s))
  else
    match deflate fuel { s.z with out := [], availOut := ZBUF } with
    | none => .done none
    | some (ret, z) =>
      if ret ≠ 0 ∧ ret ≠ CAPN_NEED_MORE then .done (some (-1, { s with z := z }))
      else if ZBUF - z.availOut = 0 then .done (some (-1, { s with z := z }))
      else
        match writeAll k fuel s.sent z.out with
        | none => .done none
        | some (e, sent) =>
          if e < 0 then .done (some (-1, ⟨z, sent, s.written⟩))
          else if ret = 0 then .done (some (0, ⟨z, sent, s.written + (ZBUF - z.availOut)⟩))
          else .next ⟨z, sent, s.written + (ZBUF - z.availOut)⟩

/-- `packed_emit_seg`. -/
def packedEmitSeg (fuel : Nat) (sent : Sent τ) (src : List UInt8) (written : Nat) : Option (Int × Emit τ) :=
  (Loop.run (emitStep k fuel) fuel ⟨{ nextIn := src, availOut := 0 }, sent, written⟩).join

/-- The loop over the segments of `capn_write_fd`: the status, what was sent, and
how much was written. -/
def emitSegs (fuel : Nat) (packed : Bool) : Sent τ → Nat → List Segment → Option (Int × Sent τ × Nat)
  | sent, datasz, [] => some (0, sent, datasz)
  | sent, datasz, s :: segs =>
    if packed then
      match packedEmitSeg k fuel sent s.bytes datasz with
      | none => none
      | some (ret, e) => if ret < 0 then some (-1, e.sent, e.written) else emitSegs fuel packed e.sent e.written segs
    else
      match writeAll k fuel sent s.bytes with
      | none => none
      | some (ret, sent) =>
        if ret < 0 then some (-1, sent, datasz) else emitSegs fuel packed sent (datasz + s.len) segs

/-- The table as `capn_write_fd` sends it: rendered into the 4096 bytes of `buf`,
and packed into the rest of them. `none` for a call that has not returned,
`some none` for a table that does not fit. -/
def emitHeader (fuel : Nat) (c : Capn) (packed : Bool) : Option (Option (List UInt8)) :=
  let headersz := headerSize c.segnum
  if packed then
    if ZBUF - headersz < headersz + 2 then some none
    else
      match deflate fuel { nextIn := headerRender c, availOut := ZBUF - headersz } with
      | none => none
      | some (ret, z) => some (if ret ≠ 0 then none else some z.out)
  else some (some (headerRender c))

/-- `capn_write_fd` and `capn_write_fp`. At the end, `flush` says whether the
receiver can be flushed. The count is returned as an `int`. -/
def writeStream (flush : τ → Bool) (fuel : Nat) (c : Capn) (t : τ) (packed : Bool) : Option (Int × Sent τ) :=
  if c.segnum = 0 then some (-1, ⟨t, []⟩)
  else
    let (c, root) := capnRoot c
    if ZBUF < headerSize c.segnum then some (-1, ⟨t, []⟩)
    else if root.seg = none then some (-1, ⟨t, []⟩)
    else
      match emitHeader fuel c packed with
      | none => none
      | some none => some (-1, ⟨t, []⟩)
      | some (some header) =>
        match writeAll k fuel ⟨t, []⟩ header with
        | none => none
        | some (ret, sent) =>
          if ret < 0 then some (-1, sent)
          else
            match emitSegs k fuel packed sent header.length c.segs with
            | none => none
            | some (ret, sent, datasz) =>
              if ret < 0 then some (-1, sent)
              else if ¬ flush sent.sink then some (-1, sent)
              else some (toInt32 datasz, sent)

/-- `capn_write_fd`. -/
def capnWriteFd (fuel : Nat) (c : Capn) (t : τ) (packed : Bool) : Option (Int × Sent τ) :=
  writeStream k (fun _ => true) fuel c t packed

/-- `fwrite`: the receiver that `_write_fp` writes to, which stops at an answer of
no bytes. -/
def Sink.stdio : Sink τ where
  write t bytes :=
    match k.write t bytes with
    | (t, .took (n + 1)) => (t, .took (n + 1))
    | (t, _) => (t, .failed)

/-- `capn_write_fp`; `flush` is `fflush`. -/
def capnWriteFp (flush : τ → Bool) (fuel : Nat) (c : Capn) (t : τ) (packed : Bool) :
    Option (Int × Sent τ) :=
  writeStream k.stdio flush fuel c t packed

end Streaming

end Capnproto

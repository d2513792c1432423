import Capnproto.Frame.Read
import Capnproto.Frame.Write

/-!
# Reading from a file or a callback

`capn_init_fp` and `capn_init_fd` give `init_fp` a reader over a `Source`: an
unpacked one asks it for the bytes themselves, a packed one keeps a buffer
`zbuf` that it refills whenever `capn_inflate` needs more. What a read of a
source stores is up to the source.
-/

namespace Capnproto

/-- What a read of a source does: it stores some bytes, none at the end of the
input; it asks to try again (`EAGAIN`, `EINTR`); or it fails. -/
inductive Arrival where
  | got (bytes : List UInt8)
  | again
  | failed
deriving DecidableEq, Repr

/-- Where a reader reads from: its state, and what a read of at most `n` bytes
does. -/
structure Source (τ : Type) where
  read : τ → Nat → τ × Arrival

section

variable {τ : Type} (k : Source τ)

/-- One iteration of the loop of `read_fd_all`, with the bytes stored so far. -/
def readAllStep (count : Nat) (s : List UInt8 × τ) : Step (List UInt8 × τ) (Int × List UInt8 × τ) :=
  if s.1.length < count then
    match k.read s.2 (count - s.1.length) with
    | (t, .again) => .next (s.1, t)
    | (t, .failed) => .done (-1, s.1, t)
    | (t, .got bytes) => if bytes = [] then .done (-1, s.1, t) else .next (s.1 ++ bytes, t)
  else .done (0, s)

/-- `read_fd_all`: what it returns, the bytes it stores, and the source after it. -/
def readFdAll (fuel : Nat) (t : τ) (count : Nat) : Option (Int × List UInt8 × τ) :=
  Loop.run (readAllStep k count) fuel ([], t)

/-- One read of `fread`, with the bytes stored so far. -/
def freadStep (count : Nat) (s : List UInt8 × τ) : Step (List UInt8 × τ) (List UInt8 × τ) :=
  if s.1.length < count then
    match k.read s.2 (count - s.1.length) with
    | (t, .got (b :: bytes)) => .next (s.1 ++ b :: bytes, t)
    | (t, _) => .done (s.1, t)
  else .done s

/-- `fread` of `count` bytes: those it stores, fewer than `count` only at the end
of the file or after an error. -/
def fread (fuel : Nat) (t : τ) (count : Nat) : Option (List UInt8 × τ) :=
  Loop.run (freadStep k count) fuel ([], t)

/-- One iteration of the loop around `read_fd` in `read_fp`. -/
def retryStep (count : Nat) (t : τ) : Step τ (List UInt8 × τ) :=
  match k.read t count with
  | (t, .again) => .next t
  | (t, .failed) => .done ([], t)
  | (t, .got bytes) => .done (bytes, t)

/-- The bytes that refill `zbuf`; none at the end of the input or after an error. -/
def refill (file : Bool) (fuel : Nat) (t : τ) (count : Nat) : Option (List UInt8 × τ) :=
  if file then fread k fuel t count else Loop.run (retryStep k count) fuel t

/-- One iteration of the loop of `read_fp` that inflates, with `fuel` for the
calls in it; the result is `none` if one of them has not returned by then. -/
def readPackedStep (file : Bool) (fuel : Nat) (s : Stream × τ) :
    Step (Stream × τ) (Option (Int × Stream × τ)) :=
  if s.1.availOut = 0 then .done (some (0, s))
  else
    match inflate fuel s.1 with
    | none => .done none
    | some (inf, z) =>
      if inf ≠ 0 ∧ inf ≠ CAPN_NEED_MORE then .done (some (-1, z, s.2))
      else if z.availOut = 0 then .done (some (0, z, s.2))
      else
        match refill k file fuel s.2 (ZBUF - z.nextIn.length) with
        | none => .done none
        | some (bytes, t) =>
          if bytes = [] then .done (some (-1, z, t))
          else .next ({ z with nextIn := z.nextIn ++ bytes }, t)

/-- `read_fp`, from a file or a callback: what it returns, the bytes it stores,
and the stream and the source after it. -/
def readFrom (file packed : Bool) (fuel : Nat) (s : Stream × τ) (sz : Nat) :
    Option (Int × List UInt8 × Stream × τ) :=
  if packed then
    (Loop.run (readPackedStep k file fuel) fuel ({ s.1 with out := [], availOut := sz }, s.2)).join.map
      fun (r, z, t) => (r, z.out, z, t)
  else if file then
    -- `fread(p, sz, 1, f) != 1`: an item of no bytes is never read
    (fread k fuel s.2 sz).map fun (bytes, t) => (if bytes.length / sz ≠ 1 then 1 else 0, bytes, s.1, t)
  else (readFdAll k fuel s.2 sz).map fun (r, bytes, t) => (r, bytes, s.1, t)

end

/-! ## `capn_init_fp`, `capn_init_fd` -/

section

variable {τ : Type} (k : Source τ)

/-- `capn_init_fp` (of a file) and `capn_init_fd` (of a callback). -/
def initFrom (file : Bool) (fuel : Nat) (calloc : Nat → Option Nat) (t : τ) (packed : Bool) :
    Option (Init × Stream × τ) :=
  initFpLeft (readFrom k file packed fuel) calloc ({ nextIn := [], availOut := 0 }, t)

/-- `capn_init_fp`, with what it leaves of the file. -/
def capnInitFp (fuel : Nat) (calloc : Nat → Option Nat) (t : τ) (packed : Bool) : Option (Init × τ) :=
  (initFrom k true fuel calloc t packed).map fun (r, _, t) => (r, t)

/-- `capn_init_fd`, with what it leaves for the callback. -/
def capnInitFd (fuel : Nat) (calloc : Nat → Option Nat) (t : τ) (packed : Bool) : Option (Init × τ) :=
  (initFrom k false fuel calloc t packed).map fun (r, _, t) => (r, t)

/-- `capn_init_fp` returns, with `r`. -/
def InitsFp (calloc : Nat → Option Nat) (t : τ) (packed : Bool) (r : Init × τ) : Prop :=
  ∃ fuel, capnInitFp k fuel calloc t packed = some r

/-- `capn_init_fd` returns, with `r`. -/
def InitsFd (calloc : Nat → Option Nat) (t : τ) (packed : Bool) (r : Init × τ) : Prop :=
  ∃ fuel, capnInitFd k fuel calloc t packed = some r

/-- One of the two. -/
def InitsFrom (file : Bool) (calloc : Nat → Option Nat) (t : τ) (packed : Bool) (r : Init × τ) : Prop :=
  if file then InitsFp k calloc t packed r else InitsFd k calloc t packed r

end

end Capnproto

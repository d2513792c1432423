import Capnproto.Session
import Capnproto.Stream.Codec

/-!
# Reading a framed message

`init_fp` reads the segment count, the table of segment sizes and the segments
of a message through `read_fp`; `capn_init_mem` gives it the bytes of a buffer,
packed or not. `initFp` takes the reader as a parameter, with the state it
reads from, and records how much each read stored where (`Store`): the count,
the table `hdr` of `CAPN_MAX_SEGS` numbers, and the data of the block that
`calloc` gave. `initFpLeft` also gives the state that the reader is left in.
-/

namespace Capnproto

def CAPN_MAX_SEGS : Nat := 1024

/-- A read stored `len` bytes into a buffer of `size`. -/
structure Store where
  size : Nat
  len : Nat
deriving DecidableEq, Repr

/-- `read_fp`, from memory: what it returns, the bytes it stores, and the stream
after it. -/
def readFp (fuel : Nat) (packed : Bool) (z : Stream) (sz : Nat) : Option (Int × List UInt8 × Stream) :=
  if packed then
    match inflate fuel { z with out := [], availOut := sz } with
    | none => none
    | some (r, z) => some (if r ≠ 0 then -1 else if z.availOut ≠ 0 then 1 else 0, z.out, z)
  else if z.nextIn.length < sz then some (-1, [], z)
  else some (0, z.nextIn.take sz, { z with nextIn := z.nextIn.drop sz })

/-- The bytes of the table of segment sizes, with its padding. -/
def tableSize (segnum : Nat) : Nat := 8 * (segnum / 2) + 4

/-- The segment sizes in `hdr`, in words. -/
def tableWords (segnum : Nat) (hdr : List UInt8) : List Nat :=
  (List.range segnum).map fun i => le ((hdr.drop (4 * i)).take 4)

/-- The loop over the table: the sizes in bytes and their sum, on top of `total`. -/
def checkSizes : List Nat → Nat → Option (List Nat × Nat)
  | [], total => some ([], total)
  | n :: ns, total =>
    if INT_MAX / 8 < n ∨ UINT32_MAX / 8 < n ∨ UINT32_MAX - total < n * 8 then none
    else (checkSizes ns (total + n * 8)).map fun (l, t) => (n * 8 :: l, t)

/-- The segments set up in `data`. -/
def carve : List Nat → List UInt8 → List Segment
  | [], _ => []
  | n :: ns, data => ⟨Mem.ofList data, n, n⟩ :: carve ns (data.drop n)

/-- What `init_fp` returns, the session it leaves, and the stores it made. -/
structure Init where
  ret : Int
  capn : Capn
  stores : List Store

/-- `goto err`. -/
def Init.err (stores : List Store) : Init := ⟨-1, Capn.zeroed, stores⟩

section

variable {σ : Type} (read : σ → Nat → Option (Int × List UInt8 × σ)) (calloc : Nat → Option Nat)

/-- `init_fp`, once the table is in `hdr`. `calloc` says how large a block it
gives. -/
def initData (z : σ) (segnum : Nat) (hdr : List UInt8) (stores : List Store) : Option Init :=
  match checkSizes (tableWords segnum hdr) 0 with
  | none => some (.err stores)
  | some (sizes, total) =>
    match calloc (total + sizeofSegment * segnum) with
    | none => some (.err stores)
    | some block =>
      match read z total with
      | none => none
      | some (r, data, _) =>
        let stores := stores ++ [⟨block - sizeofSegment * segnum, data.length⟩]
        if r ≠ 0 then some (.err stores)
        else some ⟨0, (carve sizes data).foldl capnAppendSegment capnInitMalloc, stores⟩

/-- `init_fp`, once the segment count is known. -/
def initTable (z : σ) (segnum : Nat) (stores : List Store) : Option Init :=
  match read z (tableSize segnum) with
  | none => none
  | some (r, hdr, z) =>
    let stores := stores ++ [⟨4 * CAPN_MAX_SEGS, hdr.length⟩]
    if r ≠ 0 then some (.err stores) else initData read calloc z segnum hdr stores

/-- `init_fp`. -/
def initFp (z : σ) : Option Init :=
  match read z 4 with
  | none => none
  | some (r, segnum, z) =>
    let stores := [⟨4, segnum.length⟩]
    if r ≠ 0 then some (.err stores)
    else if CAPN_MAX_SEGS - 1 < le segnum then some (.err stores)
    else initTable read calloc z (le segnum + 1) stores

/-! The same, with what is left of the source. -/

/-- `initData`, with what is left of the source. -/
def initDataLeft (z : σ) (segnum : Nat) (hdr : List UInt8) (stores : List Store) : Option (Init × σ) :=
  match checkSizes (tableWords segnum hdr) 0 with
  | none => some (.err stores, z)
  | some (sizes, total) =>
    match calloc (total + sizeofSegment * segnum) with
    | none => some (.err stores, z)
    | some block =>
      match read z total with
      | none => none
      | some (r, data, z) =>
        let stores := stores ++ [⟨block - sizeofSegment * segnum, data.length⟩]
        if r ≠ 0 then some (.err stores, z)
        else some (⟨0, (carve sizes data).foldl capnAppendSegment capnInitMalloc, stores⟩, z)

/-- `initTable`, with what is left of the source. -/
def initTableLeft (z : σ) (segnum : Nat) (stores : List Store) : Option (Init × σ) :=
  match read z (tableSize segnum) with
  | none => none
  | some (r, hdr, z) =>
    let stores := stores ++ [⟨4 * CAPN_MAX_SEGS, hdr.length⟩]
    if r ≠ 0 then some (.err stores, z) else initDataLeft read calloc z segnum hdr stores

/-- `initFp`, with what is left of the source. -/
def initFpLeft (z : σ) : Option (Init × σ) :=
  match read z 4 with
  | none => none
  | some (r, segnum, z) =>
    let stores := [⟨4, segnum.length⟩]
    if r ≠ 0 then some (.err stores, z)
    else if CAPN_MAX_SEGS - 1 < le segnum then some (.err stores, z)
    else initTableLeft read calloc z (le segnum + 1) stores

theorem initDataLeft_fst (z : σ) (segnum : Nat) (hdr : List UInt8) (stores : List Store) :
    (initDataLeft read calloc z segnum hdr stores).map Prod.fst = initData read calloc z segnum hdr stores := by
  rw [initDataLeft, initData]
  cases checkSizes (tableWords segnum hdr) 0 with
  | none => rfl
  | some st =>
    obtain ⟨sizes, total⟩ := st
    cases hc : calloc (total + sizeofSegment * segnum) with
    | none => simp only [hc, Option.map_some]
    | some block =>
      cases hr : read z total with
      | none => simp only [hc, hr, Option.map_none]
      | some q =>
        simp only [hc, hr]
        split <;> rfl

theorem initTableLeft_fst (z : σ) (segnum : Nat) (stores : List Store) :
    (initTableLeft read calloc z segnum stores).map Prod.fst = initTable read calloc z segnum stores := by
  rw [initTableLeft, initTable]
  cases read z (tableSize segnum) with
  | none => rfl
  | some q =>
    simp only
    split
    · rfl
    · exact initDataLeft_fst ..

/-- What `initFpLeft` returns is what `initFp` returns. -/
theorem initFpLeft_fst (z : σ) : (initFpLeft read calloc z).map Prod.fst = initFp read calloc z := by
  rw [initFpLeft, initFp]
  cases read z 4 with
  | none => rfl
  | some q =>
    simp only
    split
    · rfl
    split
    · rfl
    · exact initTableLeft_fst ..

end

/-- `capn_init_mem`, with at most `fuel` iterations of each call to
`capn_inflate`. -/
def capnInitMem (fuel : Nat) (calloc : Nat → Option Nat) (p : List UInt8) (packed : Bool) : Option Init :=
  initFp (readFp fuel packed) calloc { nextIn := p, availOut := 0 }

/-- `capn_init_mem`, with what is left of the buffer. -/
def capnInitMemLeft (fuel : Nat) (calloc : Nat → Option Nat) (p : List UInt8) (packed : Bool) :
    Option (Init × Stream) :=
  initFpLeft (readFp fuel packed) calloc { nextIn := p, availOut := 0 }

/-- `capn_init_mem` returns, with `r`. -/
def InitsMem (calloc : Nat → Option Nat) (p : List UInt8) (packed : Bool) (r : Init) : Prop :=
  ∃ fuel, capnInitMem fuel calloc p packed = some r

/-- An allocator that always gives a block of at least the size asked for. -/
def CallocOk (calloc : Nat → Option Nat) : Prop := ∀ n, ∃ block, calloc n = some block ∧ n ≤ block

theorem callocOk_some : CallocOk some := fun n => ⟨n, rfl, Nat.le_refl n⟩

/-! ## Reading from the unpacked bytes

The same reader without a stream: the bytes left to read, `u`. A packed reader
that runs out has already stored what there was. -/

/-- Reads `sz` of the bytes `u`. -/
def readList (packed : Bool) (u : List UInt8) (sz : Nat) : Option (Int × List UInt8 × List UInt8) :=
  if sz ≤ u.length then some (0, u.take sz, u.drop sz) else some (-1, if packed then u else [], [])

/-- The unpacked bytes of a buffer. -/
def unpacked (p : List UInt8) (packed : Bool) : List UInt8 := if packed then Packing.unpack p else p

/-- How many bytes `initData` asks for. -/
def dataDemand (segnum : Nat) (hdr : List UInt8) : Nat :=
  match checkSizes (tableWords segnum hdr) 0 with
  | none => 0
  | some (_, total) => total

/-- How many of the bytes `u` the reads of `initTable` ask for. -/
def tableDemand (segnum : Nat) (u : List UInt8) : Nat :=
  if u.length < tableSize segnum then tableSize segnum
  else tableSize segnum + dataDemand segnum (u.take (tableSize segnum))

/-- How many of the bytes `u` the reads of `init_fp` ask for. -/
def demand (u : List UInt8) : Nat :=
  if u.length < 4 ∨ CAPN_MAX_SEGS - 1 < le (u.take 4) then 4
  else 4 + tableDemand (le (u.take 4) + 1) (u.drop 4)

end Capnproto

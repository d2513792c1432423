import Capnproto.Object.Copy

/-!
# Accessors of lists

`capn-list.inc`, of which the sizes 8, 16, 32 and 64 are the four instances, and
the accessors of `capn.c` for bits, text and data and those of `capnp_c.h` for the
fields of structs, on a machine that is little endian. The host copies whole runs of
elements where it can, by the offset the source gives it.
-/

namespace Capnproto

/-- `SZ` of `capn-list.inc`. -/
inductive SZ where
  | b8
  | b16
  | b32
  | b64
deriving DecidableEq

def SZ.bytes : SZ → Nat
  | .b8 => 1
  | .b16 => 2
  | .b32 => 4
  | .b64 => 8

/-- `struct_ptr`: the first data word of the struct that a pointer word points at. -/
def structPtr (c : Capn) (s : Option Nat) (d : Option Addr) (minsz : Nat) : Capn × Option Addr :=
  if s.isNone then (c, none)
  else
    let r := readPtr c s d (-1)
    (r.capn, if r.ptr.type = .STRUCT ∧ minsz ≤ r.ptr.datasz then r.ptr.data else none)

/-- The place of element `off`, as `capn_getN` and `capn_setN` find it. -/
def elementAt (c : Capn) (p : Ptr) (off : Int) (n : Nat) : Capn × Option Addr :=
  if p.len ≤ off then (c, none)
  else
    match p.type with
    | .LIST => (c, if p.datasz < n then none else p.data.map (·.add (off * (p.datasz + 8 * p.ptrs))))
    | .PTR_LIST => structPtr c p.seg (p.data.map (·.add (8 * off))) n
    | _ => (c, none)

/-- The number at an address. -/
def Capn.load (c : Capn) (a : Addr) (n : Nat) : Nat := le (c.read a n)

/-- What a setter leaves: its result, the session, and what it stored. -/
structure Stored where
  ret : Int
  capn : Capn
  stores : List (Addr × List UInt8) := []

/-- Stores `bs` at `a`. -/
def Stored.store (s : Stored) (a : Addr) (bs : List UInt8) : Stored :=
  { s with capn := s.capn.write a bs, stores := s.stores ++ [(a, bs)] }

/-- `capn_getN`. -/
def capnGet (sz : SZ) (c : Capn) (p : Ptr) (off : Int) : Capn × Nat :=
  let (c, d) := elementAt c p off sz.bytes
  (c, match d with
    | none => 0
    | some d => c.load d sz.bytes)

/-- `capn_setN`. -/
def capnSet (sz : SZ) (c : Capn) (p : Ptr) (off : Int) (v : Nat) : Stored :=
  let (c, d) := elementAt c p off sz.bytes
  match d with
  | none => ⟨-1, c, []⟩
  | some d => (Stored.mk 0 c []).store d (toLe sz.bytes v)

/-- The count that `capn_getvN` and `capn_setvN` cut `n` to. -/
def clip (p : Ptr) (off n : Int) : Int := if p.len < off + n then p.len - off else n

/-- The loop of `capn_getvN` over a pointer list, from element `i` on. -/
def getvStructs (sz : SZ) (p : Ptr) (off : Int) : Nat → Nat → Capn → List UInt8 → Capn × Bool × List UInt8
  | 0, _, c, out => (c, true, out)
  | k + 1, i, c, out =>
    let (c, d) := structPtr c p.seg (p.data.map (·.add (8 * (i + off)))) sz.bytes
    match d with
    | none => (c, false, out)
    | some d => getvStructs sz p off k (i + 1) c (out ++ c.read d sz.bytes)

/-- `capn_getvN`: the session, the result, and the bytes of `to` it wrote. -/
def capnGetv (sz : SZ) (c : Capn) (p : Ptr) (off n : Int) : Capn × Int × List UInt8 :=
  let r := capnResolve c p
  let (c, p) := (r.capn, r.ptr)
  let n := clip p off n
  let bytes (a : Int) (k : Nat) : List UInt8 :=
    match p.data with
    | none => []
    | some d => c.read (d.add a) k
  match p.type with
  | .LIST =>
    if p.datasz = sz.bytes ∧ p.ptrs = 0 then (c, n, bytes off (n * sz.bytes).toNat)
    else if p.datasz < sz.bytes then (c, -1, [])
    else (c, n, (List.range n.toNat).flatMap fun i : Nat => bytes (((i : Int) + off) * (p.datasz + 8 * p.ptrs)) sz.bytes)
  | .PTR_LIST =>
    let (c, ok, out) := getvStructs sz p off n.toNat 0 c []
    (c, if ok then n else -1, out)
  | _ => (c, -1, [])

/-- The loop of `capn_setvN` over a list, from element `i` on. -/
def setvList (sz : SZ) (p : Ptr) (off : Int) (vals : Nat → Nat) : Nat → Nat → Stored → Stored
  | 0, _, s => s
  | k + 1, i, s =>
    match p.data with
    | none => s
    | some d => setvList sz p off vals k (i + 1)
        (s.store (d.add ((i + off) * (p.datasz + 8 * p.ptrs))) (toLe sz.bytes (vals i)))

/-- The loop of `capn_setvN` over a pointer list, from element `i` on. -/
def setvStructs (sz : SZ) (p : Ptr) (off : Int) (vals : Nat → Nat) : Nat → Nat → Stored → Stored
  | 0, _, s => s
  | k + 1, i, s =>
    let (c, d) := structPtr s.capn p.seg (p.data.map (·.add (8 * (i + off)))) sz.bytes
    match d with
    | none => { s with ret := -1, capn := c }
    | some d => setvStructs sz p off vals k (i + 1) ({ s with capn := c }.store d (toLe sz.bytes (vals i)))

/-- `capn_setvN`, from the numbers `vals`. -/
def capnSetv (sz : SZ) (c : Capn) (p : Ptr) (off : Int) (vals : Nat → Nat) (n : Int) : Stored :=
  let n := clip p off n
  let s : Stored := ⟨n, c, []⟩
  match p.type with
  | .LIST =>
    if p.datasz = sz.bytes ∧ p.ptrs = 0 then
      match p.data with
      | none => s
      | some d => s.store (d.add off) (((List.range n.toNat).flatMap fun i => toLe sz.bytes (vals i)))
    else if p.datasz < sz.bytes then { s with ret := -1 }
    else setvList sz p off vals n.toNat 0 s
  | .PTR_LIST => setvStructs sz p off vals n.toNat 0 s
  | _ => { s with ret := -1 }

/-! ## Bits -/

/-- Where `capn_get1` and `capn_set1` find bit `off`: the byte and the bit in it. -/
def bitAt (c : Capn) (p : Ptr) (off : Int) : Capn × Option (Addr × Nat) :=
  let bitList (p : Ptr) (off : Int) : Option (Addr × Nat) :=
    if p.len ≤ off then none
    else p.data.map fun d => (d.add ((off + p.ptrs) / 8), ((off + p.ptrs) % 8).toNat)
  if off < 0 then (c, none)
  else
    match p.type with
    | .BIT_LIST => (c, bitList p off)
    | .LIST =>
      (c, if p.len ≤ off ∨ p.datasz < 1 then none
        else p.data.map fun d => (d.add (off * (p.datasz + 8 * p.ptrs)), 0))
    | .PTR_LIST =>
      if p.len ≤ off then (c, none)
      else
        let el := readPtr c p.seg (p.data.map (·.add (8 * off))) (hopRemaining c p)
        (el.capn,
          if el.ptr.type = .STRUCT ∧ 1 ≤ el.ptr.datasz then el.ptr.data.map fun d => (d, 0)
          else if el.ptr.type = .BIT_LIST then bitList el.ptr 0
          else none)
    | _ => (c, none)

/-- `capn_get1`. -/
def capnGet1 (c : Capn) (p : Ptr) (off : Int) : Capn × Int :=
  let r := capnResolve c p
  let (c, d) := bitAt r.capn r.ptr off
  (c, match d with
    | none => 0
    | some (a, bit) => if ((c.seg a.seg).data a.off).toNat.testBit bit then 1 else 0)

/-- `capn_set1`. -/
def capnSet1 (c : Capn) (p : Ptr) (off val : Int) : Stored :=
  let r := capnResolve c p
  let (c, d) := bitAt r.capn r.ptr off
  match d with
  | none => ⟨-1, c, []⟩
  | some (a, bit) =>
    let mask : UInt8 := 1 <<< UInt8.ofNat bit
    let old := (c.seg a.seg).data a.off
    (Stored.mk 0 c []).store a [if val ≠ 0 then old ||| mask else old &&& ~~~mask]

/-- The bytes that `capn_getv1` and `capn_setv1` move, and what they return. -/
def bitBytes (p : Ptr) (off n : Int) : Int × Nat :=
  let off := off.tdiv 8
  if (p.datasz : Int) < off + n then (p.len - off * 8, (p.datasz - off).toNat) else (n, ((n + 7).tdiv 8).toNat)

/-- Whether `capn_getv1` and `capn_setv1` refuse. -/
def refusesBits (p : Ptr) (off : Int) : Prop := p.type ≠ .BIT_LIST ∨ off % 8 ≠ 0 ∨ p.isListMember = true

instance (p : Ptr) (off : Int) : Decidable (refusesBits p off) := inferInstanceAs (Decidable (_ ∨ _))

/-- `capn_getv1`. -/
def capnGetv1 (c : Capn) (p : Ptr) (off n : Int) : Capn × Int × List UInt8 :=
  let r := capnResolve c p
  let (c, p) := (r.capn, r.ptr)
  if refusesBits p off then (c, -1, [])
  else
    match p.data with
    | none => (c, (bitBytes p off n).1, [])
    | some d => (c, (bitBytes p off n).1, c.read (d.add (off.tdiv 8)) (bitBytes p off n).2)

/-- `capn_setv1`, from the bytes `data`. -/
def capnSetv1 (c : Capn) (p : Ptr) (off : Int) (data : Nat → UInt8) (n : Int) : Stored :=
  if refusesBits p off then ⟨-1, c, []⟩
  else
    let s : Stored := ⟨(bitBytes p off n).1, c, []⟩
    match p.data with
    | none => s
    | some d => s.store (d.add (off.tdiv 8)) ((List.range (bitBytes p off n).2).map data)

/-! ## Fields of structs -/

/-- `capn_read8`, `capn_read16`, `capn_read32` and `capn_read64`, for `n` bytes. -/
def capnRead (n : Nat) (c : Capn) (p : Ptr) (off : Nat) : Nat :=
  if off + n ≤ p.datasz then
    match p.data with
    | some d => c.load (d.add off) n
    | none => 0
  else 0

def capnRead8 : Capn → Ptr → Nat → Nat := capnRead 1
def capnRead16 : Capn → Ptr → Nat → Nat := capnRead 2
def capnRead32 : Capn → Ptr → Nat → Nat := capnRead 4
def capnRead64 : Capn → Ptr → Nat → Nat := capnRead 8

/-- `capn_write8`, `capn_write16`, `capn_write32` and `capn_write64`, for `n` bytes. -/
def capnWrite (n : Nat) (c : Capn) (p : Ptr) (off v : Nat) : Capn :=
  if off + n ≤ p.datasz then
    match p.data with
    | some d => c.write (d.add off) (toLe n v)
    | none => c
  else c

def capnWrite8 : Capn → Ptr → Nat → Nat → Capn := capnWrite 1
def capnWrite16 : Capn → Ptr → Nat → Nat → Capn := capnWrite 2
def capnWrite32 : Capn → Ptr → Nat → Nat → Capn := capnWrite 4
def capnWrite64 : Capn → Ptr → Nat → Nat → Capn := capnWrite 8

/-- `capn_write1`. -/
def capnWrite1 (c : Capn) (p : Ptr) (off : Nat) (val : Bool) : Capn :=
  if p.datasz * 8 ≤ off then c
  else
    match p.data with
    | none => c
    | some d =>
      let a := d.add (off / 8 : Nat)
      let mask : UInt8 := 1 <<< UInt8.ofNat (off % 8)
      let old := (c.seg a.seg).data a.off
      c.write a [if val then old ||| mask else old &&& ~~~mask]

/-! ## Text and data -/

/-- `struct capn_text`. -/
structure Text where
  len : Int := 0
  str : Option Addr := none
  seg : Option Nat := none
deriving DecidableEq

/-- The text that a pointer is, or the default. -/
def textOf (c : Capn) (m : Ptr) (default : Text) : Text :=
  match m.data with
  | none => default
  | some d =>
    if m.type = .LIST ∧ m.datasz = 1 ∧ m.len ≠ 0 ∧ (c.seg d.seg).data (d.off + (m.len - 1)) = 0 then
      ⟨m.len - 1, some d, m.seg⟩
    else default

/-- `capn_get_text`. -/
def capnGetText (c : Capn) (p : Ptr) (off : Int) (default : Text) : Capn × Text :=
  let m := capnGetp c p off true
  (m.capn, textOf m.capn m.ptr default)

/-- A text as `capn_set_text` takes it: null, or bytes outside of any segment, `len` of them or, if that is negative,
up to a NUL; `str` is the memory there. Or a text in a segment of session `j`. -/
inductive AnyText where
  | null
  | literal (str : List UInt8) (len : Int)
  | within (j : Nat) (t : Text)

/-- What `capn_new_string` copies of `str`. -/
def stringBytes (str : List UInt8) (len : Int) : List UInt8 :=
  str.take (if 0 ≤ len then len.toNat else (str.takeWhile (· ≠ 0)).length)

/-- The list that a text in a segment is; its NUL counts. -/
def Text.list (t : Text) : Ptr := { type := .LIST, seg := t.seg, data := t.str, len := t.len + 1, datasz := 1 }

/-- `capn_set_text`, with at most `fuel` iterations of the loop of `capn_setp`. -/
def capnSetText (fuel : Nat) (w : World) (i : Nat) (p : Ptr) (off : Int) (tgt : AnyText) : Option (Int × World) :=
  match tgt with
  | .null => capnSetp fuel w i p off i {}
  | .literal str len =>
    let (c, m) := capnNewString (w i) p.seg (stringBytes str len)
    capnSetp fuel (w.set i c) i p off i m
  | .within j t => capnSetp fuel w i p off j t.list

/-- A pointer that is a list of bytes, or nothing. -/
def dataOf (m : Ptr) : Ptr := if m.type ≠ .LIST ∨ m.datasz ≠ 1 then {} else m

/-- `capn_get_data`. -/
def capnGetData (c : Capn) (p : Ptr) (off : Int) : Capn × Ptr :=
  let m := capnGetp c p off true
  (m.capn, dataOf m.ptr)

/-- `capn_len`. -/
def capnLen (c : Capn) (p : Ptr) : Capn × Int :=
  let r := capnResolve c p
  (r.capn, r.ptr.len)

end Capnproto

import Capnproto.Session

/-!
# Reading pointers

`read_ptr` and what it calls, then `capn_resolve`, `capn_getp` and `capn_root`,
on a session without a `lookup` callback. A word is a `Nat` below 2⁶⁴, and its
fields are cut out by division. An address stands for a `char *` into one
segment; segments do not overlap, so that an address into another segment is
out of bounds (`boundsOk`). Every function that reads landing pads says which
words it read (`reads`).
-/

namespace Capnproto

def STRUCT_PTR : Nat := 0
def LIST_PTR : Nat := 1
def FAR_PTR : Nat := 2
def OTHER_PTR : Nat := 3
def DOUBLE_PTR : Nat := 6

def VOID_LIST : Nat := 0
def BIT_1_LIST : Nat := 1
def BYTE_1_LIST : Nat := 2
def BYTE_2_LIST : Nat := 3
def BYTE_4_LIST : Nat := 4
def BYTE_8_LIST : Nat := 5
def PTR_LIST : Nat := 6
def COMPOSITE_LIST : Nat := 7

/-- `(int32_t) n`. -/
def toInt32 (n : Nat) : Int := if n % 2 ^ 32 < 2 ^ 31 then n % 2 ^ 32 else n % 2 ^ 32 - 2 ^ 32

/-- `U16(val >> 32)` and `U16(val >> 48)`: the words of data and the pointers
of a struct pointer or of a tag. -/
def dataWords (val : Nat) : Nat := val / 2 ^ 32 % 2 ^ 16
def ptrWords (val : Nat) : Nat := val / 2 ^ 48 % 2 ^ 16

/-- `bounds_ok`. -/
def boundsOk (c : Capn) (s : Option Nat) (p : Option Addr) (bytes : Nat) : Prop :=
  match s, p with
  | some s, some p =>
    p.seg = s ∧ 0 ≤ p.off ∧ p.off ≤ (c.seg s).len ∧ (bytes = 0 ∨ (bytes : Int) ≤ (c.seg s).len - p.off)
  | _, _ => False

instance (c : Capn) (s : Option Nat) (p : Option Addr) (bytes : Nat) : Decidable (boundsOk c s p bytes) := by
  unfold boundsOk
  split <;> infer_instance

/-- `mul_size`, on `size_t`. -/
def mulSize (a b : Nat) : Option Nat :=
  if b ≠ 0 ∧ (2 ^ 64 - 1) / b < a then none else some (a * b)

/-- `charge_traversal`; `none` when the budget is used up. -/
def chargeTraversal (c : Capn) (bytes : Nat) (len : Int) : Option Capn :=
  let add := if bytes = 0 ∧ 0 < len then len.toNat * 8 else bytes
  if add = 0 then some c
  else
    let limit := if c.traversalLimit ≠ 0 then c.traversalLimit else CAPN_TRAVERSAL_DEFAULT
    if limit < add ∨ limit - add < c.traversalUsed then none
    else some { c with traversalUsed := c.traversalUsed + add }

/-- `hop_remaining`. -/
def hopRemaining (c : Capn) (p : Ptr) : Int :=
  if p.nestingValid then p.nesting
  else if p.seg.isSome then sessionNesting c else CAPN_NESTING_DEFAULT

/-- `apply_offset`: where the pointer word `val` at `d` points. -/
def applyOffset (c : Capn) (s : Nat) (d : Addr) (val : Nat) : Option Addr :=
  let offWords := toInt32 val / 4
  let next := d.off + (offWords + 1) * 8
  if next < 0 ∨ ((c.seg s).len : Int) < next then none else some ⟨s, next⟩

/-! ## Far pointers -/

/-- What a lookup finds: the words it read, and, unless it fails, a segment, the
place where an equivalent pointer would be, and that pointer. -/
structure Lookup where
  reads : List Addr
  hit : Option (Nat × Addr × Nat)
deriving DecidableEq, Repr

/-- `lookup_double`. -/
def lookupDouble (c : Capn) (val : Nat) : Lookup :=
  let off := val % 2 ^ 32 / 8 * 8
  match lookupSegment c (val / 2 ^ 32) with
  | none => ⟨[], none⟩
  | some seg =>
    if (c.seg seg).len < off ∨ (c.seg seg).len - off < 16 then ⟨[], none⟩
    else
      let far := c.load64 ⟨seg, off⟩
      let tag := c.load64 ⟨seg, off + 8⟩
      let reads := [⟨seg, off⟩, ⟨seg, off + 8⟩]
      -- the far tag should not be another double, and the tag should be struct/list and have no offset
      if far % 8 ≠ FAR_PTR ∨ LIST_PTR < tag % 2 ^ 32 then ⟨reads, none⟩
      else
        match lookupSegment c (far / 2 ^ 32) with
        | none => ⟨reads, none⟩
        | some seg => ⟨reads, some (seg, ⟨seg, -8⟩, (far % 2 ^ 32 / 8 * 4) ||| tag)⟩

/-- `lookup_far`. -/
def lookupFar (c : Capn) (val : Nat) : Lookup :=
  let off := val % 2 ^ 32 / 8 * 8
  match lookupSegment c (val / 2 ^ 32) with
  | none => ⟨[], none⟩
  | some seg =>
    if (c.seg seg).len < off ∨ (c.seg seg).len - off < 8 then ⟨[], none⟩
    else ⟨[⟨seg, off⟩], some (seg, ⟨seg, off⟩, c.load64 ⟨seg, off⟩)⟩

/-- The first switch of `read_ptr`: follows a far pointer. -/
def followFar (c : Capn) (s : Nat) (d : Addr) (val : Nat) : Lookup :=
  if val % 8 = FAR_PTR then lookupFar c val
  else if val % 8 = DOUBLE_PTR then lookupDouble c val
  else ⟨[], some (s, d, val)⟩

/-! ## Objects -/

/-- A composite list of `len` words, whose tag is at `d`: the list, where its
elements start, and their bytes. The tag's element count is 30 bits wide, so
that it is never negative. -/
def decodeComposite (c : Capn) (s : Nat) (d : Addr) (len : Nat) : Option (Ptr × Addr × Nat) :=
  match mulSize len 8 with
  | none => none
  | some words =>
    if ¬ boundsOk c (some s) (some d) 8 then none
    else
      let tag := c.load64 d
      if ¬ boundsOk c (some s) (some (d.add 8)) words then none
      else if 2 ^ 64 - 1 - 8 * ptrWords tag < dataWords tag * 8 then none
      else
        match mulSize (dataWords tag * 8 + 8 * ptrWords tag) (tag % 2 ^ 32 / 4) with
        | none => none
        | some total =>
          if total ≠ words then none
          else some ({ type := .LIST, len := (tag % 2 ^ 32 / 4 : Nat), datasz := dataWords tag * 8,
                       ptrs := ptrWords tag, isCompositeList := true }, d.add 8, words)

/-- A list of `len` elements (29 bits, so that it is never negative) of a size
`kind`, that starts at `d`. -/
def decodeElements (c : Capn) (s : Nat) (d : Addr) (kind len : Nat) : Option (Ptr × Addr × Nat) :=
  let plain (datasz : Nat) (nbytes : Nat) : Ptr × Addr × Nat :=
    ({ type := .LIST, len := len, datasz := datasz }, d, nbytes)
  if kind = VOID_LIST then some (plain 0 0)
  else if kind = BIT_1_LIST then
    let nbytes := (len + 7) / 8
    if 2 ^ 19 - 1 < nbytes then none
    else some ({ type := .BIT_LIST, len := len, datasz := nbytes }, d, nbytes)
  else if kind = BYTE_1_LIST then (mulSize len 1).map (plain 1)
  else if kind = BYTE_2_LIST then (mulSize len 2).map (plain 2)
  else if kind = BYTE_4_LIST then (mulSize len 4).map (plain 4)
  else if kind = BYTE_8_LIST then (mulSize len 8).map (plain 8)
  else if kind = PTR_LIST then
    (mulSize len 8).map fun nbytes => ({ type := .PTR_LIST, len := len }, d, nbytes)
  else decodeComposite c s d len

/-- The struct pointer `val` that points at `d`. -/
def decodeStruct (d : Addr) (val : Nat) : Option (Ptr × Addr × Nat) :=
  if 2 ^ 64 - 1 - 8 * ptrWords val < dataWords val * 8 then none
  else some ({ type := if val ≠ 0 then .STRUCT else .NULL, datasz := dataWords val * 8, ptrs := ptrWords val },
    d, dataWords val * 8 + 8 * ptrWords val)

/-- The second switch of `read_ptr`: the object that the pointer `val`, if it were
at `d`, points at, and the bytes it is charged for. -/
def decodeObject (c : Capn) (s : Nat) (d : Addr) (val : Nat) : Option (Ptr × Nat) :=
  match applyOffset c s d val with
  | none => none
  | some d =>
    let obj :=
      if val % 4 = STRUCT_PTR then decodeStruct d val
      else if val % 4 = LIST_PTR then decodeElements c s d (val / 2 ^ 32 % 8) (val / 2 ^ 35)
      else none
    match obj with
    | none => none
    | some (p, d, nbytes) =>
      if boundsOk c (some s) (some d) nbytes then some ({ p with seg := some s, data := some d }, nbytes)
      else none

/-- What a read gives: the session after it, the pointer, and the landing pads
read. -/
structure Read where
  capn : Capn
  ptr : Ptr
  reads : List Addr := []

/-- The `err` exit of `read_ptr`. -/
def Read.err (c : Capn) (s : Option Nat) (reads : List Addr) : Read :=
  ⟨if s.isSome then { c with decodeErr := true } else c, {}, reads⟩

/-- The hops left are recorded unless the check of the nesting was skipped. -/
def Ptr.withNesting (p : Ptr) (rem : Int) : Ptr :=
  if 0 < rem then { p with nestingValid := true, nesting := rem - 1 } else p

/-- `read_ptr`: `rem` hops remain, this one included; a negative `rem` skips the
check. -/
def readPtr (c : Capn) (s : Option Nat) (d : Option Addr) (rem : Int) : Read :=
  if rem = 0 then .err c s []
  else if ¬ boundsOk c s d 8 then .err c s []
  else
    match s, d with
    | some seg, some a =>
      let word := c.load64 a
      let far := followFar c seg a word
      match far.hit with
      | none => .err c s far.reads
      | some (seg, a, val) =>
        let tagged := decide (word % 8 = FAR_PTR ∧ val % 2 ^ 32 / 4 = 0)
        if val % 4 = OTHER_PTR then
          if val % 2 ^ 32 / 4 ≠ 0 then .err c s far.reads
          else
            let cap : Ptr := { type := .INTERFACE, hasPtrTag := tagged, len := toInt32 (val / 2 ^ 32),
                               seg := some seg, data := some a }
            ⟨c, cap.withNesting rem, far.reads⟩
        else
          match decodeObject c seg a val with
          | none => .err c s far.reads
          | some (p, nbytes) =>
            match chargeTraversal c nbytes p.len with
            | none => .err c s far.reads
            | some c => ⟨c, { p with hasPtrTag := tagged }.withNesting rem, far.reads⟩
    | _, _ => .err c s []

/-! ## Access -/

/-- `capn_resolve`. -/
def capnResolve (c : Capn) (p : Ptr) : Read :=
  if p.type = .FAR_POINTER then readPtr c p.seg p.data (hopRemaining c p) else ⟨c, p, []⟩

/-- The pointer word at `data` as `capn_getp` returns it. -/
def getpSlot (c : Capn) (seg : Option Nat) (data : Option Addr) (rem : Int) (resolve : Bool) : Read :=
  if resolve then readPtr c seg data rem
  else ⟨c, { type := .FAR_POINTER, seg := seg, data := data, nestingValid := true, nesting := rem }, []⟩

/-- `capn_getp`, on a pointer that is resolved; `seg` is the segment of the
pointer before that. -/
def getpResolved (c : Capn) (seg : Option Nat) (p : Ptr) (off : Int) (resolve : Bool) : Read :=
  let rem := hopRemaining c p
  match p.type with
  | .LIST =>
    if off < p.len then
      ⟨c, { type := .STRUCT, isListMember := true, seg := p.seg, datasz := p.datasz, ptrs := p.ptrs,
            data := p.data.map (·.add (off * (p.datasz + 8 * p.ptrs))),
            nestingValid := true, nesting := rem }, []⟩
    else ⟨c, {}, []⟩
  | .BIT_LIST =>
    if off < 0 ∨ p.len ≤ off ∨ p.data = none then ⟨c, {}, []⟩
    else
      let bit := off + p.ptrs
      ⟨c, { type := .BIT_LIST, isListMember := true, seg := p.seg, data := p.data.map (·.add (bit / 8)),
            datasz := 1, len := 1, ptrs := (bit % 8).toNat, nestingValid := true, nesting := rem }, []⟩
  | .STRUCT =>
    if (p.ptrs : Int) ≤ off then ⟨c, {}, []⟩
    else getpSlot c seg (p.data.map (·.add (p.datasz + 8 * off))) rem resolve
  | .PTR_LIST =>
    if p.len ≤ off then ⟨c, {}, []⟩
    else if ¬ resolve then
      ⟨c, { type := .STRUCT, isListMember := true, seg := p.seg, data := p.data.map (·.add (8 * off)),
            datasz := 0, ptrs := 1, nestingValid := true, nesting := rem }, []⟩
    else getpSlot c seg (p.data.map (·.add (8 * off))) rem resolve
  | _ => ⟨c, {}, []⟩

/-- `capn_getp`. -/
def capnGetp (c : Capn) (p : Ptr) (off : Int) (resolve : Bool) : Read :=
  let r := capnResolve c p
  let g := getpResolved r.capn p.seg r.ptr off resolve
  { g with reads := r.reads ++ g.reads }

/-- `capn_root`. -/
def capnRoot (c : Capn) : Capn × Ptr :=
  let found : Option (Capn × Nat × Addr) :=
    match lookupSegment c 0 with
    | some seg => some (c, seg, ⟨seg, 0⟩)
    | none => newData c 8
  match found with
  | none => (c, {})
  | some (c, seg, data) =>
    if (c.seg seg).cap < 8 then (c, {})
    else
      (if (c.seg seg).len < 8 then c.setSeg seg fun s => { s with len := 8 } else c,
        { type := .PTR_LIST, seg := some seg, data := some data, len := 1,
          nestingValid := true, nesting := sessionNesting c })

end Capnproto

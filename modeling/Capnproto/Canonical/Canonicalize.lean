import Capnproto.Graph.Validate
import Capnproto.Object.Write

/-!
# `capn_canonicalize`

The canonical form of a message: a pass that measures it (`canonMeasure`), and one that
writes it into a single segment (`canonEmit`), object by object, in preorder. Both recurse
on the hops that remain. A failure keeps what it leaves behind: the session that was read,
and the segment that was written.
-/

namespace Capnproto

/-! ## Truncation -/

/-- `word_zero`. -/
def wordZero (c : Capn) (d : Addr) : Bool := c.load64 d == 0

/-- The loops that drop words from the end: how many of `n` words there are up to the last
one that is not `zero`. -/
def dropZeros (zero : Nat → Bool) : Nat → Nat
  | 0 => 0
  | n + 1 => if zero n then dropZeros zero n else n + 1

/-- `trunc_data_words`. -/
def truncDataWords (c : Capn) (data : Addr) (datasz : Nat) : Nat :=
  dropZeros (fun n => wordZero c (data.add (n * 8 : Nat))) (datasz / 8)

/-- `trunc_ptr_words`. -/
def truncPtrWords (c : Capn) (data : Addr) (datasz ptrs : Nat) : Nat :=
  dropZeros (fun n => wordZero c (data.add (datasz + n * 8 : Nat))) ptrs

/-- The bytes between the elements of a composite list. -/
def Ptr.stride (p : Ptr) : Nat := p.datasz + 8 * p.ptrs

/-- `trunc_composite`, of a list whose elements start at `data`. -/
def truncComposite (c : Capn) (data : Addr) (list : Ptr) : Nat × Nat :=
  let allz (off n : Nat) : Bool :=
    (List.range list.len.toNat).all fun i => wordZero c (data.add (i * list.stride + off + n * 8 : Nat))
  (dropZeros (allz 0) (list.datasz / 8), dropZeros (allz list.datasz) list.ptrs)

/-- `pad8`; `none` is `(size_t) -1`. -/
def pad8 (n : Nat) : Option Nat := if 2 ^ 64 - 1 - 7 < n then none else some ((n + 7) / 8 * 8)

/-! ## Objects in progress -/

/-- A `goto fail` that leaves `left` behind, unless there is a value. -/
def orFail {ε α : Type} (left : ε) : Option α → Except ε α
  | none => .error left
  | some a => .ok a

/-- `load_child`. -/
def loadChild (c : Capn) (s : Option Nat) (d : Addr) (rem : Int) : Except Capn (Capn × Ptr) :=
  if rem = 0 then .error c
  else
    match ptrWordNull c s (some d) with
    | none => .error c
    | some true => .ok (c, {})
    | some false =>
      let out := readPtr c s (some d) rem
      if out.ptr.type = .NULL then .error out.capn else .ok (out.capn, out.ptr)

section

variable (vhash : VKey → Nat) (alloc : VAlloc)

/-- `vset_reenter`: -1 cycle or out of memory, 0 visiting, 2 skip. -/
def vsetReenter (vs : VSet) (p : Ptr) : Int × VSet :=
  if p.type = .INTERFACE then (2, vs)
  else
    match vkey p with
    | none => (2, vs)
    | some key =>
      match vsetRoom vhash alloc vs with
      | none => (-1, vs)
      | some vs =>
        match Probe.find vhash vs.tab key with
        | none => (-1, vs)
        | some i =>
          match vs.tab.getD i none with
          | some (_, .PATH) => (-1, vs)
          | some (_, .DONE) => (0, { vs with tab := vs.tab.set i (some (key, .PATH)) })
          | none => (0, ⟨vs.tab.set i (some (key, .PATH)), vs.n + 1⟩)

end

/-- The addresses of `n` words from `d` on. -/
def wordsAt (d : Addr) (n : Nat) : List Addr := (List.range n).map fun i => d.add (8 * i : Nat)

/-! ## Measuring -/

/-- `canon_add`. -/
def canonAdd (total add limit : Nat) : Option Nat :=
  if limit < add ∨ limit - add < total then none else some (total + add)

/-- What `canon_measure` carries. -/
structure Measurement where
  capn : Capn
  vs : VSet
  total : Nat

/-- The loops of `canon_measure` over the words at `ds`. -/
def measureChildren (measure : Measurement → Ptr → Except Capn Measurement) (rem : Nat) (s : Option Nat) :
    List Addr → Measurement → Except Capn Measurement
  | [], st => .ok st
  | d :: ds, st => do
    let (c, ch) ← loadChild st.capn s d rem
    let st ← measure { st with capn := c } ch
    measureChildren measure rem s ds st

/-- The bytes of an object, and the words of its pointers that are not cut off. -/
def measureObject (c : Capn) (p : Ptr) (data : Addr) : Option (Nat × List Addr) :=
  match p.type with
  | .STRUCT =>
    let dw := truncDataWords c data p.datasz
    let pw := truncPtrWords c data p.datasz p.ptrs
    some (dw * 8 + pw * 8, wordsAt (data.add p.datasz) pw)
  | .PTR_LIST => do
    let add ← mulSize p.len.toNat 8
    some (add, wordsAt data p.len.toNat)
  | .BIT_LIST => do
    let add ← pad8 ((p.len.toNat + 7) / 8)
    some (add, [])
  | .LIST =>
    if p.isCompositeList then do
      let (dw, pw) := truncComposite c data p
      let add ← mulSize p.len.toNat (dw + pw)
      let add ← mulSize add 8
      if 2 ^ 64 - 1 - 8 < add then none
      else some (add + 8,
        (List.range p.len.toNat).flatMap fun i => wordsAt (data.add (i * p.stride + p.datasz : Nat)) pw)
    else if p.datasz = 0 ∨ p.len ≤ 0 then some (0, [])
    else do
      let nbytes ← mulSize p.len.toNat p.datasz
      let add ← pad8 nbytes
      some (add, [])
  | _ => none

section

variable (vhash : VKey → Nat) (alloc : VAlloc) (limit : Nat)

/-- `canon_measure` of one object, with `measure` for its children. -/
def canonMeasureWith (measure : Measurement → Ptr → Except Capn Measurement) (rem : Nat) (st : Measurement)
    (p : Ptr) : Except Capn Measurement :=
  if p.type = .NULL ∨ p.type = .INTERFACE then .ok st
  else
    let (ent, vs) := vsetReenter vhash alloc st.vs p
    if ent < 0 then .error st.capn
    else if ent = 2 then .ok { st with vs := vs }
    else do
      let data ← orFail st.capn p.data
      let (add, words) ← orFail st.capn (measureObject st.capn p data)
      -- a struct that is cut off to nothing is not held against the limit
      let total ← orFail st.capn (if p.type = .STRUCT ∧ add = 0 then some st.total else canonAdd st.total add limit)
      let st ← measureChildren measure rem p.seg words { st with vs := vs, total := total }
      .ok { st with vs := vsetLeave vhash st.vs p }

/-- `canon_measure`, with `rem` hops left. -/
def canonMeasure : Nat → Measurement → Ptr → Except Capn Measurement
  | 0 => canonMeasureWith vhash alloc limit (fun st _ => .error st.capn) 0
  | rem + 1 => canonMeasureWith vhash alloc limit (canonMeasure rem) (rem + 1)

end

/-! ## Writing -/

/-- Copies bytes into a segment. -/
def Segment.store (ds : Segment) (loc : Int) (bs : List UInt8) : Segment := { ds with data := ds.data.write loc bs }

/-- `write_ptr_tag` into a segment. -/
def Segment.writeTag (ds : Segment) (loc : Int) (p : Ptr) (off : Int) : Option Segment :=
  (ptrTag p off).map fun val => ds.store loc (toLe 8 val)

/-- `canon_alloc`: where the bytes are, and the segment with them in use. -/
def canonAlloc (ds : Segment) (n : Nat) : Option (Nat × Segment) :=
  if n = 0 then some (ds.len, ds)
  else if ds.cap < ds.len ∨ ds.cap - ds.len < n then none
  else some (ds.len, { ds with len := ds.len + n })

/-- What `canon_emit` carries, and what it leaves behind. -/
structure Emission where
  capn : Capn
  vs : VSet
  ds : Segment

/-- The loops of `canon_emit` over the words of an object, each with the place of its copy. -/
def emitChildren (emit : Emission → Int → Ptr → Except Emission Emission) (rem : Nat) (s : Option Nat) :
    List (Addr × Int) → Emission → Except Emission Emission
  | [], st => .ok st
  | (d, loc) :: rest, st =>
    match loadChild st.capn s d rem with
    | .error c => .error { st with capn := c }
    | .ok (c, ch) => do
      let st ← emit { st with capn := c } loc ch
      emitChildren emit rem s rest st

section

variable (emit : Emission → Int → Ptr → Except Emission Emission) (rem : Nat) (st : Emission) (loc : Int) (p : Ptr)
  (data : Addr)

/-- `canon_emit` of a struct. -/
def emitStruct : Except Emission Emission :=
  let dw := truncDataWords st.capn data p.datasz
  let pw := truncPtrWords st.capn data p.datasz p.ptrs
  if dw = 0 ∧ pw = 0 then do
    let ds ← orFail st (st.ds.writeTag loc { p with datasz := 0, ptrs := 0 } (-8))
    .ok { st with ds := ds }
  else do
    let (obj, ds) ← orFail st (canonAlloc st.ds (dw * 8 + pw * 8))
    let ds ← orFail { st with ds := ds } (ds.writeTag loc { p with datasz := dw * 8, ptrs := pw } (obj - loc - 8))
    let ds := if dw ≠ 0 then ds.store obj (st.capn.read data (dw * 8)) else ds
    emitChildren emit rem p.seg
      ((List.range pw).map fun i => (data.add (p.datasz + 8 * i : Nat), (obj + dw * 8 + 8 * i : Nat))) { st with ds := ds }

/-- `canon_emit` of a list of pointers. -/
def emitPtrList : Except Emission Emission := do
  let add ← orFail st (mulSize p.len.toNat 8)
  let (obj, ds) ← orFail st (canonAlloc st.ds add)
  let ds ← orFail { st with ds := ds } (ds.writeTag loc p (obj - loc - 8))
  emitChildren emit rem p.seg
    ((List.range p.len.toNat).map fun i => (data.add (8 * i : Nat), (obj + 8 * i : Nat))) { st with ds := ds }

/-- `canon_emit` of a list of bits: those after the last one are masked. -/
def emitBitList : Except Emission Emission := do
  let nbytes := (p.len.toNat + 7) / 8
  let add ← orFail st (pad8 nbytes)
  let (obj, ds) ← orFail st (canonAlloc st.ds add)
  let ds ← orFail { st with ds := ds } (ds.writeTag loc p (obj - loc - 8))
  let ds := if nbytes ≠ 0 then ds.store obj (st.capn.read data nbytes) else ds
  let bits := p.len.toNat % 8
  let last : Int := (obj + nbytes : Nat) - 1
  let ds := if bits ≠ 0 then ds.store last [UInt8.ofNat ((ds.data last).toNat % 2 ^ bits)] else ds
  .ok { st with ds := ds }

/-- `canon_emit` of a composite list. -/
def emitComposite : Except Emission Emission := do
  let (dw, pw) := truncComposite st.capn data p
  let add ← orFail st (mulSize p.len.toNat (dw + pw))
  let add ← orFail st (mulSize add 8)
  if 2 ^ 64 - 1 - 8 < add then .error st
  else
    let (obj, ds) ← orFail st (canonAlloc st.ds (add + 8))
    let ds ← orFail { st with ds := ds } (ds.writeTag loc { p with datasz := dw * 8, ptrs := pw } (obj - loc - 8))
    let hdr := STRUCT_PTR + p.len.toNat * 4 + dw * 2 ^ 32 + pw * 2 ^ 48
    let ds := ds.store obj (toLe 8 hdr)
    let tstride := dw * 8 + pw * 8
    let ds := (List.range p.len.toNat).foldl (fun ds i =>
      if dw ≠ 0 then
        ds.store (obj + 8 + i * tstride : Nat) (st.capn.read (data.add (i * p.stride : Nat)) (dw * 8))
      else ds) ds
    emitChildren emit rem p.seg
      ((List.range p.len.toNat).flatMap fun i => (List.range pw).map fun j =>
        (data.add (i * p.stride + p.datasz + 8 * j : Nat), (obj + 8 + i * tstride + dw * 8 + 8 * j : Nat)))
      { st with ds := ds }

/-- `canon_emit` of a list of data. -/
def emitList : Except Emission Emission := do
  let nbytes ← orFail st (if p.datasz = 0 ∨ p.len ≤ 0 then some 0 else mulSize p.len.toNat p.datasz)
  let add ← orFail st (pad8 nbytes)
  let (obj, ds) ← orFail st (canonAlloc st.ds add)
  let ds ← orFail { st with ds := ds } (ds.writeTag loc p (obj - loc - 8))
  .ok { st with ds := if add ≠ 0 then ds.store obj (st.capn.read data nbytes) else ds }

/-- The switch of `canon_emit`. -/
def emitObject : Except Emission Emission :=
  match p.type with
  | .STRUCT => emitStruct emit rem st loc p data
  | .PTR_LIST => emitPtrList emit rem st loc p data
  | .BIT_LIST => emitBitList st loc p data
  | .LIST => if p.isCompositeList then emitComposite emit rem st loc p data else emitList st loc p data
  | _ => .error st

end

section

variable (vhash : VKey → Nat) (alloc : VAlloc)

/-- `canon_emit` of one object, with `emit` for its children. -/
def canonEmitWith (emit : Emission → Int → Ptr → Except Emission Emission) (rem : Nat) (st : Emission) (loc : Int)
    (p : Ptr) : Except Emission Emission :=
  if p.type = .NULL then .ok { st with ds := st.ds.store loc (toLe 8 0) }
  else if p.type = .INTERFACE then do
    let ds ← orFail st (st.ds.writeTag loc p 0)
    .ok { st with ds := ds }
  else
    let (ent, vs) := vsetReenter vhash alloc st.vs p
    if ent < 0 then .error st
    else if ent = 2 then .ok { st with vs := vs, ds := st.ds.store loc (toLe 8 0) }
    else do
      let data ← orFail st p.data
      let st ← emitObject emit rem { st with vs := vs } loc p data
      .ok { st with vs := vsetLeave vhash st.vs p }

/-- `canon_emit`, with `rem` hops left. -/
def canonEmit : Nat → Emission → Int → Ptr → Except Emission Emission
  | 0 => canonEmitWith vhash alloc (fun st _ _ => .error st) 0
  | rem + 1 => canonEmitWith vhash alloc (canonEmit rem) (rem + 1)

/-! ## The call -/

/-- The object at the root of `src`: none if the message is empty or its root is null. -/
def canonRoot (src : Capn) : Except Capn (Capn × Ptr) :=
  if src.segs = [] then .ok (src, {})
  else
    let (c, root) := capnRoot src
    match root.data with
    | none => .error c
    | some data => loadChild c root.seg data (sessionNesting src)

/-- What `capn_canonicalize` needs for the object `first`. -/
def canonNeed (src c : Capn) (first : Ptr) : Except Capn (Capn × Nat) :=
  let limit := if src.traversalLimit ≠ 0 then src.traversalLimit else CAPN_TRAVERSAL_DEFAULT
  if first.type = .NULL then .ok (c, 8)
  else do
    let vs ← orFail c (vsetInit alloc)
    let st ← canonMeasure vhash alloc limit (hopRemaining c first).toNat ⟨c, vs, 8⟩ first
    .ok (st.capn, st.total)

/-- What `capn_canonicalize` returns, and the two sessions after it. -/
structure Canonicalization where
  ret : Int
  src : Capn
  dst : Capn

/-- The end of `capn_canonicalize`, with the segment that `create` made: `c` is the source, whose
counter was at `saved`, and `first` its root. -/
def canonWrite (saved : Nat) (c dst : Capn) (first : Ptr) (s : Segment) : Canonicalization :=
  let out (ret : Int) (c : Capn) (s : Segment) : Canonicalization :=
    ⟨ret, { c with traversalUsed := saved }, capnAppendSegment dst s⟩
  if first.type = .NULL then out 0 c s
  else
    match vsetInit alloc with
    | none => out (-1) c s
    | some vs =>
      match canonEmit vhash alloc (hopRemaining c first).toNat ⟨{ c with traversalUsed := saved }, vs, s⟩ 0 first with
      | .error st => out (-1) st.capn st.ds
      | .ok st => out 0 st.capn st.ds

/-- `capn_canonicalize`, from the session `src` into another one, `dst`. -/
def capnCanonicalize (src dst : Capn) : Canonicalization :=
  let fail (c dst : Capn) : Canonicalization := ⟨-1, { c with traversalUsed := src.traversalUsed }, dst⟩
  match dst.create with
  | none => ⟨-1, src, dst⟩
  | some create =>
    if dst.segnum ≠ 0 then ⟨-1, src, dst⟩
    else
      match canonRoot src with
      | .error c => fail c dst
      | .ok (c, first) =>
        match canonNeed vhash alloc src c first with
        | .error c => fail c dst
        | .ok (c, need) =>
          if need < 8 ∨ INT_MAX < need then fail c dst
          else
            match create 0 need with
            | none => fail c dst
            | some s =>
              if s.cap < need then fail c (capnAppendSegment dst s)
              else canonWrite vhash alloc src.traversalUsed c dst first { s with len := 8 }

end

end Capnproto

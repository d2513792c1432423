import Capnproto.Framework.Loop
import Capnproto.Object.Write

/-!
# `capn_setp`

Setting a pointer: a pointer within a session is written, an object of another
session (or a member of a list) is copied, depth first, with a stack of the
places still to fill and an index of the copies made. Sessions are named by
numbers (`World`); the destination and the source may be the same one.

An address that is `NULL` is never read or stored through: what the library
would do there is undefined, and the functions below leave the session alone.
-/

namespace Capnproto

/-- The sessions, by number. -/
abbrev World := Nat → Capn

/-- Replaces a session. -/
def World.set (w : World) (i : Nat) (c : Capn) : World := fun k => if k = i then c else w k

/-- `memcpy` of `n` bytes within and between sessions. -/
def memcpy (w : World) (i : Nat) (dst : Option Addr) (j : Nat) (src : Option Addr) (n : Nat) : World :=
  match dst, src with
  | some dst, some src => w.set i ((w i).write dst ((w j).read src n))
  | _, _ => w

/-- `memset` to zero. -/
def memzero (w : World) (i : Nat) (dst : Option Addr) (n : Nat) : World :=
  match dst with
  | some dst => w.set i ((w i).write dst (List.replicate n 0))
  | none => w

/-- Pointer arithmetic on `data`. -/
def Ptr.advance (p : Ptr) (n : Int) : Ptr := { p with data := p.data.map (·.add n) }

/-- `data_size`. -/
def dataSize (p : Ptr) : Int :=
  match p.type with
  | .BIT_LIST => p.datasz
  | .PTR_LIST => p.len * 8
  | .STRUCT => p.datasz + 8 * p.ptrs
  | .LIST => p.len * (p.datasz + 8 * p.ptrs) + if p.isCompositeList then 8 else 0
  | _ => 0

/-- `is_ptr_equal`. -/
def isPtrEqual (a b : Ptr) : Bool :=
  a.data = b.data && a.type = b.type && a.len = b.len && a.datasz = b.datasz && a.ptrs = b.ptrs

/-- `new_clone`. -/
def newClone (c : Capn) (s : Nat) (p : Ptr) : Capn × Ptr :=
  match p.type with
  | .STRUCT => capnNewStruct c (some s) p.datasz p.ptrs
  | .PTR_LIST => capnNewPtrList c (some s) p.len.toNat
  | .BIT_LIST => capnNewList1 c (some s) p.len.toNat
  | .LIST =>
    if p.isCompositeList then capnNewStructList c (some s) p.len.toNat p.datasz p.ptrs
    else capnNewList c (some s) p.len.toNat p.datasz p.ptrs
  | .INTERFACE =>
    let (c, n) := capnNewInterface c (some s)
    (c, { n with len := p.len })
  | _ => (c, p)

/-! ## The index of copies -/

/-- What the index says about a source range. -/
inductive Found where
  | free
  | copied (t : Ptr)
  | overlap
deriving DecidableEq, Repr

/-- `fbegin`, `fend` and their segment. -/
def Ptr.fbegin (f : Ptr) : Int := (f.data.map Addr.off).getD 0 - if f.isCompositeList then 8 else 0
def Ptr.fend (f : Ptr) : Int := f.fbegin + dataSize f
def Ptr.fseg (f : Ptr) : Nat := (f.data.map Addr.seg).getD 0

/-- Objects without bytes of their own are not looked up, nor are single bits. -/
def Ptr.zeroSized (f : Ptr) : Prop := f.fend = f.fbegin ∨ (f.type = .BIT_LIST ∧ f.isListMember)

instance (f : Ptr) : Decidable f.zeroSized := inferInstanceAs (Decidable (_ ∨ _))

/-- Looks the source range of `f` up, of session `src`. The ranges of the index
are disjoint, so that the order of its entries does not matter. -/
def findCopy (c : Capn) (src : Nat) (f : Ptr) : Found :=
  if f.zeroSized then .free
  else
    match c.copy.find? fun e =>
      e.src = src ∧ e.seg = f.fseg ∧ ¬ f.fend ≤ e.fbegin ∧ ¬ e.fend ≤ f.fbegin with
    | none => .free
    | some e => if isPtrEqual f e.fromPtr then .copied e.toPtr else .overlap

/-- Takes room for one more entry from the local segments; `none` if there is
none. -/
def newCopy (c : Capn) : Option Capn :=
  let take (len cap : Nat) (rest : List (Nat × Nat)) : Capn :=
    { c with copylist := (len + sizeofCopy, cap) :: rest }
  let fresh : Option Capn :=
    match c.createLocal with
    | none => none
    | some create => (create sizeofCopy).map fun cap => take 0 cap c.copylist
  match c.copylist with
  | [] => fresh
  | (len, cap) :: rest => if cap < len + sizeofCopy then fresh else some (take len cap rest)

/-! ## Copying one object -/

/-- What a step of the copy leaves: the status, the sessions, and the entry
pushed on the stack, if any: where to store, and what. -/
structure Copied where
  ret : Int
  world : World
  push : Option (Ptr × Ptr) := none

/-- The bit at index 0 of a member of a bit list. -/
def memberBit (c : Capn) (f : Ptr) : Bool :=
  match f.data with
  | none => false
  | some a => 0 < f.len && ((c.seg a.seg).data (a.off + f.ptrs / 8)).toNat.testBit (f.ptrs % 8)

/-- The data of a copy `t` of `f`, once it is allocated, and what is left to do:
the end of `copy_ptr`. -/
def copyBody (w : World) (i j : Nat) (t f : Ptr) : Copied :=
  match t.type with
  | .STRUCT =>
    let w := if t.datasz ≠ 0 then memcpy w i t.data j f.data t.datasz else w
    let t := t.advance t.datasz
    if t.ptrs ≠ 0 then ⟨0, w, some ({ t with type := .PTR_LIST, len := t.ptrs }, f.advance t.datasz)⟩
    else ⟨0, w, none⟩
  | .BIT_LIST =>
    if f.isListMember then
      match t.data with
      | none => ⟨0, w, none⟩
      | some a => ⟨0, w.set i ((w i).write a [if memberBit (w j) f then 1 else 0]), none⟩
    else ⟨0, memcpy w i t.data j f.data t.datasz, none⟩
  | .LIST =>
    if t.len = 0 then ⟨0, w, none⟩
    else if t.ptrs ≠ 0 ∧ t.datasz ≠ 0 then ⟨0, w, some (t, f)⟩
    else if t.datasz ≠ 0 then ⟨0, memcpy w i t.data j f.data (t.len * t.datasz).toNat, none⟩
    else if t.ptrs ≠ 0 then ⟨0, w, some ({ t with type := .PTR_LIST, len := t.len * t.ptrs }, f)⟩
    else ⟨0, w, none⟩
  | .PTR_LIST => if t.len ≠ 0 then ⟨0, w, some (t, f)⟩ else ⟨0, w, none⟩
  | .INTERFACE => ⟨0, w, none⟩
  | _ => ⟨-1, w, none⟩

/-- `copy_ptr`, when there is no copy yet: allocates one, and adds it to the
index. -/
def copyFresh (w : World) (i j seg : Nat) (data : Addr) (f : Ptr) : Copied :=
  let (c, t) := newClone (w i) seg f
  let (ret, c) := writePtr c seg data t false
  if ret ≠ 0 then ⟨-1, w.set i c, none⟩
  else if f.zeroSized then copyBody (w.set i c) i j t f
  else
    match newCopy c with
    | none => ⟨-1, w.set i c, none⟩
    | some c => copyBody (w.set i { c with copy := ⟨t, f, j, f.fseg, f.fbegin, f.fend⟩ :: c.copy }) i j t f

/-- `copy_ptr`: sets the slot `data` of segment `seg` of session `i` to a copy of
the object `f` of session `j`. -/
def copyPtr (w : World) (i j seg : Nat) (data : Addr) (f : Ptr) : Copied :=
  match findCopy (w i) j f with
  | .overlap => ⟨-1, w, none⟩
  | .copied t =>
    -- we already have a copy so just point to that
    let (ret, c) := writePtr (w i) seg data t false
    ⟨ret, w.set i c, none⟩
  | .free => copyFresh w i j seg data f

/-- `copy_list_member`: stores the struct `f` of session `j` into the element `t`
of session `i`. -/
def copyListMember (w : World) (i j : Nat) (t f : Ptr) : World × Option (Ptr × Ptr) :=
  let sz := min t.datasz f.datasz
  let w := memcpy w i t.data j f.data sz
  let w := memzero w i (t.data.map (·.add sz)) (t.datasz - sz)
  let t := t.advance t.datasz
  let f := f.advance f.datasz
  -- reset excess pointers
  let sz := min t.ptrs f.ptrs
  let w := memzero w i (t.data.map (·.add sz)) (8 * (t.ptrs - sz))
  (w, if t.ptrs ≠ 0 then some ({ t with type := .PTR_LIST, len := t.ptrs }, f) else none)

/-! ## The loop -/

def MAX_COPY_DEPTH : Nat := 32

/-- The state of the copy: the sessions, and the stack, innermost entry first. -/
structure CopyState where
  world : World
  stack : List (Ptr × Ptr)

/-- Copies the object `f`, if any, into the slot that the pointer list `tc` is at. -/
def copySlot (w : World) (i j : Nat) (tc f : Ptr) : Copied :=
  match f.type, tc.seg, tc.data with
  | .NULL, _, _ => ⟨0, w, none⟩
  | _, some seg, some data => copyPtr w i j seg data f
  | _, _, _ => ⟨0, w, none⟩

/-- One iteration of the loop of `capn_setp`. -/
def copyStep (i j : Nat) (s : CopyState) : Step CopyState (Int × World) :=
  match s.stack with
  | [] => .done (0, s.world)
  | (tc, fc) :: rest =>
    if rest.length + 2 = MAX_COPY_DEPTH then .done (-1, s.world)
    else if tc.len = 0 then .next { s with stack := rest }
    else if tc.type = .LIST then
      let fn := capnGetp (s.world j) fc 0 true
      let w := s.world.set j fn.capn
      let tn := capnGetp (w i) tc 0 true
      let w := w.set i tn.capn
      let (w, push) := copyListMember w i j tn.ptr fn.ptr
      let top := ({ tc.advance (tc.datasz + 8 * tc.ptrs) with len := tc.len - 1 },
        fc.advance (fc.datasz + 8 * fc.ptrs))
      .next ⟨w, push.toList ++ top :: rest⟩
    else
      let fn := readPtr (s.world j) fc.seg fc.data (-1)
      let w := s.world.set j fn.capn
      let r := copySlot w i j tc fn.ptr
      if r.ret ≠ 0 then .done (-1, r.world)
      else
        .next ⟨r.world, r.push.toList ++ ({ tc.advance 8 with len := tc.len - 1 }, fc.advance 8) :: rest⟩

/-- `capn_setp` of the slot `data` of segment `seg`, before the loop. -/
def setpSlot (w : World) (i seg : Nat) (data : Addr) (j : Nat) (tgt : Ptr) : Step CopyState (Int × World) :=
  let (err, c) := writePtr (w i) seg data tgt (i ≠ j)
  let w := w.set i c
  if err ≠ NEED_TO_COPY then .done (err, w)
  else
    let r := copyPtr w i j seg data tgt
    if r.ret ≠ 0 then .done (-1, r.world) else .next ⟨r.world, r.push.toList⟩

/-- The bit that `capn_setp` stores into a bit list for `tgt`; `none` if it is
refused. -/
def setpBit (c : Capn) (tgt : Ptr) : Option Bool :=
  match tgt.type, tgt.data with
  | .NULL, _ | _, none => some false
  | .BIT_LIST, some _ => some (memberBit c tgt)
  | .STRUCT, some a => if 1 ≤ tgt.datasz then some (((c.seg a.seg).data a.off).toNat.testBit 0) else none
  | _, some _ => none

/-- `capn_set1`, on a bit list. -/
def setBit (c : Capn) (p : Ptr) (off : Int) (val : Bool) : Capn :=
  match p.data with
  | none => c
  | some a =>
    let bit := off + p.ptrs
    let a := a.add (bit / 8)
    let mask : UInt8 := 1 <<< UInt8.ofNat (bit % 8).toNat
    let old := (c.seg a.seg).data a.off
    c.write a [if val then old ||| mask else old &&& ~~~mask]

/-- `capn_setp` on pointers that are resolved: done, or the copy it starts. -/
def setpResolved (w : World) (i : Nat) (p : Ptr) (off : Int) (j : Nat) (tgt : Ptr) :
    Step CopyState (Int × World) :=
  let slot (n : Int) : Step CopyState (Int × World) :=
    match p.seg, p.data with
    | some seg, some data => setpSlot w i seg (data.add n) j tgt
    | _, _ => .done (-1, w)
  match p.type with
  | .LIST =>
    if p.len ≤ off ∨ tgt.type ≠ .STRUCT then .done (-1, w)
    else
      let (w, push) := copyListMember w i j (p.advance (off * (p.datasz + 8 * p.ptrs))) tgt
      .next ⟨w, push.toList⟩
  | .BIT_LIST =>
    if off < 0 ∨ p.len ≤ off then .done (-1, w)
    else
      match setpBit (w j) tgt with
      | none => .done (-1, w)
      | some val => if p.data = none then .done (-1, w) else .done (0, w.set i (setBit (w i) p off val))
  | .PTR_LIST => if p.len ≤ off then .done (-1, w) else slot (8 * off)
  | .STRUCT => if (p.ptrs : Int) ≤ off then .done (-1, w) else slot (p.datasz + 8 * off)
  | _ => .done (-1, w)

/-- `capn_setp`, of a pointer `p` of session `i` to a pointer `tgt` of session
`j`, before the loop. -/
def setpStart (w : World) (i : Nat) (p : Ptr) (off : Int) (j : Nat) (tgt : Ptr) :
    Step CopyState (Int × World) :=
  let rp := capnResolve (w i) p
  let w := w.set i rp.capn
  let far : Option World :=
    match tgt.type, tgt.data, rp.ptr.data with
    | .FAR_POINTER, some src, some dst =>
      let val := (w j).load64 src
      if i = j ∧ val % 4 = FAR_PTR then some (w.set i ((w i).store64 dst val)) else none
    | _, _, _ => none
  match far with
  | some w => .done (0, w)
  | none =>
    let rt := capnResolve (w j) tgt
    setpResolved (w.set j rt.capn) i rp.ptr off j rt.ptr

/-- `capn_setp`, with at most `fuel` iterations of its loop. -/
def capnSetp (fuel : Nat) (w : World) (i : Nat) (p : Ptr) (off : Int) (j : Nat) (tgt : Ptr) :
    Option (Int × World) :=
  match setpStart w i p off j tgt with
  | .done r => some r
  | .next s => Loop.run (copyStep i j) fuel s

/-- `capn_setp` returns, with the status and the sessions `r`. -/
def Setp (w : World) (i : Nat) (p : Ptr) (off : Int) (j : Nat) (tgt : Ptr) (r : Int × World) : Prop :=
  ∃ fuel, capnSetp fuel w i p off j tgt = some r

/-- `capn_set_root`. -/
def capnSetRoot (fuel : Nat) (w : World) (i j : Nat) (tgt : Ptr) : Option (Int × World) :=
  let (c, root) := capnRoot (w i)
  capnSetp fuel (w.set i c) i root 0 j tgt

end Capnproto

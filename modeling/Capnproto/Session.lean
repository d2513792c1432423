import Capnproto.Framework.Mem

/-!
# Sessions, segments and pointers

The data of `capnp_c.h`. A session (`struct capn`) holds its segments in the
order of their ids, so that a segment is named by its index: `seglist`,
`segtree`, `lastseg` and `segnum` are the list `segs`, and looking an id up is
looking at the index (`lookupSegment`). An address (`char *`) is a segment and
an offset from its `data`. The copy index is the list of its entries.
-/

namespace Capnproto

def INT_MAX : Nat := 2 ^ 31 - 1
def UINT32_MAX : Nat := 2 ^ 32 - 1

/-- Default decode traversal budget (bytes). -/
def CAPN_TRAVERSAL_DEFAULT : Nat := 64 * 1024 * 1024

/-- Default pointer nesting depth. -/
def CAPN_NESTING_DEFAULT : Int := 64

/-- `sizeof(struct capn_segment)`, `sizeof(struct copy)`. -/
def sizeofSegment : Nat := 80
def sizeofCopy : Nat := 128

/-- `enum CAPN_TYPE`. -/
inductive CapnType where
  | NULL
  | STRUCT
  | LIST
  | PTR_LIST
  | BIT_LIST
  | FAR_POINTER
  | INTERFACE
deriving DecidableEq, Repr

/-- A `char *` into a segment. -/
structure Addr where
  seg : Nat
  off : Int
deriving DecidableEq, Repr

/-- Pointer arithmetic. -/
def Addr.add (a : Addr) (n : Int) : Addr := { a with off := a.off + n }

/-- `struct capn_ptr`. -/
structure Ptr where
  type : CapnType := .NULL
  hasPtrTag : Bool := false
  isListMember : Bool := false
  isCompositeList : Bool := false
  datasz : Nat := 0
  ptrs : Nat := 0
  len : Int := 0
  data : Option Addr := none
  seg : Option Nat := none
  nesting : Int := 0
  nestingValid : Bool := false
deriving DecidableEq, Repr

/-- `struct capn_segment`: `len` bytes of `data` are in use, of `cap`. -/
structure Segment where
  data : Mem
  len : Nat
  cap : Nat

/-- The bytes in use. -/
def Segment.bytes (s : Segment) : List UInt8 := s.data.read 0 s.len

/-- `struct copy`: `src` is the session of `fromPtr`, `seg` the segment of
`fbegin` and `fend` there. -/
structure Copy where
  toPtr : Ptr
  fromPtr : Ptr
  src : Nat
  seg : Nat
  fbegin : Int
  fend : Int
deriving DecidableEq, Repr

/-- `struct capn`. `create` and `createLocal` say what the callbacks return:
a blank zeroed segment, and the capacity of one; `copylist` has the `len` and
the `cap` of the local segments. -/
structure Capn where
  create : Option (Nat → Nat → Option Segment) := none
  createLocal : Option (Nat → Option Nat) := none
  traversalLimit : Nat := 0
  nestingLimit : Int := 0
  segs : List Segment := []
  copy : List Copy := []
  copylist : List (Nat × Nat) := []
  traversalUsed : Nat := 0
  decodeErr : Bool := false

namespace Capn

/-- `memset(c, 0, sizeof(*c))`. -/
def zeroed : Capn := {}

def segnum (c : Capn) : Nat := c.segs.length

/-- The segment with id `i`; one without room if there is none. -/
def seg (c : Capn) (i : Nat) : Segment := c.segs.getD i ⟨Mem.zero, 0, 0⟩

/-- Changes the segment with id `i`. -/
def setSeg (c : Capn) (i : Nat) (f : Segment → Segment) : Capn := { c with segs := c.segs.modify i f }

/-- The word at an address. -/
def load64 (c : Capn) (a : Addr) : Nat := (c.seg a.seg).data.load64 a.off

/-- The `n` bytes at an address. -/
def read (c : Capn) (a : Addr) (n : Nat) : List UInt8 := (c.seg a.seg).data.read a.off n

/-- Copies `bs` to an address. -/
def write (c : Capn) (a : Addr) (bs : List UInt8) : Capn :=
  c.setSeg a.seg fun s => { s with data := s.data.write a.off bs }

/-- Stores a word at an address. -/
def store64 (c : Capn) (a : Addr) (v : Nat) : Capn := c.write a (toLe 8 v)

end Capn

/-! ## Segments from `malloc` -/

def CAPN_CREATE_MIN_SZ : Nat := 4096

/-- The capacity of the segment `create` makes for `sz` bytes. -/
def createCap (sz : Nat) : Nat :=
  let sz := sz + sizeofSegment
  (if sz < CAPN_CREATE_MIN_SZ then CAPN_CREATE_MIN_SZ
    else (sz + CAPN_CREATE_MIN_SZ - 1) / CAPN_CREATE_MIN_SZ * CAPN_CREATE_MIN_SZ) - sizeofSegment

/-- `create`, for memory that `calloc` always gives. Its sizes are `int`s: a size
that overflows on the way is undefined, and fails here. -/
def create (_id sz : Nat) : Option Segment :=
  if INT_MAX < sz + sizeofSegment + (CAPN_CREATE_MIN_SZ - 1) then none
  else some ⟨Mem.zero, 0, createCap sz⟩

def createLocal (sz : Nat) : Option Nat := some (createCap sz)

def capnInitMalloc : Capn := { Capn.zeroed with create := some create, createLocal := some createLocal }

/-! ## Allocation -/

def capnAppendSegment (c : Capn) (s : Segment) : Capn := { c with segs := c.segs ++ [s] }

/-- Takes `sz` more bytes of a segment. -/
def bump (c : Capn) (i sz : Nat) : Capn := c.setSeg i fun s => { s with len := s.len + sz }

/-- `new_data`: the session, the segment and the address of `sz` fresh bytes. -/
def newData (c : Capn) (sz : Nat) : Option (Capn × Nat × Addr) :=
  match c.segs.findIdx? fun s => s.len + sz ≤ s.cap with
  | some i => some (bump c i sz, i, ⟨i, (c.seg i).len⟩)
  | none =>
    match c.create with
    | none => none
    | some create =>
      match create c.segnum sz with
      | none => none
      | some s => some (bump (capnAppendSegment c s) c.segnum sz, c.segnum, ⟨c.segnum, s.len⟩)

/-- `lookup_segment`, without a `lookup` callback: segment ids are indices. -/
def lookupSegment (c : Capn) (id : Nat) : Option Nat := if id < c.segnum then some id else none

/-- `session_nesting`. -/
def sessionNesting (c : Capn) : Int := if 0 < c.nestingLimit then c.nestingLimit else CAPN_NESTING_DEFAULT

/-! ## Lemmas -/

theorem sessionNesting_pos (c : Capn) : 0 < sessionNesting c := by
  rw [sessionNesting]
  split
  · assumption
  · decide

namespace Capn

theorem seg_of_lt {c : Capn} {i : Nat} (h : i < c.segs.length) : c.seg i = c.segs[i] := by
  rw [seg, List.getD_eq_getElem _ _ h]

theorem seg_of_ge {c : Capn} {i : Nat} (h : c.segs.length ≤ i) : c.seg i = ⟨Mem.zero, 0, 0⟩ := by
  rw [seg, List.getD_eq_default _ _ h]

@[simp] theorem length_setSeg (c : Capn) (i : Nat) (f : Segment → Segment) :
    (c.setSeg i f).segs.length = c.segs.length := by simp [setSeg]

@[simp] theorem segnum_setSeg (c : Capn) (i : Nat) (f : Segment → Segment) :
    (c.setSeg i f).segnum = c.segnum := length_setSeg c i f

theorem seg_setSeg_self {c : Capn} {i : Nat} (f : Segment → Segment) (h : i < c.segs.length) :
    (c.setSeg i f).seg i = f (c.seg i) := by
  rw [seg_of_lt (by simpa using h), seg_of_lt h]
  simp [setSeg]

theorem seg_setSeg_ne {c : Capn} {i j : Nat} (f : Segment → Segment) (h : i ≠ j) :
    (c.setSeg i f).seg j = c.seg j := by
  rw [seg, seg, List.getD_eq_getElem?_getD, List.getD_eq_getElem?_getD, setSeg, List.getElem?_modify]
  simp [h]

theorem setSeg_of_ge {c : Capn} {i : Nat} (f : Segment → Segment) (h : c.segs.length ≤ i) :
    c.setSeg i f = c := by
  simp [setSeg, List.modify_eq_self h]

/-- What `setSeg` does to any segment. -/
theorem seg_setSeg (c : Capn) (i k : Nat) (f : Segment → Segment) :
    (c.setSeg i f).seg k = if i = k ∧ k < c.segs.length then f (c.seg k) else c.seg k := by
  by_cases hi : i = k
  · subst hi
    by_cases hl : i < c.segs.length
    · rw [seg_setSeg_self f hl, if_pos ⟨rfl, hl⟩]
    · rw [setSeg_of_ge f (Nat.not_lt.mp hl), if_neg (fun h => hl h.2)]
  · rw [seg_setSeg_ne f hi, if_neg (fun h => hi h.1)]

@[simp] theorem len_write (c : Capn) (a : Addr) (bs : List UInt8) (k : Nat) :
    ((c.write a bs).seg k).len = (c.seg k).len := by
  rw [write, seg_setSeg]
  split <;> rfl

@[simp] theorem cap_write (c : Capn) (a : Addr) (bs : List UInt8) (k : Nat) :
    ((c.write a bs).seg k).cap = (c.seg k).cap := by
  rw [write, seg_setSeg]
  split <;> rfl

@[simp] theorem length_write (c : Capn) (a : Addr) (bs : List UInt8) :
    (c.write a bs).segs.length = c.segs.length := length_setSeg _ _ _

end Capn

end Capnproto

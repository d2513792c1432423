import Capnproto.Framework.Loop
import Capnproto.Framework.Probe
import Capnproto.Pointer.Decode

/-!
# `capn_validate`

The walk over the objects of a message: a worklist of frames, and a hash table
of the objects met, each of which is walked once. `vhash` mixes machine
addresses, so that it is a parameter here, and so is whether there is memory
(`VAlloc`). The slots of the table are those of `Probe`; its size is a power of
two, so that its mask is a remainder.
-/

namespace Capnproto

/-- What a `struct capn_vslot` is looked up by. -/
structure VKey where
  seg : Nat
  data : Addr
  type : CapnType
  isCompositeList : Bool
deriving DecidableEq, Repr

/-- The states of a slot in use; an empty slot is `CAPN_V_EMPTY`. -/
inductive VState where
  | PATH
  | DONE
deriving DecidableEq, Repr

/-- `struct capn_vset`; `cap` is the length of `tab`. -/
structure VSet where
  tab : Probe.Slots VKey VState
  n : Nat

/-- Whether there is memory for so many slots of the table, or frames. -/
structure VAlloc where
  slots : Nat → Bool
  frames : Nat → Bool

/-- The key of a pointer, unless `vset_enter` skips it. -/
def vkey (p : Ptr) : Option VKey :=
  match p.type, p.data, p.seg with
  | .NULL, _, _ => none
  | type, some data, some seg => some ⟨seg, data, type, p.isCompositeList⟩
  | _, _, _ => none

section

variable (vhash : VKey → Nat) (alloc : VAlloc)

/-- `vset_init`. -/
def vsetInit : Option VSet := if alloc.slots 64 then some ⟨List.replicate 64 none, 0⟩ else none

/-- `vset_grow`. -/
def vsetGrow (vs : VSet) : Option VSet :=
  if alloc.slots (vs.tab.length * 2) then
    ((Probe.entries vs.tab).foldlM (Probe.insert vhash) (List.replicate (vs.tab.length * 2) none)).map
      fun tab => ⟨tab, (Probe.entries vs.tab).length⟩
  else none

/-- The table with room for one more slot. -/
def vsetRoom (vs : VSet) : Option VSet :=
  if vs.tab.length * 2 < vs.n * 3 then vsetGrow vhash alloc vs else some vs

/-- `vset_enter`: -1 cycle or out of memory, 0 newly visiting, 1 already done,
2 skip (null). -/
def vsetEnter (vs : VSet) (p : Ptr) : Int × VSet :=
  match vkey p with
  | none => (2, vs)
  | some key =>
    match vsetRoom vhash alloc vs with
    | none => (-1, vs)
    | some vs =>
      match Probe.find vhash vs.tab key with
      | none => (-1, vs)
      | some i =>
        match vs.tab.getD i none with
        | some (_, .PATH) => (-1, vs)
        | some (_, .DONE) => (1, vs)
        | none => (0, ⟨vs.tab.set i (some (key, .PATH)), vs.n + 1⟩)

/-- `vset_leave`. -/
def vsetLeave (vs : VSet) (p : Ptr) : VSet :=
  match vkey p with
  | none => vs
  | some key =>
    match Probe.find vhash vs.tab key with
    | none => vs
    | some i => if (vs.tab.getD i none).isSome then { vs with tab := vs.tab.set i (some (key, .DONE)) } else vs

/-- `object_nchild`. -/
def objectNchild (p : Ptr) : Int :=
  match p.type with
  | .STRUCT => p.ptrs
  | .PTR_LIST => p.len
  | .LIST =>
    if 0 < p.ptrs ∧ 0 < p.len then if INT_MAX / p.ptrs < p.len then -1 else p.len * p.ptrs
    else 0
  | _ => 0

/-- `child_slot`: where the word of a child is. -/
def childSlot (p : Ptr) (idx : Nat) : Option (Option Nat × Option Addr) :=
  match p.type with
  | .STRUCT => some (p.seg, p.data.map (·.add (p.datasz + 8 * idx)))
  | .PTR_LIST => some (p.seg, p.data.map (·.add (8 * idx)))
  | .LIST =>
    if p.ptrs = 0 then none
    else some (p.seg, p.data.map
      (·.add (idx / p.ptrs * (p.datasz + 8 * p.ptrs) + p.datasz + 8 * (idx % p.ptrs) : Nat)))
  | _ => none

/-- `ptr_word_null`; `none` for a word out of bounds. -/
def ptrWordNull (c : Capn) (s : Option Nat) (d : Option Addr) : Option Bool :=
  if boundsOk c s d 8 then d.map fun d => c.load64 d == 0 else none

/-- `struct capn_frame`. -/
structure VFrame where
  p : Ptr
  idx : Nat
  nchild : Int

/-- What the loop of `capn_validate` carries: the stack, innermost frame first,
has room for `sc` frames. -/
structure Validation where
  capn : Capn
  vs : VSet
  stack : List VFrame
  sc : Nat

/-- The stack with room for one more frame. -/
def growStack (sp sc : Nat) : Option Nat :=
  if sp = sc then if alloc.frames (sc * 2) then some (sc * 2) else none else some sc

/-- The end of an iteration, once the child was read and is new. -/
def pushChild (limit : Int) (v : Validation) (child : Ptr) : Step Validation (Int × Capn) :=
  if limit ≤ v.stack.length then .done (-1, v.capn)
  else
    match growStack alloc v.stack.length v.sc with
    | none => .done (-1, v.capn)
    | some sc =>
      let nchild := objectNchild child
      if nchild < 0 then .done (-1, v.capn)
      else .next { v with stack := ⟨child, 0, nchild⟩ :: v.stack, sc := sc }

/-- One iteration of the loop of `capn_validate`. -/
def validateStep (limit : Int) (v : Validation) : Step Validation (Int × Capn) :=
  match v.stack with
  | [] => .done (0, v.capn)
  | f :: rest =>
    if f.nchild ≤ f.idx then .next { v with vs := vsetLeave vhash v.vs f.p, stack := rest }
    else
      match childSlot f.p f.idx with
      | none => .done (-1, v.capn)
      | some (s, d) =>
        let stack := { f with idx := f.idx + 1 } :: rest
        match ptrWordNull v.capn s d with
        | none => .done (-1, v.capn)
        | some true => .next { v with stack := stack }
        | some false =>
          let child := readPtr v.capn s d (hopRemaining v.capn f.p)
          if child.ptr.type = .NULL then .done (-1, child.capn)
          else
            let (ent, vs) := vsetEnter vhash alloc v.vs child.ptr
            let v : Validation := { v with capn := child.capn, vs := vs, stack := stack }
            if ent < 0 then .done (-1, v.capn)
            else if 0 < ent then .next v
            else pushChild alloc limit v child.ptr

/-- `capn_validate`, up to its loop. -/
def validateStart (c : Capn) : Step (Int × Validation) (Int × Capn) :=
  let limit := sessionNesting c
  let (c, root) := capnRoot c
  if root.seg = none ∨ root.data = none then .done (0, c)
  else
    match ptrWordNull c root.seg root.data with
    | none => .done (-1, c)
    | some true => .done (0, c)
    | some false =>
      let first := readPtr c root.seg root.data limit
      if first.ptr.type = .NULL then .done (-1, first.capn)
      else
        match vsetInit alloc with
        | none => .done (-1, first.capn)
        | some vs =>
          let nchild := objectNchild first.ptr
          if nchild < 0 then .done (-1, first.capn)
          else if ¬ alloc.frames 64 then .done (-1, first.capn)
          else
            let (ent, vs) := vsetEnter vhash alloc vs first.ptr
            if ent ≠ 0 then .done (-1, first.capn)
            else .next (limit, ⟨first.capn, vs, [⟨first.ptr, 0, nchild⟩], 64⟩)

/-- `capn_validate`, with at most `fuel` iterations of its loop. -/
def capnValidate (fuel : Nat) (c : Capn) : Option (Int × Capn) :=
  let r :=
    match validateStart vhash alloc c with
    | .done r => some r
    | .next (limit, v) => Loop.run (validateStep vhash alloc limit) fuel v
  r.map fun (rc, d) => (rc, { d with traversalUsed := c.traversalUsed })

/-- `capn_validate` returns, with the status and the session `r`. -/
def Validates (c : Capn) (r : Int × Capn) : Prop := ∃ fuel, capnValidate vhash alloc fuel c = some r

end

end Capnproto

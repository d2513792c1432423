import Capnproto.Pointer.Decode

/-!
# Writing pointers and allocating objects

`write_ptr` and the encodings it chooses from, `new_object`, and the
`capn_new_*` functions. Sizes are those of calls that do not overflow an `int`;
the bit fields `datasz` and `ptrs` truncate what is assigned to them.
-/

namespace Capnproto

/-! ## Pointer words -/

def CAPN_PTR_OFF_MIN_WORDS : Int := -(2 ^ 29)
def CAPN_PTR_OFF_MAX_WORDS : Int := 2 ^ 29 - 1

/-- The low half of a struct or list pointer: the offset in words, as a signed
30-bit number, above two bits. -/
def offsetBits (offWords : Int) : Nat :=
  if offWords < 0 then (1 + (2 ^ 32 - 1 - (-offWords).toNat * 4 % 2 ^ 32)) % 2 ^ 32
  else offWords.toNat * 4 % 2 ^ 32

/-- `U64(n) << 35`. -/
def lengthBits (n : Int) : Nat := (n % 2 ^ 29).toNat * 2 ^ 35

/-- The size of the elements of a list that is not composite. -/
def elementKind (datasz : Nat) : Nat :=
  if datasz = 8 then BYTE_8_LIST
  else if datasz = 4 then BYTE_4_LIST
  else if datasz = 2 then BYTE_2_LIST
  else if datasz = 1 then BYTE_1_LIST
  else VOID_LIST

/-- The word that `write_ptr_tag` writes for `p` at byte offset `off`; `none` if
the offset does not fit. Its fields do not overlap. -/
def ptrTag (p : Ptr) (off : Int) : Option Nat :=
  if p.type = .INTERFACE then some (OTHER_PTR + (p.len % 2 ^ 32).toNat * 2 ^ 32)
  else
    let offWords := off.tdiv 8
    if offWords < CAPN_PTR_OFF_MIN_WORDS ∨ CAPN_PTR_OFF_MAX_WORDS < offWords then none
    else
      let val := offsetBits offWords
      some <| match p.type with
        | .STRUCT => val + STRUCT_PTR + p.datasz / 8 * 2 ^ 32 + p.ptrs * 2 ^ 48
        | .LIST =>
          if p.isCompositeList then
            val + LIST_PTR + COMPOSITE_LIST * 2 ^ 32 + lengthBits (p.len * (p.datasz / 8 + p.ptrs : Nat))
          else val + LIST_PTR + lengthBits p.len + elementKind p.datasz * 2 ^ 32
        | .BIT_LIST => val + LIST_PTR + BIT_1_LIST * 2 ^ 32 + lengthBits p.len
        | .PTR_LIST => val + LIST_PTR + PTR_LIST * 2 ^ 32 + lengthBits p.len
        | _ => 0

/-- `write_ptr_tag`: the session with the word stored; `none` on failure. -/
def writePtrTag (c : Capn) (d : Addr) (p : Ptr) (off : Int) : Option Capn :=
  (ptrTag p off).map (c.store64 d)

/-- `write_far_ptr`. -/
def writeFarPtr (c : Capn) (d : Addr) (s : Nat) (tgt : Int) : Capn :=
  c.store64 d (FAR_PTR + tgt.toNat + s * 2 ^ 32)

/-- `write_double_far`. -/
def writeDoubleFar (c : Capn) (d : Addr) (s : Nat) (tgt : Int) : Capn :=
  c.store64 d (DOUBLE_PTR + tgt.toNat + s * 2 ^ 32)

def NEED_TO_COPY : Int := 1

/-- The exits of `write_ptr`: success with the session it leaves, `NEED_TO_COPY`,
or failure. A failure stores nothing that a reader can reach, but may have taken
room, so that the session is kept. -/
def tagResult (c : Capn) : Option Capn → Int × Capn
  | some c' => (0, c')
  | none => (-1, c)

/-- `write_ptr` of an object `p` that starts (with its tag, if it is a composite
list) at `pdata` in segment `seg`, into the slot `d` of another segment `s`. -/
def writePtrFar (c : Capn) (s : Nat) (d : Addr) (p : Ptr) (seg : Nat) (pdata : Int) : Int × Capn :=
  if p.hasPtrTag then (0, writeFarPtr c d seg (pdata - 8))
  else if (c.seg seg).len + 8 ≤ (c.seg seg).cap then
    -- the target segment has enough room for a tag
    let t : Int := (c.seg seg).len
    match writePtrTag c ⟨seg, t⟩ p (pdata - t - 8) with
    | none => (-1, c)
    | some c => (0, bump (writeFarPtr c d seg t) seg 8)
  else
    -- a double far pointer, in the segment of the slot if it has room
    let room :=
      if (c.seg s).len + 16 ≤ (c.seg s).cap then some (bump c s 16, s, (⟨s, (c.seg s).len⟩ : Addr))
      else newData c 16
    match room with
    | none => (-1, c)
    | some (c, s, t) =>
      let c := writeFarPtr c t seg pdata
      match writePtrTag c (t.add 8) p 0 with
      | none => (-1, c)
      | some c => (0, writeDoubleFar c d s t.off)

/-- `write_ptr`, into the slot `d` of segment `s`; `foreign` says that `p` is of
another session. -/
def writePtr (c : Capn) (s : Nat) (d : Addr) (p : Ptr) (foreign : Bool) : Int × Capn :=
  if p.type = .INTERFACE then tagResult c (writePtrTag c d p 0)
  else
    match p.type, p.data with
    | .NULL, _ | _, none => tagResult c (writePtrTag c d p 0)
    | _, some data =>
      let pdata := data.off - if p.isCompositeList then 8 else 0
      if p.type = .STRUCT ∧ p.datasz = 0 ∧ p.ptrs = 0 then tagResult c (writePtrTag c d p (-8))
      else
        match p.seg with
        | none => (NEED_TO_COPY, c)
        | some seg =>
          if foreign ∨ p.isListMember then (NEED_TO_COPY, c)
          else if seg = s then tagResult c (writePtrTag c d p (pdata - d.off - 8))
          else writePtrFar c s d p seg pdata

/-! ## Objects -/

/-- `new_object`. -/
def newObject (c : Capn) (p : Ptr) (bytes : Nat) : Capn × Ptr :=
  match p.seg with
  | none => (c, {})
  | some s =>
    let here : Addr := ⟨s, (c.seg s).len⟩
    if bytes = 0 then (c, { p with data := some here })
    else
      let bytes := (bytes + 7) / 8 * 8
      if (c.seg s).len + bytes ≤ (c.seg s).cap then (bump c s bytes, { p with data := some here })
      else
        -- a tag in front whenever the segment is switched, for `write_ptr`
        match newData c (bytes + 8) with
        | none => (c, {})
        | some (c, s, a) =>
          let p := { p with seg := some s, data := some a }
          match writePtrTag c a p 0 with
          | none => (c, {})
          | some c => (c, { p with data := some (a.add 8), hasPtrTag := true })

/-- `capn_new_struct`. -/
def capnNewStruct (c : Capn) (seg : Option Nat) (datasz ptrs : Nat) : Capn × Ptr :=
  let p : Ptr := { type := .STRUCT, seg := seg, datasz := (datasz + 7) / 8 * 8 % 2 ^ 19, ptrs := ptrs % 2 ^ 16 }
  newObject c p (p.datasz + 8 * p.ptrs)

/-- `capn_new_interface`. -/
def capnNewInterface (c : Capn) (seg : Option Nat) : Capn × Ptr :=
  (c, if seg.isSome then { type := .INTERFACE, seg := seg } else {})

/-- `capn_new_struct_list`. -/
def capnNewStructList (c : Capn) (seg : Option Nat) (sz datasz ptrs : Nat) : Capn × Ptr :=
  let p : Ptr := { type := .LIST, seg := seg, len := sz, isCompositeList := true,
                   datasz := (datasz + 7) / 8 * 8 % 2 ^ 19, ptrs := ptrs % 2 ^ 16 }
  let (c, p) := newObject c p (sz * (p.datasz + 8 * p.ptrs) + 8)
  match p.data with
  | none => (c, p)
  | some a =>
    let hdr := STRUCT_PTR + sz * 4 + p.datasz / 8 * 2 ^ 32 + p.ptrs * 2 ^ 48
    (c.store64 a hdr, { p with data := some (a.add 8) })

/-- `capn_new_list`. -/
def capnNewList (c : Capn) (seg : Option Nat) (sz datasz ptrs : Nat) : Capn × Ptr :=
  let plain (datasz : Nat) : Capn × Ptr :=
    newObject c { type := .LIST, seg := seg, len := sz, datasz := datasz } (sz * datasz)
  if ptrs ≠ 0 ∨ 8 < datasz then capnNewStructList c seg sz datasz ptrs
  else if 4 < datasz then plain 8
  else if 2 < datasz then plain 4
  else plain datasz

/-- `capn_new_list1`. -/
def capnNewList1 (c : Capn) (seg : Option Nat) (sz : Nat) : Capn × Ptr :=
  let p : Ptr := { type := .BIT_LIST, seg := seg, datasz := (sz + 7) / 8 % 2 ^ 19, len := sz }
  newObject c p p.datasz

/-- `capn_new_ptr_list`. -/
def capnNewPtrList (c : Capn) (seg : Option Nat) (sz : Nat) : Capn × Ptr :=
  newObject c { type := .PTR_LIST, seg := seg, len := sz } (sz * 8)

/-- `capn_new_string`, of the bytes `str`. -/
def capnNewString (c : Capn) (seg : Option Nat) (str : List UInt8) : Capn × Ptr :=
  let p : Ptr := { type := .LIST, seg := seg, len := (str.length + 1 : Nat), datasz := 1 }
  let (c, p) := newObject c p (str.length + 1)
  match p.data with
  | none => (c, p)
  | some a => (c.write a (str ++ [0]), p)

end Capnproto

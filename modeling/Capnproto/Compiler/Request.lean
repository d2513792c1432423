import Capnproto.Compiler.Schema
import Capnproto.Object.Access
import Capnproto.Object.Copy

/-!
# Code generator requests

A request as its accessors read it: the nodes, with the names that `resolve_names` gives them,
the nodes that it links to each file, and the files that are asked for. `main` goes through these
files with globals that it resets, or does not reset, for each: `Globals` is what is left from one file for the next.
-/

namespace Capnproto.Compiler

/-! ## Text -/

def lit (s : String) : Text := s.toList

/-- `%d` -/
def decimal (n : Int) : Text := lit (toString n)

/-- `%X` -/
def hexUpper (n : Nat) : Text := (Nat.toDigits 16 n).map Char.toUpper

/-- `%#x` -/
def hexPrefixed (n : Nat) : Text := if n = 0 then lit "0" else lit "0x" ++ Nat.toDigits 16 n

/-- `%016x` -/
def hexPadded (n : Nat) : Text :=
  let ds := Nat.toDigits 16 n
  List.replicate (16 - ds.length) '0' ++ ds

/-- The low `w` bits, as a signed number. -/
def signed (w bits : Nat) : Int :=
  let n := bits % 2 ^ w
  if n < 2 ^ (w - 1) then n else n - 2 ^ w

/-! ## Nodes -/

/-- `struct Value`. A number is given by its bits, a text by its characters and where they are. -/
structure Value where
  which : TypeWhich
  bits : Nat := 0
  str : Option Text := none
  text : Capnproto.Text := {}
  ptr : Ptr := {}

/-- `struct Type`: of a list what the type of its elements is; of an enum, a struct or an interface the node. -/
structure TypeInfo where
  which : TypeWhich
  typeId : Nat := 0
  element : TypeWhich := .void

structure Annotation where
  id : Nat
  value : Value

structure Method where
  name : Text
  paramStructType : Nat
  resultStructType : Nat

/-- What a node is of. -/
inductive NodeWhich where
  | file
  | struct (isGroup : Bool) (dataWordCount pointerCount : Nat)
  | enum (enumerants : List Text)
  | interface (methods : List Method)
  | const (type : TypeInfo) (value : Value)
  | annotation

/-- `struct node`. -/
structure SchemaNode where
  id : Nat
  displayName : Text
  name : Text
  which : NodeWhich
  annotations : List Annotation := []

structure RequestedFile where
  id : Nat
  imports : List (Nat × Text) := []

structure Request where
  nodes : List SchemaNode
  /-- `file_nodes` of a file, and the nodes after it. -/
  fileNodes : Nat → List Nat
  files : List RequestedFile
  /-- The message that the request came in. -/
  message : Capn
  /-- `total_len`. -/
  size : Nat

def SchemaNode.isStruct (n : SchemaNode) : Bool :=
  match n.which with
  | .struct .. => true
  | _ => false

/-- A struct that is no group. -/
def SchemaNode.ownStruct (n : SchemaNode) : Bool :=
  match n.which with
  | .struct isGroup _ _ => !isGroup
  | _ => false

/-! ## Import ids -/

/-- `struct id_bst`. -/
inductive IdBst where
  | null
  | node (id : Nat) (left right : IdBst)

/-- `insert_id`. -/
def insertId : IdBst → Nat → IdBst
  | .null, id => .node id .null .null
  | .node i l r, id =>
    if i < id then .node i l (insertId r id) else if id < i then .node i (insertId l id) r else .node i l r

/-- `contains_id`. -/
def containsId : IdBst → Nat → Bool
  | .null, _ => false
  | .node i l r, id => if id = i then true else if id < i then containsId l id else containsId r id

/-- `used_import_ids`: a tree, or what it pointed to after that is freed. -/
inductive UsedImports where
  | live (ids : IdBst)
  | freed

/-! ## Ends of a run -/

/-- Why a run stops. -/
inductive Stop where
  | exit (code : Nat)
  /-- Memory is used that was freed. -/
  | undefined
  /-- A copy does not end within the fuel that is given. -/
  | unfinished
deriving DecidableEq

/-- `contains_id(used_import_ids, id)`. -/
def UsedImports.contains (u : UsedImports) (id : Nat) : Except Stop Bool :=
  match u with
  | .live ids => .ok (containsId ids id)
  | .freed => .error .undefined

/-- `free_id_bst(used_import_ids)`. -/
def UsedImports.free : UsedImports → Except Stop UsedImports
  | .live .null => .ok (.live .null)
  | .live (.node ..) => .ok .freed
  | .freed => .error .undefined

/-- `find_node`. -/
def Request.findNode (r : Request) (id : Nat) : Except Stop SchemaNode :=
  match r.nodes.find? (·.id = id) with
  | some n => .ok n
  | none => .error (.exit 2)

/-- `strtok(display_name, ":")`. -/
def firstToken (name : Text) : Option Text :=
  match (name.dropWhile (· = ':')).takeWhile (· ≠ ':') with
  | [] => none
  | t => some t

/-- The file that a struct is in is one whose import is used. -/
def Request.useImport (r : Request) (ids : IdBst) (n : SchemaNode) : Except Stop IdBst :=
  match firstToken n.displayName with
  | none => .error (.exit 2)
  | some file =>
    match r.nodes.reverse.find? fun f => (f.which matches .file) && f.displayName = file with
    | none => .error (.exit 2)
    | some f => .ok (if containsId ids f.id then ids else insertId ids f.id)

/-- `used_import_ids`, before the first file. -/
def Request.usedImports (r : Request) : Except Stop IdBst :=
  (r.nodes.filter (·.isStruct)).reverse.foldlM r.useImport .null

/-- The nodes of a file. -/
def Request.nodesOf (r : Request) (file : Nat) : List SchemaNode :=
  (r.fileNodes file).filterMap fun id => r.nodes.find? (·.id = id)

/-! ## State -/

/-- Where default values are kept: `g_valc`, `g_valcapn`, and the message of the request, which they are copied from. -/
structure Store where
  valc : Nat
  valcapn : Capn
  message : Capn

/-- The generator, for one file. -/
structure FileState where
  hdr : Text
  src : Text
  store : Store
  val0used : Bool := false
  nullused : Bool := false
  fieldgetset : Bool
  codecgen : Bool

def FileState.addHdr (s : FileState) (t : Text) : FileState := { s with hdr := s.hdr ++ t }

def FileState.addSrc (s : FileState) (t : Text) : FileState := { s with src := s.src ++ t }

/-- What one file leaves for the next: `g_fieldgetset`, `g_valseg.data`, `used_import_ids` and the message. -/
structure Globals where
  fieldgetset : Bool
  valseg : Mem
  imports : UsedImports
  message : Capn

/-- The files that are written for a requested file. -/
structure Output where
  hdrName : Text
  hdr : Text
  srcName : Text
  src : Text

/-! ## Values -/

/-- `v->tname` of a list. -/
def listName (r : Request) (t : TypeInfo) : Except Stop Text :=
  match t.element with
  | .void => .ok (lit "capn_ptr")
  | .bool => .ok (lit "capn_list1")
  | .int8 | .uint8 => .ok (lit "capn_list8")
  | .int16 | .uint16 | .enum => .ok (lit "capn_list16")
  | .int32 | .uint32 | .float32 => .ok (lit "capn_list32")
  | .int64 | .uint64 | .float64 => .ok (lit "capn_list64")
  | .text | .data | .anyPointer | .list => .ok (lit "capn_ptr_list")
  | .struct | .interface => (r.findNode t.typeId).map fun n => n.name ++ lit "_list"

/-- `v->tname`. -/
def typeName (r : Request) (t : TypeInfo) : Except Stop Text :=
  match t.which with
  | .void => .ok (lit "void")
  | .bool => .ok (lit "unsigned")
  | .int8 => .ok (lit "int8_t")
  | .int16 => .ok (lit "int16_t")
  | .int32 => .ok (lit "int32_t")
  | .int64 => .ok (lit "int64_t")
  | .uint8 => .ok (lit "uint8_t")
  | .uint16 => .ok (lit "uint16_t")
  | .uint32 => .ok (lit "uint32_t")
  | .uint64 => .ok (lit "uint64_t")
  | .float32 => .ok (lit "float")
  | .float64 => .ok (lit "double")
  | .text => .ok (lit "capn_text")
  | .data => .ok (lit "capn_data")
  | .enum => (r.findNode t.typeId).map fun n => lit "enum " ++ n.name
  | .struct | .interface => (r.findNode t.typeId).map fun n => n.name ++ lit "_ptr"
  | .anyPointer => .ok (lit "capn_ptr")
  | .list => listName r t

/-- `v->intval` of a number. -/
def Value.intval (v : Value) : Int :=
  match v.which with
  | .bool => v.bits % 2
  | .int8 | .uint8 => signed 8 v.bits
  | .int16 | .uint16 => signed 16 v.bits
  | .enum => v.bits % 2 ^ 16
  | .int32 | .uint32 | .float32 => signed 32 v.bits
  | .int64 | .uint64 | .float64 => signed 64 v.bits
  | _ => 0

/-- The object that `decode_value` copies for a value, if it copies one. `capn_set_text` takes a text of
the message for a list of bytes. -/
def Value.object (v : Value) : Option Ptr :=
  match v.which with
  | .text =>
    if v.text.len ≠ 0 then
      some { type := .LIST, seg := v.text.seg, data := v.text.str, len := v.text.len + 1, datasz := 1 }
    else none
  | .data | .struct | .anyPointer | .list => if v.ptr.type ≠ .NULL then some v.ptr else none
  | _ => none

/-- A copy of `tgt` in `g_valcapn`, below its root. -/
def keepValue (fuel : Nat) (s : Store) (tgt : Ptr) : Except Stop (Ptr × Store) :=
  let (c, p) := capnRoot s.valcapn
  match capnSetp fuel (fun k => if k = 0 then c else s.message) 0 p 0 1 tgt with
  | none => .error .unfinished
  | some (ret, w) =>
    if ret ≠ 0 then .error (.exit 2)
    else
      let r := capnGetp (w 0) p 0 true
      .ok (r.ptr, { s with valcapn := r.capn, message := w 1 })

def CapnType.number : CapnType → Nat
  | .NULL => 0
  | .STRUCT => 1
  | .LIST => 2
  | .PTR_LIST => 3
  | .BIT_LIST => 4
  | .FAR_POINTER => 5
  | .INTERFACE => 6

/-- Where the copy is in `capn_buf`. -/
def bufOffset (p : Ptr) : Int :=
  match p.seg, p.data with
  | some _, some a => a.off - 8
  | _, _ => -1

/-- The definition of a text value that is kept. -/
def textDefinition (own : Bool) (symbol : Text) (p : Ptr) : Text :=
  [if own then lit "static " else [], lit "capn_text ", symbol, lit " = \x7b", decimal (p.len - 1), lit ",(char*)&capn_buf[",
    decimal (bufOffset p), lit "],(struct capn_segment*)&capn_seg\x7d;\n"].flatten

/-- The definition of another value that is kept. -/
def pointerDefinition (own : Bool) (tname symbol : Text) (p : Ptr) : Text :=
  let off := bufOffset p
  let emptyList := (p.type = .LIST ∨ p.type = .PTR_LIST ∨ p.type = .BIT_LIST) ∧ p.len = 0
  let bit (b : Bool) : Int := if b then 1 else 0
  let fields := [(CapnType.number p.type : Int), bit p.hasPtrTag, bit p.isListMember, bit p.isCompositeList, p.datasz,
    p.ptrs, p.len].map fun n => decimal n ++ lit ","
  let inner :=
    if ¬ emptyList ∧ 0 ≤ off then
      [fields.flatten, lit "(char*)&capn_buf[", decimal off, lit "],(struct capn_segment*)&capn_seg"].flatten
    else lit "CAPN_NULL"
  let wrapped := tname ≠ lit "capn_ptr"
  [if own then lit "static " else [], tname, lit " ", symbol, lit " = \x7b", if wrapped then lit "\x7b" else [], inner,
    if wrapped then lit "\x7d" else [], lit "\x7d;\n"].flatten

/-- A value that is kept gets a definition in the source, under the symbol or a number. The pointer is null if the value is
not kept, or is not found. -/
def decodeValue (fuel : Nat) (tname : Text) (v : Value) (symbol : Option Text) (s : Store) :
    Except Stop (Ptr × Store × Text) :=
  match v.object with
  | none => .ok ({}, s, [])
  | some tgt => do
    let (p, s) ← keepValue fuel s tgt
    if p.type = .NULL then .ok ({}, s, [])
    else
      let (name, s) : Text × Store := match symbol with
        | some name => (name, s)
        | none => (lit "capn_val" ++ decimal (s.valc + 1), { s with valc := s.valc + 1 })
      let text :=
        if v.which = .text then textDefinition symbol.isNone name p else pointerDefinition symbol.isNone tname name p
      .ok (p, s, text)

end Capnproto.Compiler

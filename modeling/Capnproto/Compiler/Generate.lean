import Capnproto.Compiler.Schema

/-!
# `define_group` and what it writes

The C struct, and the bodies of `read_X` and `write_X`, as lists of the pieces of text that
`define_group` adds to its buffers, without their indentation. A name that `field_name`
changes is in a buffer of its own, which the next such name overwrites: `NameRef` is the
pointer, and its text is what the buffer holds when it is read.
-/

namespace Capnproto.Compiler

/-- What `field_name` returns: the name in the schema, or its buffer. -/
inductive NameRef where
  | own (name : Text)
  | buf

/-- Text in `decl`. -/
inductive Decl where
  /-- `struct {` -/
  | struct
  /-- `union {` -/
  | union
  /-- `} name;` -/
  | close (name : Option Text)
  /-- `enum node_which name_which;` -/
  | which (node : Text) (name : Option Text)
  /-- `type name;` -/
  | slot (f : Slot) (name : Text)
  /-- The comment for a group without members. -/
  | comment (name : Text)
deriving DecidableEq

/-- Text in `get` and `set`. -/
inductive Stmt where
  /-- The discriminant is read to, or written from, `tag`. -/
  | which (tag node : Text)
  | switch (tag : Text)
  | case (node name : Text)
  /-- What `get_member` or `set_member` writes for `var`. -/
  | member (f : Slot) (var : Text)
  | break
  | default
  | close
deriving DecidableEq

/-- `struct strings`, with the buffer of `field_name`. -/
structure Strings where
  decl : List Decl := []
  get : List Stmt := []
  set : List Stmt := []
  enums : List (Text × Text × Nat) := []
  var : Text
  buf : Text

def Strings.addDecl (s : Strings) (ds : List Decl) : Strings := { s with decl := s.decl ++ ds }

/-- Adds to both `get` and `set`. -/
def Strings.addStmt (s : Strings) (ts : List Stmt) : Strings := { s with get := s.get ++ ts, set := s.set ++ ts }

def NameRef.text (s : Strings) : NameRef → Text
  | .own name => name
  | .buf => s.buf

/-- `field_name`. -/
def fieldName (name : Text) (s : Strings) : NameRef × Strings :=
  if name ∈ reserved then (.buf, { s with buf := '_' :: name }) else (.own name, s)

/-- `declare_slot`. -/
def declareSlot (f : Slot) (s : Strings) : Strings :=
  if f.type = .void then s
  else
    let (r, s) := fieldName f.name s
    s.addDecl [.slot f (r.text s)]

/-- `set_member`. -/
def setMember (f : Slot) (var : Text) : List Stmt := if f.type = .void then [] else [.member f var]

/-- `get_member`. -/
def getMember (f : Slot) (var : Text) : List Stmt := if f.type = .void then [] else [.member f var]

/-- `set_member` and `get_member`, as they are called for a field. -/
def members (f : Slot) (s : Strings) : Strings :=
  let (r, s) := fieldName f.name s
  let s := { s with set := s.set ++ setMember f (s.var ++ r.text s) }
  let (r, s) := fieldName f.name s
  { s with get := s.get ++ getMember f (s.var ++ r.text s) }

/-- `define_field`, for a slot. -/
def defineSlot (f : Slot) (s : Strings) : Strings := members f (declareSlot f s)

/-- `union_block`. -/
def unionBlock (f : Slot) (s : Strings) : Strings := (members f s).addStmt [.break]

/-- The labels of a case. -/
def caseLabel (node name : Text) (s : Strings) : Strings :=
  let (r, s) := fieldName name s
  s.addStmt [.case node (r.text s)]

/-- The field has a default other than zero. -/
def Slot.hasDefault (f : Slot) : Bool := f.ptrval || f.intval ≠ 0

/-- `union_cases`. -/
def unionCases (node : Text) (mask : List TypeWhich) : Phase → Fields → Strings → Strings
  | _, .nil, s => s
  | ph, .slot f rest, s =>
    let ph := ph.next (inUnion f.discriminantValue)
    unionCases node mask ph rest
      (if ph = .union ∧ f.hasDefault = false ∧ f.type ∈ mask then unionBlock f (caseLabel node f.name s) else s)
  | ph, .group g _ rest, s => unionCases node mask (ph.next (inUnion g.discriminantValue)) rest s

/-- The masks that `do_union` goes through. -/
def masks : List (List TypeWhich) := [
  [.bool],
  [.enum],
  [.int8, .uint8],
  [.int16, .uint16],
  [.int32, .uint32, .float32],
  [.int64, .uint64, .float64],
  [.text],
  [.data],
  [.struct, .interface, .anyPointer, .list]]

/-- What `define_group` and `do_union` do with the fields of a node. -/
structure Loops where
  before : Strings → Strings
  cases : Strings → Strings
  union : Strings → Strings
  after : Strings → Strings

/-- The variable of the discriminant, behind the name of the union or in the struct itself. -/
def unionTag (named : Bool) (var : Text) : Text :=
  if named then var.dropLast ++ "_which".toList else var ++ "which".toList

/-- `do_union`. -/
def doUnion (node : Text) (b : Loops) (unionName : Option NameRef) (s : Strings) : Strings :=
  let tag := unionTag unionName.isSome s.var
  let s := s.addDecl [.which node (unionName.map (·.text s))]
  let s := s.addStmt [.which tag node, .switch tag]
  let s := b.cases s
  let s := s.addDecl [.union]
  let s := b.union s
  let s := s.addDecl [.close (unionName.map (·.text s))]
  s.addStmt [.default, .break, .close]

/-- `define_group` from the first loop to the last. -/
def groupFields (g : Group) (b : Loops) (unionName : Option NameRef) (name : NameRef) (encloseUnions : Bool)
    (s : Strings) : Strings :=
  let s := b.before s
  if 0 < g.discriminantCount then
    let s := if encloseUnions then s.addDecl [.struct] else s
    let s := doUnion g.node b unionName s
    let s := b.after s
    if encloseUnions then s.addDecl [.close (some (name.text s))] else s
  else s

/-- `define_group`, for the node of a group. -/
def defineGroup (g : Group) (body : Fields) (b : Loops) (name : NameRef) (encloseUnions : Bool) (s : Strings) :
    Strings :=
  let namedUnion := g.namedUnion body
  if g.skipped body then s.addDecl [.comment (name.text s)]
  else
    let s := if namedUnion then s else s.addDecl [.struct]
    let s := { s with var := s.var ++ name.text s ++ ['.'] }
    let s := groupFields g b (if namedUnion && !encloseUnions then some name else none) name encloseUnions s
    let s := if namedUnion then s else s.addDecl [.close (some (name.text s))]
    { s with var := s.var.take (s.var.length - (name.text s).length - 1) }

mutual

/-- The loops over the fields before the union members, and over those after them, with
`define_field` for each. With `$C::codecgen` it passes on a copy of the name of a group. -/
def fieldLoop (codecgen : Bool) (loop : Phase) : Phase → Fields → Strings → Strings
  | _, .nil, s => s
  | ph, .slot f rest, s =>
    let ph := ph.next (inUnion f.discriminantValue)
    fieldLoop codecgen loop ph rest (if ph = loop then defineSlot f s else s)
  | ph, .group g body rest, s =>
    let ph := ph.next (inUnion g.discriminantValue)
    fieldLoop codecgen loop ph rest
      (if ph = loop then
        let (r, s) := fieldName g.name s
        defineGroup g body
          ⟨fieldLoop codecgen .before .before body, fun s => masks.foldl (fun s m => unionCases g.node m .before body s) s,
            unionLoop codecgen g.node .before body, fieldLoop codecgen .after .before body⟩
          (if codecgen then .own (r.text s) else r) false s
      else s)

/-- The second loop of `do_union`. -/
def unionLoop (codecgen : Bool) (node : Text) : Phase → Fields → Strings → Strings
  | _, .nil, s => s
  | ph, .slot f rest, s =>
    let ph := ph.next (inUnion f.discriminantValue)
    unionLoop codecgen node ph rest
      (if ph = .union then
        let (r, s) := fieldName f.name s
        let s := { s with enums := s.enums ++ [(node, r.text s, f.discriminantValue)] }
        let s := declareSlot f s
        if f.hasDefault then unionBlock f (caseLabel node f.name s) else s
      else s)
  | ph, .group g body rest, s =>
    let ph := ph.next (inUnion g.discriminantValue)
    unionLoop codecgen node ph rest
      (if ph = .union then
        let (r, s) := fieldName g.name s
        let s := { s with enums := s.enums ++ [(node, r.text s, g.discriminantValue)] }
        let s := caseLabel node g.name s
        let (r, s) := fieldName g.name s
        let s := defineGroup g body
          ⟨fieldLoop codecgen .before .before body, fun s => masks.foldl (fun s m => unionCases g.node m .before body s) s,
            unionLoop codecgen g.node .before body, fieldLoop codecgen .after .before body⟩
          r true s
        s.addStmt [.break]
      else s)

end

/-- The loops over the fields of a node. -/
def Fields.loops (codecgen : Bool) (node : Text) (fs : Fields) : Loops where
  before := fieldLoop codecgen .before .before fs
  cases := fun s => masks.foldl (fun s m => unionCases node m .before fs s) s
  union := unionLoop codecgen node .before fs
  after := fieldLoop codecgen .after .before fs

/-- `define_struct`, as far as `decl`, `get` and `set` go: `define_group` for a node that is not a group's. The buffer
of `field_name` is as the struct before left it. -/
def defineStruct (codecgen : Bool) (n : Node) (buf : Text) : Strings :=
  let b := n.fields.loops codecgen n.name
  let s := b.before { var := "s->".toList, buf := buf }
  if 0 < n.discriminantCount then b.after (doUnion n.name b none s) else s

end Capnproto.Compiler

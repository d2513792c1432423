import Mathlib.Data.List.Basic
import Mathlib.Tactic.Ring

/-!
# Schemas, as the compiler sees them

A struct node has fields in code order, slots and groups; the node of a group has fields
of its own (`Fields`). Of a slot the generator looks at the name, the discriminant
value, the type, and what `decode_value` makes of the default. `define_group` goes
through the fields of a node in three loops (`Phase`).
-/

namespace Capnproto.Compiler

/-- `char *`. -/
abbrev Text := List Char

instance : LawfulBEq Text := inferInstance

/-- `enum Type_which`. -/
inductive TypeWhich where
  | void
  | bool
  | int8
  | int16
  | int32
  | int64
  | uint8
  | uint16
  | uint32
  | uint64
  | float32
  | float64
  | text
  | data
  | list
  | enum
  | struct
  | interface
  | anyPointer
deriving DecidableEq, Repr

/-- A slot field, once its default is decoded: its offset, `v.t.which`, `v.tname`, `v.v.which` (that of the
default), `v.intval` and whether `v.ptrval` is set. -/
structure Slot where
  name : Text
  discriminantValue : Nat := 0xFFFF
  offset : Nat := 0
  type : TypeWhich
  tname : Text := []
  value : TypeWhich := .void
  intval : Int := 0
  ptrval : Bool := false
deriving DecidableEq, Repr

/-- A group field, and of its node the name and the number of fields in the union. -/
structure Group where
  name : Text
  discriminantValue : Nat := 0xFFFF
  node : Text
  discriminantCount : Nat := 0
deriving DecidableEq, Repr

/-- The fields of a node in code order, those of a group's node under the group. -/
inductive Fields where
  | nil
  | slot (f : Slot) (rest : Fields)
  | group (g : Group) (body rest : Fields)

/-- `in_union`. -/
def inUnion (discriminantValue : Nat) : Bool := discriminantValue != 0xFFFF

/-- The loops of `define_group`: over the fields before the union members, over the members, and over
the fields after them. -/
inductive Phase where
  | before
  | union
  | after
deriving DecidableEq

/-- The loop that gets the next field. -/
def Phase.next : Phase → Bool → Phase
  | .before, false => .before
  | .before, true => .union
  | .union, true => .union
  | .union, false => .after
  | .after, _ => .after

/-- `capn_len(n->n._struct.fields)`. -/
def Fields.length : Fields → Nat
  | .nil => 0
  | .slot _ rest => rest.length + 1
  | .group _ _ rest => rest.length + 1

/-- The fields that are in the union. -/
def Fields.unionCount : Fields → Nat
  | .nil => 0
  | .slot f rest => rest.unionCount + if inUnion f.discriminantValue then 1 else 0
  | .group g _ rest => rest.unionCount + if inUnion g.discriminantValue then 1 else 0

/-- All fields are of type void, as the type of a group is taken to be. -/
def Fields.empty : Fields → Bool
  | .nil => true
  | .slot f rest => f.type = .void && rest.empty
  | .group _ _ rest => rest.empty

/-- The nodes of groups count the members of their unions. -/
def Fields.Valid : Fields → Prop
  | .nil => True
  | .slot _ rest => rest.Valid
  | .group g body rest => g.discriminantCount = body.unionCount ∧ body.Valid ∧ rest.Valid

/-- All members of the group are in its union. -/
def Group.namedUnion (g : Group) (body : Fields) : Bool :=
  g.discriminantCount = body.length && 0 < g.discriminantCount

/-- The group is taken for one that has no members. -/
def Group.skipped (g : Group) (body : Fields) : Bool := !g.namedUnion body && body.empty

/-- A node of a struct that is not a group. -/
structure Node where
  name : Text
  discriminantCount : Nat
  fields : Fields
  counted : discriminantCount = fields.unionCount
  valid : fields.Valid

/-! ## Names -/

/-- The names that `field_name` puts an underscore before. -/
def reserved : List Text := [
  "alignas", "alignof", "and", "and_eq", "asm",
  "auto", "bitand", "bitor", "bool", "break",
  "case", "catch", "char", "char16_t", "char32_t",
  "class", "compl", "const", "constexpr", "const_cast",
  "continue", "decltype", "default", "delete", "do",
  "double", "dynamic_cast", "else", "enum", "explicit",
  "export", "extern", "false", "float", "for",
  "friend", "goto", "if", "inline", "int",
  "long", "mutable", "namespace", "new", "noexcept",
  "not", "not_eq", "nullptr", "operator", "or",
  "or_eq", "private", "protected", "public", "register",
  "reinterpret_cast", "return", "short", "signed", "sizeof",
  "static", "static_assert", "static_cast", "struct", "switch",
  "template", "this", "thread_local", "throw", "true",
  "try", "typedef", "typeid", "typename", "union",
  "unsigned", "using", "virtual", "void", "volatile",
  "wchar_t", "while", "xor", "xor_eq",
  "interface", "module", "import",
  "ptr", "list",
  "restrict", "_Alignas", "_Alignof", "_Atomic", "_Bool",
  "_Complex", "_Generic", "_Imaginary", "_Noreturn", "_Static_assert",
  "_Thread_local",
  "p"].map String.toList

/-- The text that `field_name` gives. -/
def escape (name : Text) : Text := if name ∈ reserved then '_' :: name else name

end Capnproto.Compiler

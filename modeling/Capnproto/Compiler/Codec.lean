import Capnproto.Compiler.Files
import Capnproto.Compiler.Generate

/-!
# `$C::codecgen`

For each struct of a file with this annotation the compiler also writes `encode_X`, `decode_X`
and `free_X`, which convert between the struct that it declares and one of the user's. What is written for
a field is a list of pieces of text, without indentation; a piece that names a member of the user's struct says
what for. The compiler exits on an annotation that is not a text, and when it does not find the node of a type.
-/

namespace Capnproto.Compiler

/-! ## Annotations -/

def ANNOTATION_MAPLISTCOUNT : Nat := 0xb6ea49eb8a9b0f9e

def ANNOTATION_MAPUNIONTAG : Nat := 0xdce06d41858f91ac

/-- `get_text_annotation`. The last annotation with the id is the one that counts. -/
def getTextAnnotation (l : List Annotation) (id : Nat) : Except Stop (Option Text) :=
  match l.reverse.find? (·.id = id) with
  | some a => if a.value.which ≠ .text then .error (.exit 2) else .ok a.value.str
  | none => .ok none

/-- `get_mapname`. -/
def getMapname (l : List Annotation) : Except Stop (Option Text) := getTextAnnotation l ANNOTATION_MAPNAME

/-- `get_maplistcount`. -/
def getMaplistcount (l : List Annotation) : Except Stop (Option Text) := getTextAnnotation l ANNOTATION_MAPLISTCOUNT

/-- `get_mapuniontag`. -/
def getMapuniontag (l : List Annotation) : Except Stop (Option Text) := getTextAnnotation l ANNOTATION_MAPUNIONTAG

/-! ## Fields with annotations -/

/-- A slot with what codecs need besides: its annotations, `which` of the elements of a list, and the name of
the node that `find_node` finds for a struct, or for the structs of a list. -/
structure CodecSlot extends Slot where
  annotations : List Annotation := []
  element : TypeWhich := .void
  node : Option Text := none

/-- The fields of a node, with annotations. -/
inductive CodecFields where
  | nil
  | slot (f : CodecSlot) (rest : CodecFields)
  | group (g : Group) (annotations : List Annotation) (body rest : CodecFields)

/-- The fields without their annotations. -/
def CodecFields.plain : CodecFields → Fields
  | .nil => .nil
  | .slot f rest => .slot f.toSlot rest.plain
  | .group g _ body rest => .group g body.plain rest.plain

/-- A node of a struct with annotations. -/
structure CodecNode where
  name : Text
  annotations : List Annotation := []
  discriminantCount : Nat
  fields : CodecFields
  counted : discriminantCount = fields.plain.unionCount
  valid : fields.plain.Valid

/-- The node without annotations. -/
def CodecNode.plain (n : CodecNode) : Node := ⟨n.name, n.discriminantCount, n.fields.plain, n.counted, n.valid⟩

/-! ## Text -/

/-- A piece of a line: text as it stands, the name of a node, or the name of a member, of the struct
that the compiler declares or of the user's. A member of the user's struct has the data
of a field, or the number of elements of a list. -/
inductive Piece where
  | text (s : String)
  | node (name : Text)
  | own (name : Text)
  | data (name : Text)
  | count (name : Text)
deriving DecidableEq

/-- `struct list_type_info`. The decoder and `free` know text and data by their `ctype`. -/
structure ListTypeInfo where
  typeWhich : TypeWhich
  ctype : String
  listType : String
  setf : String
  getf : String

/-- `list_types`. -/
def listTypes : List ListTypeInfo := [
  ⟨.bool, "uint8_t", "list1", "set1", "get1"⟩,
  ⟨.int8, "int8_t", "list8", "set8", "get8"⟩,
  ⟨.uint8, "uint8_t", "list8", "set8", "get8"⟩,
  ⟨.int16, "int16_t", "list16", "set16", "get16"⟩,
  ⟨.uint16, "uint16_t", "list16", "set16", "get16"⟩,
  ⟨.int32, "int32_t", "list32", "set32", "get32"⟩,
  ⟨.uint32, "uint32_t", "list32", "set32", "get32"⟩,
  ⟨.float32, "float", "list32", "set32", "get32"⟩,
  ⟨.int64, "int64_t", "list64", "set64", "get64"⟩,
  ⟨.uint64, "uint64_t", "list64", "set64", "get64"⟩,
  ⟨.float64, "double", "list64", "set64", "get64"⟩,
  ⟨.text, "text", "text", "", ""⟩,
  ⟨.data, "data", "data", "", ""⟩]

/-- `find_list_type`. -/
def findListType (which : TypeWhich) : Option ListTypeInfo := listTypes.find? fun i => i.typeWhich = which

/-- `mk_simple_list_encoder`. -/
def mkSimpleListEncoder (listType setf : String) (dvar cvar svar : Text) : List Piece :=
  [.text "if (1) \x7b\n", .text "\tint i_;\n"] ++
  (if listType = "text" then
    [.text "\td->", .own dvar, .text ".p = capn_new_ptr_list(cs, s->", .count cvar, .text ");\n",
     .text "\tfor(i_ = 0; i_ < s->", .count cvar, .text "; i_ ++) \x7b\n",
     .text "\t\tcapn_text text_ = \x7b.str = s->", .data svar, .text "[i_], .len = strlen(s->", .data svar,
     .text "[i_]),.seg = NULL\x7d;\n",
     .text "\t\tcapn_set_text(d->", .own dvar, .text ".p, i_, text_);\n",
     .text "\t\x7d\n"]
  else if listType = "data" then
    [.text "\td->", .own dvar, .text ".p = capn_new_ptr_list(cs, s->", .count cvar, .text ");\n",
     .text "\tfor(i_ = 0; i_ < s->", .count cvar, .text "; i_ ++) \x7b\n",
     .text "\t\tcapn_list8 item_ = capn_new_list8(cs, s->", .data svar, .text "[i_].len);\n",
     .text "\t\tcapn_setv8(item_, 0, s->", .data svar, .text "[i_].data, s->", .data svar, .text "[i_].len);\n",
     .text "\t\tcapn_setp(d->", .own dvar, .text ".p, i_, item_.p);\n",
     .text "\t\x7d\n"]
  else
    [.text "\td->", .own dvar, .text " = capn_new_", .text listType, .text "(cs, s->", .count cvar, .text ");\n",
     .text "\tfor(i_ = 0; i_ < s->", .count cvar, .text "; i_ ++) \x7b\n",
     .text "\t\tcapn_", .text setf, .text "(d->", .own dvar, .text ", i_, s->", .data svar, .text "[i_]);\n",
     .text "\t\x7d\n"]) ++
  [.text "\x7d\n"]

/-- `mk_simple_list_decoder`. -/
def mkSimpleListDecoder (listType getf : String) (dvar cvar svar : Text) : List Piece :=
  [.text "if (1) \x7b\n", .text "\tint i_, nc_;\n",
   .text "\tcapn_resolve(&(s->", .own svar, .text ".p));\n",
   .text "\tnc_ = s->", .own svar, .text ".p.len;\n",
   .text "\tif (nc_ == 0) \x7b\n",
   .text "\t\td->", .data dvar, .text " = NULL;\n",
   .text "\t\x7d\n", .text "\telse \x7b\n"] ++
  (if listType = "text" then
    [.text "\t\td->", .data dvar, .text " = (char **)calloc(nc_, sizeof(char *));\n",
     .text "\t\tfor(i_ = 0; i_ < nc_; i_ ++) \x7b\n",
     .text "\t\t\tcapn_text text_ = capn_get_text(s->", .own svar, .text ".p, i_, capn_val0);\n",
     .text "\t\t\td->", .data dvar, .text "[i_] = STRING_DUP(text_.str);\n",
     .text "\t\t\x7d\n"]
  else if listType = "data" then
    [.text "\t\td->", .data dvar, .text " = (capnp_data_t *)calloc(nc_, sizeof(capnp_data_t));\n",
     .text "\t\tfor(i_ = 0; i_ < nc_; i_ ++) \x7b\n",
     .text "\t\t\tcapn_ptr item_ = capn_getp(s->", .own svar, .text ".p, i_, 1);\n",
     .text "\t\t\td->", .data dvar, .text "[i_].len = item_.len;\n",
     .text "\t\t\tif (item_.len > 0) \x7b\n",
     .text "\t\t\t\td->", .data dvar, .text "[i_].data = (uint8_t *)malloc(item_.len);\n",
     .text "\t\t\t\tcapn_getv8((capn_list8)\x7bitem_\x7d, 0, d->", .data dvar, .text "[i_].data, item_.len);\n",
     .text "\t\t\t\x7d\n", .text "\t\t\x7d\n"]
  else
    [.text "\t\td->", .data dvar, .text " = (", .text listType, .text " *)calloc(nc_, sizeof(", .text listType,
     .text "));\n",
     .text "\t\tfor(i_ = 0; i_ < nc_; i_ ++) \x7b\n",
     .text "\t\t\td->", .data dvar, .text "[i_] = capn_", .text getf, .text "(s->", .own svar, .text ", i_);\n",
     .text "\t\t\x7d\n"]) ++
  [.text "\t\x7d\n", .text "d->", .count cvar, .text " = nc_;\n", .text "\x7d\n"]

/-- `mk_simple_list_free`. -/
def mkSimpleListFree (listType : String) (dvar cvar : Text) : List Piece :=
  [.text "if (1) \x7b\n", .text "\tint i_, nc_ = d->", .count cvar, .text ";\n",
   .text "\tcapnp_use(i_);capnp_use(nc_);\n"] ++
  (if listType = "text" then
    [.text "\tfor(i_ = 0; i_ < nc_; i_ ++) \x7b\n",
     .text "\t\tif (d->", .data dvar, .text "[i_] == NULL) continue;\n",
     .text "\t\tfree(d->", .data dvar, .text "[i_]);\n",
     .text "\t\x7d\n"]
  else if listType = "data" then
    [.text "\tfor(i_ = 0; i_ < nc_; i_ ++) \x7b\n",
     .text "\t\tif (d->", .data dvar, .text "[i_].data != NULL) \x7b\n",
     .text "\t\t\tfree(d->", .data dvar, .text "[i_].data);\n",
     .text "\t\t\x7d\n", .text "\t\x7d\n"]
  else []) ++
  [.text "\tfree(d->", .data dvar, .text ");\n", .text "\x7d\n"]

/-- `find_node`, for what is written with the name of the node. -/
def withNode (node : Option Text) (text : Text → List Piece) : Except Stop (List Piece) :=
  match node with
  | some n => .ok (text n)
  | none => .error (.exit 2)

/-- `gen_call_list_encoder`, for elements of type `element`, structs of the node `node`. -/
def genCallListEncoder (element : TypeWhich) (node : Option Text) (var countvar var2 : Text) : Except Stop (List Piece) :=
  match findListType element with
  | some info => .ok (mkSimpleListEncoder info.listType info.setf var countvar var2)
  | none =>
    if element = .struct then
      withNode node fun n => [.text "encode_", .node n, .text "_list(cs, &(d->", .own var, .text "), s->", .count countvar,
        .text ", s->", .data var2, .text ");\n"]
    else .ok []

/-- `gen_call_list_decoder`. -/
def genCallListDecoder (element : TypeWhich) (node : Option Text) (var countvar var2 : Text) : Except Stop (List Piece) :=
  match findListType element with
  | some info => .ok (mkSimpleListDecoder info.ctype info.getf var countvar var2)
  | none =>
    if element = .struct then
      withNode node fun n => [.text "decode_", .node n, .text "_list(&(d->", .count countvar, .text "), &(d->", .data var,
        .text "), s->", .own var2, .text ");\n"]
    else .ok []

/-- `gen_call_list_free`. -/
def genCallListFree (element : TypeWhich) (node : Option Text) (var countvar : Text) : Except Stop (List Piece) :=
  match findListType element with
  | some info => .ok (mkSimpleListFree info.ctype var countvar)
  | none =>
    if element = .struct then
      withNode node fun n => [.text "free_", .node n, .text "_list(d->", .count countvar, .text ", d->", .data var,
        .text ");\n"]
    else .ok []

/-! ## Members -/

/-- The number of elements without an annotation, as the encoder has it: `n_` before the whole path. -/
def encoderCount (var2 : Text) : Text := lit "n_" ++ var2

/-- The number of elements without an annotation, as the decoder and `free` have it: `n_` behind the
first dot of the path, or nothing at all. -/
def decoderCount (var2 : Text) : Text :=
  match var2.span (· ≠ '.') with
  | (a, '.' :: b) => a ++ lit ".n_" ++ b
  | (a, _) => a

/-- The types of a member that is copied by an assignment. -/
def assigned : List TypeWhich := [.bool, .int8, .int16, .int32, .int64, .uint8, .uint16, .uint32, .uint64, .float32,
  .float64, .enum]

/-- `encode_member`. -/
def encodeMember (f : CodecSlot) (var : Text) (var2 : Option Text) : Except Stop (List Piece) :=
  let var2 := var2.getD var
  match f.type with
  | .void => .ok []
  | .text => .ok
    [.text "if (s->", .data var2, .text " != NULL) \x7b\n",
     .text "\td->", .own var, .text ".str = s->", .data var2, .text ";\n",
     .text "\td->", .own var, .text ".len = strlen(s->", .data var2, .text ");\n",
     .text "\x7d\n", .text "else\x7b\n",
     .text "\td->", .own var, .text ".str = NULL;\n",
     .text "\td->", .own var, .text ".len = 0;\n",
     .text "\x7d\n",
     .text "d->", .own var, .text ".seg = NULL;\n"]
  | .data => do
    let buf := (← getMaplistcount f.annotations).getD (encoderCount var2)
    return [.text "if (s->", .data var2, .text " != NULL) \x7b\n",
     .text "\tcapn_list8 list_ = capn_new_list8(cs, s->", .count buf, .text ");\n",
     .text "\tif (s->", .count buf, .text " > 0) \x7b\n",
     .text "\t\tcapn_setv8(list_, 0, s->", .data var2, .text ", s->", .count buf, .text ");\n",
     .text "\t\x7d\n",
     .text "\td->", .own var, .text ".p = list_.p;\n",
     .text "\x7d else \x7b\n",
     .text "\tmemset(&d->", .own var, .text ", 0, sizeof(d->", .own var, .text "));\n",
     .text "\x7d\n"]
  | .struct => withNode f.node fun n =>
    [.text "encode_", .node n, .text "_ptr(cs, &(d->", .own var, .text "), s->", .data var2, .text ");\n"]
  | .list =>
    if f.element = .void then .ok []
    else do
      let var2 := (← getMapname f.annotations).getD var
      let buf := (← getMaplistcount f.annotations).getD (encoderCount var2)
      genCallListEncoder f.element f.node var buf var2
  | _ =>
    if f.type ∈ assigned then .ok [.text "d->", .own var, .text " = s->", .data var2, .text ";\n"]
    else .ok [.text "\t /* ", .own var, .text " ", .data var2, .text " */\n"]

/-- `decode_member`. -/
def decodeMember (f : CodecSlot) (var : Text) (var2 : Option Text) : Except Stop (List Piece) :=
  let var2 := var2.getD var
  match f.type with
  | .void => .ok []
  | .text => .ok [.text "d->", .data var2, .text " = STRING_DUP(s->", .own var, .text ".str);\n"]
  | .data => do
    let buf := (← getMaplistcount f.annotations).getD (encoderCount var2)
    return [.text "if (1) \x7b\n",
     .text "\tint nc_;\n",
     .text "\tcapn_resolve(&(s->", .own var, .text ".p));\n",
     .text "\tnc_ = s->", .own var, .text ".p.len;\n",
     .text "\td->", .count buf, .text " = nc_;\n",
     .text "\tif (nc_ > 0) \x7b\n",
     .text "\t\td->", .data var2, .text " = (uint8_t *)malloc(nc_);\n",
     .text "\t\tcapn_getv8((capn_list8)\x7bs->", .own var, .text ".p\x7d, 0, d->", .data var2, .text ", nc_);\n",
     .text "\t\x7d else \x7b\n",
     .text "\t\td->", .data var2, .text " = NULL;\n",
     .text "\t\x7d\n", .text "\x7d\n"]
  | .struct => withNode f.node fun n =>
    [.text "decode_", .node n, .text "_ptr(&(d->", .data var2, .text "), s->", .own var, .text ");\n"]
  | .list =>
    if f.element = .void then .ok []
    else do
      let var2 := (← getMapname f.annotations).getD var
      let buf := (← getMaplistcount f.annotations).getD (decoderCount var2)
      genCallListDecoder f.element f.node var2 buf var
  | _ =>
    if f.type ∈ assigned then .ok [.text "d->", .data var2, .text " = s->", .own var, .text ";\n"]
    else .ok [.text "\t /* ", .data var2, .text " ", .own var, .text " */\n"]

/-- `free_member`. -/
def freeMember (f : CodecSlot) (var : Text) (var2 : Option Text) : Except Stop (List Piece) :=
  let var2 := var2.getD var
  match f.type with
  | .void => .ok []
  | .text | .data => .ok
    [.text "if (d->", .data var2, .text " != NULL) \x7b\n",
     .text "\tfree(d->", .data var2, .text ");\n",
     .text "\x7d\n"]
  | .struct => withNode f.node fun n => [.text "free_", .node n, .text "_ptr(&(d->", .data var2, .text "));\n"]
  | .list =>
    if f.element = .void then .ok []
    else do
      let var2 := (← getMapname f.annotations).getD var
      let buf := (← getMaplistcount f.annotations).getD (decoderCount var2)
      genCallListFree f.element f.node var2 buf
  | _ =>
    if f.type ∈ assigned then .ok []
    else .ok [.text "\t /* ", .own var, .text " ", .data var2, .text " */\n"]

/-! ## Structs -/

/-- Text in `encoder`, `decoder` and `freeup`. -/
inductive CodecStmt where
  /-- `d->target = s->source;` -/
  | which (target source : Text)
  | switch (tag : Text)
  | case (node name : Text)
  /-- What is written for a member. -/
  | member (f : CodecSlot) (text : List Piece)
  | break
  | default
  | close

/-- What is written for a member that is not void. -/
def memberStmt (f : CodecSlot) (text : List Piece) : List CodecStmt := if f.type = .void then [] else [.member f text]

/-- `struct strings`, with the buffers for codecs. -/
structure Codec where
  strings : Strings
  encoder : List CodecStmt := []
  decoder : List CodecStmt := []
  freeup : List CodecStmt := []

/-- The other buffers. -/
def Codec.on (c : Codec) (f : Strings → Strings) : Codec := { c with strings := f c.strings }

/-- Adds to all three buffers. -/
def Codec.addAll (c : Codec) (ts : List CodecStmt) : Codec :=
  { c with encoder := c.encoder ++ ts, decoder := c.decoder ++ ts, freeup := c.freeup ++ ts }

/-- `encode_member`, `decode_member` and `free_member`, as they are called for a field. -/
def codecMember (f : CodecSlot) (var : Text) (var2 : Option Text) (c : Codec) : Except Stop Codec := do
  let e ← encodeMember f var var2
  let d ← decodeMember f var var2
  let r ← freeMember f var var2
  return { c with
    encoder := c.encoder ++ memberStmt f e
    decoder := c.decoder ++ memberStmt f d
    freeup := c.freeup ++ memberStmt f r }

/-- `codec_union_member`. -/
def codecUnionMember (f : CodecSlot) (c : Codec) : Except Stop Codec := do
  let mapname ← getMapname f.annotations
  let (r, s) := fieldName f.name c.strings
  let fname := r.text s
  let c ← codecMember f (s.var.drop 3 ++ fname) (some (s.var.drop 3 ++ mapname.getD fname)) { c with strings := s }
  return c.addAll [.break]

/-- `define_field`, for a slot. -/
def codecSlot (f : CodecSlot) (c : Codec) : Except Stop Codec := do
  let c := c.on (defineSlot f.toSlot)
  let mapname ← getMapname f.annotations
  let (r, s) := fieldName f.name c.strings
  codecMember f (s.var.drop 3 ++ r.text s) mapname { c with strings := s }

/-- The labels of a case. -/
def codecCase (node name : Text) (c : Codec) : Codec :=
  let c := c.on (caseLabel node name)
  let (r, s) := fieldName name c.strings
  { c with strings := s }.addAll [.case node (r.text s)]

/-- `union_cases`. -/
def codecCases (node : Text) (mask : List TypeWhich) : Phase → CodecFields → Codec → Except Stop Codec
  | _, .nil, c => .ok c
  | ph, .slot f rest, c =>
    let ph := ph.next (inUnion f.discriminantValue)
    (if ph = .union ∧ f.hasDefault = false ∧ f.type ∈ mask then
      (codecUnionMember f (codecCase node f.name c)).map (·.on (unionBlock f.toSlot))
    else .ok c) >>= fun c => codecCases node mask ph rest c
  | ph, .group g _ _ rest, c => codecCases node mask (ph.next (inUnion g.discriminantValue)) rest c

/-- What `define_group` and `do_union` do with the fields of a node; the last loop of `do_union` passes
on the variable of a tag. -/
structure CodecLoops where
  before : Codec → Except Stop Codec
  cases : Codec → Except Stop Codec
  union : Option Text → Codec → Except Stop Codec
  after : Codec → Except Stop Codec

/-- `strstr` for an arrow: the text from there on. -/
def fromArrow : Text → Except Stop Text
  | [] => .error (.exit 2)
  | '-' :: '>' :: rest => .ok ('-' :: '>' :: rest)
  | _ :: rest => fromArrow rest

/-- `do_union`. -/
def codecUnion (node : Text) (b : CodecLoops) (unionName : Option NameRef) (uniontag : Option Text) (c : Codec) :
    Except Stop Codec := do
  let tag := unionTag unionName.isSome c.strings.var
  let c := c.on fun s => s.addDecl [.which node (unionName.map (·.text s))]
  let c := c.on fun s => s.addStmt [.which tag node, .switch tag]
  let arrow ← fromArrow tag
  let dtag := 'd' :: arrow
  let c := { c with
    encoder := c.encoder ++ [.switch dtag]
    decoder := c.decoder ++ [.switch tag]
    freeup := c.freeup ++ [.switch (if uniontag.getD [] = [] then dtag else uniontag.getD [])] }
  let c ← b.cases c
  let c := c.on fun s => s.addDecl [.union]
  let c ← b.union uniontag c
  let c := c.on fun s => s.addDecl [.close (unionName.map (·.text s))]
  return (c.on fun s => s.addStmt [.default, .break, .close]).addAll [.default, .break, .close]

/-- `define_group` from the first loop to the last. -/
def codecFields (node : Text) (discriminantCount : Nat) (b : CodecLoops) (unionName : Option NameRef) (name : NameRef)
    (encloseUnions : Bool) (uniontag : Option Text) (c : Codec) : Except Stop Codec := do
  let c ← b.before c
  if 0 < discriminantCount then
    let c := if encloseUnions then c.on fun s => s.addDecl [.struct] else c
    let c ← codecUnion node b unionName uniontag c
    let c ← b.after c
    return if encloseUnions then c.on fun s => s.addDecl [.close (some (name.text s))] else c
  else return c

/-- `define_group`, for the node of a group. -/
def codecGroup (g : Group) (body : Fields) (b : CodecLoops) (name : NameRef) (encloseUnions : Bool)
    (uniontag : Option Text) (c : Codec) : Except Stop Codec :=
  let namedUnion := g.namedUnion body
  if g.skipped body then .ok (c.on fun s => s.addDecl [.comment (name.text s)])
  else do
    let c := if namedUnion then c else c.on fun s => s.addDecl [.struct]
    let c := c.on fun s => { s with var := s.var ++ name.text s ++ ['.'] }
    let c ← codecFields g.node g.discriminantCount b (if namedUnion && !encloseUnions then some name else none) name
      encloseUnions uniontag c
    let c := if namedUnion then c else c.on fun s => s.addDecl [.close (some (name.text s))]
    return c.on fun s => { s with var := s.var.take (s.var.length - (name.text s).length - 1) }

/-- The tag of a named union, in `define_field`: the conversions of its discriminant, and the variable that
`free` looks at. -/
def codecTag (g : Group) (annotations : List Annotation) (body : Fields) (name : Text) (c : Codec) :
    Except Stop (Codec × Option Text) :=
  if g.namedUnion body then do
    let tag := (← getMapuniontag annotations).getD (name ++ lit "_which")
    return ({ c with
      encoder := c.encoder ++ [.which (name ++ lit "_which") tag]
      decoder := c.decoder ++ [.which tag (name ++ lit "_which")] }, some (lit "d->" ++ tag))
  else return (c, none)

mutual

/-- The loops over the fields before the union members, and over those after them, with
`define_field` for each. -/
def codecFieldLoop (loop : Phase) : Phase → CodecFields → Codec → Except Stop Codec
  | _, .nil, c => .ok c
  | ph, .slot f rest, c =>
    let ph := ph.next (inUnion f.discriminantValue)
    (if ph = loop then codecSlot f c else .ok c) >>= fun c => codecFieldLoop loop ph rest c
  | ph, .group g annotations body rest, c =>
    let ph := ph.next (inUnion g.discriminantValue)
    (if ph = loop then
      let (r, s) := fieldName g.name c.strings
      (codecTag g annotations body.plain (r.text s) { c with strings := s }) >>= fun (c, uniontag) =>
        codecGroup g body.plain
          ⟨codecFieldLoop .before .before body,
            fun c => masks.foldlM (fun c m => codecCases g.node m .before body c) c,
            fun uniontag => codecUnionLoop uniontag g.node .before body, codecFieldLoop .after .before body⟩
          (.own (r.text s)) false uniontag c
    else .ok c) >>= fun c => codecFieldLoop loop ph rest c

/-- The second loop of `do_union`. -/
def codecUnionLoop (uniontag : Option Text) (node : Text) : Phase → CodecFields → Codec → Except Stop Codec
  | _, .nil, c => .ok c
  | ph, .slot f rest, c =>
    let ph := ph.next (inUnion f.discriminantValue)
    (if ph = .union then
      let (r, s) := fieldName f.name c.strings
      let s := { s with enums := s.enums ++ [(node, r.text s, f.discriminantValue)] }
      let c := { c with strings := declareSlot f.toSlot s }
      if f.hasDefault then codecUnionMember f ((codecCase node f.name c).on (unionBlock f.toSlot)) else .ok c
    else .ok c) >>= fun c => codecUnionLoop uniontag node ph rest c
  | ph, .group g _ body rest, c =>
    let ph := ph.next (inUnion g.discriminantValue)
    (if ph = .union then
      let (r, s) := fieldName g.name c.strings
      let s := { s with enums := s.enums ++ [(node, r.text s, g.discriminantValue)] }
      let c := codecCase node g.name { c with strings := s }
      let (r, s) := fieldName g.name c.strings
      (codecGroup g body.plain
        ⟨codecFieldLoop .before .before body,
          fun c => masks.foldlM (fun c m => codecCases g.node m .before body c) c,
          fun uniontag => codecUnionLoop uniontag g.node .before body, codecFieldLoop .after .before body⟩
        r true uniontag { c with strings := s }).map fun c => (c.on fun s => s.addStmt [.break]).addAll [.break]
    else .ok c) >>= fun c => codecUnionLoop uniontag node ph rest c

end

/-- The loops over the fields of a node. -/
def CodecFields.loops (node : Text) (fs : CodecFields) : CodecLoops where
  before := codecFieldLoop .before .before fs
  cases := fun c => masks.foldlM (fun c m => codecCases node m .before fs c) c
  union := fun uniontag => codecUnionLoop uniontag node .before fs
  after := codecFieldLoop .after .before fs

/-- The conversions of the discriminant of a node. -/
def codecNodeTag (n : CodecNode) (c : Codec) : Except Stop Codec :=
  if 0 < n.discriminantCount then do
    let tag := (← getMapuniontag n.annotations).getD (lit "which")
    return { c with
      encoder := c.encoder ++ [.which (lit "which") tag]
      decoder := c.decoder ++ [.which tag (lit "which")] }
  else return c

/-- `define_struct`, with the bodies of `encode_X`, `decode_X` and `free_X`. -/
def codecStruct (n : CodecNode) (buf : Text) : Except Stop Codec := do
  let c ← codecNodeTag n { strings := { var := lit "s->", buf := buf } }
  codecFields n.name n.discriminantCount (n.fields.loops n.name) none (.own []) false none c

end Capnproto.Compiler

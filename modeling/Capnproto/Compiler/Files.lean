import Capnproto.Compiler.Request

/-!
# The files of a request

`main` writes a header and a source for each requested file. What it writes for a struct, and with `$C::codecgen` the
functions that encode and decode it, is a parameter here, `emit`: any function of the state of the generator. `Independent` says
that a file is written as it is when it is the only one that is asked for.
-/

namespace Capnproto.Compiler

/-! ## Annotations of a file -/

def ANNOTATION_NAMEINFIX : Nat := 0x85a8d86d736ba637
def ANNOTATION_FIELDGETSET : Nat := 0xf72bc690355d66de
def ANNOTATION_CODECGEN : Nat := 0xcccaac86283e2609
def ANNOTATION_DONOTINCLUDE : Nat := 0x8c99797357b357e9
def ANNOTATION_EXTRAHEADER : Nat := 0xbadb496d09cf4612
def ANNOTATION_EXTENDEDATTRIBUTE : Nat := 0xd187bca5c6844c24
def ANNOTATION_TYPEDEFTO : Nat := 0xcefaf27713042144
def ANNOTATION_MAPNAME : Nat := 0xb9edf6fc2d8972b8

/-- What the annotations of a file say. -/
structure FileOptions where
  nameinfix : Option Text := none
  fieldgetset : Bool := false
  codecgen : Bool := false
  donotinclude : IdBst := .null
  extraheaders : List Text := []
  extattr : Option Text := none

def FileOptions.annotate (o : FileOptions) (a : Annotation) : Except Stop FileOptions :=
  let str := a.value.str.getD []
  if a.id = ANNOTATION_NAMEINFIX then
    if a.value.which ≠ .text ∨ o.nameinfix.isSome then .error (.exit 2) else .ok { o with nameinfix := some str }
  else if a.id = ANNOTATION_FIELDGETSET then .ok { o with fieldgetset := true }
  else if a.id = ANNOTATION_CODECGEN then .ok { o with codecgen := true }
  else if a.id = ANNOTATION_DONOTINCLUDE then
    if a.value.which ≠ .uint64 then .error (.exit 2)
    else .ok { o with donotinclude := insertId o.donotinclude (a.value.bits % 2 ^ 64) }
  else if a.id = ANNOTATION_EXTRAHEADER then
    if a.value.which ≠ .text then .error (.exit 2) else .ok { o with extraheaders := o.extraheaders ++ [str] }
  else if a.id = ANNOTATION_EXTENDEDATTRIBUTE then
    if a.value.which ≠ .text ∨ o.extattr.isSome then .error (.exit 2)
    else .ok (if str = [] then o else { o with extattr := some str })
  else .ok o

/-- The annotations, from the last to the first. -/
def FileOptions.read (n : SchemaNode) : Except Stop FileOptions := n.annotations.reverse.foldlM FileOptions.annotate {}

def FileOptions.infix (o : FileOptions) : Text := o.nameinfix.getD []

/-- `extattr` and `extattr_space`. -/
def FileOptions.attr (o : FileOptions) : Text :=
  match o.extattr with
  | some t => t ++ lit " "
  | none => []

/-! ## Headers -/

/-- `declare` and `declare_ext`. -/
def declare (ns : List SchemaNode) (text : Text → Text) : Text :=
  lit "\n" ++ (ns.filter (·.ownStruct)).flatMap fun n => text n.name

/-- What is written for each interface, after an empty line. -/
def declareInterfaceWith (ns : List SchemaNode) (text : Text → Text) : Text :=
  match ns.filter fun n => n.which matches .interface _ with
  | [] => []
  | is => lit "\n" ++ is.flatMap fun n => text n.name

/-- `declare_interfaces`. -/
def declareInterfaces (ns : List SchemaNode) : Text :=
  declareInterfaceWith ns fun name =>
    [lit "typedef struct \x7bcapn_ptr p;\x7d ", name, lit "_ptr;\n", lit "typedef struct \x7bcapn_ptr p;\x7d ", name,
      lit "_list;\n"].flatten

/-- `declare_interface_news`. -/
def declareInterfaceNews (ns : List SchemaNode) (attr : Text) : Text :=
  declareInterfaceWith ns fun name =>
    [attr, name, lit "_ptr new_", name, lit "(struct capn_segment*);\n", attr, name, lit "_list new_", name,
      lit "_list(struct capn_segment*, int len);\n"].flatten

/-- The text of `get_mapname`, or the name of the struct. -/
def mapname (n : SchemaNode) : Except Stop Text :=
  match n.annotations.reverse.find? (·.id = ANNOTATION_MAPNAME) with
  | some a => if a.value.which ≠ .text then .error (.exit 2) else .ok (a.value.str.getD n.name)
  | none => .ok n.name

/-- `mk_codec_declares`. -/
def codecDeclares (n1 n2 : Text) : Text :=
  [lit "void encode_", n1, lit "(struct capn_segment *,struct ", n1, lit " *, ", n2, lit " *);\n",
    lit "void decode_", n1, lit "(", n2, lit " *, struct ", n1, lit " *);\n",
    lit "void free_", n1, lit "(", n2, lit " *);\n",
    lit "void encode_", n1, lit "_list(struct capn_segment *,", n1, lit "_list *, int, ", n2, lit " **);\n",
    lit "void decode_", n1, lit "_list(int *, ", n2, lit " ***, ", n1, lit "_list);\n",
    lit "void free_", n1, lit "_list(int, ", n2, lit " **);\n",
    lit "void encode_", n1, lit "_ptr(struct capn_segment*, ", n1, lit "_ptr *, ", n2, lit " *);\n",
    lit "void decode_", n1, lit "_ptr(", n2, lit " **, ", n1, lit "_ptr);\n",
    lit "void free_", n1, lit "_ptr(", n2, lit " **);\n"].flatten

/-- `declare_codec`. -/
def declareCodec (ns : List SchemaNode) : Except Stop Text :=
  ((ns.filter (·.ownStruct)).mapM fun n =>
    (mapname n).map fun m => codecDeclares n.name m ++ lit "\n").map fun ts => lit "\n" ++ ts.flatten

/-- A header up to the imports. -/
def headerStart (n : SchemaNode) (o : FileOptions) : Text :=
  let guard := hexUpper (n.id / 2 ^ 32 % 2 ^ 32) ++ hexUpper (n.id % 2 ^ 32)
  [lit "#ifndef CAPN_", guard, lit "\n#define CAPN_", guard, lit "\n/* AUTO GENERATED - DO NOT EDIT */\n",
    lit "#include <capnp_c.h>\n", o.extraheaders.reverse.flatMap (· ++ lit "\n"), lit "\n",
    if o.codecgen then lit "#ifndef STRING_DUP\n#define STRING_DUP strdup\n#endif\n\n" else [],
    lit "#if CAPN_VERSION != 1\n#error \"version mismatch between capnp_c.h and generated code\"\n#endif\n\n",
    lit "#ifndef capnp_nowarn\n# ifdef __GNUC__\n#  define capnp_nowarn __extension__\n# else\n#  define capnp_nowarn\n",
    lit "# endif\n#endif\n\n"].flatten

/-- The `#include` of an import, if it is used. -/
def includeText (u : UsedImports) (o : FileOptions) (im : Nat × Text) : Except Stop Text :=
  if containsId o.donotinclude im.1 then .ok []
  else (u.contains im.1).map fun used =>
    if used then
      [lit "#include \"", if im.2.head? = some '/' then im.2.tail else im.2, o.infix, lit ".h\"\n"].flatten
    else []

/-- The `#include`s of a file. -/
def includes (u : UsedImports) (o : FileOptions) (f : RequestedFile) : Except Stop Text :=
  (f.imports.mapM (includeText u o)).map List.flatten

/-! ## Nodes that are no structs -/

/-- `define_enum`. -/
def defineEnum (n : SchemaNode) (s : FileState) : Except Stop FileState :=
  match n.which with
  | .enum es =>
    let members := es.zipIdx.flatMap fun (e, i) =>
      [if i = 0 then [] else lit ",", lit "\n\t", n.name, lit "_", e, lit " = ", decimal i].flatten
    let s := s.addHdr ([lit "\nenum ", n.name, lit " \x7b", members, lit "\n\x7d;\n"].flatten)
    n.annotations.reverse.foldlM (fun s a =>
      if a.id = ANNOTATION_TYPEDEFTO then
        if a.value.which ≠ .text then .error (.exit 2)
        else .ok (s.addHdr ([lit "\ntypedef enum ", n.name, lit " ", a.value.str.getD [], lit ";\n"].flatten))
      else .ok s) s
  | _ => .ok s

/-- `to_screaming_snake`. -/
def toScreamingSnake : Text → Text
  | [] => []
  | [c] => [c.toUpper]
  | c :: d :: rest =>
    if c.isLower ∧ d.isUpper then c.toUpper :: '_' :: toScreamingSnake (d :: rest)
    else c.toUpper :: toScreamingSnake (d :: rest)

/-- What `define_const` adds to the header and the source, once its value is decoded. -/
def constTexts (n : SchemaNode) (tname : Text) (v : Value) (p : Ptr) : Text × Text :=
  let snake := toScreamingSnake n.name
  let number (t : Text) : Text × Text :=
    ([lit "#define ", snake, lit " (", t, lit ")\nextern const ", tname, lit " ", n.name, lit ";\n"].flatten,
      [lit "const ", tname, lit " ", n.name, lit " = ", snake, lit ";\n"].flatten)
  let halves :=
    [lit "((uint64_t) ", hexPrefixed (v.bits / 2 ^ 32 % 2 ^ 32), lit "u << 32) | ", hexPrefixed (v.bits % 2 ^ 32),
      lit "u"].flatten
  match v.which with
  | .bool | .int8 | .int16 | .int32 => number (decimal v.intval)
  | .uint8 => number (decimal (v.bits % 2 ^ 8 : Nat))
  | .uint16 => number (decimal (v.bits % 2 ^ 16 : Nat))
  | .uint32 => number (decimal (v.bits % 2 ^ 32 : Nat) ++ lit "u")
  | .enum =>
    ((number (decimal (v.bits % 2 ^ 16 : Nat) ++ lit "u")).1,
      [lit "const ", tname, lit " ", n.name, lit " = (", tname, lit ") ", snake, lit ";\n"].flatten)
  | .int64 | .uint64 => number halves
  | .float32 =>
    ([lit "extern const union capn_conv_f32 ", n.name, lit ";\n"].flatten,
      [lit "const union capn_conv_f32 ", n.name, lit " = \x7b", hexPrefixed (v.bits % 2 ^ 32), lit "u\x7d;\n"].flatten)
  | .float64 =>
    ([lit "extern const union capn_conv_f64 ", n.name, lit ";\n"].flatten,
      [lit "const union capn_conv_f64 ", n.name, lit " = \x7b", halves, lit "\x7d;\n"].flatten)
  | .text | .data | .struct | .anyPointer | .list =>
    ([lit "extern ", tname, lit " ", n.name, lit ";\n"].flatten,
      if p.type = .NULL then [tname, lit " ", n.name, lit ";\n"].flatten else [])
  | .interface | .void => ([], [])

/-- `define_const`. -/
def defineConst (r : Request) (fuel : Nat) (n : SchemaNode) (s : FileState) : Except Stop FileState :=
  match n.which with
  | .const t v => do
    let tname ← typeName r t
    let (p, store, text) ← decodeValue fuel tname v (some n.name) s.store
    let s := { s with store := store }.addSrc text
    let (hdr, src) := constTexts n tname v p
    .ok ((s.addHdr hdr).addSrc src)
  | _ => .ok s

/-- `define_interface_methods`. -/
def interfaceMethods (r : Request) (n : SchemaNode) (ms : List Method) : Text :=
  let sizes (id : Nat) : Nat × Nat :=
    match (r.nodes.find? (·.id = id)).map (·.which) with
    | some (NodeWhich.struct _ d p) => (d * 8, p)
    | _ => (0, 0)
  let head := [lit "\n/* Interface ", n.name, lit ": id and method descriptors. */\n#define ", n.name,
    lit "_INTERFACE_ID 0x", hexPadded n.id, lit "ULL\n"].flatten
  if ms = [] then head
  else
    let shape := [lit "struct ", n.name, lit "_method \x7b\n\tuint16_t ordinal;\n\tint params_datasz;   /* bytes */\n",
      lit "\tint params_ptrs;\n\tint results_datasz;\n\tint results_ptrs;\n\x7d;\n"].flatten
    let descriptors := ms.zipIdx.flatMap fun (m, i) =>
      let p := sizes m.paramStructType
      let q := sizes m.resultStructType
      [lit "static const struct ", n.name, lit "_method ", n.name, lit "_", m.name, lit "_method = \x7b", decimal i, lit ", ",
        decimal p.1, lit ", ", decimal p.2, lit ", ", decimal q.1, lit ", ", decimal q.2, lit "\x7d;\n"].flatten
    head ++ shape ++ descriptors

/-- `define_interface`. -/
def defineInterface (r : Request) (attr : Text) (n : SchemaNode) (s : FileState) : Except Stop FileState :=
  match n.which with
  | .interface ms =>
    let src := [lit "\n", attr, n.name, lit "_ptr new_", n.name, lit "(struct capn_segment *s) \x7b\n\t", n.name,
      lit "_ptr p;\n\tp.p = capn_new_interface(s, 0, 0);\n\treturn p;\n\x7d\n", attr, n.name, lit "_list new_", n.name,
      lit "_list(struct capn_segment *s, int len) \x7b\n\t", n.name,
      lit "_list p;\n\tp.p = capn_new_ptr_list(s, len);\n\treturn p;\n\x7d\n"].flatten
    .ok ((s.addSrc src).addHdr (interfaceMethods r n ms))
  | _ => .ok s

/-! ## Files -/

/-- What `define_struct` and the codec functions do for a struct: the generator after it, or the code that it exits with. -/
abbrev Emit := SchemaNode → Text → FileState → Except Nat FileState

/-- `define_struct`, for a node that is a struct. -/
def emitStruct (emit : Emit) (attr : Text) (n : SchemaNode) (s : FileState) : Except Stop FileState :=
  if n.ownStruct then (emit n attr s).mapError .exit else .ok s

/-- A step for each node of a list. -/
def forNodes (f : SchemaNode → FileState → Except Stop FileState) (ns : List SchemaNode) (s : FileState) :
    Except Stop FileState :=
  ns.foldlM (fun s n => f n s) s

/-- The declarations before the definitions. -/
def openHeader (ns : List SchemaNode) (attr : Text) : Text :=
  [lit "\n#ifdef __cplusplus\nextern \"C\" \x7b\n#endif\n",
    declare ns fun n => [lit "struct ", attr, n, lit ";\n"].flatten,
    declare ns fun n => [lit "typedef struct \x7bcapn_ptr p;\x7d ", n, lit "_ptr;\n"].flatten,
    declare ns fun n => [lit "typedef struct \x7bcapn_ptr p;\x7d ", n, lit "_list;\n"].flatten,
    declareInterfaces ns].flatten

/-- The declarations behind the definitions. -/
def closeHeader (ns : List SchemaNode) (attr codec : Text) : Text :=
  [declare ns fun n => [attr, n, lit "_ptr new_", n, lit "(struct capn_segment*);\n"].flatten,
    declare ns fun n => [attr, n, lit "_list new_", n, lit "_list(struct capn_segment*, int len);\n"].flatten,
    declareInterfaceNews ns attr,
    declare ns fun n => [attr, lit "void read_", n, lit "(struct ", n, lit "*, ", n, lit "_ptr);\n"].flatten,
    declare ns fun n => [attr, lit "void write_", n, lit "(const struct ", n, lit "*, ", n, lit "_ptr);\n"].flatten,
    declare ns fun n => [attr, lit "void get_", n, lit "(struct ", n, lit "*, ", n, lit "_list, int i);\n"].flatten,
    declare ns fun n => [attr, lit "void set_", n, lit "(const struct ", n, lit "*, ", n, lit "_list, int i);\n"].flatten,
    codec, lit "\n#ifdef __cplusplus\n\x7d\n#endif\n#endif\n"].flatten

/-- The definitions of a file. -/
def fileBody (emit : Emit) (fuel : Nat) (r : Request) (ns : List SchemaNode) (attr : Text) (s : FileState) :
    Except Stop FileState := do
  let s ← forNodes defineEnum ns s
  let s ← forNodes (defineConst r fuel) ns s
  let s ← forNodes (emitStruct emit attr) ns s
  forNodes (defineInterface r attr) ns s

/-- `g_valseg`, as bytes of the source. -/
def valsegText (seg : Segment) : Text :=
  if 8 < seg.len then
    let n := seg.len - 8
    let bytes := (List.range n).flatMap fun k =>
      [if k = 0 then [] else lit ",", if k % 8 = 0 then lit "\n\t" else [],
        decimal (seg.data ((k + 8 : Nat) : Int)).toNat].flatten
    [lit "static const uint8_t capn_buf[", decimal n, lit "] = \x7b", bytes, lit "\n\x7d;\n",
      lit "static const struct capn_segment capn_seg = \x7b\x7b0\x7d,0,0,0,(char*)&capn_buf[0],", decimal n, lit ",",
      decimal n, lit ",0\x7d;\n"].flatten
  else []

/-- What comes behind the last `/` of a name. -/
def baseName (name : Text) : Text := ((name.reverse.takeWhile (· ≠ '/'))).reverse

/-- The files, as they are written. -/
def writeFiles (n : SchemaNode) (o : FileOptions) (s : FileState) : Output where
  hdrName := n.displayName ++ o.infix ++ lit ".h"
  hdr := s.hdr
  srcName := n.displayName ++ o.infix ++ lit ".c"
  src :=
    [lit "#include \"", baseName n.displayName, o.infix, lit ".h\"\n/* AUTO GENERATED - DO NOT EDIT */\n",
      lit "#ifdef __GNUC__\n# define capnp_unused __attribute__((unused))\n# define capnp_use(x) (void) (x);\n",
      lit "#else\n# define capnp_unused\n# define capnp_use(x)\n#endif\n\n",
      if s.codecgen then lit "#include <stdlib.h>\n#include <string.h>\n" else [],
      if s.val0used then lit "static const capn_text capn_val0 = \x7b0,\"\",0\x7d;\n" else [],
      if s.nullused then lit "static const capn_ptr capn_null = \x7bCAPN_NULL\x7d;\n" else [],
      valsegText (s.store.valcapn.seg 0), s.src].flatten

/-- The generator when the nodes of a file are gone through. `g_fieldgetset` is set by a file and not reset by the next, and
`g_valcapn` is a new session around `g_valseg`, of which only the length is reset. -/
def startFile (r : Request) (g : Globals) (o : FileOptions) (hdr : Text) : FileState where
  hdr := hdr
  src := []
  store := ⟨0, capnAppendSegment capnInitMalloc ⟨g.valseg, 0, r.size⟩, g.message⟩
  fieldgetset := g.fieldgetset || o.fieldgetset
  codecgen := o.codecgen

/-- The end of a header, the files, and what is left. -/
def finishFile (r : Request) (n : SchemaNode) (o : FileOptions) (imports : UsedImports) (s : FileState) :
    Except Stop (Output × Globals) :=
  (if s.codecgen then declareCodec (r.nodesOf n.id) else .ok []).map fun codec =>
    (writeFiles n o (s.addHdr (closeHeader (r.nodesOf n.id) o.attr codec)),
      ⟨s.fieldgetset, (s.store.valcapn.seg 0).data, imports, s.store.message⟩)

/-- One requested file, once its annotations are read. -/
def generateNode (emit : Emit) (fuel : Nat) (r : Request) (g : Globals) (f : RequestedFile) (n : SchemaNode)
    (o : FileOptions) : Except Stop (Output × Globals) := do
  let incs ← includes g.imports o f
  let imports ← g.imports.free
  let hdr := headerStart n o ++ incs ++ openHeader (r.nodesOf n.id) o.attr
  let s ← fileBody emit fuel r (r.nodesOf n.id) o.attr (startFile r g o hdr)
  finishFile r n o imports s

/-- One requested file. -/
def generateFile (emit : Emit) (fuel : Nat) (r : Request) (g : Globals) (f : RequestedFile) :
    Except Stop (Output × Globals) := do
  let n ← r.findNode f.id
  let o ← FileOptions.read n
  generateNode emit fuel r g f n o

/-- The files that are written, and why the run stops before the last one is. -/
structure Run where
  written : List Output
  stop : Option Stop

/-- The requested files, one after the other. -/
def generateFiles (emit : Emit) (fuel : Nat) (r : Request) : List RequestedFile → Globals → Run
  | [], _ => ⟨[], none⟩
  | f :: fs, g =>
    match generateFile emit fuel r g f with
    | .error e => ⟨[], some e⟩
    | .ok (out, g) =>
      let rest := generateFiles emit fuel r fs g
      ⟨out :: rest.written, rest.stop⟩

/-- `main`, from the request on. -/
def Request.run (emit : Emit) (fuel : Nat) (r : Request) : Run :=
  match r.usedImports with
  | .error e => ⟨[], some e⟩
  | .ok ids => generateFiles emit fuel r r.files ⟨false, Mem.zero, .live ids, r.message⟩

/-! ## The property -/

/-- The request, with one requested file. -/
def Request.alone (r : Request) (f : RequestedFile) : Request := { r with files := [f] }

/-- What is written for a file is what is written for it when it is the only one that is requested. -/
def Independent (emit : Emit) (fuel : Nat) (r : Request) : Prop :=
  (r.run emit fuel).stop ≠ some .undefined ∧ ∀ (k : Nat) (f : RequestedFile) (out : Output), r.files[k]? = some f →
    (r.run emit fuel).written[k]? = some out → ((r.alone f).run emit fuel).written = [out]

/-- A constant whose value is kept in `g_valcapn`. -/
def SchemaNode.keeps (n : SchemaNode) : Bool :=
  match n.which with
  | .const _ v => v.object.isSome
  | _ => false

/-- The file has such a constant. -/
def Request.keeps (r : Request) (f : RequestedFile) : Prop := ∃ n ∈ r.nodesOf f.id, n.keeps = true

/-- One file, or no structs and one file with constants that are kept. -/
def Request.Apart (r : Request) : Prop :=
  r.files.length ≤ 1 ∨ (∀ n ∈ r.nodes, n.isStruct = false) ∧ r.files.Pairwise fun f f' => ¬ (r.keeps f ∧ r.keeps f')

end Capnproto.Compiler

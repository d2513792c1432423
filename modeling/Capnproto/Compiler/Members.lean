import Capnproto.Compiler.Generate

/-!
# The members that generated code has

What a C compiler sees in the text: where a slot is declared in the C struct
(`declared`), and which statements of `read_X` and `write_X` are about it, in
which cases (`statements`). What `define_group` writes is described field by field
(`Fields.declsOf`, `Fields.readsOf`), whatever the schema is, as long as the name of
each group is still there when it is needed (`Fields.Steady`).
-/

namespace Capnproto.Compiler

/-! ## Reading generated code -/

/-- A path in a C struct. -/
structure Path where
  groups : List Text
  name : Text
deriving DecidableEq

/-- The path as C has it. -/
def Path.text (p : Path) : Text := p.groups.flatMap (· ++ ['.']) ++ p.name

/-- The path in the struct that `names` is the name of. -/
def Path.under (names : List Text) (p : Path) : Path := { p with groups := names ++ p.groups }

/-- A slot, and where it is declared. -/
abbrev Declared := Slot × Path

/-- Declarations in the struct that `names` is the name of. -/
def underAll (names : List Text) (xs : List Declared) : List Declared := xs.map fun x => (x.1, x.2.under names)

/-- The constant of a case: the node, and the name of the member of its union. -/
abbrev Label := Text × Text

/-- Reads one piece of a C struct. The stack has, for each open brace, what is declared behind it. -/
def declStep (st : List (List Declared)) : Decl → List (List Declared)
  | .struct | .union => [] :: st
  | .close name =>
    match st with
    | top :: next :: st => (next ++ underAll name.toList top) :: st
    | _ => st
  | .slot f name =>
    match st with
    | top :: st => (top ++ [(f, ⟨[], name⟩)]) :: st
    | [] => []
  | .which _ _ | .comment _ => st

/-- What a C struct declares. -/
def declared (ds : List Decl) : List Declared := (ds.foldl declStep [[]]).headD []

/-- A function that is read: for each open `switch` the labels that lead here, and the statements about
members so far. -/
structure Scan where
  labels : List (List Label) := []
  found : List (Slot × Text × List (List Label)) := []

/-- Reads one piece of a function. -/
def stmtStep (s : Scan) : Stmt → Scan
  | .switch _ => { s with labels := [] :: s.labels }
  | .case node name =>
    match s.labels with
    | top :: st => { s with labels := (top ++ [(node, name)]) :: st }
    | [] => s
  | .member f var => { s with found := s.found ++ [(f, var, s.labels.reverse)] }
  | .break =>
    match s.labels with
    | _ :: st => { s with labels := [] :: st }
    | [] => s
  | .close => { s with labels := s.labels.tail }
  | .which _ _ | .default => s

/-- The statements about members, each with its variable and the cases that it is in. -/
def statements (ts : List Stmt) : List (Slot × Text × List (List Label)) := (ts.foldl stmtStep {}).found

/-- A slot with its path and the cases that lead to it. -/
structure Member where
  slot : Slot
  path : Path
  cases : List (List Label)
deriving DecidableEq

/-- The member, in a group and in cases of the union that the group is in. -/
def Member.under (name : Text) (cases : List (List Label)) (m : Member) : Member :=
  ⟨m.slot, m.path.under [name], cases ++ m.cases⟩

/-! ## What a schema asks for -/

/-- The label of a member, if it is one of a union. -/
def caseOf (node name : Text) (inUnion : Bool) : List (List Label) := if inUnion then [[(node, escape name)]] else []

/-- The slots, at any depth, of the fields of one loop, with the union cases that lead to them. -/
def Fields.slotsOf (node : Text) (loop : Phase) : Phase → Fields → List (Slot × List (List Label))
  | _, .nil => []
  | ph, .slot f rest =>
    let ph := ph.next (inUnion f.discriminantValue)
    (if ph = loop ∧ f.type ≠ .void then [(f, caseOf node f.name (inUnion f.discriminantValue))] else []) ++
      rest.slotsOf node loop ph
  | ph, .group g body rest =>
    let ph := ph.next (inUnion g.discriminantValue)
    (if ph = loop then
      (body.slotsOf g.node .before .before ++ (body.slotsOf g.node .union .before ++
        body.slotsOf g.node .after .before)).map fun x => (x.1, caseOf node g.name (inUnion g.discriminantValue) ++ x.2)
    else []) ++ rest.slotsOf node loop ph

/-- The slots of a node that are not void, at any depth. -/
def Fields.slots (node : Text) (fs : Fields) : List (Slot × List (List Label)) :=
  fs.slotsOf node .before .before ++ (fs.slotsOf node .union .before ++ fs.slotsOf node .after .before)

/-- Each slot is declared once, and read and written once, at the path of its declaration and
in the cases that lead to it. -/
def Strings.Complete (s : Strings) (n : Node) : Prop :=
  ∃ ms : List Member,
    (declared s.decl).Perm (ms.map fun m => (m.slot, m.path)) ∧
    (statements s.get).Perm (ms.map fun m => (m.slot, "s->".toList ++ m.path.text, m.cases)) ∧
    (statements s.set).Perm (ms.map fun m => (m.slot, "s->".toList ++ m.path.text, m.cases)) ∧
    (n.fields.slots n.name).Perm (ms.map fun m => (m.slot, m.cases))

/-! ## What the generator writes -/

/-- A union in a group that is itself a member of a union has a struct of its own, in that of the group. -/
def Group.twice (g : Group) (body : Fields) (encloseUnions : Bool) : Bool :=
  encloseUnions && !g.namedUnion body && decide (0 < g.discriminantCount)

/-- What a slot is declared as, if it is not void. -/
def Slot.decls (f : Slot) : List Declared := if f.type = .void then [] else [(f, ⟨[], escape f.name⟩)]

/-- What a slot is read and written as, in a case or not. -/
def Slot.reads (node : Text) (f : Slot) (inSwitch : Bool) : List Member :=
  if f.type = .void then [] else [⟨f, ⟨[], escape f.name⟩, caseOf node f.name inSwitch⟩]

/-- What a group declares, from what its own loops do. -/
def Group.around (g : Group) (body : Fields) (encloseUnions : Bool) (before union after : List Declared) : List Declared :=
  if g.skipped body then []
  else underAll [escape g.name]
    (before ++ underAll (if g.twice body encloseUnions then [escape g.name] else []) (union ++ after))

/-- What a group is read and written as, from what its own loops are. -/
def Group.within (g : Group) (body : Fields) (cases : List (List Label)) (before union after : List Member) :
    List Member :=
  if g.skipped body then [] else (before ++ (union ++ after)).map (Member.under (escape g.name) cases)

/-- What the fields of one loop declare. -/
def Fields.declsOf (loop : Phase) : Phase → Fields → List Declared
  | _, .nil => []
  | ph, .slot f rest =>
    let ph := ph.next (inUnion f.discriminantValue)
    (if ph = loop then f.decls else []) ++ rest.declsOf loop ph
  | ph, .group g body rest =>
    let ph := ph.next (inUnion g.discriminantValue)
    (if ph = loop then
      g.around body (ph = .union) (body.declsOf .before .before) (body.declsOf .union .before)
        (body.declsOf .after .before)
    else []) ++ rest.declsOf loop ph

/-- The members that the fields of one loop are read and written as. -/
def Fields.readsOf (node : Text) (loop : Phase) : Phase → Fields → List Member
  | _, .nil => []
  | ph, .slot f rest =>
    let ph := ph.next (inUnion f.discriminantValue)
    (if ph = loop then f.reads node (ph = .union) else []) ++ rest.readsOf node loop ph
  | ph, .group g body rest =>
    let ph := ph.next (inUnion g.discriminantValue)
    (if ph = loop then
      g.within body (caseOf node g.name (ph = .union)) (body.readsOf g.node .before .before)
        (body.readsOf g.node .union .before) (body.readsOf g.node .after .before)
    else []) ++ rest.readsOf node loop ph

/-- The name, if `field_name` changes it. -/
def changed (name : Text) : Option Text := if name ∈ reserved then some ('_' :: name) else none

/-- The last name that the fields of one loop leave in the buffer of `field_name`. -/
def Fields.lastOf (loop : Phase) : Phase → Fields → Option Text
  | _, .nil => none
  | ph, .slot f rest =>
    let ph := ph.next (inUnion f.discriminantValue)
    (rest.lastOf loop ph).or (if ph = loop then changed f.name else none)
  | ph, .group g body rest =>
    let ph := ph.next (inUnion g.discriminantValue)
    (rest.lastOf loop ph).or
      (if ph = loop then
        (if g.skipped body then none
        else (body.lastOf .after .before).or ((body.lastOf .union .before).or (body.lastOf .before .before))).or
          (changed g.name)
      else none)

/-- The last name that a group leaves in the buffer of `field_name`. -/
def Fields.last (fs : Fields) : Option Text :=
  (fs.lastOf .after .before).or ((fs.lastOf .union .before).or (fs.lastOf .before .before))

/-- A group whose name is in the buffer of `field_name` finds it there when its members are written. -/
def Fields.Steady (codecgen : Bool) : Phase → Fields → Prop
  | _, .nil => True
  | ph, .slot f rest => rest.Steady codecgen (ph.next (inUnion f.discriminantValue))
  | ph, .group g body rest =>
    let ph := ph.next (inUnion g.discriminantValue)
    (g.skipped body = true ∨
      ((codecgen = true ∧ ph ≠ .union) ∨ ∀ name, changed g.name = some name → body.last.getD name = name) ∧
        body.Steady codecgen .before) ∧ rest.Steady codecgen ph

end Capnproto.Compiler

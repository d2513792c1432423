import Capnproto.Compiler.Files

/-!
# Files on their own

Without structs, what a file writes does not depend on what the files before it leave (`fileBody_left`), unless two
of them have constants that are kept in `g_valcapn`: its memory is not cleared in between. With structs the second file frees the
tree of the imports that the first has freed (`files_not_alone`).
-/

namespace Capnproto.Compiler

/-! ## Steps that do not look -/

/-- `f` does the same after `u`, and leaves what `u` did. -/
def Commutes {α : Type} (u : α → α) (f : α → Except Stop α) : Prop := ∀ s, f (u s) = (f s).map u

theorem Commutes.bind {α : Type} {u : α → α} {f g : α → Except Stop α} (hf : Commutes u f) (hg : Commutes u g) :
    Commutes u fun s => f s >>= g := by
  intro s
  show f (u s) >>= g = (f s >>= g).map u
  rw [hf s]
  cases f s with
  | error e => rfl
  | ok t => exact hg t

theorem Commutes.foldlM {α β : Type} {u : α → α} {f : α → β → Except Stop α} {bs : List β}
    (h : ∀ b ∈ bs, Commutes u fun s => f s b) : Commutes u fun s => bs.foldlM f s := by
  induction bs with
  | nil => exact fun _ => rfl
  | cons b bs ih =>
    have hb := h b List.mem_cons_self
    exact hb.bind (ih fun c hc => h c (List.mem_cons_of_mem _ hc))

def FileState.withStore (st : Store) (s : FileState) : FileState := { s with store := st }

def FileState.withFlag (b : Bool) (s : FileState) : FileState := { s with fieldgetset := b }

/-- `u` changes nothing that is written. -/
structure Hidden (u : FileState → FileState) : Prop where
  addHdr : ∀ s t, (u s).addHdr t = u (s.addHdr t)
  addSrc : ∀ s t, (u s).addSrc t = u (s.addSrc t)

theorem hidden_withStore (st : Store) : Hidden (FileState.withStore st) := ⟨fun _ _ => rfl, fun _ _ => rfl⟩

theorem hidden_withFlag (b : Bool) : Hidden (FileState.withFlag b) := ⟨fun _ _ => rfl, fun _ _ => rfl⟩

section

variable {u : FileState → FileState} {r : Request} {fuel : Nat} {n : SchemaNode} {ns : List SchemaNode}

theorem commutes_enum (hu : Hidden u) (n : SchemaNode) : Commutes u (defineEnum n) := by
  intro s
  simp only [defineEnum]
  split
  · rw [hu.addHdr]
    refine Commutes.foldlM (fun a _ s => ?_) _
    split
    · split
      · rfl
      · dsimp only
        rw [hu.addHdr]
        rfl
    · rfl
  · rfl

theorem commutes_interface (hu : Hidden u) (r : Request) (attr : Text) (n : SchemaNode) :
    Commutes u (defineInterface r attr n) := by
  intro s
  simp only [defineInterface]
  split
  · rw [hu.addSrc, hu.addHdr]
    rfl
  · rfl

theorem commutes_const_flag (r : Request) (fuel : Nat) (b : Bool) (n : SchemaNode) :
    Commutes (FileState.withFlag b) (defineConst r fuel n) := by
  intro s
  simp only [defineConst]
  split
  · rename_i t v _
    cases typeName r t with
    | error e => rfl
    | ok tname =>
      show (decodeValue fuel tname v (some n.name) s.store >>= _) = _
      show _ = Except.map _ (decodeValue fuel tname v (some n.name) s.store >>= _)
      cases decodeValue fuel tname v (some n.name) s.store with
      | error e => rfl
      | ok q => rfl
  · rfl

theorem commutes_const_store (r : Request) (fuel : Nat) (st : Store) (h : n.keeps = false) :
    Commutes (FileState.withStore st) (defineConst r fuel n) := by
  intro s
  simp only [defineConst]
  split
  · rename_i t v hv
    have hobj : v.object = none := by
      simp only [SchemaNode.keeps, hv] at h
      exact Option.isSome_eq_false_iff.mp h |> Option.isNone_iff_eq_none.mp
    simp only [decodeValue, hobj]
    cases typeName r t with
    | error e => rfl
    | ok tname => rfl
  · rfl

/-- The definitions of a file without structs. -/
theorem commutes_body (emit : Emit) (attr : Text) (hu : Hidden u) (hs : ∀ n ∈ ns, n.isStruct = false)
    (hc : ∀ n ∈ ns, Commutes u (defineConst r fuel n)) : Commutes u (fileBody emit fuel r ns attr) := by
  refine Commutes.bind (f := forNodes defineEnum ns) (Commutes.foldlM fun n _ => commutes_enum hu n) ?_
  refine Commutes.bind (f := forNodes (defineConst r fuel) ns) (Commutes.foldlM hc) ?_
  refine Commutes.bind (f := forNodes (emitStruct emit attr) ns) (Commutes.foldlM fun n hn s => ?_)
    (Commutes.foldlM fun n _ => commutes_interface hu r attr n)
  have hn : ¬ n.ownStruct = true := by
    have hn := hs n hn
    rw [SchemaNode.isStruct] at hn
    rw [SchemaNode.ownStruct]
    split at hn
    · cases hn
    · exact Bool.false_ne_true
  show emitStruct emit attr n (u s) = (emitStruct emit attr n s).map u
  rw [emitStruct, emitStruct, if_neg hn, if_neg hn]
  rfl

end

/-! ## One file after others -/

section

variable {emit : Emit} {fuel : Nat} {r : Request} {g : Globals} {f : RequestedFile}

/-- What the files before leave for a file, in a request without structs. -/
structure Left (r : Request) (f : RequestedFile) (g : Globals) : Prop where
  imports : g.imports = .live .null
  fresh : r.keeps f → g.valseg = Mem.zero ∧ g.message = r.message

/-- The globals before the first file. -/
def Request.first (r : Request) : Globals := ⟨false, Mem.zero, .live .null, r.message⟩

/-- The definitions of a file are written in the same way whatever is left, and if no constant is kept what is left
stays. -/
theorem fileBody_left (emit : Emit) (fuel : Nat) (hs : ∀ n ∈ r.nodesOf f.id, n.isStruct = false) (hg : Left r f g) (n : SchemaNode) (o : FileOptions)
    (hdr attr : Text) :
    ∃ u : FileState → FileState,
      fileBody emit fuel r (r.nodesOf f.id) attr (startFile r g o hdr) =
        (fileBody emit fuel r (r.nodesOf f.id) attr (startFile r r.first o hdr)).map u ∧
      ∀ s, fileBody emit fuel r (r.nodesOf f.id) attr (startFile r r.first o hdr) = .ok s →
        (u s).codecgen = s.codecgen ∧ (∀ t, writeFiles n o ((u s).addHdr t) = writeFiles n o (s.addHdr t)) ∧
        (¬ r.keeps f → ((u s).store.valcapn.seg 0).data = g.valseg ∧ (u s).store.message = g.message) := by
  have hflag := fun x => commutes_body (r := r) emit attr (hidden_withFlag x) hs
    fun n _ => commutes_const_flag r fuel x n
  by_cases hk : r.keeps f
  · obtain ⟨hv, hm⟩ := hg.fresh hk
    refine ⟨FileState.withFlag (g.fieldgetset || o.fieldgetset), ?_, fun s _ => ⟨rfl, fun t => rfl, fun h => absurd hk h⟩⟩
    rw [← hflag]
    simp only [startFile, hv, hm, Request.first, FileState.withFlag]
  · -- the store stays as it was
    have hstore := fun st => commutes_body (r := r) emit attr (hidden_withStore st) hs
      fun n hn => commutes_const_store r fuel st (Bool.eq_false_iff.mpr fun h => hk ⟨n, hn, h⟩)
    refine ⟨fun s => (s.withStore (startFile r g o hdr).store).withFlag (g.fieldgetset || o.fieldgetset), ?_, fun s h => ?_⟩
    · have h := hflag (g.fieldgetset || o.fieldgetset) ((startFile r r.first o hdr).withStore (startFile r g o hdr).store)
      rw [hstore] at h
      refine Eq.trans (congrArg _ ?_) (h.trans ?_)
      · rfl
      · cases fileBody emit fuel r (r.nodesOf f.id) attr (startFile r r.first o hdr) <;> rfl
    · have hself := hstore (startFile r r.first o hdr).store (startFile r r.first o hdr)
      rw [show (startFile r r.first o hdr).withStore (startFile r r.first o hdr).store = startFile r r.first o hdr from rfl,
        h] at hself
      have hst : s.store = (startFile r r.first o hdr).store :=
        show s.store = (s.withStore (startFile r r.first o hdr).store).store from
          congrArg FileState.store (Except.ok.inj hself)
      have hseg : ∀ g : Globals, ((startFile r g o hdr).store.valcapn.seg 0) = ⟨g.valseg, 0, r.size⟩ := fun g => rfl
      refine ⟨rfl, fun t => ?_, fun _ => ⟨rfl, rfl⟩⟩
      have hempty : ∀ g : Globals, valsegText ((startFile r g o hdr).store.valcapn.seg 0) = [] := by
        intro g
        rw [hseg, valsegText, if_neg (Nat.not_lt_zero 8)]
      simp only [writeFiles, FileState.addHdr, FileState.withFlag, FileState.withStore, hst, hempty]
      rfl

theorem generateNode_left {n : SchemaNode} (hs : ∀ n ∈ r.nodesOf f.id, n.isStruct = false) (hg : Left r f g)
    (hid : n.id = f.id) (o : FileOptions) :
    (generateNode emit fuel r g f n o).map Prod.fst = (generateNode emit fuel r r.first f n o).map Prod.fst ∧
      ∀ out g', generateNode emit fuel r g f n o = .ok (out, g') →
        g'.imports = .live .null ∧ (¬ r.keeps f → g'.valseg = g.valseg ∧ g'.message = g.message) := by
  simp only [generateNode, hg.imports, Request.first]
  cases includes (.live .null) o f with
  | error e => exact ⟨rfl, nofun⟩
  | ok incs =>
    obtain ⟨u, hu, hs⟩ := fileBody_left emit fuel hs hg n o
      (headerStart n o ++ incs ++ openHeader (r.nodesOf f.id) o.attr) o.attr
    rw [hid]
    show Except.map Prod.fst (fileBody emit fuel r (r.nodesOf f.id) o.attr (startFile r g o _) >>= _) =
      Except.map Prod.fst (fileBody emit fuel r (r.nodesOf f.id) o.attr (startFile r r.first o _) >>= _) ∧
      ∀ out g', fileBody emit fuel r (r.nodesOf f.id) o.attr (startFile r g o _) >>= _ = _ → _
    rw [hu]
    cases hb : fileBody emit fuel r (r.nodesOf f.id) o.attr (startFile r r.first o
      (headerStart n o ++ incs ++ openHeader (r.nodesOf f.id) o.attr)) with
    | error e => exact ⟨rfl, nofun⟩
    | ok s =>
      obtain ⟨hcodec, hout, hkeep⟩ := hs s hb
      show Except.map Prod.fst (finishFile r n _ _ (u s)) = Except.map Prod.fst (finishFile r n _ _ s) ∧
        ∀ out g', finishFile r n _ _ (u s) = _ → _
      simp only [finishFile, hcodec]
      cases (if s.codecgen = true then declareCodec (r.nodesOf n.id) else .ok []) with
      | error e => exact ⟨rfl, nofun⟩
      | ok codec =>
        refine ⟨congrArg Except.ok (hout _), ?_⟩
        rintro out g' ⟨⟩
        exact ⟨rfl, hkeep⟩

/-- A file is written in the same way whatever is left for it. -/
theorem generateFile_left (emit : Emit) (fuel : Nat) (hs : ∀ n ∈ r.nodes, n.isStruct = false) (hg : Left r f g) :
    (generateFile emit fuel r g f).map Prod.fst = (generateFile emit fuel r r.first f).map Prod.fst ∧
      ∀ out g', generateFile emit fuel r g f = .ok (out, g') →
        g'.imports = .live .null ∧ (¬ r.keeps f → g'.valseg = g.valseg ∧ g'.message = g.message) := by
  simp only [generateFile]
  cases hn : r.findNode f.id with
  | error e => exact ⟨rfl, nofun⟩
  | ok n =>
    have hid : n.id = f.id := by
      rw [Request.findNode] at hn
      split at hn
      · rename_i hfind
        cases hn
        simpa using List.find?_some hfind
      · cases hn
    have hns : ∀ n ∈ r.nodesOf f.id, n.isStruct = false := by
      intro n hmem
      obtain ⟨id, -, hfind⟩ := List.mem_filterMap.mp hmem
      exact hs n (List.mem_of_find?_eq_some hfind)
    show Except.map Prod.fst (FileOptions.read n >>= _) = Except.map Prod.fst (FileOptions.read n >>= _) ∧
      ∀ out g', FileOptions.read n >>= _ = _ → _
    cases FileOptions.read n with
    | error e => exact ⟨rfl, nofun⟩
    | ok o => exact generateNode_left hns hg hid o

end

/-! ## Freed memory -/

/-- Nothing is used that was freed. -/
def Quiet {α : Type} (x : Except Stop α) : Prop := x ≠ .error .undefined

theorem quiet_ok {α : Type} (a : α) : Quiet (.ok a) := nofun

theorem quiet_exit {α : Type} (code : Nat) : Quiet (α := α) (.error (.exit code)) := by
  intro h
  cases h

theorem Quiet.bind {α β : Type} {x : Except Stop α} {f : α → Except Stop β} (hx : Quiet x) (hf : ∀ a, Quiet (f a)) :
    Quiet (x >>= f) := by
  cases x with
  | error e =>
    intro h
    exact hx (congrArg Except.error (Except.error.inj h))
  | ok a => exact hf a

theorem Quiet.map {α β : Type} {x : Except Stop α} (f : α → β) (hx : Quiet x) : Quiet (x.map f) := by
  cases x with
  | error e =>
    intro h
    exact hx (congrArg Except.error (Except.error.inj h))
  | ok a => exact quiet_ok _

theorem quiet_foldlM {α β : Type} {f : α → β → Except Stop α} (h : ∀ a b, Quiet (f a b)) (bs : List β) (a : α) :
    Quiet (bs.foldlM f a) := by
  induction bs generalizing a with
  | nil => exact quiet_ok a
  | cons b bs ih =>
    rw [List.foldlM_cons]
    exact (h a b).bind ih

theorem quiet_mapM {α β : Type} {f : α → Except Stop β} (h : ∀ a, Quiet (f a)) (as : List α) : Quiet (as.mapM f) := by
  induction as with
  | nil => exact quiet_ok []
  | cons a as ih =>
    rw [List.mapM_cons]
    exact (h a).bind fun b => ih.bind fun bs => quiet_ok _

theorem quiet_findNode (r : Request) (id : Nat) : Quiet (r.findNode id) := by
  rw [Request.findNode]
  split
  · exact quiet_ok _
  · exact quiet_exit 2

theorem quiet_typeName (r : Request) (t : TypeInfo) : Quiet (typeName r t) := by
  rw [typeName]
  split
  all_goals first
    | exact quiet_ok _
    | exact (quiet_findNode r _).map _
    | skip
  rw [listName]
  split
  all_goals first
    | exact quiet_ok _
    | exact (quiet_findNode r _).map _

theorem quiet_keepValue (fuel : Nat) (s : Store) (p : Ptr) : Quiet (keepValue fuel s p) := by
  simp only [keepValue]
  split
  · intro h
    cases h
  · split
    · exact quiet_exit 2
    · exact quiet_ok _

theorem quiet_decodeValue (fuel : Nat) (tname : Text) (v : Value) (symbol : Option Text) (s : Store) :
    Quiet (decodeValue fuel tname v symbol s) := by
  simp only [decodeValue]
  split
  · exact quiet_ok _
  · refine (quiet_keepValue fuel s _).bind fun q => ?_
    split <;> exact quiet_ok _

theorem quiet_enum (n : SchemaNode) (s : FileState) : Quiet (defineEnum n s) := by
  simp only [defineEnum]
  split
  · refine quiet_foldlM (fun s a => ?_) _ _
    split
    · split
      · exact quiet_exit 2
      · exact quiet_ok _
    · exact quiet_ok _
  · exact quiet_ok _

theorem quiet_const (r : Request) (fuel : Nat) (n : SchemaNode) (s : FileState) : Quiet (defineConst r fuel n s) := by
  simp only [defineConst]
  split
  · exact (quiet_typeName r _).bind fun tname => (quiet_decodeValue _ _ _ _ _).bind fun q => quiet_ok _
  · exact quiet_ok _

theorem quiet_emit (emit : Emit) (attr : Text) (n : SchemaNode) (s : FileState) : Quiet (emitStruct emit attr n s) := by
  rw [emitStruct]
  split
  · cases emit n attr s with
    | error e => exact quiet_exit e
    | ok s => exact quiet_ok s
  · exact quiet_ok s

theorem quiet_interface (r : Request) (attr : Text) (n : SchemaNode) (s : FileState) :
    Quiet (defineInterface r attr n s) := by
  simp only [defineInterface]
  split <;> exact quiet_ok _

theorem quiet_annotate (o : FileOptions) (a : Annotation) : Quiet (o.annotate a) := by
  simp only [FileOptions.annotate]
  repeat' split
  all_goals first
    | exact quiet_ok _
    | exact quiet_exit 2

theorem quiet_finish (r : Request) (n : SchemaNode) (o : FileOptions) (u : UsedImports) (s : FileState) :
    Quiet (finishFile r n o u s) := by
  refine Quiet.map _ ?_
  split
  · refine Quiet.map _ (quiet_mapM (fun n => Quiet.map _ ?_) _)
    rw [mapname]
    split
    · split
      · exact quiet_exit 2
      · exact quiet_ok _
    · exact quiet_ok _
  · exact quiet_ok _

section

variable {emit : Emit} {fuel : Nat} {r : Request} {g : Globals} {f : RequestedFile}

/-- A file uses no freed memory while the tree of the imports is there. -/
theorem quiet_file {ids : IdBst} (hg : g.imports = .live ids) : Quiet (generateFile emit fuel r g f) := by
  refine (quiet_findNode r f.id).bind fun n => (quiet_foldlM quiet_annotate _ _).bind fun o => ?_
  rw [generateNode, hg]
  refine Quiet.bind (Quiet.map _ (quiet_mapM (fun im => ?_) _)) fun incs => ?_
  · rw [includeText]
    split
    · exact quiet_ok _
    · exact Quiet.map _ (quiet_ok _)
  · refine Quiet.bind ?_ fun imports => Quiet.bind ?_ fun s => quiet_finish r n o imports s
    · cases ids <;> exact quiet_ok _
    · exact (quiet_foldlM (fun s n => quiet_enum n s) _ _).bind fun s =>
        (quiet_foldlM (fun s n => quiet_const r fuel n s) _ _).bind fun s =>
          (quiet_foldlM (fun s n => quiet_emit emit _ n s) _ _).bind fun s =>
            quiet_foldlM (fun s n => quiet_interface r _ n s) _ _

/-- Without structs no import is used. -/
theorem usedImports_none (hs : ∀ n ∈ r.nodes, n.isStruct = false) : r.usedImports = .ok .null := by
  have h : r.nodes.filter (·.isStruct) = [] := List.filter_eq_nil_iff.mpr fun n hn => by
    rw [hs n hn]
    exact Bool.false_ne_true
  rw [Request.usedImports, h]
  rfl

/-- **The files** after what the others leave: each is written as after nothing. -/
theorem generateFiles_left (emit : Emit) (fuel : Nat) (hs : ∀ n ∈ r.nodes, n.isStruct = false) {fs : List RequestedFile}
    (hp : fs.Pairwise fun f f' => ¬ (r.keeps f ∧ r.keeps f')) (hg : ∀ f ∈ fs, Left r f g) (hi : g.imports = .live .null) :
    (generateFiles emit fuel r fs g).stop ≠ some .undefined ∧
      ∀ (k : Nat) (f : RequestedFile) (out : Output), fs[k]? = some f →
        (generateFiles emit fuel r fs g).written[k]? = some out →
        (generateFiles emit fuel r [f] r.first).written = [out] := by
  induction fs generalizing g with
  | nil => exact ⟨nofun, nofun⟩
  | cons f fs ih =>
    obtain ⟨hf, hp⟩ := List.pairwise_cons.mp hp
    obtain ⟨hsame, hnext⟩ := generateFile_left emit fuel hs (hg f List.mem_cons_self)
    simp only [generateFiles]
    cases hgen : generateFile emit fuel r g f with
    | error e =>
      refine ⟨fun h => quiet_file hi (hgen.trans ?_), nofun⟩
      rw [Option.some.inj h]
    | ok q =>
      obtain ⟨out, g'⟩ := q
      obtain ⟨hi', hkeep⟩ := hnext out g' hgen
      -- what is left for the next files is fresh, or they do not look at it
      have hg' : ∀ f' ∈ fs, Left r f' g' := by
        intro f' hf'
        refine ⟨hi', fun hk => ?_⟩
        have hno : ¬ r.keeps f := fun h => hf f' hf' ⟨h, hk⟩
        rw [(hkeep hno).1, (hkeep hno).2]
        exact (hg f' (List.mem_cons_of_mem _ hf')).fresh hk
      obtain ⟨hstop, hrest⟩ := ih hp hg' hi'
      refine ⟨hstop, fun k f' out' hk hout => ?_⟩
      cases k with
      | zero =>
        cases hk
        cases hout
        rw [hgen] at hsame
        cases hfirst : generateFile emit fuel r r.first f with
        | error e =>
          rw [hfirst] at hsame
          cases hsame
        | ok q =>
          rw [hfirst] at hsame
          have : out = q.1 := Except.ok.inj hsame
          rw [this]
      | succ k => exact hrest k f' out' hk hout

end

theorem quiet_usedImports (r : Request) : Quiet r.usedImports := by
  refine quiet_foldlM (fun ids n => ?_) _ _
  rw [Request.useImport]
  split
  · exact quiet_exit 2
  · split
    · exact quiet_exit 2
    · exact quiet_ok _

/-- One file is written, or none. -/
theorem generateFiles_one (emit : Emit) (fuel : Nat) (r : Request) (f : RequestedFile) {ids : IdBst} {g : Globals}
    (hg : g.imports = .live ids) :
    (generateFiles emit fuel r [f] g).stop ≠ some .undefined ∧ (generateFiles emit fuel r [f] g).written.length ≤ 1 := by
  simp only [generateFiles]
  cases h : generateFile emit fuel r g f with
  | error e =>
    refine ⟨fun he => quiet_file hg (h.trans ?_), Nat.zero_le 1⟩
    rw [Option.some.inj he]
  | ok q => exact ⟨nofun, Nat.le_refl 1⟩

theorem run_one (emit : Emit) (fuel : Nat) {r : Request} (h : r.files.length ≤ 1) :
    (r.run emit fuel).stop ≠ some .undefined ∧ (r.run emit fuel).written.length ≤ 1 := by
  rw [Request.run]
  have hquiet := quiet_usedImports r
  cases hids : r.usedImports with
  | error e =>
    refine ⟨fun he => hquiet (hids.trans ?_), Nat.zero_le 1⟩
    rw [Option.some.inj he]
  | ok ids =>
    match hfs : r.files with
    | [] => exact ⟨nofun, Nat.zero_le 1⟩
    | [f] => exact generateFiles_one emit fuel r f rfl
    | _ :: _ :: _ =>
      rw [hfs] at h
      exact absurd h (by simp)

theorem bind_ok {α β : Type} {x : Except Stop α} {f : α → Except Stop β} {b : β} (h : x >>= f = .ok b) :
    ∃ a, x = .ok a ∧ f a = .ok b := by
  cases x with
  | error e => cases h
  | ok a => exact ⟨a, rfl, h⟩

/-- A file frees the tree of the imports. -/
theorem generateFile_frees {emit : Emit} {fuel : Nat} {r : Request} {g : Globals} {f : RequestedFile}
    {q : Output × Globals} {id : Nat} {left right : IdBst} (hg : g.imports = .live (.node id left right))
    (h : generateFile emit fuel r g f = .ok q) : q.2.imports = .freed := by
  obtain ⟨n, -, h⟩ := bind_ok h
  obtain ⟨o, -, h⟩ := bind_ok h
  obtain ⟨incs, -, h⟩ := bind_ok h
  obtain ⟨imports, hfree, h⟩ := bind_ok h
  obtain ⟨s, -, h⟩ := bind_ok h
  rw [hg] at hfree
  cases hfree
  rw [finishFile] at h
  cases hc : (if s.codecgen then declareCodec (r.nodesOf n.id) else .ok []) with
  | error e =>
    rw [hc] at h
    cases h
  | ok codec =>
    rw [hc] at h
    cases h
    rfl

/-- The next file frees it again. -/
theorem generateFile_freed {emit : Emit} {fuel : Nat} {r : Request} {g : Globals} {f : RequestedFile} {n : SchemaNode}
    {o : FileOptions} (hg : g.imports = .freed) (hn : r.findNode f.id = .ok n) (ho : FileOptions.read n = .ok o) :
    generateFile emit fuel r g f = .error .undefined := by
  have hmap : ∀ ims : List (Nat × Text), (∃ ts, ims.mapM (includeText .freed o) = .ok ts) ∨
      ims.mapM (includeText .freed o) = .error .undefined := by
    intro ims
    induction ims with
    | nil => exact .inl ⟨[], rfl⟩
    | cons im ims ih =>
      rw [List.mapM_cons, includeText]
      split
      · rcases ih with ⟨ts, h⟩ | h <;> rw [h]
        · exact .inl ⟨_, rfl⟩
        · exact .inr rfl
      · exact .inr rfl
  rw [generateFile, hn]
  show FileOptions.read n >>= _ = _
  rw [ho]
  show includes g.imports o f >>= _ = _
  rw [hg, includes]
  rcases hmap f.imports with ⟨ts, h⟩ | h <;> rw [h] <;> rfl

/-- With structs the run does not get past the second file. -/
theorem files_not_alone {emit : Emit} {fuel : Nat} {r : Request} {f f' : RequestedFile} {fs : List RequestedFile}
    {id : Nat} {left right : IdBst} {n : SchemaNode} {o : FileOptions} (hids : r.usedImports = .ok (.node id left right))
    (hfs : r.files = f :: f' :: fs) (hwritten : (r.run emit fuel).written ≠ []) (hn : r.findNode f'.id = .ok n)
    (ho : FileOptions.read n = .ok o) : ¬ Independent emit fuel r := by
  intro h
  apply h.1
  rw [Request.run, hids, hfs] at hwritten ⊢
  simp only [generateFiles] at hwritten ⊢
  cases hgen : generateFile emit fuel r ⟨false, Mem.zero, .live (.node id left right), r.message⟩ f with
  | error e =>
    rw [hgen] at hwritten
    exact absurd rfl hwritten
  | ok q =>
    have hfreed := generateFile_frees rfl hgen
    simp only [generateFile_freed hfreed hn ho]

/-! ## Examples -/

/-- Two files, with a number and a text of the message. -/
def constants : Request where
  nodes := [⟨1, ['a'], ['a'], .file, []⟩, ⟨2, ['b'], ['b'], .file, []⟩,
    ⟨3, ['a', ':', 'n'], ['n'], .const { which := .int8 } { which := .int8, bits := 5 }, []⟩,
    ⟨4, ['b', ':', 't'], ['t'], .const { which := .text }
      { which := .text, str := some ['x'], text := { len := 1, str := some ⟨0, 8⟩, seg := some 0 } }, []⟩]
  fileNodes := fun id => [id + 2]
  files := [⟨1, []⟩, ⟨2, []⟩]
  message := { Capn.zeroed with segs := [⟨Mem.ofList [0, 0, 0, 0, 0, 0, 0, 0, 120, 0, 0, 0, 0, 0, 0, 0], 16, 16⟩] }
  size := 64

/-- Two files, the second with a struct. -/
def withStruct : Request where
  nodes := [⟨1, ['a'], ['a'], .file, []⟩, ⟨2, ['b'], ['b'], .file, []⟩, ⟨3, ['b', ':', 's'], ['s'], .struct false 1 0, []⟩]
  fileNodes := fun id => if id = 2 then [3] else []
  files := [⟨1, []⟩, ⟨2, []⟩]
  message := Capn.zeroed
  size := 64

end Capnproto.Compiler

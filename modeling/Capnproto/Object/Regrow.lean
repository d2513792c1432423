import Capnproto.Framework.Loop
import Capnproto.Frame.Write
import Capnproto.Object.Segtree
import Mathlib.Logic.Function.Basic

/-!
# A create callback that grows a segment

Here a session is what is in memory: segments that point to each other, by `next` in the list of all
and by the links of the tree of ids. `new_data` links whatever the callback returns, as a new segment
with the next id. With a segment that is in the session already, its id changes, and the list ends at it or
goes round (`append_unlists`): the requests of a run are served as by a segment that had the room from the
start exactly if none of them asks the callback (`growing_iff`).
-/

namespace Capnproto

/-- `struct capn_tree`. -/
structure TreeHdr where
  parent : Option Nat := none
  left : Option Nat := none
  right : Option Nat := none
  red : Bool := false

/-- `link[dir]`. -/
def TreeHdr.link (h : TreeHdr) (dir : Bool) : Option Nat := if dir then h.right else h.left

/-- The tree headers in memory. -/
abbrev TreeHeap := Nat → TreeHdr

namespace TreeHeap

def setParent (h : TreeHeap) (n : Nat) (p : Option Nat) : TreeHeap := Function.update h n { h n with parent := p }

def setRed (h : TreeHeap) (n : Nat) (red : Bool) : TreeHeap := Function.update h n { h n with red := red }

def setLink (h : TreeHeap) (n : Nat) (dir : Bool) (m : Option Nat) : TreeHeap :=
  Function.update h n (if dir then { h n with right := m } else { h n with left := m })

end TreeHeap

/-- What `capn_tree_insert` works on: the root, the headers, and the node. -/
structure TreeInsert where
  root : Option Nat
  heap : TreeHeap
  n : Nat

/-- `*gglink = m`, for the link to `g`: that of its parent, or the root. -/
def TreeInsert.setGglink (s : TreeInsert) (gp : Option Nat) (right : Bool) (m : Nat) : TreeInsert :=
  match gp with
  | none => { s with root := some m }
  | some gp => { s with heap := s.heap.setLink gp right (some m) }

/-- One iteration of the loop of `capn_tree_insert`. It leaves with `none` if a null pointer is followed. -/
def treeInsertStep (s : TreeInsert) : Step TreeInsert (Option (Option Nat × TreeHeap)) :=
  let h := s.heap
  let n := s.n
  match (h n).parent with
  | none => .done (some (some n, h.setRed n false))
  | some p =>
    if (h p).red = false then .done (some (s.root, h))
    else
      match (h p).parent with
      | none => .done none
      | some g =>
        let dir : Bool := (h g).right = some p
        let u := (h g).link !dir
        match u.filter fun u => (h u).red with
        | some u => .next { s with heap := ((h.setRed p false).setRed u false).setRed g true, n := g }
        | none =>
          let gp := (h g).parent
          let gright : Bool := gp.any fun gp => (h gp).right = some g
          if dir ≠ ((h p).right = some n : Bool) then
            -- rotate on the parent, then on the grandparent
            let two := (h n).link dir
            let three := (h n).link !dir
            let h := (((h.setLink p (!dir) two).setLink g dir three).setLink n dir (some p)).setLink n (!dir) (some g)
            let s := { s with heap := h }.setGglink gp gright n
            let h := ((s.heap.setParent n (s.heap g).parent).setParent p (some n)).setParent g (some n)
            let h := two.elim h fun two => h.setParent two (some p)
            let h := three.elim h fun three => h.setParent three (some g)
            .done (some (s.root, (h.setRed n false).setRed g true))
          else
            -- rotate on the grandparent
            let three := (h p).link !dir
            let h := (h.setLink g dir three).setLink p (!dir) (some g)
            let s := { s with heap := h }.setGglink gp gright p
            let h := (s.heap.setParent p (s.heap g).parent).setParent g (some p)
            let h := three.elim h fun three => h.setParent three (some g)
            .done (some (s.root, (h.setRed g true).setRed p false))

/-- `capn_tree_insert`, with at most `fuel` iterations of its loop. -/
def treeInsert (fuel : Nat) (root : Option Nat) (h : TreeHeap) (n : Nat) : Option (Option Nat × TreeHeap) :=
  (Loop.run treeInsertStep fuel ⟨root, (((h.setRed n true).setLink n false none).setLink n true none), n⟩).join

/-- A session in memory: `hdr`, `next`, `id` and the data of each segment, by its address, and the fields of
`struct capn`. -/
structure SegHeap where
  hdr : TreeHeap
  next : Nat → Option Nat
  id : Nat → Nat
  seg : Nat → Segment
  segnum : Nat
  seglist : Option Nat
  lastseg : Option Nat
  segtree : Option Nat

namespace SegHeap

/-- `capn_append_segment`. -/
def appendSegment (fuel : Nat) (x : SegHeap) (s : Nat) : Option SegHeap :=
  let id := Function.update x.id s x.segnum
  let next := Function.update x.next s none
  let x := { x with id, next, segnum := x.segnum + 1 }
  let x :=
    match x.lastseg with
    | some l =>
      { x with
        next := Function.update x.next l (some s)
        hdr := (x.hdr.setLink l true (some s)).setParent s (some l) }
    | none => { x with seglist := some s, hdr := x.hdr.setParent s none }
  (treeInsert fuel x.segtree x.hdr s).map fun t => { x with lastseg := some s, segtree := t.1, hdr := t.2 }

/-- `s->len + sz <= s->cap`. -/
def hasRoom (x : SegHeap) (sz s : Nat) : Bool := (x.seg s).len + sz ≤ (x.seg s).cap

/-- One iteration of the search of `new_data`. -/
def roomStep (x : SegHeap) (sz : Nat) : Option Nat → Step (Option Nat) (Option Nat)
  | none => .done none
  | some s => if x.hasRoom sz s then .done (some s) else .next (x.next s)

/-- `s->len += sz`. -/
def bump (x : SegHeap) (s sz : Nat) : SegHeap :=
  { x with seg := Function.update x.seg s { x.seg s with len := (x.seg s).len + sz } }

/-- The session with a segment of another capacity. -/
def raise (x : SegHeap) (s cap : Nat) : SegHeap :=
  { x with seg := Function.update x.seg s { x.seg s with cap := cap } }

end SegHeap

/-- What `capn->create` returns, for `segnum` and the size, and the session after it. -/
abbrev Create := SegHeap → Nat → Nat → Option (Nat × SegHeap)

namespace SegHeap

/-- `new_data`: the segment and the offset of the block, and the session. -/
def newData (fuel : Nat) (create : Create) (x : SegHeap) (sz : Nat) : Option (Option (Nat × Nat) × SegHeap) :=
  match Loop.run (x.roomStep sz) fuel x.seglist with
  | none => none
  | some (some s) => some (some (s, (x.seg s).len), x.bump s sz)
  | some none =>
    match create x x.segnum sz with
    | none => some (none, x)
    | some (s, x₁) => (appendSegment fuel x₁ s).map fun x₂ => (some (s, (x₂.seg s).len), x₂.bump s sz)

/-- `new_data` returns. -/
def NewData (create : Create) (x : SegHeap) (sz : Nat) (r : Option (Nat × Nat) × SegHeap) : Prop :=
  ∃ fuel, newData fuel create x sz = some r

/-- One iteration of the search of `lookup_segment`. -/
def searchStep (x : SegHeap) (id : Nat) : Option Nat → Step (Option Nat) (Option Nat)
  | none => .done none
  | some y =>
    if id = x.id y then .done (some y) else if id < x.id y then .next (x.hdr y).left else .next (x.hdr y).right

/-- `lookup_segment` returns `r`, without a segment to try first and without a lookup callback. -/
def LooksUp (x : SegHeap) (id : Nat) (r : Option Nat) : Prop :=
  if id < x.segnum then Loop.Ends (x.searchStep id) x.segtree r else r = none

/-- The segments that `n` steps along `next` meet, if the list ends there. -/
def walk (x : SegHeap) : Nat → Option Nat → Option (List Nat)
  | 0, none => some []
  | n + 1, some s => (x.walk n (x.next s)).map (s :: ·)
  | _, _ => none

/-- The segments that `capn_size` and `capn_write_mem` go through: from the root's, `segnum` of them. -/
def Sees (x : SegHeap) (ps : List Nat) : Prop := ∃ r, x.LooksUp 0 (some r) ∧ x.walk x.segnum (some r) = some ps

/-- From `a`, `next` leads through `ps` to the end. -/
def Chain (next : Nat → Option Nat) : Option Nat → List Nat → Prop
  | a, [] => a = none
  | a, p :: ps => a = some p ∧ Chain next (next p) ps

/-- The list of segments is `ps`, each in it once. -/
structure Lists (x : SegHeap) (ps : List Nat) : Prop where
  chain : Chain x.next x.seglist ps
  nodup : ps.Nodup

/-- The nodes from `a` down make up the tree, below `p`. -/
def Hangs (h : TreeHeap) : Option Nat → Option Nat → Tree Nat → Prop
  | _, a, .nil => a = none
  | p, a, .node c l n r => a = some n ∧ (h n).parent = p ∧ (h n).red = c ∧ Hangs h (some n) (h n).left l ∧
      Hangs h (some n) (h n).right r

/-- A session with the segments `ps`: listed, and in the tree, by ids from 0. -/
structure Whole (x : SegHeap) (ps : List Nat) : Prop where
  lists : x.Lists ps
  ids : ps.map x.id = List.range ps.length
  segnum : x.segnum = ps.length
  last : x.lastseg = ps.getLast?
  tree : ∃ t, Hangs x.hdr none x.segtree t ∧ t.inorder = ps

/-- The requests fit into the segments as they are: each finds one with room. -/
def Roomy (ps : List Nat) : SegHeap → List Nat → Prop
  | _, [] => True
  | x, sz :: szs => ∃ s, ps.find? (x.hasRoom sz) = some s ∧ Roomy ps (x.bump s sz) szs

/-- The session with the room that the callback makes for a request, if it is asked. -/
def grown (create : Create) (ps : List Nat) (x : SegHeap) (sz : Nat) : SegHeap :=
  if ps.any (x.hasRoom sz) then x else (create x x.segnum sz).elim x Prod.snd

/-- A request of `sz` bytes, that returned `a` and left `x'`, was served as by the session `y` with the room from
the start: inside a listed segment, in the same list, with the same ids, in a tree, and with the same to be seen by
`capn_size` and `capn_write_mem` and by a lookup. -/
structure Served (ps : List Nat) (x y : SegHeap) (sz : Nat) (a : Nat × Nat) (x' y' : SegHeap) : Prop where
  same : NewData (fun _ _ _ => none) y sz (some a, y')
  mem : a.1 ∈ ps
  room : a.2 + sz ≤ (x'.seg a.1).cap
  lists : x'.Lists ps
  ids : ∀ p ∈ ps, x'.id p = x.id p
  tree : ∃ t, Hangs x'.hdr none x'.segtree t ∧ t.inorder = ps
  sees : ∃ qs, x'.Sees qs ∧ y'.Sees qs ∧ qs.map x'.seg = qs.map y'.seg
  lookup : ∀ id r, x'.LooksUp id r ↔ y'.LooksUp id r

/-- All the requests are served as by a session with the room from the start. -/
def Serves (create : Create) (ps : List Nat) : SegHeap → List Nat → Prop
  | _, [] => True
  | x, sz :: szs => ∃ a x' y', NewData create x sz (some a, x') ∧ Served ps x (x.grown create ps sz) sz a x' y' ∧
      Serves create ps x' szs

end SegHeap

/-- The callback satisfies every request by raising the capacity of a segment of the session. -/
def Growing (create : Create) : Prop :=
  ∀ x ps sz, x.Whole ps → ps ≠ [] →
    ∃ s cap, s ∈ ps ∧ (x.seg s).len + sz ≤ cap ∧ create x x.segnum sz = some (s, x.raise s cap)

namespace SegHeap

/-! ## A session in order -/

variable {x x' : SegHeap} {ps : List Nat} {sz s : Nat} {create : Create}

theorem ends_room {a : Option Nat} (h : Chain x.next a ps) (sz : Nat) :
    Loop.Ends (x.roomStep sz) a (ps.find? (x.hasRoom sz)) := by
  induction ps generalizing a with
  | nil =>
    rw [show a = none from h]
    have hstep : x.roomStep sz none = .done none := rfl
    exact (Loop.ends_done hstep).mpr rfl
  | cons p ps ih =>
    obtain ⟨rfl, h⟩ := h
    rw [List.find?_cons]
    cases hp : x.hasRoom sz p with
    | true => exact (Loop.ends_done (by rw [roomStep, if_pos hp])).mpr rfl
    | false => exact (Loop.ends_next (by rw [roomStep, hp, if_neg Bool.false_ne_true])).mpr (ih h)

theorem ends_search {t : Tree Nat} {p a : Option Nat} (h : Hangs x.hdr p a t) (id : Nat) :
    Loop.Ends (x.searchStep id) a (t.search x.id id) := by
  induction t generalizing p a with
  | nil =>
    rw [show a = none from h]
    have hstep : x.searchStep id none = .done none := rfl
    exact (Loop.ends_done hstep).mpr rfl
  | node c l n r ihl ihr =>
    obtain ⟨rfl, -, -, hl, hr⟩ := h
    rw [Tree.search]
    by_cases hid : id = x.id n
    · rw [if_pos hid]
      exact (Loop.ends_done (by rw [searchStep, if_pos hid])).mpr rfl
    · rw [if_neg hid]
      by_cases hlt : id < x.id n
      · rw [if_pos hlt]
        exact (Loop.ends_next (by rw [searchStep, if_neg hid, if_pos hlt])).mpr (ihl hl)
      · rw [if_neg hlt]
        exact (Loop.ends_next (by rw [searchStep, if_neg hid, if_neg hlt])).mpr (ihr hr)

theorem walk_chain {a : Option Nat} (h : Chain x.next a ps) : x.walk ps.length a = some ps := by
  induction ps generalizing a with
  | nil =>
    rw [show a = none from h]
    rfl
  | cons p ps ih =>
    obtain ⟨rfl, h⟩ := h
    rw [List.length_cons, walk, ih h]
    rfl

/-- Every listed segment is found by its id. -/
theorem Whole.looksUp (hx : x.Whole ps) {p : Nat} (hp : p ∈ ps) : x.LooksUp (x.id p) (some p) := by
  obtain ⟨t, ht, hin⟩ := hx.tree
  have hsorted : t.inorder.Pairwise fun a b => x.id a < x.id b := by
    have hlt := List.pairwise_lt_range (n := ps.length)
    rw [← hx.ids, List.pairwise_map] at hlt
    rwa [hin]
  have hfound := Tree.search_mem hsorted (by rwa [hin])
  have hid : x.id p < x.segnum := by
    rw [hx.segnum, ← List.mem_range, ← hx.ids]
    exact List.mem_map_of_mem hp
  rw [LooksUp, if_pos hid, ← hfound]
  exact ends_search ht _

/-- All the segments are seen. -/
theorem Whole.sees (hx : x.Whole ps) (hne : ps ≠ []) : x.Sees ps := by
  obtain ⟨p, qs, rfl⟩ := List.exists_cons_of_ne_nil hne
  have hchain := hx.lists.chain
  have hid : x.id p = 0 := by
    have hids := hx.ids
    rw [List.map_cons, List.length_cons, List.range_succ_eq_map] at hids
    exact (List.cons.inj hids).1
  have hfound := hx.looksUp List.mem_cons_self
  rw [hid] at hfound
  refine ⟨p, hfound, ?_⟩
  rw [hx.segnum, ← hchain.1]
  exact walk_chain hchain

theorem Whole.bump (hx : x.Whole ps) (s sz : Nat) : (x.bump s sz).Whole ps :=
  ⟨⟨hx.lists.chain, hx.lists.nodup⟩, hx.ids, hx.segnum, hx.last, hx.tree⟩

/-! ## One request -/

/-- A request that a segment has room for. -/
theorem Whole.newData_room (hx : x.Whole ps) (hs : ps.find? (x.hasRoom sz) = some s) (create : Create) :
    NewData create x sz (some (s, (x.seg s).len), x.bump s sz) := by
  obtain ⟨fuel, hf⟩ := ends_room hx.lists.chain sz
  exact ⟨fuel, by rw [newData, hf, hs]⟩

/-- What a request returns is what its search leads to. -/
theorem Whole.newData_cases (hx : x.Whole ps) {r : Option (Nat × Nat) × SegHeap} (h : NewData create x sz r) :
    (∃ s, ps.find? (x.hasRoom sz) = some s ∧ r = (some (s, (x.seg s).len), x.bump s sz)) ∨
    ps.find? (x.hasRoom sz) = none ∧ (create x x.segnum sz = none ∧ r = (none, x) ∨
      ∃ s x₁ x₂ fuel, create x x.segnum sz = some (s, x₁) ∧ appendSegment fuel x₁ s = some x₂ ∧
        r = (some (s, (x₂.seg s).len), x₂.bump s sz)) := by
  obtain ⟨fuel, h⟩ := h
  rw [newData] at h
  cases hrun : Loop.run (x.roomStep sz) fuel x.seglist with
  | none =>
    rw [hrun] at h
    cases h
  | some q =>
    rw [hrun] at h
    rw [(ends_room hx.lists.chain sz).unique ⟨fuel, hrun⟩]
    cases q with
    | some s =>
      cases h
      exact .inl ⟨s, rfl, rfl⟩
    | none =>
      refine .inr ⟨rfl, ?_⟩
      cases hc : create x x.segnum sz with
      | none =>
        rw [hc] at h
        cases h
        exact .inl ⟨rfl, rfl⟩
      | some q =>
        obtain ⟨s, x₁⟩ := q
        rw [hc] at h
        simp only [Option.map_eq_some_iff] at h
        obtain ⟨x₂, ha, rfl⟩ := h
        exact .inr ⟨s, x₁, x₂, fuel, rfl, ha, rfl⟩

/-- What is appended gets the next id. -/
theorem append_id {fuel : Nat} (h : appendSegment fuel x s = some x') : x'.id s = x.segnum := by
  simp only [appendSegment, Option.map_eq_some_iff] at h
  obtain ⟨t, -, rfl⟩ := h
  split <;> exact Function.update_self ..

/-- The last segment of a list has none after it. -/
theorem Chain.last {next : Nat → Option Nat} {a : Option Nat} {qs : List Nat} {l : Nat}
    (h : Chain next a (qs ++ [l])) : next l = none := by
  induction qs generalizing a with
  | nil => exact h.2
  | cons q qs ih => exact ih h.2

/-- **A segment that is appended again** is behind the last one, so that the list goes round, or ends before it. -/
theorem append_unlists (hx : x.Whole ps) (hs : s ∈ ps) {fuel : Nat} (h : appendSegment fuel x s = some x') :
    ¬ x'.Lists ps := by
  intro hl
  rcases List.eq_nil_or_concat ps with rfl | ⟨qs, l, hps⟩
  · cases hs
  rw [List.concat_eq_append] at hps
  have hlast : x.lastseg = some l := by
    rw [hx.last, hps, List.getLast?_append, List.getLast?_singleton, Option.some_or]
  have hnext : x'.next l = some s := by
    simp only [appendSegment, hlast, Option.map_eq_some_iff] at h
    obtain ⟨t, -, rfl⟩ := h
    exact Function.update_self ..
  have hchain := hl.chain
  rw [hps] at hchain
  rw [hchain.last] at hnext
  cases hnext

end SegHeap

/-- A request that asks the callback is not served: the id of the segment that it grew changes. -/
theorem not_serves {create : Create} (hc : Growing create) {x : SegHeap} {ps : List Nat} (hx : x.Whole ps)
    (hne : ps ≠ []) {sz : Nat} (hnone : ps.find? (x.hasRoom sz) = none) (szs : List Nat) :
    ¬ SegHeap.Serves create ps x (sz :: szs) := by
  rintro ⟨a, x', y', hnew, hserved, -⟩
  obtain ⟨s, cap, hmem, -, hcr⟩ := hc x ps sz hx hne
  have hlt : x.id s < x.segnum := by
    rw [hx.segnum, ← List.mem_range, ← hx.ids]
    exact List.mem_map_of_mem hmem
  rcases hx.newData_cases hnew with ⟨s', hs', -⟩ | ⟨-, ⟨-, hr⟩ | ⟨s', x₁, x₂, fuel, hcr', happ, hr⟩⟩
  · rw [hnone] at hs'
    cases hs'
  · cases hr
  · rw [hcr] at hcr'
    cases hcr'
    cases hr
    have hid := SegHeap.append_id happ
    have hkept : x₂.id s = x.id s := hserved.ids s hmem
    rw [← hkept, hid] at hlt
    exact Nat.lt_irrefl _ hlt

/-- **A callback that grows segments** serves the requests of a run as segments with the room from the start would,
exactly if it is never asked. -/
theorem growing_iff {create : Create} (hc : Growing create) {x : SegHeap} {ps : List Nat} (hx : x.Whole ps)
    (hne : ps ≠ []) (szs : List Nat) : SegHeap.Serves create ps x szs ↔ SegHeap.Roomy ps x szs := by
  induction szs generalizing x with
  | nil => exact Iff.rfl
  | cons sz szs ih =>
    constructor
    · intro h
      cases hs : ps.find? (x.hasRoom sz) with
      | none => exact absurd h (not_serves hc hx hne hs szs)
      | some s =>
        obtain ⟨a, x', y', hnew, -, hrest⟩ := h
        rcases hx.newData_cases hnew with ⟨s', hs', hr⟩ | ⟨hnone, -⟩
        · cases hr
          cases hs.symm.trans hs'
          exact ⟨s, hs, (ih (hx.bump s sz)).mp hrest⟩
        · rw [hs] at hnone
          cases hnone
    · rintro ⟨s, hs, hrest⟩
      have hmem := List.mem_of_find?_eq_some hs
      have hroom := List.find?_some hs
      have hgrown : x.grown create ps sz = x := by
        rw [SegHeap.grown, if_pos (List.any_eq_true.mpr ⟨s, hmem, hroom⟩)]
      have hx' := hx.bump s sz
      refine ⟨(s, (x.seg s).len), x.bump s sz, x.bump s sz, hx.newData_room hs create, ?_, (ih hx').mpr hrest⟩
      rw [hgrown]
      refine ⟨hx.newData_room hs _, hmem, ?_, hx'.lists, fun _ _ => rfl, hx'.tree,
        ⟨ps, hx'.sees hne, hx'.sees hne, rfl⟩, fun _ _ => Iff.rfl⟩
      have hle := of_decide_eq_true hroom
      simpa [SegHeap.bump] using hle

/-! ## A session of one segment -/

/-- A callback that grows the first segment. -/
def growFirst : Create := fun x _ sz => x.seglist.map fun s => (s, x.raise s ((x.seg s).len + sz))

theorem growing_first : Growing growFirst := by
  intro x ps sz hx hne
  obtain ⟨p, qs, rfl⟩ := List.exists_cons_of_ne_nil hne
  have hhead : x.seglist = some p := hx.lists.chain.1
  refine ⟨p, (x.seg p).len + sz, List.mem_cons_self, Nat.le_refl _, ?_⟩
  rw [growFirst, hhead]
  rfl

/-- A session with a segment of 64 bytes. -/
def shortSession : SegHeap where
  hdr := fun _ => {}
  next := fun _ => none
  id := fun _ => 0
  seg := fun _ => ⟨Mem.zero, 0, 64⟩
  segnum := 1
  seglist := some 0
  lastseg := some 0
  segtree := some 0

theorem whole_shortSession : shortSession.Whole [0] where
  lists := ⟨⟨rfl, rfl⟩, by decide⟩
  ids := rfl
  segnum := rfl
  last := rfl
  tree := ⟨.node false .nil 0 .nil, ⟨rfl, rfl, rfl, rfl, rfl⟩, rfl⟩

/-- Two requests of 32 bytes in a segment of 64. -/
theorem growing_iff_two : SegHeap.Serves growFirst [0] shortSession [32, 32] ↔ SegHeap.Roomy [0] shortSession [32, 32] :=
  growing_iff growing_first whole_shortSession (by decide) [32, 32]

/-- A request of 72 bytes in a segment of 64: the callback grows it. -/
theorem growing_fails : ¬ SegHeap.Serves growFirst [0] shortSession [72] :=
  not_serves growing_first whole_shortSession (by decide) (by decide) []

end Capnproto

import Capnproto.Object.TreeIndex
import Mathlib.Data.List.Pairwise

/-!
# The three trees

`capn_tree_insert` keeps three indexes: of the segments of a session, by their ids, of the source ranges that were copied
into it, and of the compiler's nodes. In whatever order they grow, after each insertion the nodes from left to right are
those inserted, sorted by their keys, every parent link is that of the node that links to the node, the tree is a
red-black tree, and a descent finds each of the keys (`trees_correct`).
-/

namespace Capnproto

open LinkedTree

/-! ## The copy index -/

/-- `fbegin` and `fend` of a `struct copy`: only what is not zero sized is indexed. -/
structure CopyRange where
  fbegin : Int
  fend : Int
  sized : fbegin < fend

/-- Where the loop of `copy_ptr` goes on from a copy. -/
def copyDir (f cp : CopyRange) : Option Bool :=
  if f.fend ≤ cp.fbegin then some false else if cp.fend ≤ f.fbegin then some true else none

/-- What `copy_ptr` does with the index, for the source range `f` and a new `struct copy` at `n`: the copy that it comes to,
or none, and the index after it. -/
def copyIndex (fuel : Nat) (x : LinkedTree CopyRange) (n : Nat) (f : CopyRange) :
    Option (Option Nat × LinkedTree CopyRange) :=
  match Loop.run (x.descendStep (copyDir f)) fuel none with
  | none => none
  | some (some cp, _) => some (some cp, x)
  | some (none, l) => ({ x with key := Function.update x.key n f }.attach fuel l n).map (none, ·)

/-! ## The nodes of the compiler -/

/-- One iteration of the loop of `insert_node`: it sets the parent on its way. -/
def insertNodeStep (s : Nat) : LinkedTree Nat × TreeLink → Step (LinkedTree Nat × TreeLink) (LinkedTree Nat × TreeLink)
  | (x, l) =>
    match x.load l with
    | none => .done (x, l)
    | some y => .next ({ x with hdr := x.hdr.setParent s (some y) }, some (y, x.key y < x.key s))

/-- `insert_node`. -/
def insertNode (fuel : Nat) (x : LinkedTree Nat) (s : Nat) : Option (LinkedTree Nat) :=
  match Loop.run (insertNodeStep s) fuel (x, none) with
  | none => none
  | some (x, l) => (x.store l s).insert fuel s

/-- A node of the request: `calloc`, `get_Node`, `insert_node`. -/
def readNode (fuel : Nat) (x : LinkedTree Nat) (n id : Nat) : Option (LinkedTree Nat) :=
  insertNode fuel { x with hdr := Function.update x.hdr n {}, key := Function.update x.key n id } n

/-- One iteration of the loop of `find_node_mayfail`. -/
def findNodeStep (x : LinkedTree Nat) (id : Nat) : Option Nat → Step (Option Nat) (Option Nat)
  | none => .done none
  | some s => if x.key s = id then .done (some s) else .next ((x.hdr s).link (x.key s < id))

/-! ## The segments -/

/-- Where the loop of `lookup_segment` goes on from the segment with the id `y`. -/
def segDir (id y : Nat) : Option Bool := if id = y then none else if id < y then some false else some true

namespace SegHeap

/-- The tree of ids. -/
def tree (x : SegHeap) : LinkedTree Nat := ⟨x.segtree, x.hdr, x.id⟩

/-- What `lookup_segment` returns, the session, and whether the callback supplied the segment. -/
structure LookedUp where
  seg : Option Nat
  heap : SegHeap
  supplied : Bool

/-- `lookup_segment`, for a pointer in the segment `s`. -/
def lookupSegment (fuel : Nat) (lookup : Nat → Option Nat) (x : SegHeap) (s : Option Nat) (id : Nat) : Option LookedUp :=
  match s.filter (x.id · = id) with
  | some s => some ⟨some s, x, false⟩
  | none =>
    if id < x.segnum then
      match Loop.run (x.tree.descendStep (segDir id)) fuel none with
      | none => none
      | some (some y, _) => some ⟨some y, x, false⟩
      | some (none, l) =>
        match lookup id with
        | none => some ⟨none, x, false⟩
        -- `id < c->segnum` still
        | some s =>
          let x := { x with id := Function.update x.id s id, next := Function.update x.next s x.seglist, seglist := some s }
          (x.tree.attach fuel l s).map fun t => ⟨some s, { x with hdr := t.hdr, segtree := t.root }, true⟩
    else some ⟨none, x, false⟩

/-- The last segment is the one with the greatest id. -/
def LastIsMax (x : SegHeap) (ns : List (Nat × Nat)) : Prop :=
  match x.lastseg with
  | none => ns = []
  | some l => ∃ i, (l, i) ∈ ns ∧ ∀ m j, (m, j) ∈ ns → j ≤ i

end SegHeap

/-! ## How they grow -/

/-- Copy indexes, and what was inserted into them. -/
inductive CopiesIndexed : LinkedTree CopyRange → List (Nat × CopyRange) → Prop
  | empty (x : LinkedTree CopyRange) (h : x.root = none) : CopiesIndexed x []
  | insert {x x' : LinkedTree CopyRange} {ns : List (Nat × CopyRange)} {n : Nat} {f : CopyRange} (h : CopiesIndexed x ns)
      (hn : n ∉ ns.map Prod.fst) (e : ∃ fuel, copyIndex fuel x n f = some (none, x')) : CopiesIndexed x' ((n, f) :: ns)

/-- Trees of the compiler's nodes. -/
inductive NodesRead : LinkedTree Nat → List (Nat × Nat) → Prop
  | empty (x : LinkedTree Nat) (h : x.root = none) : NodesRead x []
  | insert {x x' : LinkedTree Nat} {ns : List (Nat × Nat)} {n id : Nat} (h : NodesRead x ns) (hn : n ∉ ns.map Prod.fst)
      (e : ∃ fuel, readNode fuel x n id = some x') : NodesRead x' ((n, id) :: ns)

/-- Sessions that began with the given `segnum` and without segments, with segments appended behind the last id, and
segments supplied by the callback. -/
inductive SegmentsLinked (lookup : Nat → Option Nat) (segnum : Nat) : SegHeap → List (Nat × Nat) → Prop
  | empty (x : SegHeap) (hnum : x.segnum = segnum) (hlast : x.lastseg = none) (htree : x.segtree = none) :
      SegmentsLinked lookup segnum x []
  | append {x x' : SegHeap} {ns : List (Nat × Nat)} {s : Nat} (h : SegmentsLinked lookup segnum x ns)
      (hs : s ∉ ns.map Prod.fst) (hlast : x.LastIsMax ns) (e : ∃ fuel, x.appendSegment fuel s = some x') :
      SegmentsLinked lookup segnum x' ((s, x.segnum) :: ns)
  | found {x : SegHeap} {ns : List (Nat × Nat)} {s : Option Nat} {id : Nat} {r : SegHeap.LookedUp}
      (h : SegmentsLinked lookup segnum x ns) (e : ∃ fuel, x.lookupSegment fuel lookup s id = some r)
      (hr : r.supplied = false) : SegmentsLinked lookup segnum r.heap ns
  | supplied {x : SegHeap} {ns : List (Nat × Nat)} {s : Option Nat} {id y : Nat} {r : SegHeap.LookedUp}
      (h : SegmentsLinked lookup segnum x ns) (e : ∃ fuel, x.lookupSegment fuel lookup s id = some r)
      (hr : r.supplied = true) (hy : r.seg = some y) (hnew : y ∉ ns.map Prod.fst) :
      SegmentsLinked lookup segnum r.heap ((y, id) :: ns)

/-- A tree in memory holds what was inserted, sorted by `R`, as a red-black tree with its parent links, and a descent for any
of the keys comes to a node with that key. -/
structure LinkedTree.Correct {κ : Type} (x : LinkedTree κ) (R : κ → κ → Prop) (descends : κ → Nat → Prop)
    (ns : List (Nat × κ)) : Prop where
  indexes : ∃ t, x.Indexes R ns t
  finds : ∀ n k, (n, k) ∈ ns → ∃ m, descends k m ∧ (m, k) ∈ ns

/-! ## Guides -/

theorem guides_copies (f : CopyRange) : Tree.Guides (copyDir f) fun a b => a.fend ≤ b.fbegin := by
  have hf := f.sized
  constructor
  · intro a b h e
    have ha := a.sized
    have hb := b.sized
    simp only [copyDir] at e ⊢
    split at e
    · cases e
    · split at e
      · rw [if_neg (by omega), if_pos (by omega)]
      · cases e
  · intro a b h e
    have ha := a.sized
    simp only [copyDir] at e ⊢
    split at e
    · rw [if_pos (by omega)]
    · split at e <;> cases e

theorem guides_segments (id : Nat) : Tree.Guides (segDir id) (· < ·) := by
  constructor
  · intro a b h e
    simp only [segDir] at e ⊢
    split at e
    · cases e
    · split at e
      · cases e
      · rw [if_neg (by omega), if_neg (by omega)]
  · intro a b h e
    simp only [segDir] at e ⊢
    split at e
    · cases e
    · split at e
      · rw [if_neg (by omega), if_pos (by omega)]
      · cases e

theorem guides_inserted (id : Nat) : Tree.Guides (fun y => some (decide (y < id))) (· ≤ ·) := by
  constructor
  · intro a b h e
    simp only [Option.some.injEq, decide_eq_true_eq] at e ⊢
    omega
  · intro a b h e
    simp only [Option.some.injEq, decide_eq_false_iff_not] at e ⊢
    omega

/-- Where the loop of `find_node_mayfail` goes on. -/
def findDir (id y : Nat) : Option Bool := if y = id then none else some (decide (y < id))

theorem guides_found (id : Nat) : Tree.Guides (findDir id) (· ≤ ·) := by
  constructor
  · intro a b h e
    simp only [findDir] at e ⊢
    split at e
    · cases e
    · simp only [Option.some.injEq, decide_eq_true_eq] at e
      rw [if_neg (by omega), decide_eq_true (by omega)]
  · intro a b h e
    simp only [findDir] at e ⊢
    split at e
    · cases e
    · simp only [Option.some.injEq, decide_eq_false_iff_not] at e
      rw [if_neg (by omega), decide_eq_false (by omega)]

/-! ## Copies -/

section

variable {x x' : LinkedTree CopyRange} {ns : List (Nat × CopyRange)} {n : Nat} {f : CopyRange} {fuel : Nat}

theorem copyIndex_none (e : copyIndex fuel x n f = some (none, x')) :
    ∃ l, Loop.Ends (x.descendStep (copyDir f)) none (none, l) ∧
      { x with key := Function.update x.key n f }.attach fuel l n = some x' := by
  rw [copyIndex] at e
  split at e
  · cases e
  · cases e
  · rename_i l hrun
    obtain ⟨t, ht, e⟩ := Option.map_eq_some_iff.mp e
    cases e
    exact ⟨l, ⟨fuel, hrun⟩, ht⟩

theorem copyDir_true {k : CopyRange} (h : copyDir f k = some true) : k.fend ≤ f.fbegin := by
  simp only [copyDir] at h
  split at h
  · cases h
  · split at h
    · assumption
    · cases h

theorem copyDir_false {k : CopyRange} (h : copyDir f k = some false) : f.fend ≤ k.fbegin := by
  simp only [copyDir] at h
  split at h
  · assumption
  · split at h <;> cases h

theorem CopiesIndexed.indexes (h : CopiesIndexed x ns) : ∃ t, x.Indexes (fun a b => a.fend ≤ b.fbegin) ns t := by
  induction h with
  | empty x h => exact ⟨.nil, indexes_empty h _⟩
  | insert h hn e ih =>
    obtain ⟨t, ht⟩ := ih
    obtain ⟨fuel, e⟩ := e
    obtain ⟨l, hl, ha⟩ := copyIndex_none e
    exact ((ht.attach (guides_copies _) hl hn (fun _ => copyDir_true) fun _ => copyDir_false).2 _ _ ha).2

/-- What is in the index does not overlap itself only. -/
theorem copyDir_eq_none {a b : CopyRange} : copyDir a b = none ↔ ¬ (a.fend ≤ b.fbegin ∨ b.fend ≤ a.fbegin) := by
  simp only [copyDir]
  split
  · simp [*]
  · split
    · simp [*]
    · simp [*]

theorem CopiesIndexed.correct (h : CopiesIndexed x ns) : x.Correct (fun a b => a.fend ≤ b.fbegin)
    (fun f m => ∃ l, Loop.Ends (x.descendStep (copyDir f)) none (some m, l)) ns := by
  obtain ⟨t, ht⟩ := h.indexes
  refine ⟨⟨t, ht⟩, fun n f hn => ?_⟩
  have hself : copyDir f f = none := copyDir_eq_none.mpr (by have := f.sized; omega)
  obtain ⟨m, l, hm, hmem, hk⟩ := ht.finds (guides_copies f) hn hself
  refine ⟨m, ⟨l, hm⟩, ?_⟩
  -- two of them that overlap are one
  obtain ⟨hin, rfl⟩ := ht.mem.mp hn
  have hin' := (ht.mem.mp hmem).1
  by_cases e : m = n
  · rw [← e]
    exact hmem
  · have hpair := (List.pairwise_map.mp ht.sorted).imp (S := fun a b =>
      (x.key a).fend ≤ (x.key b).fbegin ∨ (x.key b).fend ≤ (x.key a).fbegin) Or.inl
    have : Std.Symm fun a b => (x.key a).fend ≤ (x.key b).fbegin ∨ (x.key b).fend ≤ (x.key a).fbegin :=
      ⟨fun _ _ => Or.symm⟩
    exact absurd (hpair.forall hin hin' (Ne.symm e)) (copyDir_eq_none.mp hk)

/-- A request comes to a copy that its range overlaps, or else is inserted. -/
theorem CopiesIndexed.request (h : CopiesIndexed x ns) (hn : n ∉ ns.map Prod.fst) (f : CopyRange) :
    ∃ fuel r, copyIndex fuel x n f = some r ∧
      (r.1 = none ↔ ∀ m g, (m, g) ∈ ns → f.fend ≤ g.fbegin ∨ g.fend ≤ f.fbegin) := by
  obtain ⟨t, ht⟩ := h.indexes
  have hends := ht.descends (copyDir f)
  generalize Tree.seek (copyDir f ∘ x.key) t [] = q at hends
  obtain ⟨a, fs⟩ := q
  cases a with
  | some y =>
    obtain ⟨hmem, hk⟩ := ht.found hends
    obtain ⟨fuel, hrun⟩ := hends
    refine ⟨fuel, (some y, x), by rw [copyIndex, hrun], fun h => absurd h (Option.some_ne_none _), fun h => ?_⟩
    exact absurd (h _ _ hmem) (copyDir_eq_none.mp hk)
  | none =>
    obtain ⟨a, x', ha⟩ := (ht.attach (guides_copies f) hends hn (fun _ => copyDir_true) fun _ => copyDir_false).1
    obtain ⟨b, hrun⟩ := id hends
    refine ⟨max a b, (none, x'), ?_, fun _ m g hm => ?_, fun _ => rfl⟩
    · rw [copyIndex, Loop.run_mono hrun (Nat.le_max_right a b)]
      simp only [attach_mono (Nat.le_max_left a b) ha, Option.map_some]
    · -- what overlaps would have been found
      by_contra hno
      obtain ⟨y, l, hy, -⟩ := ht.finds (guides_copies f) hm (copyDir_eq_none.mpr hno)
      cases hends.unique hy

end

/-! ## Nodes -/

section

variable {x x' : LinkedTree Nat} {ns : List (Nat × Nat)} {n id fuel : Nat}

/-- The tree while `insert_node` is at a link. -/
def descending (x : LinkedTree Nat) (s : Nat) (l : TreeLink) : LinkedTree Nat × TreeLink :=
  ({ x with hdr := x.hdr.setParent s (l.map Prod.fst) }, l)

theorem load_descending (x : LinkedTree Nat) (s : Nat) (l l' : TreeLink) : (descending x s l).1.load l' = x.load l' := by
  cases l' with
  | none => rfl
  | some y => exact TreeHeap.link_setParent

/-- `insert_node` goes the way of a descent. -/
theorem insertNode_descends (x : LinkedTree Nat) (s : Nat) {l l' : TreeLink}
    (h : Loop.Ends (x.descendStep fun y => some (decide (y < x.key s))) l (none, l')) :
    Loop.Ends (insertNodeStep s) (descending x s l) (descending x s l') := by
  obtain ⟨n, hn⟩ := h
  induction n generalizing l with
  | zero => cases hn
  | succ n ih =>
    have hload := load_descending x s l l
    cases hl : x.load l with
    | none =>
      have hstep : x.descendStep (fun y => some (decide (y < x.key s))) l = .done (none, l) := by
        rw [descendStep, hl]
      rw [Loop.run_succ_done hstep] at hn
      cases hn
      refine (Loop.ends_done ?_).mpr rfl
      rw [hl] at hload
      rw [descending, insertNodeStep]
      rw [descending] at hload
      rw [hload]
    | some y =>
      have hstep : x.descendStep (fun y => some (decide (y < x.key s))) l =
          .next (some (y, decide (x.key y < x.key s))) := by rw [descendStep, hl]
      rw [Loop.run_succ_next hstep] at hn
      refine (Loop.ends_next ?_).mpr (ih hn)
      rw [hl] at hload
      rw [descending, insertNodeStep]
      rw [descending] at hload
      rw [hload]
      have hset : (x.hdr.setParent s (l.map Prod.fst)).setParent s (some y) = x.hdr.setParent s (some y) := by
        rw [TreeHeap.setParent, TreeHeap.setParent, Function.update_idem, Function.update_self]
        rfl
      exact congrArg (fun h => Step.next (({ x with hdr := h } : LinkedTree Nat), some (y, decide (x.key y < x.key s)))) hset

/-- It does not matter whether the parent or the link is stored first. -/
theorem store_descending (x : LinkedTree Nat) (s : Nat) (l : TreeLink) : (descending x s l).1.store l s =
    { x.store l s with hdr := (x.store l s).hdr.setParent s (l.map Prod.fst) } := by
  cases l with
  | none => rfl
  | some y =>
    obtain ⟨y, d⟩ := y
    have hcomm : (x.hdr.setParent s (some y)).setLink y d (some s) =
        (x.hdr.setLink y d (some s)).setParent s (some y) := by
      funext m
      simp only [TreeHeap.setParent, TreeHeap.setLink, Function.update_apply]
      cases d <;> by_cases h1 : m = s <;> by_cases h2 : m = y <;> simp_all
    exact congrArg (fun h => ({ x with hdr := h } : LinkedTree Nat)) hcomm

/-- A node that is read is in its place. -/
theorem readNode_spec {t : Tree Nat} (h : x.Indexes (· ≤ ·) ns t) (hn : n ∉ ns.map Prod.fst) (id : Nat) :
    (∃ fuel x', readNode fuel x n id = some x') ∧ ∀ fuel x', readNode fuel x n id = some x' →
      ∃ t, x'.Indexes (· ≤ ·) ((n, id) :: ns) t := by
  have h₁ := h.fresh hn {} id
  have hkey : Function.update (Function.update x.key n id) n id = Function.update x.key n id := Function.update_idem ..
  generalize hx : ({ x with hdr := Function.update x.hdr n {}, key := Function.update x.key n id } : LinkedTree Nat) = x₁
    at h₁
  have hid : x₁.key n = id := by
    rw [← hx]
    exact Function.update_self ..
  have hsame : ({ x₁ with key := Function.update x₁.key n id } : LinkedTree Nat) = x₁ := by
    rw [← hx]
    exact congrArg (fun k => (⟨x.root, Function.update x.hdr n {}, k⟩ : LinkedTree Nat)) hkey
  have hstart : descending x₁ n none = (x₁, none) := by
    rw [← hx]
    have hnone : (Function.update x.hdr n {} n).parent = none := by rw [Function.update_self]
    exact Prod.ext (congrArg (fun h => (⟨x.root, h, Function.update x.key n id⟩ : LinkedTree Nat))
      (TreeHeap.setParent_self hnone)) rfl
  have hends := h₁.descends fun y => some (decide (y < id))
  generalize Tree.seek _ t [] = q at hends
  obtain ⟨a, fs⟩ := q
  cases a with
  | some y => exact absurd (h₁.found hends).2 (Option.some_ne_none _)
  | none =>
    obtain ⟨⟨a, x', ha⟩, hall⟩ := h₁.attach (guides_inserted id) hends hn (k := id)
      (fun k' hk => Nat.le_of_lt (of_decide_eq_true (Option.some.inj hk)))
      fun k' hk => Nat.le_of_not_lt (of_decide_eq_false (Option.some.inj hk))
    rw [hsame] at ha hall
    have hloop := insertNode_descends x₁ n (by rw [hid]; exact hends)
    rw [hstart] at hloop
    have hstore : ∀ fuel, ((descending x₁ n (placeLink fs)).1.store (placeLink fs) n).insert fuel n =
        x₁.attach fuel (placeLink fs) n := fun fuel => by
      rw [store_descending]
      rfl
    constructor
    · obtain ⟨b, hrun⟩ := hloop
      refine ⟨max a b, x', ?_⟩
      rw [readNode, hx, insertNode, Loop.run_mono hrun (Nat.le_max_right a b)]
      exact (hstore _).trans (attach_mono (Nat.le_max_left a b) ha)
    · intro fuel x' e
      rw [readNode, hx, insertNode] at e
      split at e
      · cases e
      · rename_i y l hrun
        cases hloop.unique ⟨fuel, hrun⟩
        exact (hall fuel x' ((hstore fuel).symm.trans e)).2

/-- `find_node_mayfail` goes the way of a descent. -/
theorem findNode_descends {id : Nat} {l l' : TreeLink} {a : Option Nat}
    (h : Loop.Ends (x.descendStep (findDir id)) l (a, l')) : Loop.Ends (findNodeStep x id) (x.load l) a := by
  obtain ⟨n, hn⟩ := h
  induction n generalizing l with
  | zero => cases hn
  | succ n ih =>
    cases hl : x.load l with
    | none =>
      rw [Loop.run_succ_done (by rw [descendStep, hl])] at hn
      cases hn
      have hstep : findNodeStep x id none = .done none := rfl
      exact (Loop.ends_done hstep).mpr rfl
    | some y =>
      by_cases hk : x.key y = id
      · rw [Loop.run_succ_done (r := (some y, l)) (by rw [descendStep, hl]; simp only [findDir, if_pos hk])] at hn
        cases hn
        exact (Loop.ends_done (by rw [findNodeStep, if_pos hk])).mpr rfl
      · rw [@Loop.run_succ_next _ _ _ _ (some (y, decide (x.key y < id)))
          (by rw [descendStep, hl]; simp only [findDir, if_neg hk])] at hn
        exact (Loop.ends_next (by rw [findNodeStep, if_neg hk]; rfl)).mpr (ih hn)

theorem NodesRead.indexes (h : NodesRead x ns) : ∃ t, x.Indexes (· ≤ ·) ns t := by
  induction h with
  | empty x h => exact ⟨.nil, indexes_empty h _⟩
  | insert h hn e ih =>
    obtain ⟨t, ht⟩ := ih
    obtain ⟨fuel, e⟩ := e
    exact (readNode_spec ht hn _).2 fuel _ e

theorem NodesRead.correct (h : NodesRead x ns) :
    x.Correct (· ≤ ·) (fun id m => Loop.Ends (findNodeStep x id) x.root (some m)) ns := by
  obtain ⟨t, ht⟩ := h.indexes
  refine ⟨⟨t, ht⟩, fun n id hn => ?_⟩
  obtain ⟨m, l, hm, hmem, hk⟩ := ht.finds (guides_found id) hn (by rw [findDir, if_pos rfl])
  have hkey : x.key m = id := by
    by_contra hne
    rw [findDir, if_neg hne] at hk
    cases hk
  exact ⟨m, findNode_descends hm, hkey ▸ hmem⟩

end

/-! ## Segments -/

/-- The node with the greatest key is the last, and has nothing to its right. -/
theorem last_place {x : LinkedTree Nat} {ns : List (Nat × Nat)} {t : Tree Nat} (h : x.Indexes (· < ·) ns t) {l i : Nat}
    (hl : (l, i) ∈ ns) (hmax : ∀ m j, (m, j) ∈ ns → j ≤ i) :
    ∃ c left fs, Tree.plug (⟨true, c, l, left⟩ :: fs) .nil = t ∧ Tree.after (⟨true, c, l, left⟩ :: fs) = [] := by
  obtain ⟨hin, rfl⟩ := h.mem.mp hl
  obtain ⟨as, bs, hsplit⟩ := List.append_of_mem hin
  have hsorted := List.pairwise_map.mp h.sorted
  rw [hsplit, List.pairwise_append, List.pairwise_cons] at hsorted
  obtain ⟨-, ⟨hbs, -⟩, has⟩ := hsorted
  have hnil : bs = [] := by
    refine List.eq_nil_iff_forall_not_mem.mpr fun b hb => ?_
    have hlt := hbs b hb
    have hle := hmax b _ (h.mem.mpr ⟨by rw [hsplit]; exact List.mem_append_right _ (List.mem_cons_of_mem _ hb), rfl⟩)
    omega
  have hno : l ∉ as := fun hm => Nat.lt_irrefl _ (has l hm l List.mem_cons_self)
  rw [hnil] at hsplit
  obtain ⟨⟨⟨c, left, r⟩, fs⟩, hloc⟩ := Option.isSome_iff_exists.mp (Tree.locate_isSome hin [])
  obtain ⟨rfl, hafter, -⟩ := locate_last hno hsplit hloc
  exact ⟨c, left, fs, Tree.locate_plug hloc, by rw [Tree.after, hafter]; rfl⟩

namespace SegHeap

variable {x x' : SegHeap} {ns : List (Nat × Nat)} {s id segnum : Nat} {lookup : Nat → Option Nat}

/-- The tree with the new segment behind the last one. -/
def behindLast (x : SegHeap) (s : Nat) : LinkedTree Nat where
  root := x.segtree
  hdr :=
    match x.lastseg with
    | some l => (x.hdr.setLink l true (some s)).setParent s (some l)
    | none => x.hdr.setParent s none
  key := Function.update x.id s x.segnum

theorem appendSegment_tree (fuel : Nat) (x : SegHeap) (s : Nat) :
    (x.appendSegment fuel s).map (fun x' => (x'.tree, x'.segnum, x'.lastseg)) =
      ((x.behindLast s).insert fuel s).map fun t => (t, x.segnum + 1, some s) := by
  rw [appendSegment, LinkedTree.insert, behindLast]
  cases x.lastseg with
  | none =>
    simp only
    cases treeInsert fuel x.segtree (x.hdr.setParent s none) s <;> rfl
  | some l =>
    simp only
    cases treeInsert fuel x.segtree ((x.hdr.setLink l true (some s)).setParent s (some l)) s <;> rfl

/-- A segment that is appended is in its place. -/
theorem appendSegment_spec {t : Tree Nat} (h : x.tree.Indexes (· < ·) ns t) (hs : s ∉ ns.map Prod.fst)
    (hlast : x.LastIsMax ns) (hbelow : ∀ m j, (m, j) ∈ ns → j < x.segnum) :
    (∃ fuel x', x.appendSegment fuel s = some x') ∧ ∀ fuel x', x.appendSegment fuel s = some x' →
      (∃ t, x'.tree.Indexes (· < ·) ((s, x.segnum) :: ns) t) ∧ x'.segnum = x.segnum + 1 ∧ x'.lastseg = some s := by
  obtain ⟨fs, rfl, hafter, p, he, hatt⟩ : ∃ fs, Tree.plug fs .nil = t ∧ Tree.after fs = [] ∧
      ∃ p, Encloses x.tree.hdr x.tree.root p none fs ∧ x.tree.Attached p fs s (x.behindLast s) := by
    rw [LastIsMax] at hlast
    rw [behindLast]
    cases hl : x.lastseg with
    | none =>
      rw [hl] at hlast
      have hempty : ns = [] := hlast
      have hperm := h.inorder_perm
      rw [hempty] at hperm
      have hnil : t = .nil := Tree.inorder_eq_nil (List.perm_nil.mp hperm)
      have hroot : x.segtree = none := by
        have := h.hangs
        rw [hnil] at this
        exact this
      exact ⟨[], hnil.symm, rfl, none, ⟨rfl, hroot⟩, by simp, by simp [Tree.marks], by simp [Tree.marks],
        by simp [Tree.marks], by simp, by simp [Tree.marks]⟩
    | some l =>
      rw [hl] at hlast
      obtain ⟨i, hmem, hmax⟩ := hlast
      obtain ⟨c, left, fs, hplug, hafter⟩ := last_place h hmem hmax
      have hhangs := h.hangs
      rw [← hplug] at hhangs
      obtain ⟨p, a, he, ha⟩ := encloses_of_plug hhangs
      cases (show a = none from ha)
      have hp : p = some l := he.1
      rw [hp] at he
      have hne : ∀ m ∈ Tree.marks (⟨true, c, l, left⟩ :: fs), m ≠ s := by
        rintro m hm rfl
        have hperm := Tree.inorder_plug_perm (⟨true, c, l, left⟩ :: fs) (.nil : Tree Nat)
        rw [Tree.inorder, List.nil_append, hplug] at hperm
        exact hs (h.inorder_perm.mem_iff.mp (hperm.mem_iff.mpr hm))
      refine ⟨_, hplug, hafter, some l, he, by simp, fun m hm => ?_, fun m hm => ?_, fun m hm d => ?_, fun _ => rfl,
        fun m hm => Function.update_of_ne (hne m hm) _ _⟩
      · simp [hne m hm, tree]
      · simp [tree]
      · simp only [TreeHeap.link_setParent, TreeHeap.link_setLink, placeRight, List.head?_cons, Option.any_some,
          Option.some.injEq, eq_comm (a := m)]
        rfl
  have hkey : (x.behindLast s).key s = x.segnum := Function.update_self ..
  have hmem : ∀ m ∈ Tree.before fs, (m, x.id m) ∈ ns := fun m hm =>
    h.mem.mpr ⟨by rw [Tree.inorder_plug]; exact List.mem_append_left _ (List.mem_append_left _ hm), rfl⟩
  obtain ⟨⟨fuel, t, ht⟩, hall⟩ := h.insert he hs hatt
    (fun m hm => by rw [hkey]; exact hbelow m _ (hmem m hm)) (fun m hm => by rw [hafter] at hm; cases hm)
  rw [hkey] at hall
  constructor
  · have hmap := appendSegment_tree fuel x s
    rw [ht] at hmap
    obtain ⟨x', hx', -⟩ := Option.map_eq_some_iff.mp hmap
    exact ⟨fuel, x', hx'⟩
  · intro fuel x' e
    have hmap := appendSegment_tree fuel x s
    rw [e] at hmap
    obtain ⟨t', ht', e'⟩ := Option.map_eq_some_iff.mp hmap.symm
    obtain ⟨h1, h2, h3⟩ : t' = x'.tree ∧ x.segnum + 1 = x'.segnum ∧ some s = x'.lastseg := by
      simpa only [Prod.mk.injEq] using e'
    exact ⟨h1 ▸ (hall fuel t' ht').2, h2.symm, h3.symm⟩

theorem segDir_none {id y : Nat} : segDir id y = none ↔ y = id := by
  rw [segDir]
  split
  · simp [*]
  · split
    · simp [Ne.symm ‹¬ id = y›]
    · simp [Ne.symm ‹¬ id = y›]

theorem segDir_true {id y : Nat} (h : segDir id y = some true) : y < id := by
  simp only [segDir] at h
  split at h
  · cases h
  · split at h
    · cases h
    · omega

theorem segDir_false {id y : Nat} (h : segDir id y = some false) : id < y := by
  simp only [segDir] at h
  split at h
  · cases h
  · split at h
    · assumption
    · cases h

/-- The session with a segment that the callback supplied, before it is in the tree. -/
def listed (x : SegHeap) (s id : Nat) : SegHeap :=
  { x with id := Function.update x.id s id, next := Function.update x.next s x.seglist, seglist := some s }

/-- What a lookup comes to: nothing changes, or the callback supplies a segment that is attached. -/
theorem lookupSegment_cases {fuel : Nat} {s : Option Nat} {r : LookedUp} (e : x.lookupSegment fuel lookup s id = some r) :
    r.supplied = false ∧ r.heap = x ∨ r.supplied = true ∧ id < x.segnum ∧ ∃ y l t, r.seg = some y ∧
      Loop.Ends (x.tree.descendStep (segDir id)) none (none, l) ∧ (x.listed y id).tree.attach fuel l y = some t ∧
        r.heap = { x.listed y id with hdr := t.hdr, segtree := t.root } := by
  rw [lookupSegment] at e
  split at e
  · cases e
    exact .inl ⟨rfl, rfl⟩
  · split at e
    · rename_i hid
      split at e
      · cases e
      · cases e
        exact .inl ⟨rfl, rfl⟩
      · rename_i l hrun
        split at e
        · cases e
          exact .inl ⟨rfl, rfl⟩
        · rename_i y _
          obtain ⟨t, ht, rfl⟩ := Option.map_eq_some_iff.mp e
          exact .inr ⟨rfl, hid, y, l, t, rfl, ⟨fuel, hrun⟩, ht, rfl⟩
    · cases e
      exact .inl ⟨rfl, rfl⟩

/-- What holds of the sessions: the tree is in order, ids are below `segnum`, and in one that began without any
each id below it is there, and the last segment has the last. -/
structure Linked (segnum : Nat) (x : SegHeap) (ns : List (Nat × Nat)) : Prop where
  indexes : ∃ t, x.tree.Indexes (· < ·) ns t
  below : ∀ m j, (m, j) ∈ ns → j < x.segnum
  whole : segnum = 0 → x.LastIsMax ns ∧ ∀ j < x.segnum, ∃ m, (m, j) ∈ ns

theorem linked (h : SegmentsLinked lookup segnum x ns) : Linked segnum x ns := by
  induction h with
  | empty x hnum hlast htree =>
    refine ⟨⟨.nil, indexes_empty htree _⟩, fun m j hm => absurd hm List.not_mem_nil, fun h0 => ⟨?_, fun j hj => ?_⟩⟩
    · rw [LastIsMax, hlast]
    · omega
  | @append x x' ns s h hs hlast e ih =>
    obtain ⟨t, ht⟩ := ih.indexes
    obtain ⟨fuel, e⟩ := e
    obtain ⟨hindexes, hnum, hl⟩ := (appendSegment_spec ht hs hlast ih.below).2 fuel x' e
    refine ⟨hindexes, fun m j hm => ?_, fun h0 => ⟨?_, fun j hj => ?_⟩⟩
    · rcases List.mem_cons.mp hm with hm | hm
      · cases hm
        omega
      · have := ih.below m j hm
        omega
    · rw [LastIsMax, hl]
      refine ⟨x.segnum, List.mem_cons_self, fun m j hm => ?_⟩
      rcases List.mem_cons.mp hm with hm | hm
      · cases hm
        exact Nat.le_refl _
      · exact Nat.le_of_lt (ih.below m j hm)
    · by_cases hj' : j = x.segnum
      · exact ⟨s, hj' ▸ List.mem_cons_self⟩
      · obtain ⟨m, hm⟩ := (ih.whole h0).2 j (by omega)
        exact ⟨m, List.mem_cons_of_mem _ hm⟩
  | found h e hr ih =>
    obtain ⟨fuel, e⟩ := e
    rcases lookupSegment_cases e with ⟨-, hx⟩ | ⟨hr', -⟩
    · rw [hx]
      exact ih
    · rw [hr] at hr'
      cases hr'
  | @supplied x ns s id y r h e hr hy hnew ih =>
    obtain ⟨t, ht⟩ := ih.indexes
    obtain ⟨fuel, e⟩ := e
    rcases lookupSegment_cases e with ⟨hr', -⟩ | ⟨-, hid, y', l, t', hy', hends, ha, hx⟩
    · rw [hr] at hr'
      cases hr'
    cases hy.symm.trans hy'
    obtain ⟨hkey, hindexes⟩ := (ht.attach (guides_segments id) hends hnew (fun _ => segDir_true)
      fun _ => segDir_false).2 fuel t' ha
    have htree : r.heap.tree = t' := by
      rw [hx]
      exact congrArg (fun k => (⟨t'.root, t'.hdr, k⟩ : LinkedTree Nat)) hkey.symm
    have hnum : r.heap.segnum = x.segnum := by
      rw [hx]
      rfl
    refine ⟨by rw [htree]; exact hindexes, fun m j hm => ?_, fun h0 => ?_⟩
    · rw [hnum]
      rcases List.mem_cons.mp hm with hm | hm
      · cases hm
        exact hid
      · exact ih.below m j hm
    · -- every id below is there, so that it would have been found
      obtain ⟨m, hm⟩ := (ih.whole h0).2 id hid
      obtain ⟨y', l', he, -⟩ := ht.finds (guides_segments id) hm (segDir_none.mpr rfl)
      cases hends.unique he

theorem Linked.correct (h : Linked segnum x ns) : x.tree.Correct (· < ·)
    (fun id m => ∃ l, Loop.Ends (x.tree.descendStep (segDir id)) none (some m, l)) ns := by
  obtain ⟨t, ht⟩ := h.indexes
  refine ⟨⟨t, ht⟩, fun n id hn => ?_⟩
  obtain ⟨m, l, hm, hmem, hk⟩ := ht.finds (guides_segments id) hn (segDir_none.mpr rfl)
  exact ⟨m, ⟨l, hm⟩, segDir_none.mp hk ▸ hmem⟩

/-- A lookup returns. -/
theorem Linked.looksUp (h : Linked segnum x ns) (s : Option Nat) {id : Nat}
    (hnew : ∀ y, lookup id = some y → y ∉ ns.map Prod.fst) : ∃ fuel r, x.lookupSegment fuel lookup s id = some r := by
  obtain ⟨t, ht⟩ := h.indexes
  have hends := ht.descends (segDir id)
  generalize Tree.seek _ t [] = q at hends
  obtain ⟨a, fs⟩ := q
  have hends' := hends
  obtain ⟨b, hrun⟩ := hends'
  cases hf : s.filter (x.id · = id) with
  | some s' => exact ⟨0, _, by rw [lookupSegment, hf]⟩
  | none =>
    by_cases hid : id < x.segnum
    · cases a with
      | some y => exact ⟨b, ⟨some y, x, false⟩, by rw [lookupSegment, hf]; simp only [if_pos hid, hrun]⟩
      | none =>
        cases hl : lookup id with
        | none => exact ⟨b, ⟨none, x, false⟩, by rw [lookupSegment, hf]; simp only [if_pos hid, hrun, hl]⟩
        | some y =>
          obtain ⟨a, t', ha⟩ := (ht.attach (guides_segments id) hends (hnew y hl) (fun _ => segDir_true)
            fun _ => segDir_false).1
          refine ⟨max a b, ⟨some y, { x.listed y id with hdr := t'.hdr, segtree := t'.root }, true⟩, ?_⟩
          rw [lookupSegment, hf]
          simp only [if_pos hid, Loop.run_mono hrun (Nat.le_max_right a b), hl]
          have hatt : (x.listed y id).tree.attach (max a b) (placeLink fs) y = some t' :=
            attach_mono (Nat.le_max_left a b) ha
          exact congrArg (Option.map fun t => (⟨some y, { x.listed y id with hdr := t.hdr, segtree := t.root }, true⟩ :
            LookedUp)) hatt
    · exact ⟨0, _, by rw [lookupSegment, hf]; exact if_neg hid⟩

end SegHeap

/-- **The trees are correct**, in whatever order they grow: the copy index and a request to it, the compiler's nodes and another
one, and the segments, with another one, and lookups. A session that began without segments has its last one last. -/
theorem trees_correct :
    (∀ x ns, CopiesIndexed x ns → x.Correct (fun a b => a.fend ≤ b.fbegin)
        (fun f m => ∃ l, Loop.Ends (x.descendStep (copyDir f)) none (some m, l)) ns ∧
      ∀ n, n ∉ ns.map Prod.fst → ∀ f, ∃ fuel r, copyIndex fuel x n f = some r ∧
        (r.1 = none ↔ ∀ m g, (m, g) ∈ ns → f.fend ≤ g.fbegin ∨ g.fend ≤ f.fbegin)) ∧
    (∀ x ns, NodesRead x ns → x.Correct (· ≤ ·) (fun id m => Loop.Ends (findNodeStep x id) x.root (some m)) ns ∧
      ∀ n, n ∉ ns.map Prod.fst → ∀ id, ∃ fuel x', readNode fuel x n id = some x') ∧
    ∀ lookup segnum x ns, SegmentsLinked lookup segnum x ns → x.tree.Correct (· < ·)
        (fun id m => ∃ l, Loop.Ends (x.tree.descendStep (segDir id)) none (some m, l)) ns ∧
      (x.LastIsMax ns → ∀ s, s ∉ ns.map Prod.fst → ∃ fuel x', x.appendSegment fuel s = some x') ∧
      (∀ s id, (∀ y, lookup id = some y → y ∉ ns.map Prod.fst) → ∃ fuel r, x.lookupSegment fuel lookup s id = some r) ∧
      (segnum = 0 → x.LastIsMax ns) := by
  refine ⟨fun x ns h => ⟨h.correct, fun n hn f => h.request hn f⟩, fun x ns h => ⟨h.correct, fun n hn id => ?_⟩,
    fun lookup segnum x ns h => ?_⟩
  · obtain ⟨t, ht⟩ := h.indexes
    exact (readNode_spec ht hn id).1
  · have hl := SegHeap.linked h
    refine ⟨hl.correct, fun hlast s hs => ?_, fun s id hnew => hl.looksUp s hnew, fun h0 => (hl.whole h0).1⟩
    obtain ⟨t, ht⟩ := hl.indexes
    exact (SegHeap.appendSegment_spec ht hs hlast hl.below).1

/-- Three nodes, in ascending order of their ids. -/
theorem trees_correct_three : ∃ x, NodesRead x [(2, 9), (1, 8), (0, 7)] ∧ x.Correct (· ≤ ·)
    (fun id m => Loop.Ends (findNodeStep x id) x.root (some m)) [(2, 9), (1, 8), (0, 7)] := by
  have h₀ := NodesRead.empty ⟨none, fun _ => {}, fun _ => 0⟩ rfl
  obtain ⟨fuel, x₁, e⟩ := (trees_correct.2.1 _ _ h₀).2 0 (by decide) 7
  have h₁ := NodesRead.insert h₀ (by decide) ⟨fuel, e⟩
  obtain ⟨fuel, x₂, e⟩ := (trees_correct.2.1 _ _ h₁).2 1 (by decide) 8
  have h₂ := NodesRead.insert h₁ (by decide) ⟨fuel, e⟩
  obtain ⟨fuel, x₃, e⟩ := (trees_correct.2.1 _ _ h₂).2 2 (by decide) 9
  have h₃ := NodesRead.insert h₂ (by decide) ⟨fuel, e⟩
  exact ⟨x₃, h₃, (trees_correct.2.1 _ _ h₃).1⟩

end Capnproto

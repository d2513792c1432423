import Capnproto.Object.TreeHeap

/-!
# Descending to a link, and inserting there

How the trees are used: from the root down to an empty link, each node on the way saying on which side to go on; a new node
is stored there, with the last node as its parent, and `capn_tree_insert` called. In a tree in memory that is sorted,
balanced and whole (`LinkedTree.Indexes`) the new one is in its place (`Indexes.attach`), and each node is found by what
only it says to be the one (`Indexes.finds`).
-/

namespace Capnproto

open SegHeap (Hangs)

/-- A tree in memory, with the keys of its nodes. -/
structure LinkedTree (κ : Type) where
  root : Option Nat
  hdr : TreeHeap
  key : Nat → κ

/-- A link: to the root, or one of a node. -/
abbrev TreeLink := Option (Nat × Bool)

namespace LinkedTree

variable {κ : Type}

/-- `*x`. -/
def load (x : LinkedTree κ) : TreeLink → Option Nat
  | none => x.root
  | some (y, d) => (x.hdr y).link d

/-- `*x = n`. -/
def store (x : LinkedTree κ) (l : TreeLink) (n : Nat) : LinkedTree κ :=
  match l with
  | none => { x with root := some n }
  | some (y, d) => { x with hdr := x.hdr.setLink y d (some n) }

/-- One iteration of a descent, from the link that it has come to: it ends at a node that is the one, or an empty link. -/
def descendStep (x : LinkedTree κ) (dir : κ → Option Bool) (l : TreeLink) : Step TreeLink (Option Nat × TreeLink) :=
  match x.load l with
  | none => .done (none, l)
  | some y =>
    match dir (x.key y) with
    | none => .done (some y, l)
    | some d => .next (some (y, d))

/-- The root and the headers, after `capn_tree_insert`. -/
def insert (fuel : Nat) (x : LinkedTree κ) (n : Nat) : Option (LinkedTree κ) :=
  (treeInsert fuel x.root x.hdr n).map fun t => { x with root := t.1, hdr := t.2 }

/-- `n->hdr.parent` is the node of the link, which is pointed to `n`; and `capn_tree_insert`. -/
def attach (fuel : Nat) (x : LinkedTree κ) (l : TreeLink) (n : Nat) : Option (LinkedTree κ) :=
  let x := x.store l n
  { x with hdr := x.hdr.setParent n (l.map Prod.fst) }.insert fuel n

/-- The nodes with their keys that are in the tree, sorted by `R` from left to right; each node's parent link is that
of the node that links to it; and the tree is a red-black tree. -/
structure Indexes (x : LinkedTree κ) (R : κ → κ → Prop) (ns : List (Nat × κ)) (t : Tree Nat) : Prop where
  hangs : Hangs x.hdr none x.root t
  nodes : (t.inorder.map fun n => (n, x.key n)).Perm ns
  nodup : (ns.map Prod.fst).Nodup
  sorted : (t.inorder.map x.key).Pairwise R
  redBlack : t.RedBlack

variable {x x' : LinkedTree κ} {R : κ → κ → Prop} {ns : List (Nat × κ)} {t : Tree Nat} {dir : κ → Option Bool}

theorem Indexes.mem (h : x.Indexes R ns t) {n : Nat} {k : κ} : (n, k) ∈ ns ↔ n ∈ t.inorder ∧ x.key n = k := by
  rw [← h.nodes.mem_iff, List.mem_map]
  constructor
  · rintro ⟨m, hm, e⟩
    cases e
    exact ⟨hm, rfl⟩
  · rintro ⟨hm, rfl⟩
    exact ⟨n, hm, rfl⟩

theorem Indexes.inorder_perm (h : x.Indexes R ns t) : t.inorder.Perm (ns.map Prod.fst) := by
  have := h.nodes.map Prod.fst
  rwa [List.map_map, show (Prod.fst ∘ fun n => (n, x.key n)) = id from rfl, List.map_id] at this

theorem Indexes.inorder_nodup (h : x.Indexes R ns t) : t.inorder.Nodup := h.inorder_perm.nodup_iff.mpr h.nodup

/-- The keys from left to right are those that are in the tree. -/
theorem Indexes.keys (h : x.Indexes R ns t) : (t.inorder.map x.key).Perm (ns.map Prod.snd) := by
  have := h.nodes.map Prod.snd
  rwa [List.map_map] at this

theorem indexes_empty (h : x.root = none) (R : κ → κ → Prop) : x.Indexes R [] .nil :=
  ⟨h, .refl _, .nil, .nil, Tree.redBlack_nil⟩

/-- The header and the key of a node that is not in the tree do not matter. -/
theorem Indexes.fresh (h : x.Indexes R ns t) {n : Nat} (hn : n ∉ ns.map Prod.fst) (v : TreeHdr) (k : κ) :
    { x with hdr := Function.update x.hdr n v, key := Function.update x.key n k }.Indexes R ns t := by
  have hne : ∀ m ∈ t.inorder, m ≠ n := fun m hm e => hn (e ▸ h.inorder_perm.mem_iff.mp hm)
  have hkey : ∀ m ∈ t.inorder, Function.update x.key n k m = x.key m := fun m hm => Function.update_of_ne (hne m hm) _ _
  have hhdr : ∀ m ∈ t.inorder, Function.update x.hdr n v m = x.hdr m := fun m hm => Function.update_of_ne (hne m hm) _ _
  have hpairs : ∀ m ∈ t.inorder, (m, Function.update x.key n k m) = (m, x.key m) := fun m hm => by rw [hkey m hm]
  refine ⟨h.hangs.congr (fun m hm => ?_) (fun m hm => ?_) fun m hm d => ?_, ?_, h.nodup, ?_, h.redBlack⟩
  · exact congrArg TreeHdr.parent (hhdr m hm)
  · exact congrArg TreeHdr.red (hhdr m hm)
  · exact congrArg (·.link d) (hhdr m hm)
  · rw [List.map_congr_left hpairs]
    exact h.nodes
  · rw [List.map_congr_left hkey]
    exact h.sorted

/-! ## Descents -/

/-- The link to a place. -/
def placeLink (fs : List (Frame Nat)) : TreeLink := fs.head?.map fun f => (f.label, f.right)

theorem load_place {p a : Option Nat} {fs : List (Frame Nat)} (hf : Encloses x.hdr x.root p a fs) :
    x.load (placeLink fs) = a ∧ (placeLink fs).map Prod.fst = p := by
  cases fs with
  | nil => exact ⟨hf.2, hf.1.symm⟩
  | cons f fs => exact ⟨hf.2.2.1, hf.1.symm⟩

/-- A descent goes where the search goes. -/
theorem descend_ends (x : LinkedTree κ) (dir : κ → Option Bool) {t : Tree Nat} {fs : List (Frame Nat)} {p a : Option Nat}
    (hf : Encloses x.hdr x.root p a fs) (ht : Hangs x.hdr p a t) :
    Loop.Ends (x.descendStep dir) (placeLink fs)
      ((Tree.seek (dir ∘ x.key) t fs).1, placeLink (Tree.seek (dir ∘ x.key) t fs).2) := by
  have hload := (load_place hf).1
  induction t generalizing fs p a with
  | nil =>
    have hstep : x.descendStep dir (placeLink fs) = .done (none, placeLink fs) := by
      rw [descendStep, hload, show a = none from ht]
    exact (Loop.ends_done hstep).mpr rfl
  | node c l n r ihl ihr =>
    obtain ⟨rfl, hpar, hred, hl, hr⟩ := ht
    rw [Tree.seek, Function.comp_apply]
    cases hd : dir (x.key n) with
    | none => exact (Loop.ends_done (by rw [descendStep, hload]; simp only [hd])).mpr rfl
    | some d =>
      have hstep : x.descendStep dir (placeLink fs) = .next (some (n, d)) := by
        rw [descendStep, hload]
        simp only [hd]
      rw [Loop.ends_next hstep]
      rw [← hpar] at hf
      cases d with
      | false =>
        have hf' : Encloses x.hdr x.root (some n) (x.hdr n).left (⟨false, c, n, r⟩ :: fs) := ⟨rfl, hred, rfl, hr, hf⟩
        exact ihl hf' hl (load_place hf').1
      | true =>
        have hf' : Encloses x.hdr x.root (some n) (x.hdr n).right (⟨true, c, n, l⟩ :: fs) := ⟨rfl, hred, rfl, hl, hf⟩
        exact ihr hf' hr (load_place hf').1

/-- From the root. -/
theorem Indexes.descends (h : x.Indexes R ns t) (dir : κ → Option Bool) : Loop.Ends (x.descendStep dir) none
    ((Tree.seek (dir ∘ x.key) t []).1, placeLink (Tree.seek (dir ∘ x.key) t []).2) :=
  x.descend_ends dir (show Encloses x.hdr x.root none x.root [] from ⟨rfl, rfl⟩) h.hangs

/-- The nodes of a sorted tree say the same about where to go. -/
theorem guides_key (hd : Tree.Guides dir R) (x : LinkedTree κ) :
    Tree.Guides (dir ∘ x.key) fun a b => R (x.key a) (x.key b) :=
  ⟨fun h => hd.right h, fun h => hd.left h⟩

/-- A descent that comes to a node has come to one that is the one. -/
theorem Indexes.found (h : x.Indexes R ns t) {y : Nat} {l : TreeLink}
    (e : Loop.Ends (x.descendStep dir) none (some y, l)) : (y, x.key y) ∈ ns ∧ dir (x.key y) = none := by
  have e' := (h.descends dir).unique e
  obtain ⟨t', -, -, hs⟩ := Tree.seek_eq (Prod.ext (Prod.ext_iff.mp e').1 rfl :
    Tree.seek (dir ∘ x.key) t [] = (some y, _))
  obtain ⟨hy, hm⟩ := hs y rfl
  exact ⟨h.mem.mpr ⟨hm, rfl⟩, hy⟩

/-- Where there is a node that is the one, a descent comes to one. -/
theorem Indexes.finds (h : x.Indexes R ns t) (hd : Tree.Guides dir R) {n : Nat} {k : κ} (hn : (n, k) ∈ ns)
    (hk : dir k = none) : ∃ y l, Loop.Ends (x.descendStep dir) none (some y, l) ∧ (y, x.key y) ∈ ns ∧
      dir (x.key y) = none := by
  obtain ⟨hm, rfl⟩ := h.mem.mp hn
  have hsorted : t.inorder.Pairwise fun a b => R (x.key a) (x.key b) := List.pairwise_map.mp h.sorted
  obtain ⟨y, hy⟩ : ∃ y, (Tree.seek (dir ∘ x.key) t []).1 = some y := Tree.seek_some (guides_key hd x) hsorted hm hk
  have e := h.descends dir
  rw [hy] at e
  exact ⟨y, _, e, h.found e⟩

/-! ## Insertions -/

/-- `x'` is `x` with the new node `n`, that is not in the tree, at the place: stored there, unless that is the root, and with
its parent set. -/
structure Attached (x : LinkedTree κ) (p : Option Nat) (fs : List (Frame Nat)) (n : Nat) (x' : LinkedTree κ) : Prop where
  parent : (x'.hdr n).parent = p
  parents : ∀ m ∈ Tree.marks fs, (x'.hdr m).parent = (x.hdr m).parent
  reds : ∀ m ∈ Tree.marks fs, (x'.hdr m).red = (x.hdr m).red
  links : ∀ m ∈ Tree.marks fs, ∀ d, (x'.hdr m).link d =
    if p = some m ∧ d = placeRight fs then some n else (x.hdr m).link d
  root : p ≠ none → x'.root = x.root
  keys : ∀ m ∈ Tree.marks fs, x'.key m = x.key m

/-- Without a parent, the new node becomes the root. -/
theorem treeInsert_root {h : TreeHeap} {n : Nat} (hp : (h n).parent = none) (root root' : Option Nat) (fuel : Nat) :
    treeInsert fuel root h n = treeInsert fuel root' h n := by
  have hstep : ∀ r, treeInsertStep ⟨r, ((h.setRed n true).setLink n false none).setLink n true none, n⟩ =
      .done (some (some n, (((h.setRed n true).setLink n false none).setLink n true none).setRed n false)) := by
    intro r
    rw [treeInsertStep]
    simp only [TreeHeap.parent_setLink, TreeHeap.parent_setRed, hp]
  rw [treeInsert, treeInsert]
  cases fuel with
  | zero => rfl
  | succ fuel => rw [Loop.run_succ_done (hstep root), Loop.run_succ_done (hstep root')]

theorem insert_mono {a b n : Nat} (hab : a ≤ b) (e : x.insert a n = some x') : x.insert b n = some x' := by
  rw [LinkedTree.insert, treeInsert] at e ⊢
  obtain ⟨q, hq, rfl⟩ := Option.map_eq_some_iff.mp e
  rw [Loop.run_mono (Option.join_eq_some_iff.mp hq) hab]
  rfl

theorem attach_mono {a b n : Nat} {l : TreeLink} (hab : a ≤ b) (e : x.attach a l n = some x') :
    x.attach b l n = some x' := insert_mono hab e

/-- **An insertion** at the place where the key belongs. -/
theorem Indexes.insert {n : Nat} {p : Option Nat} {fs : List (Frame Nat)} (h : x.Indexes R ns (Tree.plug fs .nil))
    (he : Encloses x.hdr x.root p none fs) (hn : n ∉ ns.map Prod.fst) (ha : x.Attached p fs n x')
    (hbefore : ∀ m ∈ Tree.before fs, R (x.key m) (x'.key n)) (hafter : ∀ m ∈ Tree.after fs, R (x'.key n) (x.key m)) :
    (∃ fuel x'', x'.insert fuel n = some x'') ∧ ∀ fuel x'', x'.insert fuel n = some x'' →
      x''.key = x'.key ∧ ∃ t, x''.Indexes R ((n, x'.key n) :: ns) t := by
  have hin : (Tree.plug fs .nil).inorder = Tree.before fs ++ Tree.after fs := by
    rw [Tree.inorder_plug, Tree.inorder, List.append_nil]
  have hperm := Tree.inorder_plug_perm fs (.nil : Tree Nat)
  have hmarks : ∀ m, m ∈ Tree.marks fs ↔ m ∈ (Tree.plug fs .nil).inorder := fun m => by
    rw [hperm.mem_iff, Tree.inorder, List.nil_append]
  have hnew : n ∉ Tree.marks fs := by
    rw [hmarks, h.inorder_perm.mem_iff]
    exact hn
  have hnodup : (Tree.marks fs).Nodup := by
    have := hperm.nodup_iff.mp h.inorder_nodup
    rwa [Tree.inorder, List.nil_append] at this
  have hne : ∀ m ∈ Tree.marks fs, m ≠ n := fun m hm e => hnew (e ▸ hm)
  have hblack : BlackRoot fs := fun f hf => by
    rw [← Tree.isRed_plug hf .nil, h.redBlack.black]
  obtain ⟨t, ht, -, hto⟩ := capnTreeInsert_spec fs .nil n .nil hblack
  rw [Tree.inorder, List.nil_append, List.append_assoc, List.singleton_append] at hto
  -- the call, with the root as it is when the node is stored
  have hcall : ∀ fuel, treeInsert fuel x'.root x'.hdr n =
      treeInsert fuel (if p = none then some n else x.root) x'.hdr n := by
    intro fuel
    by_cases hp : p = none
    · exact treeInsert_root (ha.parent.trans hp) _ _ fuel
    · rw [if_neg hp, ha.root hp]
  have hspot : Spot (((x'.hdr.setRed n true).setLink n false none).setLink n true none)
      (if p = none then some n else x.root) fs .nil n .nil := by
    refine ⟨?_, by simp, by simp [Hangs], by simp [Hangs], ?_⟩
    · rw [TreeHeap.parent_setLink, TreeHeap.parent_setLink, TreeHeap.parent_setRed, ha.parent]
      refine he.put hnodup (fun m hm => ?_) (fun m hm => ?_) (fun m hm d => ?_) rfl
      · simp [ha.parents m hm]
      · simp [ha.reds m hm, hne m hm]
      · simp [ha.links m hm, hne m hm]
    · exact List.nodup_cons.mpr ⟨hnew, hnodup⟩
  obtain ⟨root, hdr, hends, hhangs⟩ := treeInsert_ends (s := ⟨if p = none then some n else x.root,
    ((x'.hdr.setRed n true).setLink n false none).setLink n true none, n⟩) hspot ht
  obtain ⟨fuel, hrun⟩ := id hends
  refine ⟨⟨fuel, { x' with root := root, hdr := hdr }, ?_⟩, fun fuel x'' e => ?_⟩
  · rw [LinkedTree.insert, hcall, treeInsert, hrun]
    rfl
  · rw [LinkedTree.insert, hcall, treeInsert] at e
    obtain ⟨q, hq, rfl⟩ := Option.map_eq_some_iff.mp e
    cases hends.unique ⟨fuel, Option.join_eq_some_iff.mp hq⟩
    have hkey : ∀ m ∈ (Tree.plug fs .nil).inorder, x'.key m = x.key m := fun m hm => ha.keys m ((hmarks m).mpr hm)
    rw [hin] at hkey
    refine ⟨rfl, t, hhangs, ?_, List.nodup_cons.mpr ⟨hn, h.nodup⟩, ?_, capnTreeInsert_leaf h.redBlack ht⟩
    · have hnodes := h.nodes
      have hpairs : ∀ m ∈ Tree.before fs ++ Tree.after fs, (m, x'.key m) = (m, x.key m) := fun m hm => by
        rw [hkey m hm]
      rw [hin, ← List.map_congr_left hpairs] at hnodes
      rw [hto, List.map_append, List.map_cons]
      refine List.perm_middle.trans (List.Perm.cons _ ?_)
      rw [← List.map_append]
      exact hnodes
    · have hsorted := h.sorted
      rw [hin, ← List.map_congr_left hkey, List.map_append, List.pairwise_append] at hsorted
      rw [hto, List.map_append, List.map_cons, List.pairwise_append, List.pairwise_cons]
      refine ⟨hsorted.1, ⟨fun k hk => ?_, hsorted.2.1⟩, fun k hk k' hk' => ?_⟩
      · obtain ⟨m, hm, rfl⟩ := List.mem_map.mp hk
        show R (x'.key n) (x'.key m)
        rw [hkey m (List.mem_append_right _ hm)]
        exact hafter m hm
      · obtain ⟨m, hm, rfl⟩ := List.mem_map.mp hk
        rcases List.mem_cons.mp hk' with rfl | hk'
        · show R (x'.key m) (x'.key n)
          rw [hkey m (List.mem_append_left _ hm)]
          exact hbefore m hm
        · exact hsorted.2.2 _ hk _ hk'

/-- The place where a descent ends. -/
theorem Indexes.missed (h : x.Indexes R ns t) (hd : Tree.Guides dir R) {l : TreeLink}
    (e : Loop.Ends (x.descendStep dir) none (none, l)) : ∃ p fs, l = placeLink fs ∧ Tree.plug fs .nil = t ∧
      Encloses x.hdr x.root p none fs ∧ (∀ m ∈ Tree.before fs, dir (x.key m) = some true) ∧
      ∀ m ∈ Tree.after fs, dir (x.key m) = some false := by
  have e' := (h.descends dir).unique e
  obtain ⟨h1, h2⟩ := Prod.ext_iff.mp e'
  generalize hs : Tree.seek (dir ∘ x.key) t [] = q at h1 h2
  obtain ⟨a, fs⟩ := q
  cases h1
  obtain ⟨t', hplug, hnil, -⟩ := Tree.seek_eq hs
  rw [hnil rfl] at hplug
  have hsorted : (Tree.plug [] t).inorder.Pairwise fun a b => R (x.key a) (x.key b) := List.pairwise_map.mp h.sorted
  obtain ⟨hb, ha⟩ := Tree.seek_none (guides_key hd x) hsorted (fun a hm => absurd hm List.not_mem_nil)
    (fun a hm => absurd hm List.not_mem_nil) hs
  have hhangs := h.hangs
  rw [← show Tree.plug fs .nil = t from hplug] at hhangs
  obtain ⟨p, a, he, ha'⟩ := encloses_of_plug hhangs
  cases (show a = none from ha')
  exact ⟨p, fs, h2.symm, hplug, he, hb, ha⟩

/-- A new node, with its key, stored where a descent ended. -/
theorem attached_store {p : Option Nat} {fs : List (Frame Nat)} {n : Nat} (he : Encloses x.hdr x.root p none fs)
    (hn : n ∉ Tree.marks fs) (k : κ) : x.Attached p fs n (let x := { x with key := Function.update x.key n k }
      let x := x.store (placeLink fs) n
      { x with hdr := x.hdr.setParent n ((placeLink fs).map Prod.fst) }) := by
  have hne : ∀ m ∈ Tree.marks fs, m ≠ n := fun m hm e => hn (e ▸ hm)
  have hp := (load_place he).2
  cases fs with
  | nil =>
    refine ⟨?_, fun m hm => absurd hm List.not_mem_nil, fun m hm => absurd hm List.not_mem_nil,
      fun m hm => absurd hm List.not_mem_nil, fun h => absurd hp.symm h, fun m hm => absurd hm List.not_mem_nil⟩
    simp [hp]
  | cons f fs =>
    obtain ⟨rfl, -⟩ := he
    refine ⟨by simp [placeLink], fun m hm => ?_, fun m hm => ?_, fun m hm d => ?_, fun _ => rfl, fun m hm => ?_⟩
    · simp [placeLink, store, hne m hm]
    · simp [placeLink, store]
    · simp only [placeLink, store, List.head?_cons, Option.map_some, TreeHeap.link_setParent, TreeHeap.link_setLink,
        placeRight, Option.any_some, Option.some.injEq, eq_comm (a := m)]
    · exact Function.update_of_ne (hne m hm) _ _

/-- **A new node that is attached** where the descent for it ended is in its place. -/
theorem Indexes.attach (h : x.Indexes R ns t) (hd : Tree.Guides dir R) {l : TreeLink}
    (e : Loop.Ends (x.descendStep dir) none (none, l)) {n : Nat} (hn : n ∉ ns.map Prod.fst) {k : κ}
    (hlt : ∀ k', dir k' = some true → R k' k) (hgt : ∀ k', dir k' = some false → R k k') :
    (∃ fuel x'', { x with key := Function.update x.key n k }.attach fuel l n = some x'') ∧
      ∀ fuel x'', { x with key := Function.update x.key n k }.attach fuel l n = some x'' →
        x''.key = Function.update x.key n k ∧ ∃ t, x''.Indexes R ((n, k) :: ns) t := by
  obtain ⟨p, fs, rfl, rfl, he, hb, ha⟩ := h.missed hd e
  have hnew : n ∉ Tree.marks fs := by
    have hperm := Tree.inorder_plug_perm fs (.nil : Tree Nat)
    rw [Tree.inorder, List.nil_append] at hperm
    rw [← hperm.mem_iff, h.inorder_perm.mem_iff]
    exact hn
  have hatt := attached_store he hnew k
  have hkey : ∀ y : LinkedTree κ, (y.store (placeLink fs) n).key = y.key := fun y => by
    cases placeLink fs <;> rfl
  have hself : ({ x with key := Function.update x.key n k }.store (placeLink fs) n).key n = k := by
    rw [hkey]
    exact Function.update_self ..
  have hins := h.insert he hn hatt (fun m hm => ?_) (fun m hm => ?_)
  · refine ⟨hins.1, fun fuel x'' e' => ?_⟩
    obtain ⟨hk, t, ht⟩ := hins.2 fuel x'' e'
    have hpair : (n, ({ x with key := Function.update x.key n k }.store (placeLink fs) n).key n) = (n, k) := by rw [hself]
    exact ⟨hk.trans (hkey _), t, hpair ▸ ht⟩
  · show R (x.key m) (({ x with key := Function.update x.key n k }.store (placeLink fs) n).key n)
    rw [hself]
    exact hlt _ (hb m hm)
  · show R (({ x with key := Function.update x.key n k }.store (placeLink fs) n).key n) (x.key m)
    rw [hself]
    exact hgt _ (ha m hm)

end LinkedTree

end Capnproto

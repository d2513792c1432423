import Capnproto.Object.Balance
import Capnproto.Object.Regrow

/-!
# `capn_tree_insert` in memory

The nodes in memory that make up a tree (`Hangs`) and those around a place of it (`Encloses`), with their links, their
parent links and their colours. What the loop of `capn_tree_insert` stores makes them up the tree that the insertion gives
(`treeInsert_hangs`).
-/

namespace Capnproto

open SegHeap (Hangs)

/-! ## Headers -/

namespace TreeHeap

variable {h : TreeHeap} {n m : Nat} {d d' : Bool} {a p : Option Nat} {c : Bool}

@[simp] theorem parent_setParent : ((h.setParent n p) m).parent = if m = n then p else (h m).parent := by
  rw [setParent, Function.update_apply]
  split <;> rfl

@[simp] theorem link_setParent : ((h.setParent n p) m).link d = (h m).link d := by
  rw [setParent, Function.update_apply]
  split
  · rename_i e
    rw [e]
    rfl
  · rfl

@[simp] theorem red_setParent : ((h.setParent n p) m).red = (h m).red := by
  rw [setParent, Function.update_apply]
  split
  · rename_i e
    rw [e]
  · rfl

theorem setParent_self (hp : (h n).parent = p) : h.setParent n p = h := by
  rw [setParent, ← hp]
  exact Function.update_eq_self n h

@[simp] theorem parent_setRed : ((h.setRed n c) m).parent = (h m).parent := by
  rw [setRed, Function.update_apply]
  split
  · rename_i e
    rw [e]
  · rfl

@[simp] theorem link_setRed : ((h.setRed n c) m).link d = (h m).link d := by
  rw [setRed, Function.update_apply]
  split
  · rename_i e
    rw [e]
    rfl
  · rfl

@[simp] theorem red_setRed : ((h.setRed n c) m).red = if m = n then c else (h m).red := by
  rw [setRed, Function.update_apply]
  split <;> rfl

@[simp] theorem parent_setLink : ((h.setLink n d a) m).parent = (h m).parent := by
  rw [setLink, Function.update_apply]
  split
  · rename_i e
    rw [e]
    split <;> rfl
  · rfl

@[simp] theorem red_setLink : ((h.setLink n d a) m).red = (h m).red := by
  rw [setLink, Function.update_apply]
  split
  · rename_i e
    rw [e]
    split <;> rfl
  · rfl

@[simp] theorem link_setLink : ((h.setLink n d a) m).link d' = if m = n ∧ d' = d then a else (h m).link d' := by
  rw [setLink, Function.update_apply]
  by_cases e : m = n
  · subst e
    cases d <;> cases d' <;> simp [TreeHdr.link]
  · rw [if_neg e, if_neg fun h => e h.1]

@[simp] theorem parent_adopt : ((a.elim h fun t => h.setParent t p) m).parent =
    if a = some m then p else (h m).parent := by
  cases a with
  | none => rfl
  | some t => simp only [Option.elim_some, parent_setParent, Option.some.injEq, eq_comm]

@[simp] theorem link_adopt : ((a.elim h fun t => h.setParent t p) m).link d = (h m).link d := by
  cases a with
  | none => rfl
  | some t => exact link_setParent

@[simp] theorem red_adopt : ((a.elim h fun t => h.setParent t p) m).red = (h m).red := by
  cases a with
  | none => rfl
  | some t => exact red_setParent

end TreeHeap

namespace TreeInsert

variable {s : TreeInsert} {gp : Option Nat} {d d' : Bool} {n m : Nat}

@[simp] theorem parent_setGglink : ((s.setGglink gp d n).heap m).parent = (s.heap m).parent := by
  cases gp with
  | none => rfl
  | some gp => exact TreeHeap.parent_setLink

@[simp] theorem red_setGglink : ((s.setGglink gp d n).heap m).red = (s.heap m).red := by
  cases gp with
  | none => rfl
  | some gp => exact TreeHeap.red_setLink

@[simp] theorem link_setGglink : ((s.setGglink gp d n).heap m).link d' =
    if gp = some m ∧ d' = d then some n else (s.heap m).link d' := by
  cases gp with
  | none => simp [setGglink]
  | some gp => simp only [setGglink, TreeHeap.link_setLink, Option.some.injEq, eq_comm (a := gp)]

@[simp] theorem root_setGglink : (s.setGglink gp d n).root = if gp = none then some n else s.root := by
  cases gp with
  | none => rfl
  | some gp => rfl

end TreeInsert

/-! ## Trees in memory -/

section

variable {h h' : TreeHeap} {root root' : Option Nat} {p p' a a' : Option Nat} {n : Nat} {t l r : Tree Nat}
  {fs : List (Frame Nat)}

theorem SegHeap.Hangs.root_mem {m : Nat} (ht : Hangs h p (some m) t) : m ∈ t.inorder := by
  cases t with
  | nil => cases ht
  | node c l n r =>
    cases ht.1
    exact List.mem_append_right _ List.mem_cons_self

theorem hangs_fill {f : Frame Nat} : Hangs h p a (f.fill t) ↔ a = some f.label ∧ (h f.label).parent = p ∧
    (h f.label).red = f.red ∧ Hangs h (some f.label) ((h f.label).link f.right) t ∧
      Hangs h (some f.label) ((h f.label).link !f.right) f.sibling := by
  rw [Frame.fill]
  cases f.right with
  | false => exact Iff.rfl
  | true =>
    simp only [if_true, Hangs, TreeHdr.link, Bool.not_true, Bool.false_eq_true, if_false]
    tauto

theorem SegHeap.Hangs.congr (ht : Hangs h p a t) (hp : ∀ m ∈ t.inorder, (h' m).parent = (h m).parent)
    (hr : ∀ m ∈ t.inorder, (h' m).red = (h m).red) (hl : ∀ m ∈ t.inorder, ∀ d, (h' m).link d = (h m).link d) :
    Hangs h' p a t := by
  induction t generalizing p a with
  | nil => exact ht
  | node c l n r ihl ihr =>
    obtain ⟨ha, hpar, hred, hleft, hright⟩ := ht
    have hn : n ∈ (Tree.node c l n r).inorder := List.mem_append_right _ List.mem_cons_self
    have hml : ∀ m ∈ l.inorder, m ∈ (Tree.node c l n r).inorder := fun m hm => List.mem_append_left _ hm
    have hmr : ∀ m ∈ r.inorder, m ∈ (Tree.node c l n r).inorder := fun m hm =>
      List.mem_append_right _ (List.mem_cons_of_mem _ hm)
    refine ⟨ha, (hp n hn).trans hpar, (hr n hn).trans hred, ?_, ?_⟩
    · rw [show (h' n).left = (h n).left from hl n hn false]
      exact ihl hleft (fun m hm => hp m (hml m hm)) (fun m hm => hr m (hml m hm)) fun m hm => hl m (hml m hm)
    · rw [show (h' n).right = (h n).right from hl n hn true]
      exact ihr hright (fun m hm => hp m (hmr m hm)) (fun m hm => hr m (hmr m hm)) fun m hm => hl m (hmr m hm)

/-- A tree whose root gets another parent. -/
theorem SegHeap.Hangs.move (ht : Hangs h p a t) (hnd : t.inorder.Nodup)
    (hp : ∀ m ∈ t.inorder, (h' m).parent = if a = some m then p' else (h m).parent)
    (hr : ∀ m ∈ t.inorder, (h' m).red = (h m).red) (hl : ∀ m ∈ t.inorder, ∀ d, (h' m).link d = (h m).link d) :
    Hangs h' p' a t := by
  cases t with
  | nil => exact ht
  | node c l n r =>
    obtain ⟨rfl, hpar, hred, hleft, hright⟩ := ht
    rw [Tree.inorder, List.nodup_append, List.nodup_cons] at hnd
    obtain ⟨-, ⟨hnr, -⟩, hln⟩ := hnd
    have hn : n ∈ (Tree.node c l n r).inorder := List.mem_append_right _ List.mem_cons_self
    have hml : ∀ m ∈ l.inorder, m ∈ (Tree.node c l n r).inorder := fun m hm => List.mem_append_left _ hm
    have hmr : ∀ m ∈ r.inorder, m ∈ (Tree.node c l n r).inorder := fun m hm =>
      List.mem_append_right _ (List.mem_cons_of_mem _ hm)
    refine ⟨rfl, by rw [hp n hn, if_pos rfl], (hr n hn).trans hred, ?_, ?_⟩
    · rw [show (h' n).left = (h n).left from hl n hn false]
      refine hleft.congr (fun m hm => ?_) (fun m hm => hr m (hml m hm)) fun m hm => hl m (hml m hm)
      rw [hp m (hml m hm), if_neg fun e => hln m hm n List.mem_cons_self (Option.some.inj e).symm]
    · rw [show (h' n).right = (h n).right from hl n hn true]
      refine hright.congr (fun m hm => ?_) (fun m hm => hr m (hmr m hm)) fun m hm => hl m (hmr m hm)
      rw [hp m (hmr m hm), if_neg fun e => hnr (by cases e; exact hm)]

/-- The nodes around a place, from there up to the root: `p` is the parent of what is there, and `a` the link to it. -/
def Encloses (h : TreeHeap) (root : Option Nat) : Option Nat → Option Nat → List (Frame Nat) → Prop
  | p, a, [] => p = none ∧ root = a
  | p, a, f :: fs => p = some f.label ∧ (h f.label).red = f.red ∧ (h f.label).link f.right = a ∧
      Hangs h (some f.label) ((h f.label).link !f.right) f.sibling ∧ Encloses h root (h f.label).parent (some f.label) fs

/-- The tree, with what is at the place. -/
theorem Encloses.plug (hf : Encloses h root p a fs) (ht : Hangs h p a t) : Hangs h none root (Tree.plug fs t) := by
  induction fs generalizing p a t with
  | nil =>
    obtain ⟨rfl, rfl⟩ := hf
    exact ht
  | cons f fs ih =>
    obtain ⟨rfl, hred, hlink, hsib, hrest⟩ := hf
    refine ih hrest (hangs_fill.mpr ⟨rfl, rfl, hred, ?_, hsib⟩)
    rw [hlink]
    exact ht

/-- A tree, taken apart. -/
theorem encloses_of_plug (ht : Hangs h none root (Tree.plug fs t)) : ∃ p a, Encloses h root p a fs ∧ Hangs h p a t := by
  induction fs generalizing t with
  | nil => exact ⟨none, root, ⟨rfl, rfl⟩, ht⟩
  | cons f fs ih =>
    obtain ⟨p, a, hf, hfill⟩ := ih ht
    obtain ⟨rfl, rfl, hred, hhang, hsib⟩ := hangs_fill.mp hfill
    exact ⟨some f.label, _, ⟨rfl, hred, rfl, hsib, hf⟩, hhang⟩

theorem Encloses.congr (hf : Encloses h root p a fs) (hp : ∀ m ∈ Tree.marks fs, (h' m).parent = (h m).parent)
    (hr : ∀ m ∈ Tree.marks fs, (h' m).red = (h m).red) (hl : ∀ m ∈ Tree.marks fs, ∀ d, (h' m).link d = (h m).link d) :
    Encloses h' root p a fs := by
  induction fs generalizing p a with
  | nil => exact hf
  | cons f fs ih =>
    obtain ⟨rfl, hred, hlink, hsib, hrest⟩ := hf
    have hm : f.label ∈ Tree.marks (f :: fs) := List.mem_cons_self
    have hms : ∀ m ∈ f.sibling.inorder, m ∈ Tree.marks (f :: fs) := fun m hm =>
      List.mem_cons_of_mem _ (List.mem_append_left _ hm)
    have hmf : ∀ m ∈ Tree.marks fs, m ∈ Tree.marks (f :: fs) := fun m hm =>
      List.mem_cons_of_mem _ (List.mem_append_right _ hm)
    refine ⟨rfl, (hr _ hm).trans hred, (hl _ hm _).trans hlink, ?_, ?_⟩
    · rw [hl _ hm]
      exact hsib.congr (fun m hm => hp m (hms m hm)) (fun m hm => hr m (hms m hm)) fun m hm => hl m (hms m hm)
    · rw [hp _ hm]
      exact ih hrest (fun m hm => hp m (hmf m hm)) (fun m hm => hr m (hmf m hm)) fun m hm => hl m (hmf m hm)

/-- On which side of its parent a place is. -/
def placeRight (fs : List (Frame Nat)) : Bool := fs.head?.any (·.right)

/-- Something else is put at a place. -/
theorem Encloses.put {b : Option Nat} (hf : Encloses h root p a fs) (hnd : (Tree.marks fs).Nodup)
    (hp : ∀ m ∈ Tree.marks fs, (h' m).parent = (h m).parent) (hr : ∀ m ∈ Tree.marks fs, (h' m).red = (h m).red)
    (hl : ∀ m ∈ Tree.marks fs, ∀ d, (h' m).link d = if p = some m ∧ d = placeRight fs then b else (h m).link d)
    (hroot : root' = if p = none then b else root) : Encloses h' root' p b fs := by
  cases fs with
  | nil =>
    obtain ⟨rfl, rfl⟩ := hf
    exact ⟨rfl, hroot⟩
  | cons f fs =>
    obtain ⟨rfl, hred, hlink, hsib, hrest⟩ := hf
    rw [Tree.marks, List.nodup_cons, List.mem_append] at hnd
    have hm : f.label ∈ Tree.marks (f :: fs) := List.mem_cons_self
    have hms : ∀ m ∈ f.sibling.inorder, m ∈ Tree.marks (f :: fs) := fun m hm =>
      List.mem_cons_of_mem _ (List.mem_append_left _ hm)
    have hmf : ∀ m ∈ Tree.marks fs, m ∈ Tree.marks (f :: fs) := fun m hm =>
      List.mem_cons_of_mem _ (List.mem_append_right _ hm)
    have hside : (!f.right) ≠ placeRight (f :: fs) := by
      show (!f.right) ≠ f.right
      cases f.right <;> decide
    -- no other link changes
    have hne : ∀ m, m ∈ f.sibling.inorder ∨ m ∈ Tree.marks fs → ∀ d, (h' m).link d = (h m).link d := by
      intro m hm d
      rw [hl m (List.mem_cons_of_mem _ (List.mem_append.mpr hm)), if_neg]
      rintro ⟨e, -⟩
      exact hnd.1 (Option.some.inj e ▸ hm)
    refine ⟨rfl, (hr _ hm).trans hred, by rw [hl _ hm, if_pos ⟨rfl, rfl⟩], ?_, ?_⟩
    · rw [hl _ hm, if_neg fun e => hside e.2]
      exact hsib.congr (fun m hm => hp m (hms m hm)) (fun m hm => hr m (hms m hm)) fun m hm => hne m (.inl hm)
    · rw [hp _ hm, hroot, if_neg (Option.some_ne_none _)]
      exact hrest.congr (fun m hm => hp m (hmf m hm)) (fun m hm => hr m (hmf m hm)) fun m hm => hne m (.inr hm)

/-- Whether the link to a node around a place is the right one of its parent. -/
theorem Encloses.right {g : Nat} (hf : Encloses h root p (some g) fs) (hg : g ∉ Tree.marks fs) :
    (p.any fun q => decide ((h q).right = some g)) = placeRight fs := by
  cases fs with
  | nil =>
    rw [hf.1]
    rfl
  | cons f fs =>
    obtain ⟨rfl, -, hlink, hsib, -⟩ := hf
    show decide ((h f.label).link true = some g) = f.right
    cases hd : f.right with
    | true =>
      rw [hd] at hlink
      exact decide_eq_true hlink
    | false =>
      rw [hd] at hsib
      refine decide_eq_false fun e => hg ?_
      rw [Bool.not_false, e] at hsib
      exact List.mem_cons_of_mem _ (List.mem_append_left _ hsib.root_mem)

/-! ## The insertion -/

/-- A red node in memory at a place, above `l` and `r`, with all nodes different from each other. -/
structure Spot (h : TreeHeap) (root : Option Nat) (fs : List (Frame Nat)) (l : Tree Nat) (n : Nat) (r : Tree Nat) :
    Prop where
  around : Encloses h root (h n).parent (some n) fs
  red : (h n).red = true
  left : Hangs h (some n) ((h n).link false) l
  right : Hangs h (some n) ((h n).link true) r
  nodup : ((l.inorder ++ n :: r.inorder) ++ Tree.marks fs).Nodup

theorem Spot.hangs (hs : Spot h root fs l n r) : Hangs h (h n).parent (some n) (.node true l n r) :=
  ⟨rfl, rfl, hs.red, hs.left, hs.right⟩

/-- The subtree on one side. -/
def kid (d : Bool) (l r : Tree Nat) : Tree Nat := if d then r else l

theorem Spot.kid (hs : Spot h root fs l n r) (d : Bool) : Hangs h (some n) ((h n).link d) (kid d l r) := by
  cases d with
  | false => exact hs.left
  | true => exact hs.right

/-- The rotations, for either side. -/
theorem rotate_eq {p g : Frame Nat} {u : Tree Nat} {n : Nat} :
    (match g.right, p.right with
      | true, false => Tree.node false (.node true u g.label l) n (.node true r p.label p.sibling)
      | false, true => .node false (.node true p.sibling p.label l) n (.node true r g.label u)
      | true, true => .node false (.node true u g.label p.sibling) p.label (.node true l n r)
      | false, false => .node false (.node true l n r) p.label (.node true p.sibling g.label u)) =
    if g.right = p.right then
      Frame.fill ⟨g.right, false, p.label, Frame.fill ⟨g.right, true, g.label, u⟩ p.sibling⟩ (.node true l n r)
    else
      Frame.fill ⟨g.right, false, n, Frame.fill ⟨g.right, true, g.label, u⟩ (Capnproto.kid (!g.right) l r)⟩
        (Frame.fill ⟨!g.right, true, p.label, p.sibling⟩ (Capnproto.kid g.right l r)) := by
  cases g.right <;> cases p.right <;> rfl

theorem Encloses.parent_mem {m : Nat} (hf : Encloses h root (some m) a fs) : m ∈ Tree.marks fs := by
  cases fs with
  | nil => cases hf.1
  | cons f fs =>
    cases hf.1
    exact List.mem_cons_self

theorem Spot.kid_mem (hs : Spot h root fs l n r) {d : Bool} {m : Nat} (e : (h n).link d = some m) :
    m ∈ (Capnproto.kid d l r).inorder := by
  have hk := hs.kid d
  rw [e] at hk
  exact hk.root_mem

section

variable {p g : Frame Nat} {rest : List (Frame Nat)}

/-- The nodes of the subtrees, of the ways between them, and of the rest. -/
theorem Spot.apart (hs : Spot h root (p :: g :: rest) l n r) (d : Bool) :
    ((Capnproto.kid d l r).inorder ++ ((Capnproto.kid (!d) l r).inorder ++ (n :: p.label :: g.label ::
      (p.sibling.inorder ++ (g.sibling.inorder ++ Tree.marks rest))))).Nodup := by
  have hnd := hs.nodup
  rw [List.nodup_iff_count] at hnd ⊢
  intro m
  have := hnd m
  simp only [Tree.marks, List.count_append, List.count_cons] at this ⊢
  cases d <;> simp only [Capnproto.kid, Bool.not_true, Bool.not_false, Bool.false_eq_true, if_true, if_false] <;> omega

/-- What a rotation on the parent and then on the grandparent stores. -/
theorem Spot.rotate_twice (hs : Spot h root (p :: g :: rest) l n r) (hred : p.red = true) (hside : g.right ≠ p.right)
    (hp : ∀ m, (h' m).parent = if (h n).link (!g.right) = some m then some g.label
      else if (h n).link g.right = some m then some p.label
      else if m = g.label then some n else if m = p.label then some n
      else if m = n then (h g.label).parent else (h m).parent)
    (hr : ∀ m, (h' m).red = if m = g.label then true else if m = n then false else (h m).red)
    (hl : ∀ m d, (h' m).link d = if (h g.label).parent = some m ∧ d = placeRight rest then some n
      else if m = n ∧ d = (!g.right) then some g.label else if m = n ∧ d = g.right then some p.label
      else if m = g.label ∧ d = g.right then (h n).link !g.right
      else if m = p.label ∧ d = (!g.right) then (h n).link g.right else (h m).link d)
    (hroot : root' = if (h g.label).parent = none then some n else root) :
    Hangs h' none root' (Tree.plug rest (Frame.fill
      ⟨g.right, false, n, Frame.fill ⟨g.right, true, g.label, g.sibling⟩ (Capnproto.kid (!g.right) l r)⟩
      (Frame.fill ⟨!g.right, true, p.label, p.sibling⟩ (Capnproto.kid g.right l r)))) := by
  have hnd := hs.apart g.right
  have hkid := @hs.kid_mem
  obtain ⟨-, hpred, hplink, hpsib, hgpar, hgred, hglink, hgsib, hrest⟩ := hs.around
  have hgp : ∀ m, (h g.label).parent = some m → m ∈ Tree.marks rest := fun m e => (e ▸ hrest).parent_mem
  have hsides : p.right = !g.right := by revert hside; cases g.right <;> cases p.right <;> simp
  simp only [List.nodup_append, List.nodup_cons, List.mem_append, List.mem_cons, not_or] at hnd
  have hside : (!g.right) ≠ g.right := by cases g.right <;> decide
  refine (hrest.put (b := some n) (by grind) (by grind) (by grind) (by grind) hroot).plug ?_
  refine hangs_fill.mpr ⟨rfl, by grind, by grind, hangs_fill.mpr ⟨by grind, by grind, by grind, ?_, ?_⟩,
    hangs_fill.mpr ⟨by grind, by grind, by grind, ?_, ?_⟩⟩
  · have e : (h' p.label).link (!g.right) = (h n).link g.right := by grind
    rw [e]
    exact (hs.kid g.right).move (by grind) (by grind) (by grind) (by grind)
  · have e : (h' p.label).link (!!g.right) = (h p.label).link (!p.right) := by grind
    rw [e]
    exact hpsib.congr (by grind) (by grind) (by grind)
  · have e : (h' g.label).link g.right = (h n).link (!g.right) := by grind
    rw [e]
    exact (hs.kid (!g.right)).move (by grind) (by grind) (by grind) (by grind)
  · have e : (h' g.label).link (!g.right) = (h g.label).link (!g.right) := by grind
    rw [e]
    exact hgsib.congr (by grind) (by grind) (by grind)

/-- What a rotation on the grandparent stores. -/
theorem Spot.rotate_once (hs : Spot h root (p :: g :: rest) l n r) (hside : g.right = p.right)
    (hp : ∀ m, (h' m).parent = if (h p.label).link (!g.right) = some m then some g.label
      else if m = g.label then some p.label else if m = p.label then (h g.label).parent else (h m).parent)
    (hr : ∀ m, (h' m).red = if m = p.label then false else if m = g.label then true else (h m).red)
    (hl : ∀ m d, (h' m).link d = if (h g.label).parent = some m ∧ d = placeRight rest then some p.label
      else if m = p.label ∧ d = (!g.right) then some g.label
      else if m = g.label ∧ d = g.right then (h p.label).link !g.right else (h m).link d)
    (hroot : root' = if (h g.label).parent = none then some p.label else root) :
    Hangs h' none root' (Tree.plug rest (Frame.fill
      ⟨g.right, false, p.label, Frame.fill ⟨g.right, true, g.label, g.sibling⟩ p.sibling⟩ (.node true l n r))) := by
  have hnd := hs.apart g.right
  obtain ⟨hpar, hpred, hplink, hpsib, hgpar, hgred, hglink, hgsib, hrest⟩ := hs.around
  have hgp : ∀ m, (h g.label).parent = some m → m ∈ Tree.marks rest := fun m e => (e ▸ hrest).parent_mem
  have hsib : ∀ m, (h p.label).link (!g.right) = some m → m ∈ p.sibling.inorder := fun m e => by
    rw [hside] at e
    exact (e ▸ hpsib).root_mem
  have hnode : ∀ m, m ∈ (Tree.node true l n r).inorder ↔ m ∈ (Capnproto.kid g.right l r).inorder ∨
      m ∈ (Capnproto.kid (!g.right) l r).inorder ∨ m = n := fun m => by
    rw [Tree.inorder, List.mem_append, List.mem_cons]
    cases g.right <;> simp only [Capnproto.kid, Bool.not_true, Bool.not_false, Bool.false_eq_true, if_true, if_false] <;> tauto
  simp only [List.nodup_append, List.nodup_cons, List.mem_append, List.mem_cons, not_or] at hnd
  have hside' : (!g.right) ≠ g.right := by cases g.right <;> decide
  refine (hrest.put (b := some p.label) (by grind) (by grind) (by grind) (by grind) hroot).plug ?_
  refine hangs_fill.mpr ⟨rfl, by grind, by grind, ?_, hangs_fill.mpr ⟨by grind, by grind, by grind, ?_, ?_⟩⟩
  · have e : (h' p.label).link g.right = some n := by grind
    rw [e, ← hpar]
    exact hs.hangs.congr (by grind) (by grind) (by grind)
  · have e : (h' g.label).link g.right = (h p.label).link (!p.right) := by grind
    rw [e]
    exact hpsib.move (by grind) (by grind) (by grind) (by grind)
  · have e : (h' g.label).link (!g.right) = (h g.label).link (!g.right) := by grind
    rw [e]
    exact hgsib.congr (by grind) (by grind) (by grind)

/-- What turning the parent and the uncle black, and the grandparent red, stores. -/
theorem Spot.recolour (hs : Spot h root (p :: g :: rest) l n r) {c : Bool} {ul ur : Tree Nat} {u : Nat}
    (hu : g.sibling = .node c ul u ur) (hp : ∀ m, (h' m).parent = (h m).parent)
    (hr : ∀ m, (h' m).red = if m = g.label then true else if m = u then false else if m = p.label then false
      else (h m).red)
    (hl : ∀ m d, (h' m).link d = (h m).link d) :
    Encloses h' root (h' g.label).parent (some g.label) rest ∧ (h' g.label).red = true ∧
      Hangs h' (some g.label) ((h' g.label).link g.right) (Frame.fill { p with red := false } (.node true l n r)) ∧
      Hangs h' (some g.label) ((h' g.label).link !g.right) (.node false ul u ur) := by
  have hnd := hs.nodup
  obtain ⟨hpar, hpred, hplink, hpsib, hgpar, hgred, hglink, hgsib, hrest⟩ := hs.around
  rw [hu] at hgsib
  obtain ⟨hulink, hupar, -, hul, hur⟩ := hgsib
  simp only [Tree.marks, hu, Tree.inorder, List.nodup_append, List.nodup_cons, List.mem_append, List.mem_cons,
    not_or] at hnd
  have hul' : (h' u).left = (h u).left := hl u false
  have hur' : (h' u).right = (h u).right := hl u true
  refine ⟨?_, by rw [hr, if_pos rfl], hangs_fill.mpr ⟨by grind, by grind, by grind, ?_, ?_⟩,
    by grind, by grind, by grind, ?_, ?_⟩
  · rw [hp]
    exact hrest.congr (by grind) (by grind) (by grind)
  · rw [hl, hplink, ← hpar]
    exact hs.hangs.congr (by grind) (by grind [Tree.inorder]) (by grind)
  · rw [hl]
    exact hpsib.congr (by grind) (by grind) (by grind)
  · rw [hul']
    exact hul.congr (by grind) (by grind) (by grind)
  · rw [hur']
    exact hur.congr (by grind) (by grind) (by grind)

end

/-! ## The loop -/

/-- Rotating, where there is no red uncle. -/
theorem capnTreeInsert_rotate {p g : Frame Nat} {rest : List (Frame Nat)} {n : Nat} (hp : p.red = true)
    (hu : g.sibling.isRed = false) : capnTreeInsert l n r (p :: g :: rest) = some (Tree.plug rest <|
      if g.right = p.right then
        Frame.fill ⟨g.right, false, p.label, Frame.fill ⟨g.right, true, g.label, g.sibling⟩ p.sibling⟩ (.node true l n r)
      else
        Frame.fill ⟨g.right, false, n, Frame.fill ⟨g.right, true, g.label, g.sibling⟩ (Capnproto.kid (!g.right) l r)⟩
          (Frame.fill ⟨!g.right, true, p.label, p.sibling⟩ (Capnproto.kid g.right l r))) := by
  rw [capnTreeInsert, if_pos hp]
  cases hg : g.sibling with
  | nil => exact congrArg (fun t => some (Tree.plug rest t)) rotate_eq
  | node c ul u ur =>
    rw [hg] at hu
    cases c with
    | true => cases hu
    | false => exact congrArg (fun t => some (Tree.plug rest t)) rotate_eq

/-- Going on from the grandparent, where the uncle is red. -/
theorem capnTreeInsert_recolour {p g : Frame Nat} {rest : List (Frame Nat)} {n u : Nat} {ul ur : Tree Nat}
    (hp : p.red = true) (hu : g.sibling = .node true ul u ur) : capnTreeInsert l n r (p :: g :: rest) =
      if g.right then capnTreeInsert (.node false ul u ur) g.label (Frame.fill { p with red := false } (.node true l n r)) rest
      else capnTreeInsert (Frame.fill { p with red := false } (.node true l n r)) g.label (.node false ul u ur) rest := by
  rw [capnTreeInsert, if_pos hp, hu]

section

variable {s : TreeInsert} {p g : Frame Nat} {rest : List (Frame Nat)}

/-- At the root. -/
theorem treeInsertStep_root (hs : Spot s.heap s.root [] l s.n r) :
    treeInsertStep s = .done (some (some s.n, s.heap.setRed s.n false)) ∧
      Hangs (s.heap.setRed s.n false) none (some s.n) (.node false l s.n r) := by
  obtain ⟨hpar, hroot⟩ := hs.around
  have hnd := hs.nodup
  simp only [Tree.marks, List.nodup_append, List.nodup_cons, List.append_nil, List.mem_cons] at hnd
  refine ⟨by rw [treeInsertStep, hpar], rfl, by rw [TreeHeap.parent_setRed, hpar],
    by rw [TreeHeap.red_setRed, if_pos rfl], ?_, ?_⟩
  · rw [show ((s.heap.setRed s.n false) s.n).left = (s.heap s.n).link false from TreeHeap.link_setRed (d := false)]
    exact hs.left.congr (by simp) (by grind [TreeHeap.red_setRed]) (by simp)
  · rw [show ((s.heap.setRed s.n false) s.n).right = (s.heap s.n).link true from TreeHeap.link_setRed (d := true)]
    exact hs.right.congr (by simp) (by grind [TreeHeap.red_setRed]) (by simp)

/-- Below a black node. -/
theorem treeInsertStep_black {fs : List (Frame Nat)} (hs : Spot s.heap s.root (p :: fs) l s.n r) (hp : p.red = false) :
    treeInsertStep s = .done (some (s.root, s.heap)) := by
  have hpar : (s.heap s.n).parent = some p.label := hs.around.1
  have hpred : (s.heap p.label).red = p.red := hs.around.2.1
  rw [treeInsertStep, hpar]
  simp only [hpred, hp, if_true]

/-- On which sides the node and its parent are. -/
theorem Spot.sides {h : TreeHeap} {root : Option Nat} {n : Nat} (hs : Spot h root (p :: g :: rest) l n r) :
    decide ((h p.label).right = some n) = p.right ∧ decide ((h g.label).right = some p.label) = g.right ∧
      ((h g.label).parent.any fun q => decide ((h q).right = some g.label)) = placeRight rest := by
  have hnd := hs.nodup
  simp only [Tree.marks, List.nodup_append, List.nodup_cons, List.mem_append, List.mem_cons, not_or] at hnd
  obtain ⟨hpar, -, -, -, hrest⟩ := id hs.around
  obtain ⟨hgpar, -, -, -, hgrest⟩ := id hrest
  refine ⟨?_, ?_, hgrest.right (by grind)⟩
  · have := hs.around.right (by simp only [Tree.marks, List.mem_cons, List.mem_append]; grind)
    rwa [hpar] at this
  · have := hrest.right (by simp only [Tree.marks, List.mem_cons, List.mem_append]; grind)
    rwa [hgpar] at this

theorem treeInsertStep_rotate (hs : Spot s.heap s.root (p :: g :: rest) l s.n r) (hp : p.red = true)
    (hu : g.sibling.isRed = false) (e : capnTreeInsert l s.n r (p :: g :: rest) = some t) :
    ∃ root' h', treeInsertStep s = .done (some (root', h')) ∧ Hangs h' none root' t := by
  obtain ⟨hn, hdir, hgp⟩ := hs.sides
  obtain ⟨hpar, hpred, -, -, hgpar, -, -, hgsib, -⟩ := hs.around
  have hblack : (((s.heap g.label).link !g.right).filter fun u => (s.heap u).red) = none := by
    cases hg : g.sibling with
    | nil =>
      rw [hg] at hgsib
      have hlink : (s.heap g.label).link (!g.right) = none := hgsib
      rw [hlink]
      rfl
    | node c ul u ur =>
      rw [hg] at hgsib hu
      obtain ⟨hlink, -, hured, -⟩ := hgsib
      rw [hlink, Option.filter_some, hured]
      exact if_neg (by rw [show c = false from hu]; exact Bool.false_ne_true)
  cases (capnTreeInsert_rotate hp hu).symm.trans e
  rw [treeInsertStep]
  simp only [hpar, hpred, hp, hgpar, hdir, hn, hgp, hblack, Bool.true_eq_false, if_false]
  by_cases hside : g.right = p.right
  · rw [if_pos hside, if_neg (not_not_intro hside)]
    refine ⟨_, _, rfl, hs.rotate_once hside (fun m => ?_) (fun m => ?_) (fun m d => ?_) ?_⟩
    · simp
    · simp
    · simp
    · simp
  · rw [if_neg hside, if_pos hside]
    refine ⟨_, _, rfl, hs.rotate_twice hp hside (fun m => ?_) (fun m => ?_) (fun m d => ?_) ?_⟩
    · simp
    · simp
    · simp
    · simp

/-- The nodes are the same after recolouring. -/
theorem Spot.nodup_recolour {h : TreeHeap} {root : Option Nat} {n u : Nat} {ul ur l' r' : Tree Nat} {c : Bool}
    (hs : Spot h root (p :: g :: rest) l n r) (hu : g.sibling = .node c ul u ur)
    (hperm : (l'.inorder ++ r'.inorder).Perm
      ((Frame.fill { p with red := false } (.node true l n r)).inorder ++ (Tree.node false ul u ur).inorder)) :
    ((l'.inorder ++ g.label :: r'.inorder) ++ Tree.marks rest).Nodup := by
  have hold := hs.nodup
  rw [List.nodup_iff_count] at hold ⊢
  intro m
  have h1 := hold m
  have h2 := hperm.count_eq m
  have h3 := (Tree.inorder_fill_perm { p with red := false } (.node true l n r)).count_eq m
  simp only [Tree.marks, Tree.inorder, hu, List.count_append, List.count_cons] at h1 h2 h3 ⊢
  omega

theorem treeInsertStep_recolour (hs : Spot s.heap s.root (p :: g :: rest) l s.n r) (hp : p.red = true) {ul ur : Tree Nat}
    {u : Nat} (hu : g.sibling = .node true ul u ur) (e : capnTreeInsert l s.n r (p :: g :: rest) = some t) :
    ∃ s' l' r', treeInsertStep s = .next s' ∧ Spot s'.heap s'.root rest l' s'.n r' ∧
      capnTreeInsert l' s'.n r' rest = some t := by
  obtain ⟨-, hdir, -⟩ := hs.sides
  obtain ⟨haround, hred, hparent, huncle⟩ := hs.recolour hu
    (show ∀ m, ((((s.heap.setRed p.label false).setRed u false).setRed g.label true) m).parent = (s.heap m).parent from
      fun m => by simp) (fun m => by simp) fun m d => by simp
  obtain ⟨hpar, hpred, -, -, hgpar, -, -, hgsib, -⟩ := id hs.around
  rw [hu] at hgsib
  obtain ⟨hlink, -, hured, -⟩ := hgsib
  have hfilter : (((s.heap g.label).link !g.right).filter fun u => (s.heap u).red) = some u := by
    rw [hlink, Option.filter_some, hured]
    exact if_pos rfl
  have hstep : treeInsertStep s = .next { s with
      heap := ((s.heap.setRed p.label false).setRed u false).setRed g.label true, n := g.label } := by
    rw [treeInsertStep]
    simp only [hpar, hpred, hp, hgpar, hdir, hfilter, Bool.true_eq_false, if_false]
  rw [capnTreeInsert_recolour hp hu] at e
  cases hg : g.right with
  | true =>
    rw [hg, if_pos rfl] at e
    rw [hg] at hparent huncle
    exact ⟨_, _, _, hstep, ⟨haround, hred, huncle, hparent, hs.nodup_recolour hu List.perm_append_comm⟩, e⟩
  | false =>
    rw [hg, if_neg Bool.false_ne_true] at e
    rw [hg] at hparent huncle
    exact ⟨_, _, _, hstep, ⟨haround, hred, hparent, huncle, hs.nodup_recolour hu (List.Perm.refl _)⟩, e⟩

end

/-- **One iteration** of `capn_tree_insert` ends with the tree that the insertion gives, or goes on from the
grandparent. -/
theorem treeInsertStep_spec {s : TreeInsert} (hs : Spot s.heap s.root fs l s.n r)
    (e : capnTreeInsert l s.n r fs = some t) :
    (∃ root' h', treeInsertStep s = .done (some (root', h')) ∧ Hangs h' none root' t) ∨
    ∃ s' fs' l' r', treeInsertStep s = .next s' ∧ Spot s'.heap s'.root fs' l' s'.n r' ∧
      capnTreeInsert l' s'.n r' fs' = some t ∧ fs'.length < fs.length := by
  match fs with
  | [] =>
    cases e
    exact .inl ⟨_, _, treeInsertStep_root hs⟩
  | [p] =>
    have hplug := hs.around.plug hs.hangs
    cases hp : p.red with
    | true =>
      rw [capnTreeInsert, hp] at e
      cases e
    | false =>
      rw [capnTreeInsert, hp] at e
      cases e
      exact .inl ⟨_, _, treeInsertStep_black hs hp, hplug⟩
  | p :: g :: rest =>
    have hplug := hs.around.plug hs.hangs
    cases hp : p.red with
    | false =>
      rw [capnTreeInsert, hp] at e
      cases e
      exact .inl ⟨_, _, treeInsertStep_black hs hp, hplug⟩
    | true =>
      cases hred : g.sibling.isRed with
      | false => exact .inl (treeInsertStep_rotate hs hp hred e)
      | true =>
        cases hu : g.sibling with
        | nil =>
          rw [hu] at hred
          cases hred
        | node c ul u ur =>
          rw [hu] at hred
          cases hred
          obtain ⟨s', l', r', hstep, hs', e'⟩ := treeInsertStep_recolour hs hp hu e
          exact .inr ⟨s', rest, l', r', hstep, hs', e', by simp only [List.length_cons]; omega⟩

/-- **`capn_tree_insert`**, from a node at a place on, makes the tree that the insertion gives. -/
theorem treeInsert_ends {s : TreeInsert} (hs : Spot s.heap s.root fs l s.n r) (e : capnTreeInsert l s.n r fs = some t) :
    ∃ root' h', Loop.Ends treeInsertStep s (some (root', h')) ∧ Hangs h' none root' t := by
  induction hlen : fs.length using Nat.strong_induction_on generalizing s fs l r with
  | _ m ih =>
    rcases treeInsertStep_spec hs e with ⟨root', h', hstep, ht⟩ | ⟨s', fs', l', r', hstep, hs', e', hlt⟩
    · exact ⟨root', h', (Loop.ends_done hstep).mpr rfl, ht⟩
    · obtain ⟨root', h', hends, ht⟩ := ih _ (hlen ▸ hlt) hs' e' rfl
      exact ⟨root', h', (Loop.ends_next hstep).mpr hends, ht⟩

end

end Capnproto

import Capnproto.Framework.Zipper
import Capnproto.Session

/-!
# The index of segments

`capn_append_segment` gives a segment the next id, puts it at the end of the list, and hangs it below the segment that
was last, from where `capn_tree_insert` restores the colours. Ids are positions in the list then, the tree holds the
listed segments in order (`SegIndex.Whole`), and `lookup_segment` finds each by its id (`SegIndex.Whole.lookup`): it is
the `lookupSegment` of a session.
-/

namespace Capnproto

/-! ## `capn_tree_insert` -/

section

variable {α : Type}

/-- `capn_tree_insert`, for a node with the children `l` and `r` that was put at the place of the frames. `none` if a
null pointer is followed: there is no grandparent. -/
def capnTreeInsert (l : Tree α) (n : α) (r : Tree α) : List (Frame α) → Option (Tree α)
  | [] => some (.node false l n r)
  | [p] => if p.red then none else some (p.fill (.node true l n r))
  | p :: g :: rest =>
    if p.red then
      match g.sibling with
      | .node true ul u ur =>
        -- the parent and the uncle are red: go on with the grandparent
        let p' := Frame.fill { p with red := false } (.node true l n r)
        let u' := Tree.node false ul u ur
        if g.right then capnTreeInsert u' g.label p' rest else capnTreeInsert p' g.label u' rest
      | u =>
        some <| Tree.plug rest <|
          match g.right, p.right with
          -- rotate on the parent, then on the grandparent
          | true, false => .node false (.node true u g.label l) n (.node true r p.label p.sibling)
          | false, true => .node false (.node true p.sibling p.label l) n (.node true r g.label u)
          -- rotate on the grandparent
          | true, true => .node false (.node true u g.label p.sibling) p.label (.node true l n r)
          | false, false => .node false (.node true l n r) p.label (.node true p.sibling g.label u)
    else some (Tree.plug rest (g.fill (p.fill (.node true l n r))))

/-- The root is black. -/
def BlackRoot (fs : List (Frame α)) : Prop := ∀ f, fs.getLast? = some f → f.red = false

theorem BlackRoot.tail {f g : Frame α} {fs : List (Frame α)} (h : BlackRoot (f :: g :: fs)) : BlackRoot (g :: fs) :=
  fun x hx => h x (by rwa [List.getLast?_cons_cons])

theorem BlackRoot.rest {f g : Frame α} {fs : List (Frame α)} (h : BlackRoot (f :: g :: fs)) : BlackRoot fs := by
  intro x hx
  cases fs with
  | nil => cases hx
  | cons e fs => exact h.tail.tail x hx

/-- What is put into a tree below a black root leaves the root black. -/
theorem isRed_plug_black {fs : List (Frame α)} (h : BlackRoot fs) {t : Tree α} (ht : t.isRed = false) :
    (Tree.plug fs t).isRed = false := by
  cases hl : fs.getLast? with
  | none =>
    rw [List.getLast?_eq_none_iff.mp hl]
    exact ht
  | some f => rw [Tree.isRed_plug hl, h f hl]

/-- The insertion is defined below a black root, keeps it black, and keeps the order of the labels. -/
theorem capnTreeInsert_spec (fs : List (Frame α)) (l : Tree α) (n : α) (r : Tree α) (h : BlackRoot fs) :
    ∃ t, capnTreeInsert l n r fs = some t ∧ t.isRed = false ∧
      t.inorder = Tree.before fs ++ (l.inorder ++ n :: r.inorder) ++ Tree.after fs := by
  match fs with
  | [] => exact ⟨_, rfl, rfl, by simp [Tree.before, Tree.after, Tree.inorder]⟩
  | [p] =>
    have hp := h p rfl
    refine ⟨p.fill (.node true l n r), by rw [capnTreeInsert, hp]; rfl, ?_, ?_⟩
    · rw [Frame.fill, hp]
      split <;> rfl
    · rw [Tree.inorder_fill]
      simp [Tree.before, Tree.after, Tree.inorder]
  | p :: g :: rest =>
    rw [capnTreeInsert]
    by_cases hp : p.red = true
    · rw [if_pos hp]
      cases hu : g.sibling with
      | nil =>
        refine ⟨_, rfl, isRed_plug_black h.rest ?_, ?_⟩
        · split <;> rfl
        · rw [Tree.inorder_plug]
          simp only [Tree.before, Tree.after, hu]
          split <;> simp_all [Tree.inorder]
      | node c ul u ur =>
        cases c with
        | true =>
          simp only
          split
          · rename_i hg
            obtain ⟨t, ht, hred, hin⟩ := capnTreeInsert_spec rest (.node false ul u ur) g.label
              (Frame.fill { p with red := false } (.node true l n r)) h.rest
            refine ⟨t, ht, hred, ?_⟩
            rw [hin, Tree.inorder_fill]
            simp only [Tree.before, Tree.after, hu, hg]
            simp [Tree.inorder]
          · rename_i hg
            obtain ⟨t, ht, hred, hin⟩ := capnTreeInsert_spec rest
              (Frame.fill { p with red := false } (.node true l n r)) g.label (.node false ul u ur) h.rest
            refine ⟨t, ht, hred, ?_⟩
            rw [hin, Tree.inorder_fill]
            simp only [Tree.before, Tree.after, hu, hg]
            simp [Tree.inorder]
        | false =>
          refine ⟨_, rfl, isRed_plug_black h.rest ?_, ?_⟩
          · split <;> rfl
          · rw [Tree.inorder_plug]
            simp only [Tree.before, Tree.after, hu]
            split <;> simp_all [Tree.inorder]
    · rw [if_neg hp]
      refine ⟨_, rfl, ?_, ?_⟩
      · obtain ⟨f, hf⟩ : ∃ f, (p :: g :: rest).getLast? = some f :=
          Option.isSome_iff_exists.mp (List.getLast?_isSome.mpr (List.cons_ne_nil _ _))
        show (Tree.plug (p :: g :: rest) _).isRed = false
        rw [Tree.isRed_plug hf, h f hf]
      · rw [Tree.inorder_plug, Tree.inorder_fill, Tree.inorder_fill]
        simp [Tree.before, Tree.after, Tree.inorder]

/-- The frames from a place up to a black root. -/
theorem blackRoot_of_plug {f : Frame α} {fs : List (Frame α)} {t : Tree α} (h : (Tree.plug (f :: fs) t).isRed = false) :
    BlackRoot (f :: fs) := fun g hg => by
  rw [← Tree.isRed_plug hg t]
  exact h

variable [DecidableEq α]

/-- The last label of a tree has nothing to its right. -/
theorem locate_last {as : List α} {a : α} (hno : a ∉ as) {t : Tree α} (ht : t.inorder = as ++ [a]) {c : Bool}
    {l r : Tree α} {fs : List (Frame α)} (h : Tree.locate a t [] = some ((c, l, r), fs)) :
    r = .nil ∧ Tree.after fs = [] ∧ Tree.before fs ++ l.inorder = as := by
  have hplug := congrArg Tree.inorder (Tree.locate_plug h)
  rw [Tree.inorder_plug, Tree.inorder, Tree.plug, ht] at hplug
  have hsplit : (Tree.before fs ++ l.inorder) ++ a :: (r.inorder ++ Tree.after fs) = as ++ [a] := by
    rw [← hplug]
    simp only [List.append_assoc, List.cons_append]
  rcases List.append_eq_append_iff.mp hsplit with ⟨bs, h1, h2⟩ | ⟨cs, h1, h2⟩
  · cases bs with
    | nil =>
      rw [List.append_nil] at h1
      have hnil := (List.cons.inj h2).2
      obtain ⟨hr, ha⟩ := List.append_eq_nil_iff.mp hnil
      exact ⟨Tree.inorder_eq_nil hr, ha, h1.symm⟩
    | cons b bs =>
      refine absurd ?_ hno
      rw [h1, (List.cons.inj h2).1]
      exact List.mem_append_right _ List.mem_cons_self
  · cases cs with
    | nil =>
      rw [List.append_nil] at h1
      have hnil := (List.cons.inj h2).2.symm
      obtain ⟨hr, ha⟩ := List.append_eq_nil_iff.mp hnil
      exact ⟨Tree.inorder_eq_nil hr, ha, h1⟩
    | cons b cs =>
      have := congrArg List.length h2
      simp only [List.length_cons, List.length_append, List.length_nil] at this
      omega

/-- What is hung to the right of the last label comes after it. -/
theorem capnTreeInsert_last {as : List α} {a : α} (hno : a ∉ as) {t : Tree α} (ht : t.inorder = as ++ [a])
    (hred : t.isRed = false) (b : α) : ∃ c l fs t', Tree.locate a t [] = some ((c, l, .nil), fs) ∧
      capnTreeInsert .nil b .nil (⟨true, c, a, l⟩ :: fs) = some t' ∧ t'.isRed = false ∧
      t'.inorder = t.inorder ++ [b] := by
  have hmem : a ∈ t.inorder := by
    rw [ht]
    exact List.mem_append_right _ List.mem_cons_self
  obtain ⟨⟨⟨c, l, r⟩, fs⟩, hloc⟩ := Option.isSome_iff_exists.mp (Tree.locate_isSome hmem [])
  obtain ⟨rfl, hafter, hbefore⟩ := locate_last hno ht hloc
  have hplug : Tree.plug (⟨true, c, a, l⟩ :: fs) .nil = t := Tree.locate_plug hloc
  obtain ⟨t', ht', hred', hin⟩ := capnTreeInsert_spec _ .nil b .nil (blackRoot_of_plug (by rw [hplug]; exact hred))
  refine ⟨c, l, fs, t', hloc, ht', hred', ?_⟩
  rw [hin, ht]
  simp only [Tree.before, Tree.after, Tree.inorder, hafter, if_true, List.nil_append, List.append_nil]
  rw [← List.append_assoc, hbefore]

end

/-! ## Segments -/

/-- The list of segments, by their ids, `segnum`, and `segtree`, with a segment given by its place in the list. -/
structure SegIndex where
  ids : List Nat
  segnum : Nat
  tree : Tree Nat

namespace SegIndex

/-- A session without segments. -/
def empty : SegIndex := ⟨[], 0, .nil⟩

/-- `capn_append_segment`: the new segment is put to the right of `lastseg`, where that is in the tree. `none` if a null
pointer is followed. -/
def append (x : SegIndex) : Option SegIndex :=
  let s := x.ids.length
  let tree : Option (Tree Nat) :=
    if s = 0 then capnTreeInsert .nil s .nil []
    else
      match Tree.locate (s - 1) x.tree [] with
      | none => none
      | some ((c, l, _), fs) => capnTreeInsert .nil s .nil (⟨true, c, s - 1, l⟩ :: fs)
  tree.map fun t => ⟨x.ids ++ [x.segnum], x.segnum + 1, t⟩

/-- `lookup_segment`, without a segment to try first and without a `lookup` callback. -/
def lookup (x : SegIndex) (id : Nat) : Option Nat :=
  if id < x.segnum then x.tree.search (fun s => x.ids.getD s 0) id else none

/-- Ids are places in the list, and the tree holds the listed segments, in order. -/
structure Whole (x : SegIndex) : Prop where
  ids : x.ids = List.range x.segnum
  tree : x.tree.inorder = List.range x.segnum
  black : x.tree.isRed = false

variable {x : SegIndex}

theorem whole_empty : empty.Whole := ⟨rfl, rfl, rfl⟩

/-- **A segment that is appended** is listed and indexed with its id. -/
theorem Whole.append (h : x.Whole) : ∃ x', x.append = some x' ∧ x'.Whole ∧ x'.segnum = x.segnum + 1 := by
  have hlen : x.ids.length = x.segnum := by rw [h.ids, List.length_range]
  have hids : x.ids ++ [x.segnum] = List.range (x.segnum + 1) := by rw [h.ids, List.range_succ]
  rw [SegIndex.append, hlen]
  by_cases h0 : x.segnum = 0
  · rw [if_pos h0]
    refine ⟨_, rfl, ⟨hids, ?_, rfl⟩, rfl⟩
    rw [h0]
    rfl
  · rw [if_neg h0]
    obtain ⟨n, hn⟩ := Nat.exists_eq_succ_of_ne_zero h0
    have htree := h.tree
    rw [hn, Nat.succ_eq_add_one, List.range_succ] at htree
    have hno : n ∉ List.range n := fun h => Nat.lt_irrefl n (List.mem_range.mp h)
    obtain ⟨c, l, fs, t, hloc, ht, hred, hin⟩ := capnTreeInsert_last hno htree h.black x.segnum
    rw [show x.segnum - 1 = n by omega, hloc]
    simp only [ht, Option.map_some]
    refine ⟨_, rfl, ⟨hids, ?_, hred⟩, rfl⟩
    rw [hin, h.tree, ← List.range_succ]

/-- Every listed segment is found by its id, and no other. -/
theorem Whole.lookup (h : x.Whole) (id : Nat) : x.lookup id = if id < x.segnum then some id else none := by
  rw [SegIndex.lookup]
  split
  · rename_i hid
    have hkey : ∀ s, s < x.segnum → x.ids.getD s 0 = s := by
      intro s hs
      rw [h.ids, List.getD_eq_getElem?_getD, List.getElem?_range hs, Option.getD_some]
    have hsorted : x.tree.inorder.Pairwise fun a b => x.ids.getD a 0 < x.ids.getD b 0 := by
      rw [h.tree]
      refine List.pairwise_lt_range.imp_of_mem fun ha hb hab => ?_
      rw [hkey _ (List.mem_range.mp ha), hkey _ (List.mem_range.mp hb)]
      exact hab
    have := Tree.search_mem hsorted (a := id) (by rw [h.tree]; exact List.mem_range.mpr hid)
    rwa [hkey id hid] at this
  · rfl

end SegIndex

end Capnproto

import Capnproto.Framework.Zipper

/-!
# Red-black trees

The conditions on the colours of a tree, taken apart at a place as the labels are: what is black on the way
(`Tree.Height`, `Tree.Tall`), and no red node below a red one (`Tree.Alternates`, `Tree.Admits`). And a search that
asks each node on its way where to go on (`Tree.seek`): in a tree that is sorted the answers to the left of the place where it
misses are all that it lies to the right (`seek_none`), and a node that says that it is the one is found (`seek_some`).
-/

namespace Capnproto

variable {α : Type}

namespace Tree

/-- Every path from the root to an empty link has `n` black nodes. -/
def Height : Tree α → Nat → Prop
  | nil, n => n = 0
  | node c l _ r, n => ∃ k, n = k + (if c then 0 else 1) ∧ l.Height k ∧ r.Height k

/-- No red node has a red child. -/
def Alternates : Tree α → Prop
  | nil => True
  | node c l _ r => (c = true → l.isRed = false ∧ r.isRed = false) ∧ l.Alternates ∧ r.Alternates

/-- A tree with `k` black nodes on each path, at the place, gives one with equal numbers. -/
def Tall : List (Frame α) → Nat → Prop
  | [], _ => True
  | f :: fs, k => f.sibling.Height k ∧ Tall fs (k + if f.red then 0 else 1)

/-- A tree with no red node below a red one, and a root of the colour, may be put at the place. -/
def Admits : List (Frame α) → Bool → Prop
  | [], _ => True
  | f :: fs, c => (f.red = true → c = false ∧ f.sibling.isRed = false) ∧ f.sibling.Alternates ∧ Admits fs f.red

/-- The root is black, no red node has a red child, and all paths have the same number of black nodes. -/
structure RedBlack (t : Tree α) : Prop where
  black : t.isRed = false
  alternates : t.Alternates
  height : ∃ n, t.Height n

theorem redBlack_nil : (nil : Tree α).RedBlack := ⟨rfl, trivial, 0, rfl⟩

theorem isRed_fill (f : Frame α) (t : Tree α) : (f.fill t).isRed = f.red := by
  rw [Frame.fill]
  split <;> rfl

theorem height_fill {f : Frame α} {t : Tree α} {n : Nat} : (f.fill t).Height n ↔
    ∃ k, n = k + (if f.red then 0 else 1) ∧ t.Height k ∧ f.sibling.Height k := by
  rw [Frame.fill]
  split
  · simp only [Height, and_comm]
  · rfl

theorem alternates_fill {f : Frame α} {t : Tree α} : (f.fill t).Alternates ↔
    (f.red = true → t.isRed = false ∧ f.sibling.isRed = false) ∧ t.Alternates ∧ f.sibling.Alternates := by
  rw [Frame.fill]
  split
  · simp only [Alternates, and_comm]
  · rfl

theorem height_plug {fs : List (Frame α)} {t : Tree α} {k : Nat} (hf : Tall fs k) (ht : t.Height k) :
    ∃ n, (plug fs t).Height n := by
  induction fs generalizing t k with
  | nil => exact ⟨k, ht⟩
  | cons f fs ih => exact ih hf.2 (height_fill.mpr ⟨k, rfl, ht, hf.1⟩)

theorem tall_of_plug {fs : List (Frame α)} {t : Tree α} {n : Nat} (h : (plug fs t).Height n) :
    ∃ k, t.Height k ∧ Tall fs k := by
  induction fs generalizing t with
  | nil => exact ⟨n, h, trivial⟩
  | cons f fs ih =>
    obtain ⟨k, hk, hf⟩ := ih h
    obtain ⟨j, rfl, ht, hs⟩ := height_fill.mp hk
    exact ⟨j, ht, hs, hf⟩

theorem alternates_plug {fs : List (Frame α)} {t : Tree α} :
    (plug fs t).Alternates ↔ t.Alternates ∧ Admits fs t.isRed := by
  induction fs generalizing t with
  | nil => exact ⟨fun h => ⟨h, trivial⟩, fun h => h.1⟩
  | cons f fs ih =>
    rw [plug, ih, alternates_fill, isRed_fill, Admits]
    tauto

/-! ## Search -/

/-- The way down to a node that says so, or to an empty place: each node on the way says where to go, to the right
or not. -/
def seek (dir : α → Option Bool) : Tree α → List (Frame α) → Option α × List (Frame α)
  | nil, fs => (none, fs)
  | node c l a r, fs =>
    match dir a with
    | none => (some a, fs)
    | some false => seek dir l (⟨false, c, a, r⟩ :: fs)
    | some true => seek dir r (⟨true, c, a, l⟩ :: fs)

/-- Nodes in an order agree about where to go. -/
structure Guides (dir : α → Option Bool) (R : α → α → Prop) : Prop where
  right : ∀ {a b}, R a b → dir b = some true → dir a = some true
  left : ∀ {a b}, R a b → dir a = some false → dir b = some false

section

variable {dir : α → Option Bool} {R : α → α → Prop}

theorem seek_eq {t : Tree α} {fs gs : List (Frame α)} {a : Option α} (h : seek dir t fs = (a, gs)) :
    ∃ t', plug gs t' = plug fs t ∧ (a = none → t' = nil) ∧ ∀ b, a = some b → dir b = none ∧ b ∈ t.inorder := by
  induction t generalizing fs with
  | nil =>
    cases h
    exact ⟨nil, rfl, fun _ => rfl, fun b hb => absurd hb.symm (Option.some_ne_none _)⟩
  | node c l b r ihl ihr =>
    rw [seek] at h
    split at h
    · rename_i hb
      cases h
      refine ⟨_, rfl, fun hn => absurd hn (Option.some_ne_none _), fun b' hb' => ?_⟩
      cases hb'
      exact ⟨hb, List.mem_append_right _ List.mem_cons_self⟩
    · obtain ⟨t', hp, hn, hs⟩ := ihl h
      exact ⟨t', hp, hn, fun b' hb' => ⟨(hs b' hb').1, List.mem_append_left _ (hs b' hb').2⟩⟩
    · obtain ⟨t', hp, hn, hs⟩ := ihr h
      exact ⟨t', hp, hn, fun b' hb' =>
        ⟨(hs b' hb').1, List.mem_append_right _ (List.mem_cons_of_mem _ (hs b' hb').2)⟩⟩

/-- Where the search misses, all to the left say right, and all to the right say left. -/
theorem seek_none (hd : Guides dir R) {t : Tree α} {fs gs : List (Frame α)} (hs : (plug fs t).inorder.Pairwise R)
    (hb : ∀ a ∈ before fs, dir a = some true) (ha : ∀ a ∈ after fs, dir a = some false)
    (h : seek dir t fs = (none, gs)) :
    (∀ a ∈ before gs, dir a = some true) ∧ ∀ a ∈ after gs, dir a = some false := by
  induction t generalizing fs with
  | nil =>
    cases h
    exact ⟨hb, ha⟩
  | node c l a r ihl ihr =>
    have hs' := hs
    rw [inorder_plug, inorder, List.pairwise_append, List.pairwise_append, List.pairwise_append,
      List.pairwise_cons] at hs'
    obtain ⟨⟨-, ⟨-, ⟨hr, -⟩, hl⟩, -⟩, -, -⟩ := hs'
    rw [seek] at h
    split at h
    · cases h
    · rename_i hdir
      refine ihl hs (fun b hm => ?_) (fun b hm => ?_) h
      · rw [before, if_neg Bool.false_ne_true, List.append_nil] at hm
        exact hb b hm
      · rw [after, if_neg Bool.false_ne_true, List.cons_append, List.mem_cons, List.mem_append] at hm
        rcases hm with rfl | hm | hm
        · exact hdir
        · exact hd.left (hr b hm) hdir
        · exact ha b hm
    · rename_i hdir
      refine ihr hs (fun b hm => ?_) (fun b hm => ?_) h
      · rw [before, if_pos rfl, List.mem_append, List.mem_append, List.mem_singleton] at hm
        rcases hm with hm | hm | rfl
        · exact hb b hm
        · exact hd.right (hl b hm a List.mem_cons_self) hdir
        · exact hdir
      · rw [after, if_pos rfl, List.nil_append] at hm
        exact ha b hm

/-- A node that says that it is the one, or another that does, is found. -/
theorem seek_some (hd : Guides dir R) {t : Tree α} {fs : List (Frame α)} (hs : t.inorder.Pairwise R) {a : α}
    (hm : a ∈ t.inorder) (ha : dir a = none) : ∃ b, (seek dir t fs).1 = some b := by
  induction t generalizing fs with
  | nil => cases hm
  | node c l b r ihl ihr =>
    rw [inorder, List.pairwise_append, List.pairwise_cons] at hs
    obtain ⟨hl, ⟨hbr, hr⟩, hlr⟩ := hs
    rw [inorder, List.mem_append, List.mem_cons] at hm
    rw [seek]
    split
    · exact ⟨b, rfl⟩
    · rename_i hdir
      rcases hm with hm | rfl | hm
      · exact ihl hl hm
      · rw [ha] at hdir
        cases hdir
      · have := hd.left (hbr a hm) hdir
        rw [ha] at this
        cases this
    · rename_i hdir
      rcases hm with hm | rfl | hm
      · have := hd.right (hlr a hm b List.mem_cons_self) hdir
        rw [ha] at this
        cases this
      · rw [ha] at hdir
        cases hdir
      · exact ihr hr hm

end

end Tree

end Capnproto

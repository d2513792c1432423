import Mathlib.Data.List.Basic

/-!
# Coloured trees and the way to a node

A tree with red and black nodes, taken apart at a place: the frames from there up to the root (`plug`
puts them back). Labels are counted in order, so that a change at the place that keeps the order of
its labels keeps the order of all (`inorder_plug`), and a search by keys that increase in that order
finds every label (`search_mem`).
-/

namespace Capnproto

inductive Tree (α : Type) where
  | nil
  | node (red : Bool) (left : Tree α) (label : α) (right : Tree α)

/-- A node without the child on one side. -/
structure Frame (α : Type) where
  right : Bool
  red : Bool
  label : α
  sibling : Tree α

variable {α : Type}

/-- The node, with the child. -/
def Frame.fill (f : Frame α) (t : Tree α) : Tree α :=
  if f.right then .node f.red f.sibling f.label t else .node f.red t f.label f.sibling

namespace Tree

/-- The tree with `t` at the place that the frames lead to, from the place to the root. -/
def plug : List (Frame α) → Tree α → Tree α
  | [], t => t
  | f :: fs, t => plug fs (f.fill t)

/-- The labels from left to right. -/
def inorder : Tree α → List α
  | nil => []
  | node _ l a r => l.inorder ++ a :: r.inorder

/-- The colour of the root; no root is black. -/
def isRed : Tree α → Bool
  | nil => false
  | node c _ _ _ => c

theorem inorder_eq_nil {t : Tree α} (h : t.inorder = []) : t = nil := by
  cases t with
  | nil => rfl
  | node c l a r => exact absurd h (List.append_ne_nil_of_right_ne_nil _ (List.cons_ne_nil _ _))

/-! ## Places -/

/-- The labels to the left of a place. -/
def before : List (Frame α) → List α
  | [] => []
  | f :: fs => before fs ++ if f.right then f.sibling.inorder ++ [f.label] else []

/-- The labels to the right of a place. -/
def after : List (Frame α) → List α
  | [] => []
  | f :: fs => (if f.right then [] else f.label :: f.sibling.inorder) ++ after fs

theorem inorder_fill (f : Frame α) (t : Tree α) : (f.fill t).inorder =
    (if f.right then f.sibling.inorder ++ [f.label] else []) ++ t.inorder ++
      if f.right then [] else f.label :: f.sibling.inorder := by
  rw [Frame.fill]
  split <;> simp [inorder]

theorem inorder_plug (fs : List (Frame α)) (t : Tree α) :
    (plug fs t).inorder = before fs ++ t.inorder ++ after fs := by
  induction fs generalizing t with
  | nil => simp [plug, before, after]
  | cons f fs ih =>
    rw [plug, ih, inorder_fill, before, after]
    simp only [List.append_assoc]

/-- The labels outside of a place. -/
def marks : List (Frame α) → List α
  | [] => []
  | f :: fs => f.label :: (f.sibling.inorder ++ marks fs)

theorem inorder_fill_perm (f : Frame α) (t : Tree α) :
    (f.fill t).inorder.Perm (t.inorder ++ f.label :: f.sibling.inorder) := by
  rw [Frame.fill]
  split
  · exact List.perm_middle.trans (List.Perm.trans (List.Perm.cons _ List.perm_append_comm) List.perm_middle.symm)
  · exact List.Perm.refl _

theorem inorder_plug_perm (fs : List (Frame α)) (t : Tree α) : (plug fs t).inorder.Perm (t.inorder ++ marks fs) := by
  induction fs generalizing t with
  | nil => simp [plug, marks]
  | cons f fs ih =>
    refine (ih (f.fill t)).trans (((inorder_fill_perm f t).append_right _).trans ?_)
    rw [marks, List.append_assoc, List.cons_append]

/-- The root of a tree with something at a place is that of the last frame. -/
theorem isRed_plug {fs : List (Frame α)} {f : Frame α} (h : fs.getLast? = some f) (t : Tree α) :
    (plug fs t).isRed = f.red := by
  induction fs generalizing t with
  | nil => cases h
  | cons g fs ih =>
    cases fs with
    | nil =>
      rw [List.getLast?_singleton] at h
      cases h
      rw [plug, plug, Frame.fill]
      split <;> rfl
    | cons g' fs => exact ih (by rwa [List.getLast?_cons_cons] at h) _

/-- The place of a label, below the frames of the tree: the node with it, and the frames from there. -/
def locate [DecidableEq α] (a : α) : Tree α → List (Frame α) → Option ((Bool × Tree α × Tree α) × List (Frame α))
  | nil, _ => none
  | node c l b r, fs =>
    if b = a then some ((c, l, r), fs)
    else
      match locate a l (⟨false, c, b, r⟩ :: fs) with
      | some x => some x
      | none => locate a r (⟨true, c, b, l⟩ :: fs)

section

variable [DecidableEq α] {a : α}

theorem locate_plug {t : Tree α} {fs : List (Frame α)} {c : Bool} {l r : Tree α} {gs : List (Frame α)}
    (h : locate a t fs = some ((c, l, r), gs)) : plug gs (node c l a r) = plug fs t := by
  induction t generalizing fs with
  | nil => cases h
  | node c' l' b r' ihl ihr =>
    rw [locate] at h
    split at h
    · rename_i hb
      cases h
      rw [hb]
    · split at h
      · rename_i x hx
        cases h
        exact ihl hx
      · exact ihr h

theorem locate_isSome {t : Tree α} (h : a ∈ t.inorder) (fs : List (Frame α)) : (locate a t fs).isSome = true := by
  induction t generalizing fs with
  | nil => cases h
  | node c l b r ihl ihr =>
    rw [locate]
    split
    · rfl
    · rename_i hb
      split
      · rfl
      · rename_i hnone
        rw [inorder, List.mem_append, List.mem_cons] at h
        rcases h with h | rfl | h
        · have := ihl h (⟨false, c, b, r⟩ :: fs)
          rw [hnone] at this
          cases this
        · exact absurd rfl hb
        · exact ihr h _

end

/-! ## Search -/

/-- The label with a key, if keys increase from left to right. -/
def search (key : α → Nat) (id : Nat) : Tree α → Option α
  | nil => none
  | node _ l a r => if id = key a then some a else if id < key a then search key id l else search key id r

theorem search_key {key : α → Nat} {id : Nat} {t : Tree α} {a : α} (h : t.search key id = some a) :
    a ∈ t.inorder ∧ key a = id := by
  induction t with
  | nil => cases h
  | node c l b r ihl ihr =>
    rw [search] at h
    rw [inorder, List.mem_append, List.mem_cons]
    split at h
    · rename_i hid
      cases h
      exact ⟨.inr (.inl rfl), hid.symm⟩
    · split at h
      · exact ⟨.inl (ihl h).1, (ihl h).2⟩
      · exact ⟨.inr (.inr (ihr h).1), (ihr h).2⟩

theorem search_mem {key : α → Nat} {t : Tree α} (hs : t.inorder.Pairwise fun a b => key a < key b) {a : α}
    (h : a ∈ t.inorder) : t.search key (key a) = some a := by
  induction t with
  | nil => cases h
  | node c l b r ihl ihr =>
    rw [inorder, List.pairwise_append, List.pairwise_cons] at hs
    obtain ⟨hl, ⟨hb, hr⟩, hlr⟩ := hs
    rw [inorder, List.mem_append, List.mem_cons] at h
    rw [search]
    rcases h with h | rfl | h
    · have hlt := hlr a h b List.mem_cons_self
      rw [if_neg (Nat.ne_of_lt hlt), if_pos hlt]
      exact ihl hl h
    · rw [if_pos rfl]
    · have hlt := hb a h
      rw [if_neg (Nat.ne_of_gt hlt), if_neg (Nat.not_lt_of_gt hlt)]
      exact ihr hr h

/-- The way down to the node with a key, or to the place where it would be, below the frames of the tree. -/
def descend (key : α → Nat) (id : Nat) : Tree α → List (Frame α) → Option α × List (Frame α)
  | nil, fs => (none, fs)
  | node c l a r, fs =>
    if id = key a then (some a, fs)
    else if id < key a then descend key id l (⟨false, c, a, r⟩ :: fs)
    else descend key id r (⟨true, c, a, l⟩ :: fs)

section

variable {key : α → Nat} {id : Nat}

theorem descend_search (t : Tree α) (fs : List (Frame α)) : (descend key id t fs).1 = t.search key id := by
  induction t generalizing fs with
  | nil => rfl
  | node c l a r ihl ihr =>
    rw [descend, search]
    split
    · rfl
    · split
      · exact ihl _
      · exact ihr _

/-- Where a key is missed, the keys to the left are smaller and those to the right larger. -/
theorem descend_none {t : Tree α} {fs gs : List (Frame α)}
    (hs : (plug fs t).inorder.Pairwise fun a b => key a < key b) (hb : ∀ a ∈ before fs, key a < id)
    (ha : ∀ a ∈ after fs, id < key a) (h : descend key id t fs = (none, gs)) :
    plug gs nil = plug fs t ∧ (∀ a ∈ before gs, key a < id) ∧ ∀ a ∈ after gs, id < key a := by
  induction t generalizing fs with
  | nil =>
    cases h
    exact ⟨rfl, hb, ha⟩
  | node c l a r ihl ihr =>
    have hs' := hs
    rw [inorder_plug, inorder, List.pairwise_append, List.pairwise_append, List.pairwise_append,
      List.pairwise_cons] at hs'
    obtain ⟨⟨-, ⟨-, ⟨hr, -⟩, hl⟩, -⟩, -, -⟩ := hs'
    rw [descend] at h
    split at h
    · cases h
    · rename_i hne
      split at h
      · rename_i hlt
        refine ihl hs (fun b hm => ?_) (fun b hm => ?_) h
        · rw [before, if_neg Bool.false_ne_true, List.append_nil] at hm
          exact hb b hm
        · rw [after, if_neg Bool.false_ne_true, List.cons_append, List.mem_cons, List.mem_append] at hm
          rcases hm with rfl | hm | hm
          · exact hlt
          · exact Nat.lt_trans hlt (hr b hm)
          · exact ha b hm
      · rename_i hge
        have hgt : key a < id := by omega
        refine ihr hs (fun b hm => ?_) (fun b hm => ?_) h
        · rw [before, if_pos rfl, List.mem_append, List.mem_append, List.mem_singleton] at hm
          rcases hm with hm | hm | rfl
          · exact hb b hm
          · exact Nat.lt_trans (hl b hm a List.mem_cons_self) hgt
          · exact hgt
        · rw [after, if_pos rfl, List.nil_append] at hm
          exact ha b hm

end

end Tree

end Capnproto

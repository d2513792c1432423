import Capnproto.Framework.RedBlack
import Capnproto.Object.Segtree
import Mathlib.Data.List.Induction

/-!
# `capn_tree_insert` keeps a tree balanced

A red node with black children is put at a place where a black one would do. If its parent is black, that is all; if
the parent and the uncle are red, the grandparent is such a node one black node further up; otherwise a rotation
ends it.
-/

namespace Capnproto

variable {α : Type}

/-- A tree that may hang below a red node, with `k` black nodes on each path. -/
structure Hangable (t : Tree α) (k : Nat) : Prop where
  black : t.isRed = false
  alternates : t.Alternates
  height : t.Height k

theorem Hangable.red {a b : Tree α} {x : α} {k : Nat} (ha : Hangable a k) (hb : Hangable b k) :
    (Tree.node true a x b).Alternates ∧ (Tree.node true a x b).Height k :=
  ⟨⟨fun _ => ⟨ha.black, hb.black⟩, ha.alternates, hb.alternates⟩, k, rfl, ha.height, hb.height⟩

/-- The rotations, of subtrees that may hang below a red node. -/
theorem rotated_redBlack {rest : List (Frame α)} {p g : Frame α} {l r u : Tree α} {n : α} {k : Nat}
    (hother : ∀ {s : Tree α}, s.RedBlack ∧ s.Height (k + 1) → (Tree.plug rest s).RedBlack) (hl : Hangable l k)
    (hr : Hangable r k) (hU : Hangable u k) (hP : Hangable p.sibling k) : (Tree.plug rest <|
      match g.right, p.right with
      | true, false => .node false (.node true u g.label l) n (.node true r p.label p.sibling)
      | false, true => .node false (.node true p.sibling p.label l) n (.node true r g.label u)
      | true, true => .node false (.node true u g.label p.sibling) p.label (.node true l n r)
      | false, false => .node false (.node true l n r) p.label (.node true p.sibling g.label u)).RedBlack := by
  apply hother
  have hjoin : ∀ {a b : Tree α} {x : α}, a.Alternates ∧ a.Height k → b.Alternates ∧ b.Height k →
      (Tree.node false a x b).RedBlack ∧ (Tree.node false a x b).Height (k + 1) := fun ha hb =>
    ⟨⟨rfl, ⟨fun h => absurd h Bool.false_ne_true, ha.1, hb.1⟩, _, k, rfl, ha.2, hb.2⟩, k, rfl, ha.2, hb.2⟩
  split
  · exact hjoin (hU.red hl) (hr.red hP)
  · exact hjoin (hP.red hl) (hr.red hU)
  · exact hjoin (hU.red hP) (hl.red hr)
  · exact hjoin (hl.red hr) (hP.red hU)

/-- **A node that is inserted** where a black one would do leaves the tree balanced. -/
theorem capnTreeInsert_redBlack {fs : List (Frame α)} {l r t : Tree α} {n : α} {k : Nat} (hb : BlackRoot fs)
    (hl : Hangable l k) (hr : Hangable r k) (htall : Tree.Tall fs k) (hadm : Tree.Admits fs false)
    (h : capnTreeInsert l n r fs = some t) : t.RedBlack := by
  induction fs using List.twoStepInduction generalizing l r n k with
  | nil =>
    cases h
    exact ⟨rfl, ⟨fun h => absurd h Bool.false_ne_true, hl.alternates, hr.alternates⟩, _, k, rfl, hl.height, hr.height⟩
  | singleton p =>
    have hp := hb p rfl
    obtain ⟨hn, hk⟩ := @hl.red _ _ _ n _ hr
    rw [capnTreeInsert, hp] at h
    cases h
    refine ⟨by rw [Tree.isRed_fill, hp], Tree.alternates_fill.mpr ⟨fun hc => ?_, hn, hadm.2.1⟩,
      _, Tree.height_fill.mpr ⟨k, rfl, hk, htall.1⟩⟩
    rw [hp] at hc
    cases hc
  | cons_cons p g rest ih _ =>
    obtain ⟨hn, hk⟩ := @hl.red _ _ _ n _ hr
    obtain ⟨hpk, hgk, htall⟩ := htall
    obtain ⟨hp, hpa, hg, hga, hadm⟩ := hadm
    by_cases hred : p.red = true
    · -- the grandparent of a node below a red one is black
      have hgb : g.red = false := by
        cases hc : g.red with
        | false => rfl
        | true => rw [(hg hc).1] at hred; cases hred
      have hps := (hp hred).2
      rw [capnTreeInsert, if_pos hred] at h
      rw [hred, if_pos rfl, Nat.add_zero] at hgk
      rw [hred, hgb, if_pos rfl, Nat.add_zero, if_neg Bool.false_ne_true] at htall
      rw [hgb] at hadm
      have hother : ∀ {s : Tree α}, s.RedBlack ∧ s.Height (k + 1) → (Tree.plug rest s).RedBlack := fun {s} hs =>
        ⟨isRed_plug_black hb.rest hs.1.black, Tree.alternates_plug.mpr ⟨hs.1.alternates, by rw [hs.1.black]; exact hadm⟩,
          Tree.height_plug htall hs.2⟩
      cases hu : g.sibling with
      | nil =>
        rw [hu] at h hga hgk
        cases h
        exact rotated_redBlack hother hl hr ⟨rfl, hga, hgk⟩ ⟨hps, hpa, hpk⟩
      | node c ul u ur =>
        rw [hu] at h hga hgk
        cases c with
        | false =>
          cases h
          exact rotated_redBlack hother hl hr ⟨rfl, hga, hgk⟩ ⟨hps, hpa, hpk⟩
        | true =>
          obtain ⟨hul, hur⟩ := hga.1 rfl
          obtain ⟨j, hj, hulk, hurk⟩ := hgk
          -- the uncle and the parent turn black
          have hU : Hangable (Tree.node false ul u ur) (k + 1) :=
            ⟨rfl, ⟨fun h => absurd h Bool.false_ne_true, hga.2⟩, j, by rw [hj]; rfl, hulk, hurk⟩
          have hP : Hangable (Frame.fill { p with red := false } (.node true l n r)) (k + 1) :=
            ⟨Tree.isRed_fill _ _, Tree.alternates_fill.mpr ⟨fun h => absurd h Bool.false_ne_true, hn, hpa⟩,
              Tree.height_fill.mpr ⟨k, rfl, hk, hpk⟩⟩
          simp only at h
          split at h
          · exact ih hb.rest hU hP htall hadm h
          · exact ih hb.rest hP hU htall hadm h
    · have hpb : p.red = false := Bool.eq_false_of_not_eq_true hred
      rw [capnTreeInsert, if_neg hred] at h
      cases h
      have hfill : (p.fill (.node true l n r)).Alternates :=
        Tree.alternates_fill.mpr ⟨fun hc => absurd hc hred, hn, hpa⟩
      obtain ⟨f, hf⟩ : ∃ f, (p :: g :: rest).getLast? = some f :=
        Option.isSome_iff_exists.mp (List.getLast?_isSome.mpr (List.cons_ne_nil _ _))
      refine ⟨?_, ?_, @Tree.height_plug _ (p :: g :: rest) _ _ ⟨hpk, hgk, htall⟩ hk⟩
      · show (Tree.plug (p :: g :: rest) _).isRed = false
        rw [Tree.isRed_plug hf, hb f hf]
      · refine (@Tree.alternates_plug _ (g :: rest) _).mpr ⟨hfill, ?_⟩
        rw [Tree.isRed_fill]
        exact ⟨hg, hga, hadm⟩

/-- A new node at an empty place of a balanced tree leaves it balanced. -/
theorem capnTreeInsert_leaf {fs : List (Frame α)} {n : α} {t : Tree α} (h : (Tree.plug fs .nil).RedBlack)
    (e : capnTreeInsert .nil n .nil fs = some t) : t.RedBlack := by
  obtain ⟨m, hm⟩ := h.height
  obtain ⟨k, hk, htall⟩ := Tree.tall_of_plug hm
  have hnil : Hangable (.nil : Tree α) k := ⟨rfl, trivial, hk⟩
  refine capnTreeInsert_redBlack (fun f hf => ?_) hnil hnil htall (Tree.alternates_plug.mp h.alternates).2 e
  rw [← Tree.isRed_plug hf .nil, h.black]

end Capnproto

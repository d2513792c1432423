import Capnproto.Object.Segtree

/-!
# Looking a segment up

`lookup_segment` tries the pointer's own segment, then the tree, and then asks the user's callback,
whose segment it hangs at the place where the search ended. But it asks for ids below `segnum` only
(`honours_iff`), and a session that is built by appending segments has all of these
(`SegTable.Built.dense`), so that it never asks.
-/

namespace Capnproto

/-- The segments of a session, each with its id: `segnum`, `segtree`, `seglist` and `lastseg`. -/
structure SegTable (σ : Type) where
  segnum : Nat
  tree : Tree (Nat × σ)
  list : List (Nat × σ)
  last : Option (Nat × σ)

/-- What `lookup_segment` returns, the session after it, and whether it asked the callback. -/
structure SegTable.Lookup (σ : Type) where
  seg : Option σ
  table : SegTable σ
  asked : Bool

variable {σ : Type}

namespace SegTable

/-- A session without segments. -/
def empty : SegTable σ := ⟨0, .nil, [], none⟩

/-- `capn_append_segment`. `none` if a null pointer is followed. -/
def append [DecidableEq σ] (x : SegTable σ) (y : σ) : Option (SegTable σ) :=
  let s := (x.segnum, y)
  let tree : Option (Tree (Nat × σ)) :=
    match x.last with
    | none => capnTreeInsert .nil s .nil []
    | some a =>
      match Tree.locate a x.tree [] with
      | none => none
      | some ((c, l, _), fs) => capnTreeInsert .nil s .nil (⟨true, c, a, l⟩ :: fs)
  tree.map fun t => ⟨x.segnum + 1, t, x.list ++ [s], some s⟩

/-- `lookup_segment`, for a pointer in the segment `s`. `none` if a null pointer is followed. -/
def lookupSegment (lookup : Nat → Option σ) (x : SegTable σ) (s : Option (Nat × σ)) (id : Nat) :
    Option (Lookup σ) :=
  match s.filter (·.1 = id) with
  | some a => some ⟨some a.2, x, false⟩
  | none =>
    if id < x.segnum then
      match Tree.descend (·.1) id x.tree [] with
      | (some a, _) => some ⟨some a.2, x, false⟩
      | (none, fs) =>
        match lookup id with
        | none => some ⟨none, x, true⟩
        -- `id < c->segnum` still, so that the segment keeps its id and goes to the front of the list
        | some y =>
          (capnTreeInsert .nil (id, y) .nil fs).map fun t =>
            ⟨some y, { x with tree := t, list := (id, y) :: x.list }, true⟩
    else some ⟨none, x, false⟩

/-- The segments are in the order of their ids, which are below `segnum`, and the root is black. -/
structure Ordered (x : SegTable σ) : Prop where
  sorted : x.tree.inorder.Pairwise (·.1 < ·.1)
  below : ∀ a ∈ x.tree.inorder, a.1 < x.segnum
  black : x.tree.isRed = false

/-- A pointer's own segment is one of the session. -/
def Loaded (x : SegTable σ) (s : Option (Nat × σ)) : Prop := ∀ a, s = some a → a ∈ x.tree.inorder

/-! ## One lookup -/

variable {lookup : Nat → Option σ} {x : SegTable σ} {s : Option (Nat × σ)} {id : Nat} {y : σ}

/-- A loaded segment is found by its id. -/
theorem Ordered.lookup_mem (hx : x.Ordered) (hs : x.Loaded s) (h : (id, y) ∈ x.tree.inorder) :
    x.lookupSegment lookup s id = some ⟨some y, x, false⟩ := by
  have hsearch := Tree.search_mem hx.sorted h
  rw [lookupSegment]
  cases hf : s.filter (·.1 = id) with
  | some a =>
    obtain ⟨rfl, hid⟩ := Option.filter_eq_some_iff.mp hf
    have ha := Tree.search_mem hx.sorted (hs a rfl)
    rw [of_decide_eq_true hid, hsearch] at ha
    rw [← Option.some.inj ha]
  | none =>
    rw [if_pos (hx.below _ h)]
    have hd : (Tree.descend (·.1) id x.tree []).1 = x.tree.search (·.1) id := Tree.descend_search x.tree []
    rw [hsearch] at hd
    obtain ⟨fs, hfs⟩ : ∃ fs, Tree.descend (·.1) id x.tree [] = (some (id, y), fs) := ⟨_, Prod.ext hd rfl⟩
    rw [hfs]

/-- A pointer's own segment does not have an id that is not loaded. -/
theorem Loaded.filter (hs : x.Loaded s) (h : ∀ y, (id, y) ∉ x.tree.inorder) : s.filter (·.1 = id) = none := by
  rw [Option.filter_eq_none_iff]
  rintro a rfl hid
  exact h a.2 (of_decide_eq_true hid ▸ hs a rfl)

/-- From `segnum` on, nothing is found. -/
theorem lookup_ge (hs : x.Loaded s) (h : ∀ y, (id, y) ∉ x.tree.inorder) (hid : x.segnum ≤ id) :
    x.lookupSegment lookup s id = some ⟨none, x, false⟩ := by
  rw [lookupSegment, hs.filter h]
  exact if_neg (Nat.not_lt_of_le hid)

variable (lookup) in
/-- Below `segnum` the callback is asked for what is not loaded, and what it supplies is hung where it belongs. -/
theorem Ordered.lookup_lt (hx : x.Ordered) (hs : x.Loaded s) (h : ∀ y, (id, y) ∉ x.tree.inorder)
    (hid : id < x.segnum) :
    (lookup id = none ∧ x.lookupSegment lookup s id = some ⟨none, x, true⟩) ∨
    ∃ y x' as bs, lookup id = some y ∧ x.lookupSegment lookup s id = some ⟨some y, x', true⟩ ∧ x'.Ordered ∧
      x'.segnum = x.segnum ∧ x.tree.inorder = as ++ bs ∧ x'.tree.inorder = as ++ (id, y) :: bs := by
  have hmiss : x.tree.search (·.1) id = none := by
    cases hsearch : x.tree.search (·.1) id with
    | none => rfl
    | some a =>
      obtain ⟨ha, rfl⟩ := Tree.search_key hsearch
      exact absurd ha (h a.2)
  have hd : (Tree.descend (·.1) id x.tree []).1 = x.tree.search (·.1) id := Tree.descend_search x.tree []
  rw [hmiss] at hd
  obtain ⟨fs, hfs⟩ : ∃ fs, Tree.descend (·.1) id x.tree [] = (none, fs) := ⟨_, Prod.ext hd rfl⟩
  rw [lookupSegment, hs.filter h]
  simp only [if_pos hid, hfs]
  cases hl : lookup id with
  | none => exact .inl ⟨rfl, rfl⟩
  | some y =>
    obtain ⟨hplug, hbefore, hafter⟩ :=
      @Tree.descend_none _ (·.1) id x.tree [] _ hx.sorted (by simp [Tree.before])
        (by simp [Tree.after]) hfs
    have hblack : BlackRoot fs := by
      intro f hf
      rw [← Tree.isRed_plug hf .nil, hplug]
      exact hx.black
    obtain ⟨t, ht, hred, hin⟩ := capnTreeInsert_spec fs .nil (id, y) .nil hblack
    have hold := Tree.inorder_plug fs .nil
    rw [hplug, Tree.plug, Tree.inorder, List.append_nil] at hold
    rw [Tree.inorder, List.nil_append, List.append_assoc, List.cons_append, List.nil_append] at hin
    refine .inr ⟨y, { x with tree := t, list := (id, y) :: x.list }, Tree.before fs, Tree.after fs, rfl,
      by simp only [ht, Option.map_some], ⟨?_, ?_, hred⟩, rfl, hold, hin⟩
    · have hsorted := hx.sorted
      rw [hold, List.pairwise_append] at hsorted
      obtain ⟨hb, ha, hba⟩ := hsorted
      show t.inorder.Pairwise _
      rw [hin, List.pairwise_append, List.pairwise_cons]
      refine ⟨hb, ⟨hafter, ha⟩, fun a hm b hm' => ?_⟩
      rcases List.mem_cons.mp hm' with rfl | hm'
      · exact hbefore a hm
      · exact hba a hm b hm'
    · intro a hm
      have hbelow := hx.below
      rw [hold] at hbelow
      change a ∈ t.inorder at hm
      rw [hin, List.mem_append, List.mem_cons] at hm
      rcases hm with hm | rfl | hm
      · exact hbelow a (List.mem_append_left _ hm)
      · exact hid
      · exact hbelow a (List.mem_append_right _ hm)

/-- Either the id is loaded, with one segment, or not. -/
theorem loaded_or (x : SegTable σ) (id : Nat) :
    (∃ y, (id, y) ∈ x.tree.inorder) ∨ ∀ y, (id, y) ∉ x.tree.inorder := by
  by_cases h : ∃ y, (id, y) ∈ x.tree.inorder
  · exact .inl h
  · exact .inr fun y hy => h ⟨y, hy⟩

variable (lookup) in
/-- What a lookup gives. -/
theorem Ordered.lookup_seg (hx : x.Ordered) (hs : x.Loaded s) (h : ∀ y, (id, y) ∉ x.tree.inorder) :
    (x.lookupSegment lookup s id).map Lookup.seg = some (if id < x.segnum then lookup id else none) := by
  by_cases hid : id < x.segnum
  · rw [if_pos hid]
    rcases hx.lookup_lt lookup hs h hid with ⟨hn, e⟩ | ⟨y, x', as, bs, hl, e, -⟩
    · rw [e, hn]
      rfl
    · rw [e, hl]
      rfl
  · rw [if_neg hid, lookup_ge hs h (Nat.le_of_not_lt hid)]
    rfl

variable (lookup) in
/-- What a lookup does to the session: only the id it is for can become loaded, with what is returned. -/
theorem Ordered.lookup_spec (hx : x.Ordered) (hs : x.Loaded s) :
    ∃ r, x.lookupSegment lookup s id = some r ∧ r.table.Ordered ∧ r.table.segnum = x.segnum ∧
      (∀ y, r.seg = some y → (id, y) ∈ r.table.tree.inorder) ∧
      ∀ a : Nat × σ, a ∈ x.tree.inorder ∨ a.1 = id ∧ r.seg = some a.2 ↔ a ∈ r.table.tree.inorder := by
  rcases x.loaded_or id with ⟨y, hy⟩ | h
  · refine ⟨_, hx.lookup_mem hs hy, hx, rfl, ?_, fun a => ⟨?_, .inl⟩⟩
    · rintro _ ⟨⟩
      exact hy
    · rintro (ha | ⟨rfl, ⟨⟩⟩)
      · exact ha
      · exact hy
  · by_cases hid : id < x.segnum
    · rcases hx.lookup_lt lookup hs h hid with ⟨hn, e⟩ | ⟨y, x', as, bs, hl, e, hx', hseg, hold, hnew⟩
      · exact ⟨_, e, hx, rfl, by simp, by simp⟩
      · refine ⟨_, e, hx', hseg, ?_, fun a => ?_⟩
        · rintro _ ⟨⟩
          show (id, y) ∈ x'.tree.inorder
          rw [hnew]
          exact List.mem_append_right _ List.mem_cons_self
        · show _ ∨ a.1 = id ∧ some y = some a.2 ↔ a ∈ x'.tree.inorder
          rw [hold, hnew, List.mem_append, List.mem_append, List.mem_cons, Prod.ext_iff, Option.some_inj,
            eq_comm (a := y)]
          simp only
          tauto
    · exact ⟨_, lookup_ge hs h (Nat.le_of_not_lt hid), hx, rfl, by simp, by simp⟩

end SegTable

/-- Looking `id` up, for a pointer in `s`, honours the callback: it returns the loaded segment with that id,
otherwise what the callback supplies; that is found again without asking, from anywhere, and nothing changes
about the other ids. -/
def Honours (lookup : Nat → Option σ) (x : SegTable σ) (s : Option (Nat × σ)) (id : Nat) : Prop :=
  ∃ r, x.lookupSegment lookup s id = some r ∧ (∀ y, (id, y) ∈ x.tree.inorder → r.seg = some y) ∧
    ((∀ y, (id, y) ∉ x.tree.inorder) → r.seg = lookup id) ∧
    (∀ y, r.seg = some y → ∀ lookup' s', r.table.Loaded s' →
      r.table.lookupSegment lookup' s' id = some ⟨some y, r.table, false⟩) ∧
    ∀ id', id' ≠ id → ∀ lookup' s', x.Loaded s' →
      (r.table.lookupSegment lookup' s' id').map SegTable.Lookup.seg =
        (x.lookupSegment lookup' s' id').map SegTable.Lookup.seg

/-- **The callback is honoured** exactly for the ids below `segnum`, and where it supplies nothing: above, it
is not asked. -/
theorem honours_iff {lookup : Nat → Option σ} {x : SegTable σ} {s : Option (Nat × σ)} {id : Nat} (hx : x.Ordered)
    (hs : x.Loaded s) : Honours lookup x s id ↔ id < x.segnum ∨ lookup id = none := by
  constructor
  · rintro ⟨r, hr, -, hn, -⟩
    by_contra h
    obtain ⟨hid, hl⟩ := not_or.mp h
    have hno : ∀ y, (id, y) ∉ x.tree.inorder := fun y hy => hid (hx.below _ hy)
    rw [SegTable.lookup_ge hs hno (Nat.le_of_not_lt hid)] at hr
    cases hr
    exact hl (hn hno).symm
  · intro h
    obtain ⟨r, hr, hordered, hseg, hmem, hiff⟩ := hx.lookup_spec lookup hs
    refine ⟨r, hr, fun y hy => ?_, fun hno => ?_, fun y hy lookup' s' hs' => hordered.lookup_mem hs' (hmem y hy), ?_⟩
    · rw [hx.lookup_mem hs hy] at hr
      cases hr
      rfl
    · have he := hx.lookup_seg lookup hs hno
      rw [hr, Option.map_some, Option.some.injEq] at he
      rw [he]
      rcases h with hid | hl
      · exact if_pos hid
      · rw [hl, ite_self]
    · intro id' hne lookup' s' hs'
      have hsame : ∀ y, (id', y) ∈ x.tree.inorder ↔ (id', y) ∈ r.table.tree.inorder := fun y => by
        rw [← hiff]
        exact ⟨.inl, fun h => h.resolve_right fun h => hne h.1⟩
      have hs'' : r.table.Loaded s' := fun a ha => (hiff a).mp (.inl (hs' a ha))
      rcases x.loaded_or id' with ⟨y, hy⟩ | hno
      · rw [hx.lookup_mem hs' hy, hordered.lookup_mem hs'' ((hsame y).mp hy)]
        rfl
      · rw [hx.lookup_seg lookup' hs' hno, hordered.lookup_seg lookup' hs'' fun y hy => hno y ((hsame y).mpr hy), hseg]

/-- A session with the segment 0, and a callback that supplies nothing. -/
theorem honours_iff_one :
    Honours (fun _ => none) ⟨1, .node false .nil (0, 7) .nil, [(0, 7)], some (0, 7)⟩ (some (0, 7)) 1 ↔
      1 < 1 ∨ (none : Option Nat) = none :=
  honours_iff (x := ⟨1, .node false .nil (0, 7) .nil, [(0, 7)], some (0, 7)⟩)
    ⟨by simp [Tree.inorder], by simp [Tree.inorder], rfl⟩ (by rintro a ⟨⟩; exact List.mem_cons_self)

/-! ## Sessions -/

namespace SegTable

/-- All ids below `segnum` are loaded, and the last segment has the last of them. -/
structure Dense (x : SegTable σ) : Prop where
  ids : x.tree.inorder.map (·.1) = List.range x.segnum
  last : x.last = x.tree.inorder.getLast?
  black : x.tree.isRed = false

theorem Dense.ordered {x : SegTable σ} (h : x.Dense) : x.Ordered := by
  refine ⟨?_, fun a ha => ?_, h.black⟩
  · have hlt := List.pairwise_lt_range (n := x.segnum)
    rw [← h.ids, List.pairwise_map] at hlt
    exact hlt
  · rw [← List.mem_range, ← h.ids]
    exact List.mem_map_of_mem ha

/-- Looking a segment up changes nothing where all ids are loaded. -/
theorem Dense.lookup {x : SegTable σ} (h : x.Dense) {lookup : Nat → Option σ} {s : Option (Nat × σ)} {id : Nat}
    (hs : x.Loaded s) {r : Lookup σ} (e : x.lookupSegment lookup s id = some r) : r.table = x ∧ r.asked = false := by
  rcases x.loaded_or id with ⟨y, hy⟩ | hno
  · rw [h.ordered.lookup_mem hs hy] at e
    cases e
    exact ⟨rfl, rfl⟩
  · have hid : x.segnum ≤ id := by
      by_contra hlt
      have hm := List.mem_range.mpr (Nat.lt_of_not_le hlt)
      rw [← h.ids, List.mem_map] at hm
      obtain ⟨a, ha, rfl⟩ := hm
      exact hno a.2 ha
    rw [lookup_ge hs hno hid] at e
    cases e
    exact ⟨rfl, rfl⟩

variable [DecidableEq σ]

/-- A session got by appending segments and looking segments up. -/
inductive Built (lookup : Nat → Option σ) : SegTable σ → Prop
  | empty : Built lookup .empty
  | append {x x' : SegTable σ} (y : σ) (h : Built lookup x) (e : x.append y = some x') : Built lookup x'
  | lookup {x : SegTable σ} (s : Option (Nat × σ)) (id : Nat) {r : Lookup σ} (h : Built lookup x) (hs : x.Loaded s)
      (e : x.lookupSegment lookup s id = some r) : Built lookup r.table

/-- An appended segment gets the next id. -/
theorem Dense.append {x : SegTable σ} (h : x.Dense) (y : σ) : ∃ x', x.append y = some x' ∧ x'.Dense := by
  have hids : ∀ t : Tree (Nat × σ), t.inorder = x.tree.inorder ++ [(x.segnum, y)] →
      t.inorder.map (·.1) = List.range (x.segnum + 1) := fun t ht => by
    rw [ht, List.map_append, h.ids, List.map_singleton, ← List.range_succ]
  have hlast : ∀ t : Tree (Nat × σ), t.inorder = x.tree.inorder ++ [(x.segnum, y)] →
      some (x.segnum, y) = t.inorder.getLast? := fun t ht => by
    rw [ht, List.getLast?_append, List.getLast?_singleton, Option.some_or]
  rcases List.eq_nil_or_concat x.tree.inorder with hnil | ⟨as, a, hcat⟩
  · have hl : x.last = none := by rw [h.last, hnil, List.getLast?_nil]
    have ht : (Tree.node false .nil (x.segnum, y) .nil).inorder = x.tree.inorder ++ [(x.segnum, y)] := by
      rw [hnil]
      rfl
    exact ⟨_, by rw [SegTable.append, hl]; rfl, hids _ ht, hlast _ ht, rfl⟩
  · rw [List.concat_eq_append] at hcat
    have hl : x.last = some a := by rw [h.last, hcat, List.getLast?_append, List.getLast?_singleton, Option.some_or]
    have hno : a ∉ as := by
      intro hm
      have hsorted := h.ordered.sorted
      rw [hcat, List.pairwise_append] at hsorted
      exact Nat.lt_irrefl _ (hsorted.2.2 a hm a List.mem_cons_self)
    obtain ⟨c, l, fs, t, hloc, ht, hred, hin⟩ := capnTreeInsert_last hno hcat h.black (x.segnum, y)
    refine ⟨⟨x.segnum + 1, t, x.list ++ [(x.segnum, y)], some (x.segnum, y)⟩, ?_, hids t hin, hlast t hin, hred⟩
    simp only [SegTable.append, hl, hloc, ht, Option.map_some]

/-- A session that is built by appending segments has all the ids below `segnum`. -/
theorem Built.dense {lookup : Nat → Option σ} {x : SegTable σ} (h : Built lookup x) : x.Dense := by
  induction h with
  | empty => exact ⟨rfl, rfl, rfl⟩
  | append y _ e ih =>
    obtain ⟨x', e', hx'⟩ := ih.append y
    rw [e] at e'
    cases e'
    exact hx'
  | lookup s id _ hs e ih =>
    rw [(ih.lookup hs e).1]
    exact ih

end SegTable

/-- A session with one segment appended and a callback that supplies every other: the segment 1 is not looked up. -/
theorem honours_fails : ∃ x : SegTable Nat, SegTable.Built some x ∧ ¬ Honours some x (some (0, 0)) 1 := by
  have hx : SegTable.empty.append 0 = some ⟨1, .node false .nil (0, 0) .nil, [(0, 0)], some (0, 0)⟩ := rfl
  refine ⟨_, .append 0 .empty hx, ?_⟩
  rintro ⟨r, hr, -, hn, -⟩
  cases hr
  have h1 := hn fun y hy => by simp [Tree.inorder] at hy
  cases h1

end Capnproto

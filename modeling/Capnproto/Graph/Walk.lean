import Capnproto.Graph.Marks
import Capnproto.Pointer.Chain

/-!
# What `capn_validate` walks

The objects that a message holds, and how many pointers lead to them (`Met`);
and what the loop of `capn_validate` knows of those that it has walked
(`Walking`, kept by an iteration: `walking_step`): the words of their pointers
are in bounds, and each is null or points at an object whose key is marked.
When the walk ends well, all marked keys are of objects walked (`Closed`).
-/

namespace Capnproto

/-- The object `p` is met in the message of `c`, `d` pointers from the word at
`root`. -/
inductive Met (c : Capn) (root : Addr) : Ptr → Nat → Prop
  | root {p : Ptr} {cost : Nat} (h : pointee c root = some (p, cost)) (hp : p.type ≠ .NULL) : Met c root p 1
  | child {p q : Ptr} {d i cost : Nat} {s : Nat} {a : Addr} (hm : Met c root p d) (hi : (i : Int) < objectNchild p)
    (hs : childSlot p i = some (some s, some a)) (h : pointee c a = some (q, cost)) (hq : q.type ≠ .NULL) :
    Met c root q (d + 1)

/-! ## Pointees have keys -/

theorem pointee_placed {c : Capn} {a : Addr} {p : Ptr} {cost : Nat} (h : pointee c a = some (p, cost)) :
    ∃ s d, p.seg = some s ∧ p.data = some d := by
  rw [pointee] at h
  split at h
  · cases h
  · simp only at h
    split at h
    · split at h
      · cases h
      · cases h
        exact ⟨_, _, rfl, rfl⟩
    · obtain ⟨⟨q, n⟩, hq, e⟩ := Option.map_eq_some_iff.mp h
      cases e
      simp only [decodeObject] at hq
      split at hq
      · cases hq
      · split at hq
        · cases hq
        · split at hq
          · cases hq
            exact ⟨_, _, rfl, rfl⟩
          · cases hq

theorem vkey_some {p : Ptr} {s : Nat} {d : Addr} (h0 : p.type ≠ .NULL) (hs : p.seg = some s)
    (hd : p.data = some d) : vkey p = some ⟨s, d, p.type, p.isCompositeList⟩ := by
  unfold vkey
  rw [hs, hd]
  cases ht : p.type with
  | NULL => exact absurd ht h0
  | _ => rfl

theorem pointee_key {c : Capn} {a : Addr} {p : Ptr} {cost : Nat} (h : pointee c a = some (p, cost))
    (h0 : p.type ≠ .NULL) : ∃ key, vkey p = some key := by
  obtain ⟨s, d, hs, hd⟩ := pointee_placed h
  exact ⟨_, vkey_some h0 hs hd⟩

/-! The hops left do not matter to what an object is. -/

theorem withNesting_pos {p : Ptr} {rem : Int} (h : 0 < rem) :
    p.withNesting rem = { p with nestingValid := true, nesting := rem - 1 } := by
  rw [Ptr.withNesting, if_pos h]

theorem vkey_withNesting (p : Ptr) (rem : Int) : vkey (p.withNesting rem) = vkey p := by
  obtain ⟨n, v, e⟩ := withNesting_eq p rem
  rw [e]
  rfl

theorem objectNchild_withNesting (p : Ptr) (rem : Int) : objectNchild (p.withNesting rem) = objectNchild p := by
  obtain ⟨n, v, e⟩ := withNesting_eq p rem
  rw [e]
  rfl

theorem childSlot_withNesting (p : Ptr) (rem : Int) (i : Nat) :
    childSlot (p.withNesting rem) i = childSlot p i := by
  obtain ⟨n, v, e⟩ := withNesting_eq p rem
  rw [e]
  rfl

theorem type_withNesting (p : Ptr) (rem : Int) : (p.withNesting rem).type = p.type := by
  obtain ⟨n, v, e⟩ := withNesting_eq p rem
  rw [e]

/-- Only the counters of a session differ. -/
def SameMessage (c c' : Capn) : Prop :=
  ∃ used err, c' = { c with traversalUsed := used, decodeErr := err }

theorem SameMessage.refl (c : Capn) : SameMessage c c := ⟨c.traversalUsed, c.decodeErr, rfl⟩

theorem SameMessage.segs {c c' : Capn} (h : SameMessage c c') : c'.segs = c.segs := by
  obtain ⟨u, e, rfl⟩ := h
  rfl

/-- What a word points at depends on the segments only. -/
theorem pointee_congr {c c' : Capn} (h : c'.segs = c.segs) (a : Addr) : pointee c' a = pointee c a := by
  have hseg : c'.seg = c.seg := by
    funext i
    rw [Capn.seg, Capn.seg, h]
  have hload : c'.load64 = c.load64 := by
    funext a
    rw [Capn.load64, Capn.load64, hseg]
  have hlook : lookupSegment c' = lookupSegment c := by
    funext i
    rw [lookupSegment, lookupSegment, Capn.segnum, Capn.segnum, h]
  have hfar : followFar c' = followFar c := by
    funext s d val
    simp only [followFar, lookupFar, lookupDouble, hseg, hload, hlook]
  have hbounds : boundsOk c' = boundsOk c := by
    funext s d n
    unfold boundsOk
    rw [hseg]
  have hobj : decodeObject c' = decodeObject c := by
    funext s d val
    simp only [decodeObject, decodeElements, decodeComposite, applyOffset, hbounds, hseg, hload]
  rw [pointee, pointee, hload, hfar, hobj]

theorem SameMessage.readPtr {c c' : Capn} (h : SameMessage c c') (s : Option Nat) (d : Option Addr) (rem : Int) :
    SameMessage c (readPtr c' s d rem).capn := by
  obtain ⟨u, e, rfl⟩ := h
  obtain ⟨u', e', h'⟩ := readPtr_capn { c with traversalUsed := u, decodeErr := e } s d rem
  exact ⟨u', e', h'⟩

theorem SameMessage.boundsOk {c c' : Capn} (h : SameMessage c c') (s : Option Nat) (d : Option Addr) (n : Nat) :
    boundsOk c' s d n ↔ boundsOk c s d n := by
  obtain ⟨u, e, rfl⟩ := h
  exact Iff.rfl

theorem SameMessage.load64 {c c' : Capn} (h : SameMessage c c') (a : Addr) : c'.load64 a = c.load64 a := by
  obtain ⟨u, e, rfl⟩ := h
  rfl

/-! ## What the walk knows -/

section

variable (c : Capn) (root : Addr) (limit : Int)

/-- The word of child `i` of `p`, `d` pointers from the root, is in bounds, and it
is null, or it points at an object that is `marked`, within the limit. -/
def SlotOk (marked : VKey → Prop) (p : Ptr) (d i : Nat) : Prop :=
  ∃ a : Addr, childSlot p i = some (some a.seg, some a) ∧ boundsOk c (some a.seg) (some a) 8 ∧
    (c.load64 a = 0 ∨ (d : Int) < limit ∧
      ∃ q cost key, pointee c a = some (q, cost) ∧ q.type ≠ .NULL ∧ vkey q = some key ∧ marked key)

/-- The object `p` was walked: it is met `d` pointers from the root, within the
limit, and the first `n` of its children are fine. -/
structure Walked (marked : VKey → Prop) (p : Ptr) (d : Nat) (n : Int) : Prop where
  met : Met c root p d
  depth : (d : Int) ≤ limit
  slots : ∀ i : Nat, (i : Int) < n → SlotOk c limit marked p d i

/-- A frame for the object `p`, `d` pointers from the root. -/
structure FrameOk (marked : VKey → Prop) (f : VFrame) (p : Ptr) (d : Nat) : Prop where
  ptr : f.p = p.withNesting (limit - d + 1)
  nchild : f.nchild = objectNchild p
  walked : Walked c root limit marked p d f.idx

/-- The frames of the stack, whose innermost is at depth `stack.length`, with the
keys of their objects. -/
inductive StackOk (marked : VKey → Prop) : List VFrame → List VKey → Prop
  | nil : StackOk marked [] []
  | cons {f : VFrame} {fs : List VFrame} {p : Ptr} {key : VKey} {keys : List VKey}
    (hf : FrameOk c root limit marked f p (fs.length + 1)) (hk : vkey p = some key) (hn : key ∉ keys)
    (ht : StackOk marked fs keys) : StackOk marked (f :: fs) (key :: keys)

end

/-- The marked keys. -/
def VSet.Marked (vs : VSet) (key : VKey) : Prop := ∃ s, vs.Mark key s

/-- The word at `a` points at an object that is marked. -/
def WordMarked (c : Capn) (a : Addr) (marked : VKey → Prop) : Prop :=
  ∃ p cost key, pointee c a = some (p, cost) ∧ p.type ≠ .NULL ∧ vkey p = some key ∧ marked key

/-- What the loop of `capn_validate` knows. -/
structure Walking (vhash : VKey → Nat) (c : Capn) (root : Addr) (limit : Int) (v : Validation) : Prop where
  same : SameMessage c v.capn
  ok : v.vs.Ok vhash
  first : WordMarked c root v.vs.Marked
  stack : ∃ keys, StackOk c root limit v.vs.Marked v.stack keys ∧ ∀ k, v.vs.Mark k .PATH ↔ k ∈ keys
  done : ∀ k, v.vs.Mark k .DONE → ∃ p d, vkey p = some k ∧ Walked c root limit v.vs.Marked p d (objectNchild p)

/-- Every marked key is of an object all of whose children are fine. -/
def Closed (c : Capn) (root : Addr) (limit : Int) (marked : VKey → Prop) : Prop :=
  ∀ k, marked k → ∃ p d, vkey p = some k ∧ Walked c root limit marked p d (objectNchild p)

section

variable {vhash : VKey → Nat} {alloc : VAlloc} {c : Capn} {root : Addr} {limit : Int}
  {marked marked' : VKey → Prop}

/-! More marks do no harm. -/

theorem SlotOk.mono (hm : ∀ k, marked k → marked' k) {p : Ptr} {d i : Nat} (h : SlotOk c limit marked p d i) :
    SlotOk c limit marked' p d i := by
  obtain ⟨a, hs, hb, hw⟩ := h
  refine ⟨a, hs, hb, hw.imp_right fun ⟨hd, q, cost, key, hq, h0, hk, hmark⟩ => ?_⟩
  exact ⟨hd, q, cost, key, hq, h0, hk, hm key hmark⟩

theorem Walked.mono (hm : ∀ k, marked k → marked' k) {p : Ptr} {d : Nat} {n : Int}
    (h : Walked c root limit marked p d n) : Walked c root limit marked' p d n :=
  ⟨h.met, h.depth, fun i hi => (h.slots i hi).mono hm⟩

theorem StackOk.mono (hm : ∀ k, marked k → marked' k) {fs : List VFrame} {keys : List VKey}
    (h : StackOk c root limit marked fs keys) : StackOk c root limit marked' fs keys := by
  induction h with
  | nil => exact .nil
  | cons hf hk hn _ ih => exact .cons ⟨hf.ptr, hf.nchild, hf.walked.mono hm⟩ hk hn ih

theorem WordMarked.mono (hm : ∀ k, marked k → marked' k) (h : WordMarked c root marked) :
    WordMarked c root marked' := by
  obtain ⟨p, cost, key, hp, h0, hk, hmark⟩ := h
  exact ⟨p, cost, key, hp, h0, hk, hm key hmark⟩

/-- One more child is fine. -/
theorem Walked.succ {p : Ptr} {d i : Nat} (h : Walked c root limit marked p d i)
    (hs : SlotOk c limit marked p d i) : Walked c root limit marked p d (i + 1 : Nat) := by
  refine ⟨h.met, h.depth, fun j hj => ?_⟩
  by_cases hji : j = i
  · rw [hji]
    exact hs
  · exact h.slots j (by omega)

/-- The hops left at a frame. -/
theorem FrameOk.hops {f : VFrame} {p : Ptr} {d : Nat} (h : FrameOk c root limit marked f p d) (c' : Capn) :
    hopRemaining c' f.p = limit - d := by
  have hd := h.walked.depth
  rw [h.ptr, withNesting_pos (by omega), hopRemaining, if_pos rfl]
  show limit - d + 1 - 1 = _
  omega

theorem FrameOk.slot {f : VFrame} {p : Ptr} {d : Nat} (h : FrameOk c root limit marked f p d) (i : Nat) :
    childSlot f.p i = childSlot p i := by rw [h.ptr, childSlot_withNesting]

theorem FrameOk.key {f : VFrame} {p : Ptr} {d : Nat} (h : FrameOk c root limit marked f p d) :
    vkey f.p = vkey p := by rw [h.ptr, vkey_withNesting]

/-- The next child of a frame is fine. -/
theorem FrameOk.succ {f : VFrame} {p : Ptr} {d : Nat} (h : FrameOk c root limit marked f p d)
    (hs : SlotOk c limit marked p d f.idx) :
    FrameOk c root limit marked { f with idx := f.idx + 1 } p d := ⟨h.ptr, h.nchild, h.walked.succ hs⟩

/-- What `read_ptr` gave, if it is not null. -/
theorem readPtr_ne_null {c' : Capn} {s : Option Nat} {d : Option Addr} {rem : Int}
    (h : (readPtr c' s d rem).ptr.type ≠ .NULL) : ∃ seg off q cost, rem ≠ 0 ∧ s = some seg ∧
      d = some ⟨seg, off⟩ ∧ boundsOk c' (some seg) (some ⟨seg, off⟩) 8 ∧
      pointee c' ⟨seg, off⟩ = some (q, cost) ∧ q.type ≠ .NULL ∧
      (readPtr c' s d rem).ptr = q.withNesting rem := by
  rcases readPtr_cases c' s d rem with ⟨reads, e, -⟩ | ⟨seg, off, q, cost, hrem, hs, hd, hb, hq, -, e⟩
  · rw [e] at h
    exact absurd rfl h
  · refine ⟨seg, off, q, cost, hrem, hs, hd, hb, hq, ?_, by rw [e]⟩
    rwa [e, type_withNesting] at h

/-- The word of a slot that is not out of bounds. -/
theorem ptrWordNull_some {c' : Capn} {s : Option Nat} {d : Option Addr} {b : Bool}
    (h : ptrWordNull c' s d = some b) : ∃ a : Addr, s = some a.seg ∧ d = some a ∧
      boundsOk c' (some a.seg) (some a) 8 ∧ (b = true ↔ c'.load64 a = 0) := by
  rw [ptrWordNull] at h
  split at h
  · rename_i hb
    obtain ⟨seg, off, rfl, rfl, h0, h1⟩ := boundsOk_iff.mp hb
    simp only [Option.map_some, Option.some.injEq] at h
    rw [← h]
    exact ⟨⟨seg, off⟩, rfl, rfl, hb, beq_iff_eq⟩
  · cases h

/-! ## One iteration -/

variable {v v' : Validation}

/-- The loop goes on with the top frame's next child fine. -/
theorem Walking.child (h : Walking vhash c root limit v) {f : VFrame} {rest : List VFrame}
    (hstack : v.stack = f :: rest) {vs : VSet} {capn : Capn} (hok : vs.Ok vhash) (hsame : SameMessage c capn)
    (hmarks : ∀ k s, vs.Mark k s ↔ v.vs.Mark k s)
    (hs : ∀ p, FrameOk c root limit v.vs.Marked f p (rest.length + 1) →
      SlotOk c limit v.vs.Marked p (rest.length + 1) f.idx) (sc : Nat) :
    Walking vhash c root limit ⟨capn, vs, { f with idx := f.idx + 1 } :: rest, sc⟩ := by
  have hmarked : ∀ k, v.vs.Marked k → vs.Marked k := fun k ⟨s, hk⟩ => ⟨s, (hmarks k s).mpr hk⟩
  obtain ⟨keys, hst, hpath⟩ := h.stack
  rw [hstack] at hst
  cases hst with
  | cons hf hk hn ht =>
    refine ⟨hsame, hok, h.first.mono hmarked,
      ⟨_, (StackOk.cons (hf.succ (hs _ hf)) hk hn ht).mono hmarked, fun k => ?_⟩, fun k hd => ?_⟩
    · rw [hmarks]
      exact hpath k
    · obtain ⟨p, d, hp, hw⟩ := h.done k ((hmarks k .DONE).mp hd)
      exact ⟨p, d, hp, hw.mono hmarked⟩

/-- A frame all of whose children are fine is left. -/
theorem Walking.leave (h : Walking vhash c root limit v) {f : VFrame} {rest : List VFrame}
    (hstack : v.stack = f :: rest) (hall : f.nchild ≤ f.idx) (sc : Nat) :
    Walking vhash c root limit ⟨v.capn, vsetLeave vhash v.vs f.p, rest, sc⟩ := by
  obtain ⟨keys, hst, hpath⟩ := h.stack
  rw [hstack] at hst
  cases hst with
  | @cons _ _ p key keys hf hk hn ht =>
    have hmark : v.vs.Mark key .PATH := (hpath key).mpr List.mem_cons_self
    obtain ⟨hok, hmarks⟩ := vsetLeave_spec h.ok (hf.key.trans hk) hmark
    have hmarked : ∀ k, v.vs.Marked k → (vsetLeave vhash v.vs f.p).Marked k := by
      rintro k ⟨s, hks⟩
      by_cases hkk : k = key
      · exact ⟨.DONE, (hmarks k _).mpr (.inl ⟨hkk, rfl⟩)⟩
      · exact ⟨s, (hmarks k s).mpr (.inr ⟨hkk, hks⟩)⟩
    refine ⟨h.same, hok, h.first.mono hmarked, ⟨keys, ht.mono hmarked, fun k => ?_⟩, fun k hd => ?_⟩
    · rw [hmarks, hpath, List.mem_cons]
      constructor
      · rintro (⟨-, hs⟩ | ⟨hne, hm⟩)
        · cases hs
        · exact hm.resolve_left hne
      · intro hm
        have hne : k ≠ key := fun e => hn (e ▸ hm)
        exact .inr ⟨hne, .inr hm⟩
    · rcases (hmarks k _).mp hd with ⟨rfl, -⟩ | ⟨-, hd⟩
      · refine ⟨p, _, hk, ⟨hf.walked.met, hf.walked.depth, fun i hi => ?_⟩⟩
        rw [← hf.nchild] at hi
        exact (hf.walked.slots i (by omega)).mono hmarked
      · obtain ⟨q, d, hq, hw⟩ := h.done k hd
        exact ⟨q, d, hq, hw.mono hmarked⟩

/-- The frame of a child that is new. -/
theorem FrameOk.child {q : Ptr} {d : Nat} (hm : Met c root q d) (hd : (d : Int) ≤ limit) {rem : Int}
    (hrem : rem = limit - d + 1) :
    FrameOk c root limit marked ⟨q.withNesting rem, 0, objectNchild (q.withNesting rem)⟩ q d where
  ptr := by rw [hrem]
  nchild := objectNchild_withNesting q rem
  walked := ⟨hm, hd, fun i hi => absurd hi (by simp)⟩

/-- A child that is new is pushed, within the limit. -/
theorem Walking.push (h : Walking vhash c root limit v) {f : VFrame} {rest : List VFrame}
    (hstack : v.stack = f :: rest) (hlt : f.idx < f.nchild) {a : Addr} {q : Ptr} {cost : Nat} {key : VKey}
    (hslot : childSlot f.p f.idx = some (some a.seg, some a)) (hb : boundsOk c (some a.seg) (some a) 8)
    (hq : pointee c a = some (q, cost)) (h0 : q.type ≠ .NULL) (hkey : vkey q = some key) {vs : VSet}
    {capn : Capn} (hok : vs.Ok vhash) (hsame : SameMessage c capn) (hnew : ∀ s, ¬ v.vs.Mark key s)
    (hmarks : v.vs.Marks vs key .PATH) (hlim : ((rest.length + 1 : Nat) : Int) < limit) (sc : Nat) {rem : Int}
    (hrem : hopRemaining v.capn f.p = rem) :
    Walking vhash c root limit ⟨capn, vs, ⟨q.withNesting rem, 0, objectNchild (q.withNesting rem)⟩ ::
      { f with idx := f.idx + 1 } :: rest, sc⟩ := by
  have hmarked : ∀ k, v.vs.Marked k → vs.Marked k := by
    rintro k ⟨s, hks⟩
    by_cases hkk : k = key
    · exact ⟨.PATH, (hmarks k _).mpr (.inl ⟨hkk, rfl⟩)⟩
    · exact ⟨s, (hmarks k s).mpr (.inr ⟨hkk, hks⟩)⟩
  have hself : vs.Marked key := ⟨.PATH, (hmarks key _).mpr (.inl ⟨rfl, rfl⟩)⟩
  obtain ⟨keys, hst, hpath⟩ := h.stack
  rw [hstack] at hst
  cases hst with
  | @cons _ _ p key₁ keys hf hk hn ht =>
    have hslot' : childSlot p f.idx = some (some a.seg, some a) := by rw [← hf.slot, hslot]
    have hchild : Met c root q (rest.length + 1 + 1) := by
      refine .child hf.walked.met ?_ hslot' hq h0
      rw [← hf.nchild]
      exact hlt
    have hfine : SlotOk c limit vs.Marked p (rest.length + 1) f.idx :=
      ⟨a, hslot', hb, .inr ⟨hlim, q, cost, key, hq, h0, hkey, hself⟩⟩
    rw [hf.hops] at hrem
    have hdepth : ((rest.length + 1 + 1 : Nat) : Int) ≤ limit := by omega
    have hrem' : rem = limit - ((rest.length + 1 + 1 : Nat) : Int) + 1 := by omega
    have htop : FrameOk c root limit vs.Marked { f with idx := f.idx + 1 } p (rest.length + 1) :=
      FrameOk.succ ⟨hf.ptr, hf.nchild, hf.walked.mono hmarked⟩ hfine
    have hstk := StackOk.cons htop hk hn (ht.mono hmarked)
    have hfresh : key ∉ key₁ :: keys := fun hm => hnew .PATH ((hpath key).mpr hm)
    refine ⟨hsame, hok, h.first.mono hmarked,
      ⟨key :: key₁ :: keys, .cons (.child hchild hdepth hrem') hkey hfresh hstk, fun k => ?_⟩, fun k hd => ?_⟩
    · rw [hmarks, hpath, @List.mem_cons _ key _ k]
      constructor
      · rintro (⟨e, -⟩ | ⟨-, hm⟩)
        · exact .inl e
        · exact .inr hm
      · rintro (e | hm)
        · exact .inl ⟨e, rfl⟩
        · refine .inr ⟨?_, hm⟩
          rintro rfl
          exact hnew .PATH ((hpath k).mpr hm)
    · rcases (hmarks k _).mp hd with ⟨-, e⟩ | ⟨-, hd⟩
      · cases e
      · obtain ⟨r, d, hr, hw⟩ := h.done k hd
        exact ⟨r, d, hr, hw.mono hmarked⟩

/-- What `pushChild` goes on with. -/
theorem pushChild_next {child : Ptr} (e : pushChild alloc limit v child = .next v') :
    (v.stack.length : Int) < limit ∧
      ∃ sc, v' = ⟨v.capn, v.vs, ⟨child, 0, objectNchild child⟩ :: v.stack, sc⟩ := by
  rw [pushChild] at e
  split at e
  · cases e
  rename_i hlim
  split at e
  · cases e
  rename_i sc _
  simp only at e
  split at e
  · cases e
  · cases e
    exact ⟨Int.not_le.mp hlim, sc, rfl⟩

/-- What an iteration on the frame `f` does when it goes on: it leaves the frame, passes a
child that is null or done, or pushes a child that is new. -/
inductive Goes (vhash : VKey → Nat) (c : Capn) (limit : Int) (v : Validation) (f : VFrame) (rest : List VFrame) :
    Validation → Prop
  | leave (h : f.nchild ≤ f.idx) : Goes vhash c limit v f rest ⟨v.capn, vsetLeave vhash v.vs f.p, rest, v.sc⟩
  | pass {a : Addr} {capn : Capn} {vs : VSet} (h : (f.idx : Int) < f.nchild)
    (hslot : childSlot f.p f.idx = some (some a.seg, some a)) (hb : boundsOk c (some a.seg) (some a) 8)
    (hsame : SameMessage c capn) (hok : vs.Ok vhash) (hmarks : ∀ k s, vs.Mark k s ↔ v.vs.Mark k s)
    (hword : c.load64 a = 0 ∨ hopRemaining v.capn f.p ≠ 0 ∧ ∃ q cost key, pointee c a = some (q, cost) ∧
      q.type ≠ .NULL ∧ vkey q = some key ∧ v.vs.Mark key .DONE) :
    Goes vhash c limit v f rest ⟨capn, vs, { f with idx := f.idx + 1 } :: rest, v.sc⟩
  | push {a : Addr} {capn : Capn} {vs : VSet} {q : Ptr} {cost : Nat} {key : VKey} {rem : Int} {sc : Nat}
    (h : (f.idx : Int) < f.nchild) (hslot : childSlot f.p f.idx = some (some a.seg, some a))
    (hb : boundsOk c (some a.seg) (some a) 8) (hsame : SameMessage c capn) (hok : vs.Ok vhash)
    (hq : pointee c a = some (q, cost)) (h0 : q.type ≠ .NULL) (hkey : vkey q = some key)
    (hnew : ∀ s, ¬ v.vs.Mark key s) (hmarks : v.vs.Marks vs key .PATH)
    (hlim : ((rest.length + 1 : Nat) : Int) < limit) (hrem : hopRemaining v.capn f.p = rem) :
    Goes vhash c limit v f rest ⟨capn, vs, ⟨q.withNesting rem, 0, objectNchild (q.withNesting rem)⟩ ::
      { f with idx := f.idx + 1 } :: rest, sc⟩

/-- Inversion of an iteration that goes on. -/
theorem validateStep_next (hsame : SameMessage c v.capn) (hok : v.vs.Ok vhash)
    (e : validateStep vhash alloc limit v = .next v') :
    ∃ f rest, v.stack = f :: rest ∧ Goes vhash c limit v f rest v' := by
  rw [validateStep] at e
  cases hstack : v.stack with
  | nil => rw [hstack] at e; cases e
  | cons f rest =>
    refine ⟨f, rest, rfl, ?_⟩
    rw [hstack] at e
    simp only at e
    split at e
    · rename_i hall
      cases e
      exact .leave hall
    rename_i hlt
    rw [Int.not_le] at hlt
    cases hslot : childSlot f.p f.idx with
    | none => rw [hslot] at e; cases e
    | some sd =>
      obtain ⟨s, d⟩ := sd
      rw [hslot] at e
      simp only at e
      cases hnull : ptrWordNull v.capn s d with
      | none => rw [hnull] at e; cases e
      | some b =>
        obtain ⟨a, rfl, rfl, hb, hbn⟩ := ptrWordNull_some hnull
        have hb' := (hsame.boundsOk _ _ _).mp hb
        rw [hnull] at e
        cases b with
        | true =>
          cases e
          exact .pass hlt hslot hb' hsame hok (fun _ _ => Iff.rfl) (.inl (by rw [← hsame.load64]; exact hbn.mp rfl))
        | false =>
          simp only at e
          split at e
          · cases e
          rename_i h0
          obtain ⟨seg, off, q, cost, hrem, hs, hd, -, hq, hq0, hptr⟩ := readPtr_ne_null h0
          cases hd
          rw [pointee_congr hsame.segs] at hq
          obtain ⟨key, hkey⟩ := pointee_key hq hq0
          have hsame' := hsame.readPtr (some seg) (some ⟨seg, off⟩) (hopRemaining v.capn f.p)
          rw [hptr] at e
          obtain ⟨ent, vs, hent⟩ : ∃ ent vs, vsetEnter vhash alloc v.vs
              (q.withNesting (hopRemaining v.capn f.p)) = (ent, vs) := ⟨_, _, rfl⟩
          rw [hent] at e
          simp only at e
          split at e
          · cases e
          rename_i hneg
          have hkey' : vkey (q.withNesting (hopRemaining v.capn f.p)) = some key := by
            rw [vkey_withNesting, hkey]
          obtain hlt0 | ⟨hok', hcase⟩ := vsetEnter_spec hok hkey' hent
          · exact absurd hlt0 hneg
          rcases hcase with ⟨rfl, hnew, hmarks⟩ | ⟨hpos, hdone, hmarks⟩
          · simp only [lt_irrefl, if_false] at e
            obtain ⟨hlim, sc, rfl⟩ := pushChild_next e
            rw [List.length_cons] at hlim
            exact .push hlt hslot hb' hsame' hok' hq hq0 hkey hnew hmarks hlim rfl
          · rw [if_pos hpos] at e
            cases e
            exact .pass hlt hslot hb' hsame' hok' hmarks (.inr ⟨hrem, q, cost, key, hq, hq0, hkey, hdone⟩)

/-- **One iteration** of the loop of `capn_validate` keeps what it knows. -/
theorem walking_step (h : Walking vhash c root limit v) (e : validateStep vhash alloc limit v = .next v') :
    Walking vhash c root limit v' := by
  obtain ⟨f, rest, hstack, hgoes⟩ := validateStep_next h.same h.ok e
  cases hgoes with
  | leave hall => exact h.leave hstack hall _
  | @pass a _ _ hlt hslot hb hsame hok hmarks hword =>
    refine h.child hstack hok hsame hmarks (fun p hf => ⟨a, by rw [← hf.slot, hslot], hb, ?_⟩) _
    rcases hword with h0 | ⟨hrem, q, cost, key, hq, hq0, hkey, hdone⟩
    · exact .inl h0
    · refine .inr ⟨?_, q, cost, key, hq, hq0, hkey, .DONE, hdone⟩
      have hd := hf.walked.depth
      rw [hf.hops] at hrem
      omega
  | push hlt hslot hb hsame hok hq h0 hkey hnew hmarks hlim hrem =>
    exact h.push hstack hlt hslot hb hq h0 hkey hok hsame hnew hmarks hlim _ hrem

/-- The loop ends at an empty stack, or in failure. -/
theorem validateStep_done {r : Int × Capn} (e : validateStep vhash alloc limit v = .done r) :
    v.stack = [] ∨ r.1 = -1 := by
  rw [validateStep] at e
  split at e
  · exact .inl (by assumption)
  right
  split at e
  · cases e
  split at e
  · cases e
    rfl
  simp only at e
  split at e
  · cases e
    rfl
  · cases e
  split at e
  · cases e
    rfl
  split at e
  · cases e
    rfl
  split at e
  · cases e
  rw [pushChild] at e
  split at e
  · cases e
    rfl
  split at e
  · cases e
    rfl
  simp only at e
  split at e
  · cases e
    rfl
  · cases e

/-- When the loop ends well, all that is marked was walked. -/
theorem walking_done (h : Walking vhash c root limit v) {r : Int × Capn}
    (e : validateStep vhash alloc limit v = .done r) (h0 : r.1 = 0) :
    Closed c root limit v.vs.Marked := by
  have hstack : v.stack = [] := (validateStep_done e).resolve_right fun h1 => by omega
  obtain ⟨keys, hst, hpath⟩ := h.stack
  rw [hstack] at hst
  cases hst
  rintro k ⟨s, hk⟩
  cases s with
  | PATH => exact absurd ((hpath k).mp hk) List.not_mem_nil
  | DONE => exact h.done k hk

/-- The root's object is marked first. -/
theorem vsetEnter_first {vs vs' : VSet} (hok : vs.Ok vhash) {p : Ptr} {key : VKey} (hkey : vkey p = some key)
    (e : vsetEnter vhash alloc vs p = (0, vs')) : vs'.Ok vhash ∧ vs.Marks vs' key .PATH := by
  obtain hneg | ⟨hok', hcase⟩ := vsetEnter_spec hok hkey e
  · exact absurd hneg (by decide)
  rcases hcase with ⟨-, -, hmarks⟩ | ⟨hpos, -⟩
  · exact ⟨hok', hmarks⟩
  · exact absurd hpos (by decide)

/-- What the loop starts with: the frame of the root's object. -/
theorem walking_start {a : Addr} {q : Ptr} {cost : Nat} {key : VKey} (hq : pointee c a = some (q, cost))
    (h0 : q.type ≠ .NULL) (hkey : vkey q = some key) (hlim : 0 < limit) {capn : Capn}
    (hsame : SameMessage c capn) {vs vs' : VSet} (hempty : ∀ k s, ¬ vs.Mark k s) (hok : vs'.Ok vhash)
    (hmarks : vs.Marks vs' key .PATH) (sc : Nat) : Walking vhash c a limit
      ⟨capn, vs', [⟨q.withNesting limit, 0, objectNchild (q.withNesting limit)⟩], sc⟩ := by
  have hf : FrameOk c a limit vs'.Marked ⟨q.withNesting limit, 0, objectNchild (q.withNesting limit)⟩ q 1 :=
    .child (.root hq h0) (by omega) (by omega)
  refine ⟨hsame, hok, ⟨q, cost, key, hq, h0, hkey, .PATH, (hmarks key _).mpr (.inl ⟨rfl, rfl⟩)⟩,
    ⟨[key], .cons hf hkey List.not_mem_nil .nil, fun k => ?_⟩, fun k hd => ?_⟩
  · rw [hmarks, List.mem_singleton]
    constructor
    · rintro (⟨e, -⟩ | ⟨-, hm⟩)
      · exact e
      · exact absurd hm (hempty _ _)
    · exact fun e => .inl ⟨e, rfl⟩
  · rcases (hmarks k _).mp hd with ⟨-, e⟩ | ⟨-, hm⟩
    · cases e
    · exact absurd hm (hempty _ _)

/-- The message has no root: no segment, or a null pointer. -/
def Rootless (c : Capn) : Prop :=
  (capnRoot c).2.seg = none ∨ (capnRoot c).2.data = none ∨
    ∃ a : Addr, (capnRoot c).2.seg = some a.seg ∧ (capnRoot c).2.data = some a ∧
      boundsOk (capnRoot c).1 (some a.seg) (some a) 8 ∧ (capnRoot c).1.load64 a = 0

/-- When `capn_validate` returns before its loop: without a root, or in failure. -/
theorem validateStart_done {r : Int × Capn} (h : validateStart vhash alloc c = .done r) :
    SameMessage (capnRoot c).1 r.2 ∧ (r.1 = -1 ∨ r.1 = 0 ∧ Rootless c) := by
  have hread (d : Capn) (s : Option Nat) (a : Option Addr) (rem : Int) : SameMessage d (readPtr d s a rem).capn :=
    (SameMessage.refl d).readPtr s a rem
  simp only [validateStart] at h
  split at h
  · rename_i hnone
    cases h
    exact ⟨.refl _, .inr ⟨rfl, or_assoc.mp (.inl hnone)⟩⟩
  split at h
  · cases h
    exact ⟨.refl _, .inl rfl⟩
  · rename_i hnull
    cases h
    obtain ⟨a, hs, hd, hb, hbn⟩ := ptrWordNull_some hnull
    exact ⟨.refl _, .inr ⟨rfl, .inr (.inr ⟨a, hs, hd, hb, hbn.mp rfl⟩)⟩⟩
  split at h
  · cases h
    exact ⟨hread _ _ _ _, .inl rfl⟩
  split at h
  · cases h
    exact ⟨hread _ _ _ _, .inl rfl⟩
  split at h
  · cases h
    exact ⟨hread _ _ _ _, .inl rfl⟩
  split at h
  · cases h
    exact ⟨hread _ _ _ _, .inl rfl⟩
  split at h
  · cases h
    exact ⟨hread _ _ _ _, .inl rfl⟩
  · cases h

/-- What `capn_validate` has when it comes to its loop: the frame of the root's object. -/
theorem validateStart_walking {limit : Int} {v : Validation} (h : validateStart vhash alloc c = .next (limit, v)) :
    limit = sessionNesting c ∧ ∃ (a : Addr) (f : VFrame), (capnRoot c).2.seg = some a.seg ∧
      (capnRoot c).2.data = some a ∧ boundsOk (capnRoot c).1 (some a.seg) (some a) 8 ∧ v.stack = [f] ∧
      Walking vhash (capnRoot c).1 a limit v := by
  obtain ⟨c₁, root, hroot⟩ : ∃ c₁ root, capnRoot c = (c₁, root) := ⟨_, _, rfl⟩
  have hlim := sessionNesting_pos c
  simp only [validateStart, hroot] at h ⊢
  split at h
  · cases h
  split at h
  · cases h
  · cases h
  rename_i hnull
  obtain ⟨a, hs, hd, hb, -⟩ := ptrWordNull_some hnull
  split at h
  · cases h
  rename_i hf
  obtain ⟨seg, off, q, cost, -, hs', hd', -, hq, hq0, hptr⟩ := readPtr_ne_null hf
  obtain ⟨key, hkey⟩ := pointee_key hq hq0
  have ha : a = ⟨seg, off⟩ := Option.some.inj (hd.symm.trans hd')
  rw [← ha] at hq
  have hsame := (SameMessage.refl c₁).readPtr root.seg root.data (sessionNesting c)
  generalize readPtr c₁ root.seg root.data (sessionNesting c) = first at h hptr hsame
  split at h
  · cases h
  rename_i vs hi
  obtain ⟨hok, hempty⟩ := @vsetInit_spec vhash alloc vs hi
  have hkey' : vkey first.ptr = some key := by rw [hptr, vkey_withNesting, hkey]
  obtain ⟨ent, vs', hent⟩ : ∃ ent vs', vsetEnter vhash alloc vs first.ptr = (ent, vs') := ⟨_, _, rfl⟩
  simp only [hent] at h
  split at h
  · cases h
  split at h
  · cases h
  split at h
  · cases h
  rename_i h0
  cases h
  rw [ne_eq, not_not] at h0
  subst h0
  obtain ⟨hok', hmarks⟩ := vsetEnter_first hok hkey' hent
  refine ⟨rfl, a, _, hs, hd, hb, rfl, ?_⟩
  rw [hptr]
  exact walking_start hq hq0 hkey hlim hsame hempty hok' hmarks 64

/-- **`capn_validate`** returns 0 on a message without a root, or once it has walked
every object whose key is marked, that of the root among them. -/
theorem validates_closed {r : Int × Capn} (h : Validates vhash alloc c r) (h0 : r.1 = 0) :
    (capnRoot c).2.seg = none ∨ (capnRoot c).2.data = none ∨
      ∃ a : Addr, (capnRoot c).2.seg = some a.seg ∧ (capnRoot c).2.data = some a ∧
        boundsOk (capnRoot c).1 (some a.seg) (some a) 8 ∧
        ((capnRoot c).1.load64 a = 0 ∨
          ∃ marked, WordMarked (capnRoot c).1 a marked ∧
            Closed (capnRoot c).1 a (sessionNesting c) marked) := by
  obtain ⟨fuel, hf⟩ := h
  obtain ⟨⟨rc, d⟩, hrun, he⟩ := Option.map_eq_some_iff.mp hf
  have hrc : rc = 0 := by rw [← h0, ← he]
  subst hrc
  cases hstart : validateStart vhash alloc c with
  | done r =>
    rw [hstart] at hrun
    cases hrun
    obtain ⟨-, hrc | ⟨-, h | h | ⟨a, hs, hd, hb, hz⟩⟩⟩ := validateStart_done hstart
    · cases hrc
    · exact .inl h
    · exact .inr (.inl h)
    · exact .inr (.inr ⟨a, hs, hd, hb, .inl hz⟩)
  | next p =>
    obtain ⟨limit, v⟩ := p
    rw [hstart] at hrun
    obtain ⟨rfl, a, f, hs, hd, hb, -, hw⟩ := validateStart_walking hstart
    have hend := Loop.ends_inv
      (Q := fun r => r.1 = 0 → ∃ marked, WordMarked (capnRoot c).1 a marked ∧
        Closed (capnRoot c).1 a (sessionNesting c) marked)
      (fun _ _ => walking_step) (fun v r hv e h0 => ⟨v.vs.Marked, hv.first, walking_done hv e h0⟩) hw ⟨fuel, hrun⟩
    exact .inr (.inr ⟨a, hs, hd, hb, .inr (hend rfl)⟩)

end

end Capnproto

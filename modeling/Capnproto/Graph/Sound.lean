import Capnproto.Frame.Init
import Capnproto.Graph.Walk

/-!
# What `capn_validate` promises

A path of `capn_getp` steps through a message that `capn_validate` accepted
(`Visit.Step`) goes well, as long as every step takes a slot that the walk has
looked at (`Checked`): the table of objects knows an object by its key, which
says neither its length nor its sizes, nor how deep it was met.
-/

namespace Capnproto

/-- Where a path is: at `ptr`, the object `obj` or an element of it, after `hops`
pointers. -/
structure Visit where
  capn : Capn
  obj : Ptr
  ptr : Ptr
  hops : Nat

/-- The start of a path at the root, with `budget` bytes to traverse. -/
def Visit.start (c : Capn) (budget : Nat) : Visit :=
  ⟨{ (capnRoot c).1 with traversalLimit := budget, traversalUsed := 0, decodeErr := false },
    (capnRoot c).2, (capnRoot c).2, 0⟩

/-- At the object that was read, if any. -/
def Visit.follow (v : Visit) (r : Read) : Visit :=
  ⟨r.capn, r.ptr, r.ptr, if r.ptr.type = .NULL then v.hops else v.hops + 1⟩

theorem follow_ptr (v : Visit) (r : Read) : (v.follow r).ptr = r.ptr := rfl

theorem follow_obj (v : Visit) (r : Read) : (v.follow r).obj = r.ptr := rfl

theorem follow_hops (v : Visit) (r : Read) :
    (v.follow r).hops = if r.ptr.type = .NULL then v.hops else v.hops + 1 := rfl

/-- After `capn_getp` on a slot. -/
def Visit.getp (v : Visit) (off : Nat) : Visit := v.follow (capnGetp v.capn v.ptr off true)

/-- One step: the pointer in slot `off` of a struct or a pointer list, which the
budget affords, or element `off` of a list. Of the slots only those are taken
that satisfy `cond`. -/
inductive Visit.Step (cond : Visit → Addr → Prop) : Visit → Visit → Prop
  | slot (v : Visit) (off : Nat) (a : Addr) (ht : v.ptr.type = .STRUCT ∨ v.ptr.type = .PTR_LIST)
    (hoff : (off : Int) < objectNchild v.ptr) (ha : childSlot v.ptr off = some (some a.seg, some a))
    (hc : cond v a) (hcost : ∀ p cost, pointee v.capn a = some (p, cost) → Affords v.capn cost) :
    Step cond v (v.getp off)
  | element (v : Visit) (off : Nat) (ht : v.ptr.type = .LIST) (hoff : (off : Int) < v.ptr.len) :
    Step cond v ⟨(capnGetp v.capn v.ptr off true).capn, v.obj, (capnGetp v.capn v.ptr off true).ptr, v.hops⟩

/-- The places that a path reaches. -/
def Walk (cond : Visit → Addr → Prop) : Visit → Visit → Prop := Relation.ReflTransGen (Visit.Step cond)

/-- No error, a pointer that is null or to an object in bounds, and no more
pointers than allowed. -/
structure Visit.Good (limit : Int) (v : Visit) : Prop where
  ok : v.capn.decodeErr = false
  far : v.ptr.type ≠ .FAR_POINTER
  inside : Inside v.capn v.ptr
  hops : (v.hops : Int) ≤ limit

/-- The slot at `a`, of an object that is not the root pointer, is a slot of every
object with the same key, and it is not too deep: a further hop is left, or its
word is not null and no object with the same key is met sooner. -/
def Checked (c : Capn) (root : Addr) (limit : Int) (v : Visit) (a : Addr) : Prop :=
  v.hops = 0 ∨ ∀ p d, Met c root p d → vkey p = vkey v.obj →
    (∃ i : Nat, (i : Int) < objectNchild p ∧ childSlot p i = some (some a.seg, some a)) ∧
      ((v.hops : Int) < limit ∨ v.capn.load64 a ≠ 0 ∧ v.hops ≤ d)

/-! ## Steps -/

/-- The word of a null pointer. -/
theorem pointee_null {c : Capn} {a : Addr} (hb : boundsOk c (some a.seg) (some a) 8) (h0 : c.load64 a = 0) :
    ∃ p, pointee c a = some (p, 0) ∧ p.type = .NULL := by
  obtain ⟨seg, off, e, e', h1, h2⟩ := boundsOk_iff.mp hb
  cases e'
  have hnext : applyOffset c seg ⟨seg, off⟩ 0 = some ⟨seg, off + 8⟩ := by
    rw [applyOffset]
    have hz : toInt32 0 / 4 = 0 := by decide
    simp only [hz]
    rw [if_neg (by push_cast at h2; omega)]
    congr 1
  have hb' : boundsOk c (some seg) (some ⟨seg, off + 8⟩) 0 :=
    boundsOk_iff.mpr ⟨seg, off + 8, rfl, rfl, by omega, by push_cast at h2 ⊢; omega⟩
  refine ⟨{ type := .NULL, hasPtrTag := false, seg := some seg, data := some ⟨seg, off + 8⟩ }, ?_, rfl⟩
  have hdec : decodeObject c seg ⟨seg, off⟩ 0 =
      some ({ seg := some seg, data := some ⟨seg, off + 8⟩ }, 0) := by
    rw [decodeObject, hnext]
    show (if boundsOk c (some seg) (some ⟨seg, off + 8⟩) 0 then _ else _) = _
    rw [if_pos hb']
    rfl
  rw [pointee, h0]
  show (decodeObject c seg ⟨seg, off⟩ 0).map _ = _
  rw [hdec]
  rfl

/-- A pointee is never a far pointer. -/
theorem pointee_far {c : Capn} {a : Addr} {p : Ptr} {cost : Nat} (h : pointee c a = some (p, cost)) :
    p.type ≠ .FAR_POINTER := by
  rcases pointee_spec h with ⟨ht, -⟩ | ⟨⟨-, -, hs⟩, -⟩
  · rw [ht]
    decide
  · intro ht
    rw [ht] at hs
    exact hs

/-- **`capn_getp`** on a slot reads its word. -/
theorem capnGetp_slot {c : Capn} {p : Ptr} {off : Nat} {a : Addr} (ht : p.type = .STRUCT ∨ p.type = .PTR_LIST)
    (hoff : (off : Int) < objectNchild p) (ha : childSlot p off = some (some a.seg, some a)) :
    capnGetp c p off true = readPtr c (some a.seg) (some a) (hopRemaining c p) := by
  have hfar : p.type ≠ .FAR_POINTER := by
    rcases ht with h | h <;> rw [h] <;> decide
  rw [capnGetp, capnResolve, if_neg hfar]
  rcases ht with h | h
  · simp only [childSlot, h, Option.some.injEq, Prod.mk.injEq] at ha
    simp only [objectNchild, h] at hoff
    simp only [getpResolved, h, if_neg (Int.not_le.mpr hoff), getpSlot, ha.1, if_true, List.nil_append]
    rw [← ha.2]
  · simp only [childSlot, h, Option.some.injEq, Prod.mk.injEq] at ha
    simp only [objectNchild, h] at hoff
    simp only [getpResolved, h, if_neg (Int.not_le.mpr hoff), getpSlot, ha.1, not_true_eq_false, if_false, if_true,
      List.nil_append]
    rw [← ha.2]

section

variable {c c₀ : Capn} {root : Addr} {limit : Int} {marked : VKey → Prop} {v v' : Visit}

/-- What is known at a place `v` of a path: all is well, and if there is an object, its
key is marked, or it is the root pointer. -/
structure Visit.Fine (c : Capn) (root : Addr) (limit : Int) (marked : VKey → Prop) (v : Visit) : Prop where
  good : v.Good limit
  segs : v.capn.segs = c.segs
  place : v.ptr.type = .NULL ∨ (∀ c, hopRemaining c v.ptr = limit - v.hops) ∧
    ((v.hops = 0 ∧ v.ptr.type = .PTR_LIST ∧ v.ptr.len = 1 ∧ v.ptr.data = some root) ∨
      0 < v.hops ∧ ∃ key, vkey v.obj = some key ∧ marked key)

theorem load64_congr {c c' : Capn} (h : c'.segs = c.segs) (a : Addr) : c'.load64 a = c.load64 a := by
  rw [Capn.load64, Capn.load64, Capn.seg, Capn.seg, h]

/-- A step to the pointer in a slot whose word is null, or points at an object whose
key is marked. -/
theorem Visit.Fine.slot (h : v.Fine c root limit marked) {off : Nat} {a : Addr}
    (ht : v.ptr.type = .STRUCT ∨ v.ptr.type = .PTR_LIST) (hoff : (off : Int) < objectNchild v.ptr)
    (ha : childSlot v.ptr off = some (some a.seg, some a))
    (hcost : ∀ p cost, pointee v.capn a = some (p, cost) → Affords v.capn cost)
    (hb : boundsOk c (some a.seg) (some a) 8) (hlt : (v.hops : Int) < limit)
    (hw : c.load64 a = 0 ∨ WordMarked c a marked) :
    (v.getp off).Fine c root limit marked := by
  rw [Visit.getp]
  have hread := capnGetp_slot (c := v.capn) ht hoff ha
  have hrem : hopRemaining v.capn v.ptr = limit - v.hops := by
    obtain h0 | ⟨hr, -⟩ := h.place
    · rcases ht with ht | ht <;> exact absurd (ht.symm.trans h0) (by decide)
    · exact hr _
  have hreads := @reads_getp v.capn v.ptr off true h.good.inside (Int.natCast_nonneg off)
  have hseg := hreads.segs
  have hin : Inside (capnGetp v.capn v.ptr off true).capn (capnGetp v.capn v.ptr off true).ptr :=
    fun h0 hf hi => (hreads.ptr h0 hf hi).congr hreads.segs
  have hb' : boundsOk v.capn (some a.seg) (some a) 8 := by
    obtain ⟨seg, off, e, e', h1, h2⟩ := boundsOk_iff.mp hb
    refine boundsOk_iff.mpr ⟨seg, off, e, e', h1, ?_⟩
    rwa [Capn.seg, h.segs]
  have heq := @readPtr_eq v.capn a.seg a.off (limit - v.hops) (by omega) hb'
  rw [hread, hrem] at hin hseg ⊢
  rcases hw with h0 | ⟨q, cost, key, hq, hq0, hkey, hmark⟩
  · obtain ⟨p, hp, hp0⟩ := pointee_null hb' ((load64_congr h.segs a).trans h0)
    have hp' : pointee v.capn ⟨a.seg, a.off⟩ = some (p, 0) := hp
    simp only [hp', Affords, true_or, if_true] at heq
    have ht0 : (p.withNesting (limit - v.hops)).type = .NULL := (type_withNesting _ _).trans hp0
    rw [heq] at hin hseg ⊢
    refine ⟨⟨h.good.ok, ?_, hin, ?_⟩, hseg.trans h.segs, .inl ht0⟩
    · rw [follow_ptr, ht0]
      decide
    · rw [follow_hops, if_pos ht0]
      exact h.good.hops
  · have hq' : pointee v.capn ⟨a.seg, a.off⟩ = some (q, cost) := (pointee_congr h.segs a).trans hq
    simp only [hq', hcost q cost hq', if_true] at heq
    have ht0 : (q.withNesting (limit - v.hops)).type ≠ .NULL := by rwa [type_withNesting]
    rw [heq] at hin hseg ⊢
    refine ⟨⟨h.good.ok, ?_, hin, ?_⟩, hseg.trans h.segs, .inr ⟨fun c => ?_, .inr ⟨?_, key, ?_, hmark⟩⟩⟩
    · rw [follow_ptr, type_withNesting]
      exact pointee_far hq
    · rw [follow_hops, if_neg ht0]
      omega
    · rw [follow_ptr, follow_hops, if_neg ht0, withNesting_pos (by omega), hopRemaining, if_pos rfl]
      show limit - v.hops - 1 = _
      push_cast
      omega
    · rw [follow_hops, if_neg ht0]
      exact Nat.succ_pos _
    · rw [follow_obj, vkey_withNesting, hkey]

/-- A step to an element of a list. -/
theorem Visit.Fine.element (h : v.Fine c root limit marked) {off : Nat} (ht : v.ptr.type = .LIST)
    (hoff : (off : Int) < v.ptr.len) : Visit.Fine c root limit marked
      ⟨(capnGetp v.capn v.ptr off true).capn, v.obj, (capnGetp v.capn v.ptr off true).ptr, v.hops⟩ := by
  have hreads := @reads_getp v.capn v.ptr off true h.good.inside (Int.natCast_nonneg off)
  have hin : Inside (capnGetp v.capn v.ptr off true).capn (capnGetp v.capn v.ptr off true).ptr :=
    fun h0 hf hi => (hreads.ptr h0 hf hi).congr hreads.segs
  have hr : capnGetp v.capn v.ptr off true = ⟨v.capn,
      { type := .STRUCT, isListMember := true, seg := v.ptr.seg, datasz := v.ptr.datasz, ptrs := v.ptr.ptrs,
        data := v.ptr.data.map (·.add (off * (v.ptr.datasz + 8 * v.ptr.ptrs))),
        nestingValid := true, nesting := hopRemaining v.capn v.ptr }, []⟩ := by
    have hfar : v.ptr.type ≠ .FAR_POINTER := by rw [ht]; decide
    rw [capnGetp, capnResolve, if_neg hfar]
    simp only [getpResolved, ht, if_pos hoff, List.nil_append]
  rw [hr] at hin ⊢
  refine ⟨⟨h.good.ok, fun e => CapnType.noConfusion e, hin, h.good.hops⟩, h.segs, .inr ?_⟩
  obtain h0 | ⟨hrem, hplace⟩ := h.place
  · exact absurd (ht.symm.trans h0) (by decide)
  refine ⟨fun c => ?_, .inr ?_⟩
  · rw [hopRemaining, if_pos rfl]
    exact hrem _
  · obtain ⟨-, hp, -⟩ | hobj := hplace
    · exact absurd (ht.symm.trans hp) (by decide)
    · exact hobj

/-- What `capn_validate` found of the message `c`. -/
structure Scanned (c : Capn) (root : Addr) (limit : Int) (marked : VKey → Prop) : Prop where
  closed : Closed c root limit marked
  bounds : boundsOk c (some root.seg) (some root) 8
  root : c.load64 root = 0 ∨ WordMarked c root marked
  pos : 0 < limit

/-- **One step** through a message that was found fine. -/
theorem fine_step (hc : Scanned c root limit marked) (h : v.Fine c root limit marked)
    (hstep : Visit.Step (Checked c root limit) v v') : v'.Fine c root limit marked := by
  cases hstep with
  | element off ht hoff => exact h.element ht hoff
  | slot off a ht hoff ha hchk hcost =>
    obtain h0 | ⟨-, ⟨hh, hp, hlen, hdata⟩ | ⟨hh, key, hkey, hmark⟩⟩ := h.place
    · rcases ht with ht | ht <;> exact absurd (ht.symm.trans h0) (by decide)
    · -- the root pointer has one slot
      have ha' : a = root := by
        rw [objectNchild, hp] at hoff
        have hoff0 : off = 0 := by
          simp only [hlen] at hoff
          omega
        simp only [childSlot, hp, hdata, hoff0, Option.map_some, Option.some.injEq, Prod.mk.injEq] at ha
        rw [← ha.2]
        show Addr.mk root.seg (root.off + _) = root
        simp
      rw [ha'] at ha hcost
      exact h.slot ht hoff ha hcost hc.bounds (by rw [hh]; exact_mod_cast hc.pos) hc.root
    · obtain ⟨p, d, hpk, hwalked⟩ := hc.closed key hmark
      obtain ⟨⟨i, hi, hslot⟩, hdepth⟩ := hchk.resolve_left (by omega) p d hwalked.met (hpk.trans hkey.symm)
      obtain ⟨b, hslot', hb, hw⟩ := hwalked.slots i hi
      rw [hslot] at hslot'
      simp only [Option.some.injEq, Prod.mk.injEq] at hslot'
      obtain ⟨-, rfl⟩ := hslot'
      have hload := load64_congr h.segs a
      have hlt : (v.hops : Int) < limit := by
        rcases hdepth with hlt | ⟨hne, hle⟩
        · exact hlt
        · rcases hw with h0 | ⟨hd, -⟩
          · exact absurd (hload.trans h0) hne
          · omega
      exact h.slot ht hoff ha hcost hb hlt (hw.imp_right fun ⟨_, q, cost, key, hq⟩ => ⟨q, cost, key, hq⟩)

/-- A path through a message that was found fine. -/
theorem fine_walk (hc : Scanned c root limit marked) (h : v.Fine c root limit marked)
    (hwalk : Walk (Checked c root limit) v v') : v'.Fine c root limit marked := by
  induction hwalk with
  | refl => exact h
  | tail _ hstep ih => exact fine_step hc ih hstep

end

/-- `new_data` leaves the limits alone. -/
theorem newData_nesting {c c' : Capn} {sz s : Nat} {a : Addr} (h : newData c sz = some (c', s, a)) :
    c'.nestingLimit = c.nestingLimit := by
  rw [newData] at h
  split at h
  · cases h
    rfl
  · split at h
    · cases h
    · split at h
      · cases h
      · cases h
        rfl

/-- The root pointer, if any, is to a list of one pointer. -/
theorem capnRoot_ptr (c : Capn) : (capnRoot c).2 = {} ∨ ∃ a s, (capnRoot c).2 =
    { type := .PTR_LIST, seg := some s, data := some a, len := 1, nestingValid := true,
      nesting := sessionNesting c } := by
  rw [capnRoot]
  split
  · exact .inl rfl
  · rename_i d s a hfound
    have hn : sessionNesting d = sessionNesting c := by
      have hl : d.nestingLimit = c.nestingLimit := by
        split at hfound
        · cases hfound
          rfl
        · exact newData_nesting hfound
      rw [sessionNesting, sessionNesting, hl]
    split
    · exact .inl rfl
    · rw [hn]
      exact .inr ⟨a, s, rfl⟩

/-- Where the root word is. -/
def rootAddr (c : Capn) : Addr := (capnRoot c).2.data.getD ⟨0, 0⟩

/-- A path that starts at a null pointer ends there. -/
theorem walk_null {cond : Visit → Addr → Prop} {v v' : Visit} (h0 : v.ptr.type = .NULL) (h : Walk cond v v') :
    v' = v := by
  induction h with
  | refl => rfl
  | tail _ hstep ih =>
    rw [ih] at hstep
    cases hstep with
    | slot off a ht => rcases ht with ht | ht <;> exact absurd (ht.symm.trans h0) (by decide)
    | element off ht => exact absurd (ht.symm.trans h0) (by decide)

/-- The start of a path, where the message has a root. -/
theorem fine_start {c : Capn} {budget : Nat} {a : Addr} {marked : VKey → Prop}
    (hs : (capnRoot c).2.seg = some a.seg) (hd : (capnRoot c).2.data = some a) (hpos : 0 < sessionNesting c)
    (hb : boundsOk (capnRoot c).1 (some a.seg) (some a) 8) :
    (Visit.start c budget).Fine (capnRoot c).1 a (sessionNesting c) marked := by
  obtain h0 | ⟨b, s, hroot⟩ := capnRoot_ptr c
  · rw [h0] at hs
    cases hs
  rw [hroot] at hs hd
  cases hs
  cases hd
  obtain ⟨seg, off, e, e', h1, h2⟩ := boundsOk_iff.mp hb
  cases e'
  rw [Visit.start, hroot]
  refine ⟨⟨rfl, fun e => CapnType.noConfusion e, fun _ _ _ => ⟨seg, off, rfl, rfl, h1, ?_⟩, hpos.le⟩, rfl,
    .inr ⟨fun c' => ?_, .inl ⟨rfl, rfl, rfl, rfl⟩⟩⟩
  · show off + ((8 * (1 : Int).toNat : Nat) : Int) ≤ ((capnRoot c).1.seg seg).len
    exact h2
  · rw [hopRemaining, if_pos rfl]
    exact (Int.sub_zero _).symm

/-- **`capn_validate` is sound** along paths whose slots it has checked. -/
theorem validate_sound {vhash : VKey → Nat} {alloc : VAlloc} {c c' : Capn} {budget : Nat} {v : Visit}
    (h : Validates vhash alloc c (0, c'))
    (hwalk : Walk (Checked (capnRoot c).1 (rootAddr c) (sessionNesting c)) (Visit.start c budget) v) :
    v.Good (sessionNesting c) := by
  have hpos : 0 < sessionNesting c := by
    rw [sessionNesting]
    split
    · assumption
    · decide
  -- without a root there is no path
  have hnone : (capnRoot c).2.seg = none ∨ (capnRoot c).2.data = none → v.Good (sessionNesting c) := by
    intro hn
    obtain h0 | ⟨b, s, hroot⟩ := capnRoot_ptr c
    · have hv : v = Visit.start c budget := walk_null (by rw [Visit.start, h0]) hwalk
      rw [hv, Visit.start, h0]
      exact ⟨rfl, fun e => CapnType.noConfusion e, Inside.null _, hpos.le⟩
    · rw [hroot] at hn
      rcases hn with hn | hn <;> cases hn
  obtain hs | hd | ⟨a, hs, hd, hb, hw⟩ := validates_closed h rfl
  · exact hnone (.inl hs)
  · exact hnone (.inr hd)
  have ha : rootAddr c = a := by rw [rootAddr, hd, Option.getD_some]
  rw [ha] at hwalk
  obtain h0 | ⟨marked, hroot, hclosed⟩ := hw
  · have hfound : Scanned (capnRoot c).1 a (sessionNesting c) fun _ => False :=
      ⟨fun _ hk => hk.elim, hb, .inl h0, hpos⟩
    exact (fine_walk hfound (fine_start hs hd hpos hb) hwalk).good
  · exact (fine_walk ⟨hclosed, hb, .inr hroot, hpos⟩ (fine_start hs hd hpos hb) hwalk).good

/-! ## Two messages -/

/-- Step `off` can be taken, but for `cond`. -/
def Visit.affordable (v : Visit) (off : Nat) (a : Addr) : Bool :=
  (v.ptr.type = .STRUCT ∨ v.ptr.type = .PTR_LIST) ∧ (off : Int) < objectNchild v.ptr ∧
    childSlot v.ptr off = some (some a.seg, some a) ∧ (pointee v.capn a).all fun q => Affords v.capn q.2

theorem Visit.step_of_affordable {cond : Visit → Addr → Prop} {v : Visit} {off : Nat} {a : Addr}
    (h : v.affordable off a = true) (hc : cond v a) :
    Visit.Step cond v (v.getp off) := by
  simp only [Visit.affordable, decide_eq_true_eq, Bool.decide_and, Bool.and_eq_true] at h
  obtain ⟨ht, hoff, ha, hcost⟩ := h
  refine .slot v off a ht hoff ha hc fun p cost hp => ?_
  rw [hp] at hcost
  exact of_decide_eq_true hcost

/-- The session that `capn_init_mem` makes of one segment. -/
def segmentSession (bytes : List UInt8) : Capn :=
  (carve [bytes.length] bytes).foldl capnAppendSegment capnInitMalloc

theorem validates_of_status {vhash : VKey → Nat} {alloc : VAlloc} {c : Capn} {rc : Int} (fuel : Nat)
    (h : (capnValidate vhash alloc fuel c).map Prod.fst = some rc) : ∃ c', Validates vhash alloc c (rc, c') := by
  obtain ⟨⟨r, d⟩, hr, rfl⟩ := Option.map_eq_some_iff.mp h
  exact ⟨d, fuel, hr⟩

/-- A struct of one pointer, to a struct of one word of data. -/
def nestedBytes : List UInt8 :=
  [0, 0, 0, 0, 0, 0, 1, 0, 0, 0, 0, 0, 1, 0, 0, 0, 1, 2, 3, 4, 5, 6, 7, 8]

/-- A struct of two pointers to one word: as a struct of data, and as a struct of
one pointer, which is broken. -/
def aliasBytes : List UInt8 :=
  [0, 0, 0, 0, 0, 0, 2, 0, 4, 0, 0, 0, 1, 0, 0, 0, 0, 0, 0, 0, 0, 0, 1, 0, 255, 255, 255, 255, 255, 255, 255, 255]

/-- A struct whose only pointer leads back to it. -/
def selfBytes : List UInt8 := [252, 255, 255, 255, 0, 0, 1, 0]

/-- The outer and the inner struct of `nestedBytes`. -/
def outerPtr : Ptr := { type := .STRUCT, ptrs := 1, data := some ⟨0, 8⟩, seg := some 0 }
def innerPtr : Ptr := { type := .STRUCT, datasz := 8, data := some ⟨0, 16⟩, seg := some 0 }

theorem pointee_outer : pointee (segmentSession nestedBytes) ⟨0, 0⟩ = some (outerPtr, 8) := by decide +kernel

theorem pointee_inner : pointee (segmentSession nestedBytes) ⟨0, 8⟩ = some (innerPtr, 8) := by decide +kernel

theorem met_nested {p : Ptr} {d : Nat} (h : Met (segmentSession nestedBytes) ⟨0, 0⟩ p d) :
    p = outerPtr ∧ d = 1 ∨ p = innerPtr ∧ d = 2 := by
  induction h with
  | root h hp =>
    rw [pointee_outer] at h
    cases h
    exact .inl ⟨rfl, rfl⟩
  | @child p q d i cost s a hm hi hs h hq ih =>
    rcases ih with ⟨rfl, rfl⟩ | ⟨rfl, rfl⟩
    · have hi0 : i = 0 := by
        change (i : Int) < 1 at hi
        omega
      rw [hi0] at hs
      cases hs
      have ha : pointee (segmentSession nestedBytes) ⟨0, 8⟩ = some (q, cost) := h
      rw [pointee_inner] at ha
      cases ha
      exact .inr ⟨rfl, rfl⟩
    · change (i : Int) < 0 at hi
      omega

/-- Both structs of `nestedBytes` are reached. -/
theorem validate_sound_nested : ∃ c' v, Validates (fun _ => 0) ⟨fun _ => true, fun _ => true⟩
    (segmentSession nestedBytes) (0, c') ∧
      Walk (Checked (capnRoot (segmentSession nestedBytes)).1 (rootAddr (segmentSession nestedBytes))
        (sessionNesting (segmentSession nestedBytes))) (Visit.start (segmentSession nestedBytes) 100) v ∧
      v.hops = 2 ∧ v.Good (sessionNesting (segmentSession nestedBytes)) := by
  obtain ⟨c', hv⟩ := @validates_of_status (fun _ => 0) ⟨fun _ => true, fun _ => true⟩ (segmentSession nestedBytes) 0 5
    (by decide +kernel)
  let v := Visit.start (segmentSession nestedBytes) 100
  let cond := Checked (capnRoot (segmentSession nestedBytes)).1 (rootAddr (segmentSession nestedBytes))
    (sessionNesting (segmentSession nestedBytes))
  have h1 : Visit.Step cond v (v.getp 0) :=
    Visit.step_of_affordable (a := ⟨0, 0⟩) (by decide +kernel) (.inl rfl)
  have hchecked : cond (v.getp 0) ⟨0, 8⟩ := by
    refine .inr fun p d hm hk => ?_
    have hhops : ((v.getp 0).hops : Int) < sessionNesting (segmentSession nestedBytes) := by decide +kernel
    have hkey : vkey (v.getp 0).obj = some ⟨0, ⟨0, 8⟩, .STRUCT, false⟩ := by decide +kernel
    have hm' : Met (segmentSession nestedBytes) ⟨0, 0⟩ p d := hm
    rcases met_nested hm' with ⟨rfl, -⟩ | ⟨rfl, -⟩
    · exact ⟨⟨0, by decide, by decide⟩, .inl hhops⟩
    · rw [hkey] at hk
      exact absurd hk (by decide)
  have h2 : Visit.Step cond (v.getp 0) ((v.getp 0).getp 0) :=
    Visit.step_of_affordable (a := ⟨0, 8⟩) (by decide +kernel) hchecked
  have hwalk : Walk cond v ((v.getp 0).getp 0) := (Relation.ReflTransGen.single h1).tail h2
  exact ⟨c', (v.getp 0).getp 0, hv, hwalk, by decide +kernel, validate_sound hv hwalk⟩

/-- The second pointer of `aliasBytes` is to a struct that was not walked. -/
theorem validate_sound_fails : ∃ r c' v,
    InitsMem some ([0, 0, 0, 0, 4, 0, 0, 0] ++ aliasBytes) false r ∧ r.ret = 0 ∧
      Validates (fun _ => 0) ⟨fun _ => true, fun _ => true⟩ r.capn (0, c') ∧
      Walk (fun _ _ => True) (Visit.start r.capn CAPN_TRAVERSAL_DEFAULT) v ∧ v.capn.decodeErr = true := by
  obtain ⟨r, hi, hr, hc⟩ : ∃ r, InitsMem some ([0, 0, 0, 0, 4, 0, 0, 0] ++ aliasBytes) false r ∧ r.ret = 0 ∧
      r.capn = segmentSession aliasBytes := ⟨_, ⟨0, rfl⟩, rfl, rfl⟩
  obtain ⟨c', hv⟩ := @validates_of_status (fun _ => 0) ⟨fun _ => true, fun _ => true⟩ (segmentSession aliasBytes) 0 5
    (by decide +kernel)
  let v := Visit.start (segmentSession aliasBytes) CAPN_TRAVERSAL_DEFAULT
  have h1 : Visit.Step (fun _ _ => True) v (v.getp 0) :=
    Visit.step_of_affordable (a := ⟨0, 0⟩) (by decide +kernel) trivial
  have h2 : Visit.Step (fun _ _ => True) (v.getp 0) ((v.getp 0).getp 1) :=
    Visit.step_of_affordable (a := ⟨0, 16⟩) (by decide +kernel) trivial
  have h3 : Visit.Step (fun _ _ => True) ((v.getp 0).getp 1) (((v.getp 0).getp 1).getp 0) :=
    Visit.step_of_affordable (a := ⟨0, 24⟩) (by decide +kernel) trivial
  rw [← hc] at hv
  refine ⟨r, c', ((v.getp 0).getp 1).getp 0, hi, hr, hv, ?_, by decide +kernel⟩
  rw [hc]
  exact ((Relation.ReflTransGen.single h1).tail h2).tail h3

end Capnproto

import Mathlib.Logic.Relation
import Capnproto.Object.Copy
import Capnproto.Pointer.Bounds

/-!
# Sessions built by library calls

The calls that build a session (`Call`), and what holds of the segments of a
session that any run of them builds from `capn_init_malloc` (`built_fit`): they
are whole words, never empty, within their capacity and below what an `int`
counts. Each call keeps this (`Fit`), since each takes room in one of the ways
of `fit_bump` and `fit_newData`, and stores bytes (`fit_write`).
-/

namespace Capnproto

/-- The largest segment of whole words whose size an `int` holds. -/
def maxSegment : Nat := INT_MAX / 8 * 8

/-- A segment of whole words, in use within its capacity. -/
structure SegFit (s : Segment) : Prop where
  words : 8 ∣ s.len
  pos : 8 ≤ s.len
  le_cap : s.len ≤ s.cap
  cap : s.cap ≤ maxSegment

/-- A session of `malloc`ed segments of whole words. -/
structure Fit (c : Capn) : Prop where
  create : c.create = some Capnproto.create
  seg : ∀ i < c.segs.length, SegFit (c.seg i)

theorem fit_init : Fit capnInitMalloc := ⟨rfl, fun i hi => absurd hi (Nat.not_lt_zero i)⟩

theorem Fit.of_segs {c c' : Capn} (h : Fit c) (hs : c'.segs = c.segs) (hc : c'.create = c.create) : Fit c' := by
  refine ⟨hc.trans h.create, fun i hi => ?_⟩
  rw [hs] at hi
  have := h.seg i hi
  rwa [Capn.seg, ← hs] at this

/-- A change of one segment that fits. -/
theorem Fit.setSeg {c : Capn} (h : Fit c) {i : Nat} {f : Segment → Segment}
    (hf : i < c.segs.length → SegFit (f (c.seg i))) : Fit (c.setSeg i f) := by
  refine ⟨h.create, fun k hk => ?_⟩
  rw [Capn.length_setSeg] at hk
  by_cases e : i = k
  · subst e
    rw [Capn.seg_setSeg_self f hk]
    exact hf hk
  · rw [Capn.seg_setSeg_ne f e]
    exact h.seg k hk

theorem fit_write {c : Capn} (h : Fit c) (a : Addr) (bs : List UInt8) : Fit (c.write a bs) := by
  refine h.setSeg fun hi => ?_
  obtain ⟨hw, hp, hl, hc⟩ := h.seg _ hi
  exact ⟨hw, hp, hl, hc⟩

theorem fit_bump {c : Capn} (h : Fit c) {i n : Nat} (hn : 8 ∣ n)
    (hle : (c.seg i).len + n ≤ (c.seg i).cap) : Fit (bump c i n) := by
  refine h.setSeg fun hi => ?_
  obtain ⟨hw, hp, hl, hc⟩ := h.seg _ hi
  refine ⟨Nat.dvd_add hw hn, ?_, hle, hc⟩
  show 8 ≤ (c.seg i).len + n
  omega

/-- The segments that `create` makes have room for what was asked. -/
theorem create_spec {id sz : Nat} {s : Segment} (h : create id sz = some s) :
    s.len = 0 ∧ sz ≤ s.cap ∧ s.cap ≤ maxSegment := by
  simp only [create] at h
  split at h
  · cases h
  rename_i hsz
  cases h
  refine ⟨rfl, ?_⟩
  simp only [createCap]
  by_cases hs : sz + sizeofSegment < CAPN_CREATE_MIN_SZ
  · rw [if_pos hs]
    simp only [sizeofSegment, CAPN_CREATE_MIN_SZ, maxSegment, INT_MAX] at *
    omega
  · rw [if_neg hs]
    simp only [sizeofSegment, CAPN_CREATE_MIN_SZ, maxSegment, INT_MAX] at *
    omega

theorem seg_append_lt {c : Capn} {s : Segment} {i : Nat} (h : i < c.segs.length) :
    (capnAppendSegment c s).seg i = c.seg i := by
  simp only [capnAppendSegment, Capn.seg, List.getD_eq_getElem?_getD]
  rw [List.getElem?_append_left h]

theorem seg_append_self {c : Capn} {s : Segment} : (capnAppendSegment c s).seg c.segs.length = s := by
  simp only [capnAppendSegment, Capn.seg, List.getD_eq_getElem?_getD]
  rw [List.getElem?_append_right (Nat.le_refl _)]
  simp

/-- What `new_data` does: it takes room in a segment that has it, or in a fresh
one. -/
theorem newData_cases {c c' : Capn} {n s : Nat} {a : Addr} (h : newData c n = some (c', s, a)) :
    (s < c.segs.length ∧ (c.seg s).len + n ≤ (c.seg s).cap ∧ c' = bump c s n ∧ a = ⟨s, (c.seg s).len⟩) ∨
    ∃ create t, c.create = some create ∧ create c.segnum n = some t ∧ s = c.segs.length ∧
      c' = bump (capnAppendSegment c t) s n ∧ a = ⟨s, t.len⟩ := by
  simp only [newData] at h
  split at h
  · rename_i i hi
    cases h
    obtain ⟨hlt, hp, -⟩ := List.findIdx?_eq_some_iff_getElem.mp hi
    refine .inl ⟨hlt, ?_, rfl, rfl⟩
    rw [Capn.seg_of_lt hlt]
    simpa using hp
  · split at h
    · cases h
    · rename_i create hc
      split at h
      · cases h
      · rename_i t ht
        cases h
        exact .inr ⟨create, t, hc, ht, rfl, rfl, rfl⟩

theorem fit_newData {c c' : Capn} (h : Fit c) {n s : Nat} {a : Addr} (hn : 8 ∣ n) (h8 : 8 ≤ n)
    (e : newData c n = some (c', s, a)) : Fit c' := by
  rcases newData_cases e with ⟨-, hle, rfl, -⟩ | ⟨create, t, hc, ht, rfl, rfl, -⟩
  · exact fit_bump h hn hle
  · have hcr := Option.some.inj (h.create.symm.trans hc)
    subst hcr
    obtain ⟨h0, hcap, hmax⟩ := create_spec ht
    refine ⟨h.create, fun i hi => ?_⟩
    have hlen : (capnAppendSegment c t).segs.length = c.segs.length + 1 := by simp [capnAppendSegment]
    simp only [bump, Capn.length_setSeg, hlen] at hi
    by_cases e : c.segs.length = i
    · subst e
      rw [bump, Capn.seg_setSeg_self _ (by omega), seg_append_self, h0, Nat.zero_add]
      exact ⟨hn, h8, hcap, hmax⟩
    · rw [bump, Capn.seg_setSeg_ne _ e, seg_append_lt (by omega)]
      exact h.seg i (by omega)

/-! ## One call -/

theorem fit_writePtrTag {c c' : Capn} (h : Fit c) {d : Addr} {p : Ptr} {off : Int}
    (e : writePtrTag c d p off = some c') : Fit c' := by
  obtain ⟨v, -, rfl⟩ := Option.map_eq_some_iff.mp e
  exact fit_write h _ _

theorem fit_tagResult {c : Capn} (h : Fit c) {d : Addr} {p : Ptr} {off : Int} :
    Fit (tagResult c (writePtrTag c d p off)).2 := by
  cases e : writePtrTag c d p off with
  | none => exact h
  | some c' => exact fit_writePtrTag h e

theorem fit_store64 {c : Capn} (h : Fit c) (a : Addr) (v : Nat) : Fit (c.store64 a v) := fit_write h _ _

theorem fit_writePtrFar {c : Capn} (h : Fit c) (s : Nat) (d : Addr) (p : Ptr) (seg : Nat) (pdata : Int) :
    Fit (writePtrFar c s d p seg pdata).2 := by
  simp only [writePtrFar]
  split
  · exact fit_store64 h _ _
  split
  · rename_i hroom
    split
    · exact h
    · rename_i c' hc'
      have hc := fit_writePtrTag h hc'
      obtain ⟨v, -, rfl⟩ := Option.map_eq_some_iff.mp hc'
      refine fit_bump (fit_store64 hc _ _) (Nat.dvd_refl 8) ?_
      simpa [writeFarPtr, Capn.store64] using hroom
  · split
    · exact h
    · rename_i c' t a hroom
      have hc : Fit c' := by
        split at hroom
        · rename_i hle
          cases hroom
          exact fit_bump h (by decide) hle
        · exact fit_newData h (by decide) (by decide) hroom
      have hfar : Fit (writeFarPtr c' a seg pdata) := fit_store64 hc _ _
      split
      · exact hfar
      · rename_i c'' hc''
        exact fit_store64 (fit_writePtrTag hfar hc'') _ _

theorem fit_writePtr {c : Capn} (h : Fit c) (s : Nat) (d : Addr) (p : Ptr) (foreign : Bool) :
    Fit (writePtr c s d p foreign).2 := by
  simp only [writePtr]
  split
  · exact fit_tagResult h
  split
  · exact fit_tagResult h
  · exact fit_tagResult h
  split
  · exact fit_tagResult h
  split
  · exact h
  split
  · exact h
  split
  · exact fit_tagResult h
  · exact fit_writePtrFar h _ _ _ _ _

theorem fit_newObject {c : Capn} (h : Fit c) (p : Ptr) (bytes : Nat) : Fit (newObject c p bytes).1 := by
  simp only [newObject]
  split
  · exact h
  split
  · exact h
  split
  · rename_i hle
    exact fit_bump h (Nat.dvd_mul_left _ _) hle
  split
  · exact h
  · rename_i c' s a hn
    have hc : Fit c' := fit_newData h (by omega) (by omega) hn
    split
    · exact hc
    · rename_i c'' hc''
      exact fit_writePtrTag hc hc''

theorem fit_newStruct {c : Capn} (h : Fit c) (seg : Option Nat) (datasz ptrs : Nat) :
    Fit (capnNewStruct c seg datasz ptrs).1 := fit_newObject h _ _

theorem fit_newStructList {c : Capn} (h : Fit c) (seg : Option Nat) (sz datasz ptrs : Nat) :
    Fit (capnNewStructList c seg sz datasz ptrs).1 := by
  simp only [capnNewStructList]
  split
  · exact fit_newObject h _ _
  · exact fit_store64 (fit_newObject h _ _) _ _

theorem fit_newList {c : Capn} (h : Fit c) (seg : Option Nat) (sz datasz ptrs : Nat) :
    Fit (capnNewList c seg sz datasz ptrs).1 := by
  simp only [capnNewList]
  split
  · exact fit_newStructList h _ _ _ _
  split
  · exact fit_newObject h _ _
  split
  · exact fit_newObject h _ _
  · exact fit_newObject h _ _

theorem fit_newString {c : Capn} (h : Fit c) (seg : Option Nat) (str : List UInt8) :
    Fit (capnNewString c seg str).1 := by
  simp only [capnNewString]
  split
  · exact fit_newObject h _ _
  · exact fit_write (fit_newObject h _ _) _ _

theorem fit_root {c : Capn} (h : Fit c) : Fit (capnRoot c).1 := by
  have hset : ∀ {c : Capn} {s : Nat}, Fit c → ¬ (c.seg s).cap < 8 → (c.seg s).len < 8 →
      Fit (c.setSeg s fun t => { t with len := 8 }) := by
    intro c s h hcap _
    refine h.setSeg fun hi => ?_
    obtain ⟨-, -, -, hc⟩ := h.seg s hi
    exact ⟨Nat.dvd_refl 8, Nat.le_refl 8, Nat.not_lt.mp hcap, hc⟩
  simp only [capnRoot]
  split
  · exact h
  · rename_i c' s a hf
    have hc : Fit c' := by
      split at hf
      · cases hf
        exact h
      · exact fit_newData h (by decide) (by decide) hf
    split
    · exact hc
    · rename_i hcap
      split
      · rename_i hlen
        exact hset hc hcap hlen
      · exact hc

/-! ## Copying -/

section

variable {w : World} {i j : Nat}

theorem fit_set (k : Nat) {c : Capn} (h : Fit (w i)) (hc : k = i → Fit c) : Fit (w.set k c i) := by
  rw [World.set]
  split
  · rename_i e
    exact hc e.symm
  · exact h

theorem fit_set_self {c : Capn} (h : Fit c) : Fit (w.set i c i) := by
  rw [World.set, if_pos rfl]
  exact h

theorem fit_memcpy (h : Fit (w i)) (dst src : Option Addr) (n : Nat) : Fit (memcpy w i dst j src n i) := by
  unfold memcpy
  split
  · exact fit_set_self (fit_write h _ _)
  · exact h

theorem fit_memzero (h : Fit (w i)) (dst : Option Addr) (n : Nat) : Fit (memzero w i dst n i) := by
  unfold memzero
  split
  · exact fit_set_self (fit_write h _ _)
  · exact h

theorem fit_newClone {c : Capn} (h : Fit c) (s : Nat) (p : Ptr) : Fit (newClone c s p).1 := by
  unfold newClone
  split
  · exact fit_newObject h _ _
  · exact fit_newObject h _ _
  · exact fit_newObject h _ _
  · split
    · exact fit_newStructList h _ _ _ _
    · exact fit_newList h _ _ _ _
  · exact h
  · exact h

theorem fit_newCopy {c c' : Capn} (h : Fit c) (e : newCopy c = some c') : Fit c' := by
  have hsame : c'.segs = c.segs ∧ c'.create = c.create := by
    simp only [newCopy] at e
    split at e
    · split at e
      · cases e
      · obtain ⟨_, -, rfl⟩ := Option.map_eq_some_iff.mp e
        exact ⟨rfl, rfl⟩
    · split at e
      · split at e
        · cases e
        · obtain ⟨_, -, rfl⟩ := Option.map_eq_some_iff.mp e
          exact ⟨rfl, rfl⟩
      · cases e
        exact ⟨rfl, rfl⟩
  exact h.of_segs hsame.1 hsame.2

theorem fit_copyBody (h : Fit (w i)) (t f : Ptr) : Fit ((copyBody w i j t f).world i) := by
  simp only [copyBody]
  split
  · have hc : Fit ((if t.datasz ≠ 0 then memcpy w i t.data j f.data t.datasz else w) i) := by
      split
      · exact fit_memcpy h _ _ _
      · exact h
    split <;> exact hc
  · split
    · split
      · exact h
      · exact fit_set_self (fit_write h _ _)
    · exact fit_memcpy h _ _ _
  · split
    · exact h
    split
    · exact h
    split
    · exact fit_memcpy h _ _ _
    split <;> exact h
  · split <;> exact h
  · exact h
  · exact h

theorem fit_copyFresh (h : Fit (w i)) (seg : Nat) (data : Addr) (f : Ptr) :
    Fit ((copyFresh w i j seg data f).world i) := by
  have hc := fit_writePtr (fit_newClone h seg f) seg data (newClone (w i) seg f).2 false
  simp only [copyFresh]
  split
  · exact fit_set_self hc
  split
  · exact fit_copyBody (fit_set_self hc) _ _
  split
  · exact fit_set_self hc
  · rename_i c' hc'
    have hfit : Fit { c' with
        copy := ⟨(newClone (w i) seg f).2, f, j, f.fseg, f.fbegin, f.fend⟩ :: c'.copy } :=
      (fit_newCopy hc hc').of_segs rfl rfl
    exact fit_copyBody (fit_set_self hfit) _ _

theorem fit_copyPtr (h : Fit (w i)) (seg : Nat) (data : Addr) (f : Ptr) :
    Fit ((copyPtr w i j seg data f).world i) := by
  simp only [copyPtr]
  split
  · exact h
  · exact fit_set_self (fit_writePtr h _ _ _ _)
  · exact fit_copyFresh h _ _ _

theorem fit_copySlot (h : Fit (w i)) (tc f : Ptr) : Fit ((copySlot w i j tc f).world i) := by
  unfold copySlot
  split
  · exact h
  · exact fit_copyPtr h _ _ _
  · exact h

theorem fit_copyListMember (h : Fit (w i)) (t f : Ptr) : Fit ((copyListMember w i j t f).1 i) :=
  fit_memzero (fit_memzero (fit_memcpy h _ _ _) _ _) _ _

theorem Fit.counters {c : Capn} (h : Fit c) {c' : Capn}
    (e : ∃ used err, c' = { c with traversalUsed := used, decodeErr := err }) : Fit c' := by
  obtain ⟨u, v, rfl⟩ := e
  exact h.of_segs rfl rfl

theorem fit_copyStep {s : CopyState} (h : Fit (s.world i)) :
    (∀ s', copyStep i j s = .next s' → Fit (s'.world i)) ∧
      ∀ r, copyStep i j s = .done r → Fit (r.2 i) := by
  have hread : ∀ {c : Capn}, (∃ used err, c = { s.world j with traversalUsed := used, decodeErr := err }) →
      Fit (s.world.set j c i) := fun e => fit_set j h fun hj => by subst hj; exact h.counters e
  simp only [copyStep]
  rcases s.stack with _ | ⟨⟨tc, fc⟩, rest⟩
  · exact ⟨nofun, by rintro r ⟨⟩; exact h⟩
  simp only
  split
  · exact ⟨nofun, by rintro r ⟨⟩; exact h⟩
  split
  · exact ⟨by rintro s' ⟨⟩; exact h, nofun⟩
  split
  · refine ⟨?_, nofun⟩
    rintro s' ⟨⟩
    exact fit_copyListMember (fit_set_self
      ((hread (capnGetp_capn _ _ _ _)).counters (capnGetp_capn _ _ _ _))) _ _
  · have hr := fit_copySlot (j := j) (hread (readPtr_capn (s.world j) fc.seg fc.data (-1))) tc
      (readPtr (s.world j) fc.seg fc.data (-1)).ptr
    split
    · exact ⟨nofun, by rintro q ⟨⟩; exact hr⟩
    · exact ⟨by rintro s' ⟨⟩; exact hr, nofun⟩

theorem fit_setpSlot (h : Fit (w i)) (seg : Nat) (data : Addr) (tgt : Ptr) :
    (∀ s, setpSlot w i seg data j tgt = .next s → Fit (s.world i)) ∧
      ∀ r, setpSlot w i seg data j tgt = .done r → Fit (r.2 i) := by
  have hw := @fit_set_self w i _ (fit_writePtr h seg data tgt (i ≠ j))
  simp only [setpSlot]
  split
  · exact ⟨nofun, by rintro r ⟨⟩; exact hw⟩
  have hc := fit_copyPtr (j := j) hw seg data tgt
  split
  · exact ⟨nofun, by rintro r ⟨⟩; exact hc⟩
  · exact ⟨by rintro s ⟨⟩; exact hc, nofun⟩

theorem fit_slotAt (h : Fit (w i)) (p tgt : Ptr) (n : Int) :
    (∀ s, (match p.seg, p.data with
      | some seg, some data => setpSlot w i seg (data.add n) j tgt
      | _, _ => .done (-1, w)) = .next s → Fit (s.world i)) ∧
    ∀ r, (match p.seg, p.data with
      | some seg, some data => setpSlot w i seg (data.add n) j tgt
      | _, _ => .done (-1, w)) = .done r → Fit (r.2 i) := by
  split
  · exact fit_setpSlot h _ _ _
  · exact ⟨by rintro _ ⟨⟩, by rintro r ⟨⟩; exact h⟩

theorem fit_setpResolved (h : Fit (w i)) (p : Ptr) (off : Int) (tgt : Ptr) :
    (∀ s, setpResolved w i p off j tgt = .next s → Fit (s.world i)) ∧
      ∀ r, setpResolved w i p off j tgt = .done r → Fit (r.2 i) := by
  have hfail : (∀ s, (.done (-1, w) : Step CopyState (Int × World)) = .next s → Fit (s.world i)) ∧
      ∀ r, (.done (-1, w) : Step CopyState (Int × World)) = .done r → Fit (r.2 i) :=
    ⟨by rintro _ ⟨⟩, by rintro r ⟨⟩; exact h⟩
  simp only [setpResolved]
  split
  · split
    · exact hfail
    · exact ⟨by rintro s ⟨⟩; exact fit_copyListMember h _ _, by rintro _ ⟨⟩⟩
  · split
    · exact hfail
    split
    · exact hfail
    split
    · exact hfail
    · refine ⟨by rintro _ ⟨⟩, ?_⟩
      rintro r ⟨⟩
      refine fit_set_self ?_
      rw [setBit]
      split
      · exact h
      · exact fit_write h _ _
  · split
    · exact hfail
    · exact fit_slotAt h p tgt _
  · split
    · exact hfail
    · exact fit_slotAt h p tgt _
  · exact hfail

theorem fit_setpStart (h : Fit (w i)) (p : Ptr) (off : Int) (tgt : Ptr) :
    (∀ s, setpStart w i p off j tgt = .next s → Fit (s.world i)) ∧
      ∀ r, setpStart w i p off j tgt = .done r → Fit (r.2 i) := by
  have hw := @fit_set_self w i _ (h.counters (capnResolve_capn (w i) p))
  simp only [setpStart]
  split
  · rename_i w' hfar
    refine ⟨nofun, ?_⟩
    rintro r ⟨⟩
    split at hfar
    · split at hfar
      · cases hfar
        exact fit_set_self (fit_store64 hw _ _)
      · cases hfar
    · cases hfar
  · refine fit_setpResolved (fit_set j hw fun hj => ?_) _ _ _
    subst hj
    exact hw.counters (capnResolve_capn _ _)

/-- **`capn_setp`** keeps the segments of the destination fit. -/
theorem fit_setp (h : Fit (w i)) {p : Ptr} {off : Int} {tgt : Ptr} {r : Int × World}
    (hr : Setp w i p off j tgt r) : Fit (r.2 i) := by
  obtain ⟨fuel, hr⟩ := hr
  rw [capnSetp] at hr
  cases hs : setpStart w i p off j tgt with
  | done r' =>
    rw [hs] at hr
    cases hr
    exact (fit_setpStart h p off tgt).2 _ hs
  | next s =>
    rw [hs] at hr
    exact Loop.ends_inv (I := fun s => Fit (s.world i)) (Q := fun r => Fit (r.2 i))
      (fun s s' hs e => (fit_copyStep hs).1 s' e) (fun s r hs e => (fit_copyStep hs).2 r e)
      ((fit_setpStart h p off tgt).1 s hs) ⟨fuel, hr⟩

end

/-! ## Sessions built by calls -/

/-- A call on session `i`, that builds it or reads it, a store through a data
pointer (`capn_set*` and `capn_write*`), or a change of another session. -/
inductive Call (i : Nat) : World → World → Prop
  | root (w : World) : Call i w (w.set i (capnRoot (w i)).1)
  | newStruct (w : World) (seg : Option Nat) (datasz ptrs : Nat) :
    Call i w (w.set i (capnNewStruct (w i) seg datasz ptrs).1)
  | newStructList (w : World) (seg : Option Nat) (sz datasz ptrs : Nat) :
    Call i w (w.set i (capnNewStructList (w i) seg sz datasz ptrs).1)
  | newList (w : World) (seg : Option Nat) (sz datasz ptrs : Nat) :
    Call i w (w.set i (capnNewList (w i) seg sz datasz ptrs).1)
  | newList1 (w : World) (seg : Option Nat) (sz : Nat) : Call i w (w.set i (capnNewList1 (w i) seg sz).1)
  | newPtrList (w : World) (seg : Option Nat) (sz : Nat) : Call i w (w.set i (capnNewPtrList (w i) seg sz).1)
  | newString (w : World) (seg : Option Nat) (str : List UInt8) :
    Call i w (w.set i (capnNewString (w i) seg str).1)
  | getp (w : World) (p : Ptr) (off : Int) (resolve : Bool) :
    Call i w (w.set i (capnGetp (w i) p off resolve).capn)
  | resolve (w : World) (p : Ptr) : Call i w (w.set i (capnResolve (w i) p).capn)
  | store (w : World) (a : Addr) (bytes : List UInt8) : Call i w (w.set i ((w i).write a bytes))
  | setp (w : World) (p : Ptr) (off : Int) (j : Nat) (tgt : Ptr) (r : Int × World)
    (h : Setp w i p off j tgt r) : Call i w r.2
  | other (w : World) (j : Nat) (c : Capn) (h : j ≠ i) : Call i w (w.set j c)

/-- Calls built `c` from `capn_init_malloc`. -/
def Built (c : Capn) : Prop :=
  ∃ i w w', w i = capnInitMalloc ∧ Relation.ReflTransGen (Call i) w w' ∧ w' i = c

theorem fit_call {i : Nat} {w w' : World} (h : Fit (w i)) (hc : Call i w w') : Fit (w' i) := by
  cases hc with
  | root => exact fit_set_self (fit_root h)
  | newStruct => exact fit_set_self (fit_newStruct h _ _ _)
  | newStructList => exact fit_set_self (fit_newStructList h _ _ _ _)
  | newList => exact fit_set_self (fit_newList h _ _ _ _)
  | newList1 => exact fit_set_self (fit_newObject h _ _)
  | newPtrList => exact fit_set_self (fit_newObject h _ _)
  | newString => exact fit_set_self (fit_newString h _ _)
  | getp => exact fit_set_self (h.counters (capnGetp_capn _ _ _ _))
  | resolve => exact fit_set_self (h.counters (capnResolve_capn _ _))
  | store => exact fit_set_self (fit_write h _ _)
  | setp _ _ _ _ _ hr => exact fit_setp h hr
  | other j c hj => exact fit_set j h fun e => absurd e hj

/-- **Every session that calls build** has fit segments. -/
theorem built_fit {c : Capn} (h : Built c) : Fit c := by
  obtain ⟨i, w, w', h0, hrun, rfl⟩ := h
  induction hrun with
  | refl =>
    rw [h0]
    exact fit_init
  | tail _ hc ih => exact fit_call ih hc

/-! ## Sessions built so far -/

theorem Built.call {c c' : Capn} (h : Built c)
    (hc : ∀ i w, w i = c → ∃ w', Call i w w' ∧ w' i = c') : Built c' := by
  obtain ⟨i, w₀, w, h0, hrun, e⟩ := h
  obtain ⟨w', hcall, e'⟩ := hc i w e
  exact ⟨i, w₀, w', h0, hrun.tail hcall, e'⟩

theorem World.set_self (w : World) (i : Nat) (c : Capn) : w.set i c i = c := if_pos rfl

theorem built_init : Built capnInitMalloc := ⟨0, fun _ => capnInitMalloc, _, rfl, .refl, rfl⟩

theorem Built.root {c : Capn} (h : Built c) : Built (capnRoot c).1 :=
  h.call fun i w e => ⟨_, .root w, by rw [e]; exact World.set_self _ _ _⟩

theorem Built.newList {c : Capn} (h : Built c) (seg : Option Nat) (sz datasz ptrs : Nat) :
    Built (capnNewList c seg sz datasz ptrs).1 :=
  h.call fun i w e => ⟨_, .newList w seg sz datasz ptrs, by rw [e]; exact World.set_self _ _ _⟩

theorem Built.newStruct {c : Capn} (h : Built c) (seg : Option Nat) (datasz ptrs : Nat) :
    Built (capnNewStruct c seg datasz ptrs).1 :=
  h.call fun i w e => ⟨_, .newStruct w seg datasz ptrs, by rw [e]; exact World.set_self _ _ _⟩

theorem Built.store {c : Capn} (h : Built c) (a : Addr) (bytes : List UInt8) : Built (c.write a bytes) :=
  h.call fun i w e => ⟨_, .store w a bytes, by rw [e]; exact World.set_self _ _ _⟩

theorem Fit.seg_mem {c : Capn} (h : Fit c) {s : Segment} (hs : s ∈ c.segs) : SegFit s := by
  obtain ⟨i, hi, rfl⟩ := List.getElem_of_mem hs
  rw [← Capn.seg_of_lt hi]
  exact h.seg i hi

/-- `capn_root` of a session with a segment changes nothing. -/
theorem Fit.root {c : Capn} (h : Fit c) (h1 : 1 ≤ c.segnum) :
    (capnRoot c).1 = c ∧ (capnRoot c).2.seg ≠ none := by
  have hl : lookupSegment c 0 = some 0 := if_pos h1
  obtain ⟨-, hpos, hcap, -⟩ := h.seg 0 h1
  simp only [capnRoot, hl]
  rw [if_neg (by omega), if_neg (by omega)]
  exact ⟨rfl, nofun⟩

end Capnproto

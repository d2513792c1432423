import Capnproto.Object.Reserve
import Capnproto.Object.Segtree

/-!
# The storage of a session

Over any run of calls, the segments of a session are whole words within their capacity, their ids are their places, the
tree finds each by its id, and each allocation has words of its own, which stay its own (`storage_run`). It takes a
`create` that keeps to its contract, and gives a segment with the room that was asked for (`Roomy`): one with any other
capacity is filled beyond its end (`storage_fails`).
-/

namespace Capnproto

/-! ## Room -/

/-- A segment of whole words with room for `n` bytes: the contract of `create`. -/
def Roomy (n : Nat) (t : Segment) : Prop := 8 ∣ t.len ∧ 8 ∣ t.cap ∧ t.len + n ≤ t.cap

/-- The segments of a session are whole words within their capacity. -/
def Sound (c : Capn) : Prop := ∀ k, Roomy 0 (c.seg k)

namespace Extent

/-- Byte `o` of segment `k` is in it. -/
def Holds (e : Extent) (k o : Nat) : Prop := e.seg = k ∧ e.off ≤ o ∧ o < e.off + e.len

/-- Without a common byte. -/
def Disjoint (e f : Extent) : Prop := e.seg = f.seg → e.off + e.len ≤ f.off ∨ f.off + f.len ≤ e.off

/-- In use in `c`. -/
def Inside (e : Extent) (c : Capn) : Prop := e.seg < c.segs.length ∧ e.off + e.len ≤ (c.seg e.seg).len

/-- Behind what was in use in `c`. -/
def Beyond (e : Extent) (c : Capn) : Prop := (c.seg e.seg).len ≤ e.off

end Extent

/-- The extents are in use, and have no byte in common. -/
structure Separate (c : Capn) (xs : List Extent) : Prop where
  inside : ∀ e ∈ xs, e.Inside c
  disjoint : xs.Pairwise Extent.Disjoint

/-- The segments of `c` have their places in `c'`, and what is in use there stays in use. -/
structure Stays (c c' : Capn) : Prop where
  length : c.segs.length ≤ c'.segs.length
  cap : ∀ k < c.segs.length, (c'.seg k).cap = (c.seg k).cap
  len : ∀ k, (c.seg k).len ≤ (c'.seg k).len

variable {c c' c'' : Capn} {xs ys : List Extent}

theorem Stays.refl (c : Capn) : Stays c c := ⟨Nat.le_refl _, fun _ _ => rfl, fun _ => Nat.le_refl _⟩

theorem Stays.trans (h : Stays c c') (h' : Stays c' c'') : Stays c c'' := by
  refine ⟨Nat.le_trans h.length h'.length, fun k hk => ?_, fun k => Nat.le_trans (h.len k) (h'.len k)⟩
  rw [h'.cap k (Nat.lt_of_lt_of_le hk h.length), h.cap k hk]

theorem seg_of_segs (e : c'.segs = c.segs) (k : Nat) : c'.seg k = c.seg k := by rw [Capn.seg, Capn.seg, e]

theorem Stays.of_segs (e : c'.segs = c.segs) : Stays c c' := by
  refine ⟨by rw [e], fun k _ => by rw [seg_of_segs e], fun k => ?_⟩
  rw [seg_of_segs e]

theorem stays_write (c : Capn) (a : Addr) (bs : List UInt8) : Stays c (c.write a bs) := by
  refine ⟨?_, fun k _ => Capn.cap_write c a bs k, fun k => ?_⟩
  · rw [Capn.length_write]
  · rw [Capn.len_write]

theorem len_bump (c : Capn) (s n k : Nat) :
    ((bump c s n).seg k).len = (c.seg k).len + if s = k ∧ k < c.segs.length then n else 0 := by
  rw [bump, Capn.seg_setSeg]
  split <;> rfl

theorem cap_bump (c : Capn) (s n k : Nat) : ((bump c s n).seg k).cap = (c.seg k).cap := by
  rw [bump, Capn.seg_setSeg]
  split <;> rfl

theorem stays_bump (c : Capn) (s n : Nat) : Stays c (bump c s n) := by
  refine ⟨?_, fun k _ => cap_bump c s n k, fun k => ?_⟩
  · rw [bump, Capn.length_setSeg]
  · rw [len_bump]
    exact Nat.le_add_right _ _

theorem length_append (c : Capn) (t : Segment) : (capnAppendSegment c t).segs.length = c.segs.length + 1 :=
  List.length_append

theorem seg_append (c : Capn) (t : Segment) (k : Nat) :
    (capnAppendSegment c t).seg k = if k = c.segs.length then t else c.seg k := by
  split
  · rename_i h
    rw [h]
    exact seg_append_self
  · rename_i h
    by_cases hk : k < c.segs.length
    · exact seg_append_lt hk
    · rw [Capn.seg_of_ge (c := c) (by omega), Capn.seg_of_ge]
      rw [length_append]
      omega

theorem stays_append (c : Capn) (t : Segment) : Stays c (capnAppendSegment c t) := by
  refine ⟨?_, fun k hk => ?_, fun k => ?_⟩
  · rw [length_append]
    exact Nat.le_succ _
  · rw [seg_append_lt hk]
  · rw [seg_append]
    split
    · rename_i h
      rw [Capn.seg_of_ge (Nat.le_of_eq h.symm)]
      exact Nat.zero_le _
    · exact Nat.le_refl _

theorem Sound.of_segs (h : Sound c) (e : c'.segs = c.segs) : Sound c' := by
  intro k
  rw [seg_of_segs e]
  exact h k

theorem Sound.bump (h : Sound c) {s n : Nat} (h8 : 8 ∣ n) (hroom : (c.seg s).len + n ≤ (c.seg s).cap) :
    Sound (bump c s n) := by
  intro k
  obtain ⟨h1, h2, h3⟩ := h k
  rw [Roomy, len_bump, cap_bump]
  split
  · rename_i hk
    rw [hk.1] at hroom
    exact ⟨Nat.dvd_add h1 h8, h2, hroom⟩
  · exact ⟨h1, h2, h3⟩

theorem Sound.append (h : Sound c) {t : Segment} (ht : Roomy 0 t) : Sound (capnAppendSegment c t) := by
  intro k
  rw [seg_append]
  split
  · exact ht
  · exact h k

/-! ## What is taken -/

/-- Room that is taken keeps the segments, and those that were there. -/
theorem Reserves.sound (h : Reserves Roomy c xs c') (hc : Sound c) : Sound c' ∧ Stays c c' := by
  induction h with
  | refl => exact ⟨hc, .refl c⟩
  | write _ a bs ih =>
    refine ⟨fun k => ?_, ih.2.trans (stays_write _ a bs)⟩
    rw [Roomy, Capn.len_write, Capn.cap_write]
    exact ih.1 k
  | take _ hs h8 hroom ih => exact ⟨ih.1.bump h8 hroom, ih.2.trans (stays_bump _ _ _)⟩
  | create _ h8 ht ih =>
    refine ⟨(ih.1.append ⟨ht.1, ht.2.1, by have := ht.2.2; omega⟩).bump h8 ?_,
      (ih.2.trans (stays_append _ _)).trans (stays_bump _ _ _)⟩
    rw [seg_append_self]
    exact ht.2.2
  | append _ ht ih => exact ⟨ih.1.append ht, ih.2.trans (stays_append _ _)⟩
  | other _ e ih => exact ⟨ih.1.of_segs e, ih.2.trans (.of_segs e)⟩

theorem Extent.Inside.stays {e : Extent} (h : e.Inside c) (hs : Stays c c') : e.Inside c' :=
  ⟨Nat.lt_of_lt_of_le h.1 hs.length, Nat.le_trans h.2 (hs.len _)⟩

theorem separate_nil (c : Capn) : Separate c [] := ⟨nofun, .nil⟩

theorem Separate.stays (h : Separate c xs) (hs : Stays c c') : Separate c' xs :=
  ⟨fun e he => (h.inside e he).stays hs, h.disjoint⟩

/-- Words behind those in use are apart from them. -/
theorem Separate.snoc (h : Separate c xs) (hs : Stays c c') {e : Extent} (hin : e.Inside c') (hbeyond : e.Beyond c) :
    Separate c' (xs ++ [e]) := by
  refine ⟨fun f hf => ?_, List.pairwise_append.mpr ⟨h.disjoint, List.pairwise_singleton _ _, ?_⟩⟩
  · rcases List.mem_append.mp hf with hf | hf
    · exact (h.inside f hf).stays hs
    · rw [List.mem_singleton.mp hf]
      exact hin
  · intro f hf g hg heq
    rw [List.mem_singleton.mp hg] at heq ⊢
    have hf := (h.inside f hf).2
    rw [heq] at hf
    exact .inl (Nat.le_trans hf hbeyond)

theorem inside_bump {s n : Nat} (hs : s < c.segs.length) : Extent.Inside ⟨s, (c.seg s).len, n⟩ (bump c s n) := by
  refine ⟨by rwa [bump, Capn.length_setSeg], ?_⟩
  rw [len_bump, if_pos ⟨rfl, hs⟩]

theorem inside_create (c : Capn) (t : Segment) (n : Nat) :
    Extent.Inside ⟨c.segs.length, t.len, n⟩ (bump (capnAppendSegment c t) c.segs.length n) := by
  have := inside_bump (c := capnAppendSegment c t) (s := c.segs.length) (n := n)
    (by rw [length_append]; exact Nat.lt_succ_self _)
  rwa [seg_append_self] at this

/-- **The room that is taken** is apart from what was taken before. -/
theorem Reserves.separate {zs : List Extent} (h : Reserves Roomy c xs c') (hz : Separate c zs) :
    Separate c' (zs ++ xs) := by
  induction h with
  | refl => rwa [List.append_nil]
  | write _ a bs ih => exact ih.stays (stays_write _ a bs)
  | take _ hs _ _ ih =>
    rw [← List.append_assoc]
    exact ih.snoc (stays_bump _ _ _) (inside_bump hs) (Nat.le_refl _)
  | create _ _ _ ih =>
    rw [← List.append_assoc]
    refine ih.snoc ((stays_append _ _).trans (stays_bump _ _ _)) (inside_create _ _ _) ?_
    rw [Extent.Beyond, Capn.seg_of_ge (Nat.le_refl _)]
    exact Nat.zero_le _
  | append _ _ ih => exact ih.stays (stays_append _ _)
  | other _ e ih => exact ih.stays (.of_segs e)

/-- Nothing else is taken of the segments that are there. -/
theorem Reserves.covered (h : Reserves Roomy c xs c') (hc : Sound c) {k o : Nat} (hk : k < c.segs.length)
    (hlo : (c.seg k).len ≤ o) (hhi : o < (c'.seg k).len) : ∃ e ∈ xs, e.Holds k o := by
  induction h with
  | refl => omega
  | write _ a bs ih =>
    rw [Capn.len_write] at hhi
    exact ih hhi
  | @take _ c' h s n _ _ _ ih =>
    by_cases ho : o < (c'.seg k).len
    · obtain ⟨e, he, hold⟩ := ih ho
      exact ⟨e, List.mem_append_left _ he, hold⟩
    · rw [len_bump] at hhi
      split at hhi
      · rename_i hs
        refine ⟨_, List.mem_append_right _ (List.mem_singleton_self _), hs.1, ?_, ?_⟩
        · rw [hs.1]
          exact Nat.not_lt.mp ho
        · rw [hs.1]
          exact hhi
      · omega
  | @create _ c' h n t _ _ ih =>
    have hlt : k < c'.segs.length := Nat.lt_of_lt_of_le hk (h.sound hc).2.length
    rw [len_bump, if_neg (by omega), seg_append_lt hlt] at hhi
    obtain ⟨e, he, hold⟩ := ih hhi
    exact ⟨e, List.mem_append_left _ he, hold⟩
  | @append _ c' h t _ ih =>
    rw [seg_append_lt (Nat.lt_of_lt_of_le hk (h.sound hc).2.length)] at hhi
    exact ih hhi
  | other _ e ih =>
    rw [seg_of_segs e] at hhi
    exact ih hhi

/-! ## Calls -/

/-- `len` of a segment that is empty. -/
theorem setSeg_eight (c : Capn) {s : Nat} (h : (c.seg s).len = 0) :
    (c.setSeg s fun t => { t with len := 8 }) = bump c s 8 := by
  by_cases hs : s < c.segs.length
  · rw [Capn.seg_of_lt hs] at h
    rw [bump, Capn.setSeg, Capn.setSeg]
    congr 1
    apply List.ext_getElem?
    intro k
    rw [List.getElem?_modify, List.getElem?_modify]
    split
    · rename_i hk
      subst hk
      rw [List.getElem?_eq_getElem hs]
      refine congrArg some ?_
      dsimp only
      rw [h]
    · rfl
  · rw [bump, Capn.setSeg_of_ge _ (Nat.not_lt.mp hs), Capn.setSeg_of_ge _ (Nat.not_lt.mp hs)]

/-- `capn_root` takes the first word of an empty segment, or of a fresh one. -/
theorem allocates_root (hp : Provides Roomy c) (hc : Sound c) : Allocates Roomy c (capnRoot c).1 := by
  simp only [capnRoot, lookupSegment]
  by_cases h0 : 0 < c.segnum
  · rw [if_pos h0]
    simp only
    split
    · exact .refl _ c
    · rename_i hcap
      split
      · rename_i hlen
        have hz : (c.seg 0).len = 0 := by
          have := (hc 0).1
          omega
        rw [setSeg_eight c hz]
        exact (Allocates.refl _ c).take h0 (Nat.dvd_refl 8) (by omega)
      · exact .refl _ c
  · rw [if_neg h0]
    simp only
    split
    · exact .refl _ c
    · rename_i c' s a hnew
      have h := (Allocates.refl Roomy c).newData hp (Nat.dvd_refl 8) hnew
      split
      · exact h
      · have hlen : 8 ≤ (c'.seg s).len := by
          obtain ⟨m, rfl, hres⟩ := newData_reserves hp (Nat.dvd_refl 8) hnew
          have := ((hres.separate (separate_nil c)).inside _ (List.mem_singleton_self _)).2
          dsimp only at this
          omega
        rw [if_neg (by omega)]
        exact h

/-- A size that is an `int` with its rounding and with a tag word. -/
def NewCall.Sized (call : NewCall) : Prop :=
  call.rounded ≤ INT_MAX ∧ (call.bytes + 7) / 8 * 8 + 8 ≤ INT_MAX

/-- A call on the session `c`: one that takes room, an access, or a change of the callbacks. -/
inductive Calls : Capn → Capn → Prop
  | root (c : Capn) : Calls c (capnRoot c).1
  | new (c : Capn) (seg : Option Nat) (call : NewCall) (h : call.Sized) : Calls c (call.run c seg).1
  | interface (c : Capn) (seg : Option Nat) : Calls c (capnNewInterface c seg).1
  | setp {w : World} {i j : Nat} {p tgt : Ptr} {off : Int} {r : Int × World} (h : Setp w i p off j tgt r) :
    Calls (w i) (r.2 i)
  | append (c : Capn) (t : Segment) (h : Roomy 0 t) : Calls c (capnAppendSegment c t)
  | store (c : Capn) (a : Addr) (bs : List UInt8) : Calls c (c.write a bs)
  | read (c : Capn) (used : Nat) (err : Bool) : Calls c { c with traversalUsed := used, decodeErr := err }
  | callbacks (c : Capn) (create : Option (Nat → Nat → Option Segment)) (createLocal : Option (Nat → Option Nat)) :
    Calls c { c with create := create, createLocal := createLocal }

theorem Calls.reserves (hp : Provides Roomy c) (hc : Sound c) (h : Calls c c') : ∃ xs, Reserves Roomy c xs c' := by
  cases h with
  | root => exact (allocates_root hp hc).reserves
  | new c seg call _ => exact (makes_new hp seg call).allocates.reserves
  | interface => exact ⟨_, .refl⟩
  | setp h => exact (setp_allocates hp h).reserves
  | append c t ht => exact ⟨_, (Reserves.refl).append ht⟩
  | store c a bs => exact ⟨_, (Reserves.refl).write a bs⟩
  | read => exact ⟨_, (Reserves.refl).other rfl⟩
  | callbacks => exact ⟨_, (Reserves.refl).other rfl⟩

/-! ## Runs -/

/-- A session with the list, the counter and the tree that name its segments. -/
structure Session where
  capn : Capn
  index : Option SegIndex

namespace Session

/-- `capn_append_segment` for each of `n` segments. -/
def appends : Nat → Option SegIndex → Option SegIndex
  | 0, x => x
  | n + 1, x => appends n (x.bind SegIndex.append)

/-- A session without segments. -/
def start (c : Capn) : Session := ⟨c, some .empty⟩

/-- A call, which appends the segments that it makes. -/
structure Next (ok : Nat → Segment → Prop) (s s' : Session) : Prop where
  provides : Provides ok s.capn
  calls : Calls s.capn s'.capn
  index : s'.index = appends (s'.capn.segs.length - s.capn.segs.length) s.index

/-- The segments of a session are whole words within their capacity, and are indexed by their places. -/
structure Stored (s : Session) : Prop where
  sound : Sound s.capn
  index : ∃ x, s.index = some x ∧ x.Whole ∧ x.segnum = s.capn.segs.length ∧
    ∀ id, x.lookup id = lookupSegment s.capn id

theorem appends_whole (n : Nat) {x : SegIndex} (h : x.Whole) :
    ∃ x', appends n (some x) = some x' ∧ x'.Whole ∧ x'.segnum = x.segnum + n := by
  induction n generalizing x with
  | zero => exact ⟨x, rfl, h, rfl⟩
  | succ n ih =>
    obtain ⟨y, hy, hw, hnum⟩ := h.append
    obtain ⟨x', hx', hw', hnum'⟩ := ih hw
    refine ⟨x', ?_, hw', by omega⟩
    rw [appends, Option.bind_some, hy]
    exact hx'

theorem lookup_whole {x : SegIndex} {c : Capn} (h : x.Whole) (hnum : x.segnum = c.segs.length) (id : Nat) :
    x.lookup id = lookupSegment c id := by
  rw [h.lookup, hnum]
  rfl

theorem stored_start {c : Capn} (hc : c.segs = []) : (start c).Stored := by
  refine ⟨fun k => ?_, .empty, rfl, SegIndex.whole_empty, ?_, fun id => ?_⟩
  · rw [start, Capn.seg, hc]
    exact ⟨Nat.dvd_zero 8, Nat.dvd_zero 8, Nat.le_refl 0⟩
  · rw [start, hc]
    rfl
  · refine lookup_whole SegIndex.whole_empty ?_ id
    rw [start, hc]
    rfl

variable {s s' : Session}

/-- **A call** keeps the segments and their index. -/
theorem Next.stored (h : Next Roomy s s') (hs : s.Stored) : s'.Stored := by
  obtain ⟨xs, hx⟩ := h.calls.reserves h.provides hs.sound
  obtain ⟨hsound, hstays⟩ := hx.sound hs.sound
  obtain ⟨x, hindex, hwhole, hnum, -⟩ := hs.index
  obtain ⟨x', hx', hwhole', hnum'⟩ := appends_whole (s'.capn.segs.length - s.capn.segs.length) hwhole
  have hlength : x'.segnum = s'.capn.segs.length := by
    have := hstays.length
    omega
  exact ⟨hsound, x', by rw [h.index, hindex, hx'], hwhole', hlength, lookup_whole hwhole' hlength⟩

/-- The calls of a run take room one after the other. -/
theorem run_reserves (h : Relation.ReflTransGen (Next Roomy) s s') (hs : s.Stored) :
    s'.Stored ∧ ∃ xs, Reserves Roomy s.capn xs s'.capn := by
  induction h with
  | refl => exact ⟨hs, _, .refl⟩
  | tail _ hstep ih =>
    obtain ⟨hst, xs, hx⟩ := ih
    obtain ⟨ys, hy⟩ := hstep.calls.reserves hstep.provides hst.sound
    exact ⟨hstep.stored hst, _, hx.trans hy⟩

end Session

open Session in
/-- **In every run**, a session that it gets to is stored well. What the calls have taken until then is apart, it
stays so and where it is however the run goes on, nothing else is taken, and what a constructor takes after that has
its object. -/
theorem storage_run {c : Capn} {s s' : Session} (hc : c.segs = [])
    (h : Relation.ReflTransGen (Next Roomy) (start c) s) (h' : Relation.ReflTransGen (Next Roomy) s s') :
    s.Stored ∧ s'.Stored ∧ Stays s.capn s'.capn ∧ ∃ xs ys,
      Reserves Roomy c xs s.capn ∧ Reserves Roomy s.capn ys s'.capn ∧ Separate s'.capn (xs ++ ys) ∧
      (∀ k < s.capn.segs.length, ∀ o, (s.capn.seg k).len ≤ o → o < (s'.capn.seg k).len → ∃ e ∈ ys, e.Holds k o) ∧
      (Provides Roomy s'.capn → ∀ seg (call : NewCall), call.Sized → ∃ zs,
        Reserves Roomy s'.capn zs (call.run s'.capn seg).1 ∧ Separate (call.run s'.capn seg).1 ((xs ++ ys) ++ zs) ∧
        ∀ a, (call.run s'.capn seg).2.data = some a → call.bytes - call.tag ≠ 0 →
          Housed zs a (call.bytes - call.tag)) := by
  obtain ⟨hs, xs, hx⟩ := run_reserves h (stored_start hc)
  obtain ⟨hs', ys, hy⟩ := run_reserves h' hs
  have hxs : Separate s.capn xs := hx.separate (separate_nil c)
  have hys := hy.separate hxs
  refine ⟨hs, hs', (hy.sound hs.sound).2, xs, ys, hx, hy, hys, fun k hk o => hy.covered hs.sound hk,
    fun hp seg call _ => ?_⟩
  obtain ⟨zs, hz, hh⟩ := (makes_new hp seg call).reserves
  exact ⟨zs, hz, hz.separate hys, hh⟩

/-! ## Callbacks -/

/-- The segments of `malloc` have the room that was asked for. -/
theorem provides_malloc : Provides Roomy capnInitMalloc := by
  intro f hf id n t h8 h
  obtain rfl : create = f := Option.some.inj hf
  obtain ⟨hlen, hn, -⟩ := create_spec h
  simp only [create] at h
  split at h
  · cases h
  · cases h
    have hcap : 8 ∣ createCap n := by
      simp only [createCap]
      split
      · decide
      · exact Nat.dvd_sub (Nat.dvd_mul_left_of_dvd (by decide) _) (by decide)
    exact ⟨Nat.dvd_zero 8, hcap, by omega⟩

/-- The root of a session and a struct. -/
theorem storage_run_malloc :
    let c := (capnRoot capnInitMalloc).1
    let s : Session := ⟨c, Session.appends 1 (some .empty)⟩
    let s' : Session := ⟨(capnNewStruct c (some 0) 16 1).1, s.index⟩
    s.Stored ∧ s'.Stored ∧ Stays s.capn s'.capn := by
  intro c s s'
  have hp : Provides Roomy c :=
    (allocates_root provides_malloc (Session.stored_start rfl).sound).provides provides_malloc
  have hroot : Relation.ReflTransGen (Session.Next Roomy) (.start capnInitMalloc) s :=
    .single ⟨provides_malloc, .root _, rfl⟩
  have hnew : Relation.ReflTransGen (Session.Next Roomy) s s' :=
    .single ⟨hp, .new _ _ (.struct 16 1) ⟨by decide, by decide⟩, rfl⟩
  have h := storage_run rfl hroot hnew
  exact ⟨h.1, h.2.1, h.2.2.1⟩

/-- A fresh zeroed segment of whole words. -/
def FreshSegment (_ : Nat) (t : Segment) : Prop := t.len = 0 ∧ 8 ∣ t.cap ∧ t.data = Mem.zero

/-- Segments of one word: a struct of two words is put into one of them. -/
theorem storage_fails : ¬ ∀ (c : Capn) (s : Session), c.segs = [] →
    Relation.ReflTransGen (Session.Next FreshSegment) (.start c) s → s.Stored := by
  intro h
  let c : Capn := { create := some fun _ _ => some ⟨Mem.zero, 0, 8⟩ }
  have hp : Provides FreshSegment c := by
    rintro _ ⟨⟩ _ _ _ _ ⟨⟩
    exact ⟨rfl, Nat.dvd_refl 8, rfl⟩
  have hs := h c ⟨(capnNewStruct (capnRoot c).1 (some 0) 16 0).1, Session.appends 2 (some .empty)⟩ rfl
    ((Relation.ReflTransGen.single (b := ⟨(capnRoot c).1, Session.appends 1 (some .empty)⟩) ⟨hp, .root _, rfl⟩).tail
      ⟨hp, .new _ _ (.struct 16 0) ⟨by decide, by decide⟩, rfl⟩)
  have hroom : ((capnNewStruct (capnRoot c).1 (some 0) 16 0).1.seg 1).len + 0
      ≤ ((capnNewStruct (capnRoot c).1 (some 0) 16 0).1.seg 1).cap := (hs.sound 1).2.2
  revert hroom
  decide

end Capnproto

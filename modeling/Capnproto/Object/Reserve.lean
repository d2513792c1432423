import Capnproto.Object.Clean
import Capnproto.Object.Alloc

/-!
# Room that is taken

All that allocates takes words at the end of a segment (`Reserves`): of a listed one that has room, or of one that
the `create` callback makes and `capn_append_segment` lists. So do `write_ptr`, which makes room for landing pads, and
the copy of `capn_setp`, one object after the other (`setp_allocates`).
-/

namespace Capnproto

/-- Words of a segment. -/
structure Extent where
  seg : Nat
  off : Nat
  len : Nat

/-- From `c` to `c'` by stores, segments that are appended, and the room `xs` that is taken in listed segments. -/
inductive Reserves (ok : Nat → Segment → Prop) (c : Capn) : List Extent → Capn → Prop
  | refl : Reserves ok c [] c
  | write {xs : List Extent} {c' : Capn} (h : Reserves ok c xs c') (a : Addr) (bs : List UInt8) :
    Reserves ok c xs (c'.write a bs)
  | take {xs : List Extent} {c' : Capn} (h : Reserves ok c xs c') {s n : Nat} (hs : s < c'.segs.length) (h8 : 8 ∣ n)
    (hroom : (c'.seg s).len + n ≤ (c'.seg s).cap) : Reserves ok c (xs ++ [⟨s, (c'.seg s).len, n⟩]) (bump c' s n)
  | create {xs : List Extent} {c' : Capn} (h : Reserves ok c xs c') {n : Nat} {t : Segment} (h8 : 8 ∣ n) (ht : ok n t) :
    Reserves ok c (xs ++ [⟨c'.segs.length, t.len, n⟩]) (bump (capnAppendSegment c' t) c'.segs.length n)
  | append {xs : List Extent} {c' : Capn} (h : Reserves ok c xs c') {t : Segment} (ht : ok 0 t) :
    Reserves ok c xs (capnAppendSegment c' t)
  | other {xs : List Extent} {c' c'' : Capn} (h : Reserves ok c xs c') (e : c''.segs = c'.segs) : Reserves ok c xs c''

/-- What the `create` callback of a session returns is as `ok` says. -/
def Provides (ok : Nat → Segment → Prop) (c : Capn) : Prop :=
  ∀ create, c.create = some create → ∀ id n t, 8 ∣ n → create id n = some t → ok n t

/-- `c'` has come from `c` by taking room, and has its callback. -/
structure Allocates (ok : Nat → Segment → Prop) (c c' : Capn) : Prop where
  reserves : ∃ xs, Reserves ok c xs c'
  create : c'.create = c.create

variable {ok : Nat → Segment → Prop} {c c' c'' : Capn}

theorem Reserves.trans {xs ys : List Extent} (h : Reserves ok c xs c') (h' : Reserves ok c' ys c'') :
    Reserves ok c (xs ++ ys) c'' := by
  induction h' with
  | refl => rwa [List.append_nil]
  | write _ a bs ih => exact ih.write a bs
  | take _ hs h8 hroom ih =>
    rw [← List.append_assoc]
    exact ih.take hs h8 hroom
  | create _ h8 ht ih =>
    rw [← List.append_assoc]
    exact ih.create h8 ht
  | append _ ht ih => exact ih.append ht
  | other _ e ih => exact ih.other e

namespace Allocates

theorem refl (ok : Nat → Segment → Prop) (c : Capn) : Allocates ok c c := ⟨⟨_, .refl⟩, rfl⟩

theorem trans (h : Allocates ok c c') (h' : Allocates ok c' c'') : Allocates ok c c'' := by
  obtain ⟨xs, hx⟩ := h.reserves
  obtain ⟨ys, hy⟩ := h'.reserves
  exact ⟨⟨_, hx.trans hy⟩, h'.create.trans h.create⟩

theorem provides (h : Allocates ok c c') (hp : Provides ok c) : Provides ok c' := by
  rw [Provides, h.create]
  exact hp

theorem write (h : Allocates ok c c') (a : Addr) (bs : List UInt8) : Allocates ok c (c'.write a bs) := by
  obtain ⟨xs, hx⟩ := h.reserves
  exact ⟨⟨_, hx.write a bs⟩, h.create⟩

theorem store64 (h : Allocates ok c c') (a : Addr) (v : Nat) : Allocates ok c (c'.store64 a v) := h.write a _

theorem take (h : Allocates ok c c') {s n : Nat} (hs : s < c'.segs.length) (h8 : 8 ∣ n)
    (hroom : (c'.seg s).len + n ≤ (c'.seg s).cap) : Allocates ok c (bump c' s n) := by
  obtain ⟨xs, hx⟩ := h.reserves
  exact ⟨⟨_, hx.take hs h8 hroom⟩, h.create⟩

theorem other (h : Allocates ok c c') (e : c''.segs = c'.segs) (hc : c''.create = c'.create) : Allocates ok c c'' := by
  obtain ⟨xs, hx⟩ := h.reserves
  exact ⟨⟨_, hx.other e⟩, hc.trans h.create⟩

/-- Room from `new_data`. -/
theorem newData (h : Allocates ok c c') (hp : Provides ok c) {n s : Nat} {a : Addr} (h8 : 8 ∣ n)
    (e : newData c' n = some (c'', s, a)) : Allocates ok c c'' := by
  rcases newData_cases e with ⟨hs, hroom, rfl, -⟩ | ⟨create, t, hc, ht, rfl, rfl, -⟩
  · exact h.take hs h8 hroom
  · obtain ⟨xs, hx⟩ := h.reserves
    exact ⟨⟨_, hx.create h8 (hp create (h.create ▸ hc) _ n t h8 ht)⟩, h.create⟩

end Allocates

/-! ## Objects -/

section

theorem eight_dvd_round (n : Nat) : 8 ∣ (n + 7) / 8 * 8 := Nat.dvd_mul_left 8 _

theorem allocates_tag (c : Capn) (d : Addr) (p : Ptr) (off : Int) :
    Allocates ok c (tagResult c (writePtrTag c d p off)).2 := by
  cases e : writePtrTag c d p off with
  | none => exact .refl ok c
  | some c' =>
    obtain ⟨v, -, rfl⟩ := Option.map_eq_some_iff.mp e
    exact (Allocates.refl ok c).store64 d v

/-- The `n` bytes at `a` are in room that was taken. -/
def Housed (xs : List Extent) (a : Addr) (n : Nat) : Prop :=
  ∃ e ∈ xs, e.seg = a.seg ∧ (e.off : Int) ≤ a.off ∧ a.off + n ≤ e.off + e.len

/-- A constructor takes room, and its object has `n` bytes there. -/
structure Makes (ok : Nat → Segment → Prop) (c : Capn) (n : Nat) (r : Capn × Ptr) : Prop where
  reserves : ∃ xs, Reserves ok c xs r.1 ∧ ∀ a, r.2.data = some a → n ≠ 0 → Housed xs a n
  create : r.1.create = c.create

theorem Makes.allocates {n : Nat} {r : Capn × Ptr} (h : Makes ok c n r) : Allocates ok c r.1 := by
  obtain ⟨xs, hx, -⟩ := h.reserves
  exact ⟨⟨xs, hx⟩, h.create⟩

theorem Makes.write {n : Nat} {r : Capn × Ptr} (h : Makes ok c n r) (a : Addr) (bs : List UInt8) :
    Makes ok c n (r.1.write a bs, r.2) := by
  obtain ⟨xs, hx, hh⟩ := h.reserves
  exact ⟨⟨xs, hx.write a bs, hh⟩, h.create⟩

theorem makes_null {n : Nat} (h : Allocates ok c c') : Makes ok c n (c', {}) := by
  obtain ⟨xs, hx⟩ := h.reserves
  exact ⟨⟨xs, hx, nofun⟩, h.create⟩

/-- The words of `new_data` are the last ones that were taken. -/
theorem newData_reserves (hp : Provides ok c) {n s : Nat} {a : Addr} (h8 : 8 ∣ n)
    (e : newData c n = some (c', s, a)) : ∃ m : Nat, a = ⟨s, m⟩ ∧ Reserves ok c [⟨s, m, n⟩] c' := by
  rcases newData_cases e with ⟨hs, hroom, rfl, rfl⟩ | ⟨create, t, hc, ht, rfl, rfl, rfl⟩
  · exact ⟨_, rfl, (Reserves.refl).take hs h8 hroom⟩
  · exact ⟨_, rfl, (Reserves.refl).create h8 (hp create hc _ n t h8 ht)⟩

/-- `new_object`. -/
theorem makes_object (hp : Provides ok c) (p : Ptr) (n : Nat) : Makes ok c n (newObject c p n) := by
  unfold newObject
  split
  · exact makes_null (.refl ok c)
  · rename_i s hs
    simp only
    split
    · rename_i hn
      exact ⟨⟨[], .refl, fun _ _ h => absurd hn h⟩, rfl⟩
    · rename_i hn
      have hle : n ≤ (n + 7) / 8 * 8 := by omega
      split
      · rename_i hroom
        refine ⟨⟨_, (Reserves.refl).take (seg_lt_of_cap hroom (by omega)) (eight_dvd_round n) hroom, ?_⟩, rfl⟩
        rintro a ⟨⟩ -
        exact ⟨_, List.mem_singleton_self _, rfl, Int.le_refl _, by dsimp only; omega⟩
      split
      · exact makes_null (.refl ok c)
      · rename_i c' s' a hnew
        have h8 : 8 ∣ (n + 7) / 8 * 8 + 8 := Nat.dvd_add (eight_dvd_round n) (Nat.dvd_refl 8)
        have hcreate := ((Allocates.refl ok c).newData hp h8 hnew).create
        obtain ⟨m, rfl, hres⟩ := newData_reserves hp h8 hnew
        split
        · exact makes_null ⟨⟨_, hres⟩, hcreate⟩
        · rename_i c'' htag
          obtain ⟨v, -, rfl⟩ := Option.map_eq_some_iff.mp htag
          refine ⟨⟨_, hres.write _ _, ?_⟩, hcreate⟩
          rintro a ⟨⟩ -
          -- the object is behind its tag
          exact ⟨_, List.mem_singleton_self _, rfl, by dsimp only [Addr.add]; omega, by dsimp only [Addr.add]; omega⟩

theorem allocates_object (hp : Provides ok c) (p : Ptr) (n : Nat) : Allocates ok c (newObject c p n).1 :=
  (makes_object hp p n).allocates

theorem makes_structList (hp : Provides ok c) (seg : Option Nat) (sz datasz ptrs : Nat) :
    Makes ok c (compositeBytes sz datasz ptrs - 8) (capnNewStructList c seg sz datasz ptrs) := by
  have h := makes_object hp { type := .LIST, seg := seg, len := (sz : Int), isCompositeList := true,
                              datasz := (datasz + 7) / 8 * 8 % 2 ^ 19, ptrs := ptrs % 2 ^ 16 }
    (sz * ((datasz + 7) / 8 * 8 % 2 ^ 19 + 8 * (ptrs % 2 ^ 16)) + 8)
  simp only [capnNewStructList]
  split
  · rename_i hnone
    obtain ⟨xs, hx, -⟩ := h.reserves
    refine ⟨⟨xs, hx, fun a ha => ?_⟩, h.create⟩
    cases hnone.symm.trans ha
  · rename_i a ha
    obtain ⟨xs, hx, hh⟩ := h.reserves
    refine ⟨⟨xs, hx.write _ _, ?_⟩, h.create⟩
    rintro _ ⟨⟩ -
    -- the elements are behind the tag of the list
    obtain ⟨e, he, hseg, hlo, hhi⟩ := hh a ha (Nat.succ_ne_zero _)
    refine ⟨e, he, hseg, ?_, ?_⟩
    · dsimp only [Addr.add]
      omega
    · rw [compositeBytes]
      dsimp only [Addr.add]
      omega

/-- The bytes of a call that are a tag word. -/
def NewCall.tag : NewCall → Nat
  | .structList _ _ _ => 8
  | .list _ datasz ptrs => if ptrs ≠ 0 ∨ 8 < datasz then 8 else 0
  | _ => 0

theorem makes_list (hp : Provides ok c) (seg : Option Nat) (sz datasz ptrs : Nat) :
    Makes ok c ((NewCall.list sz datasz ptrs).bytes - (NewCall.list sz datasz ptrs).tag)
      (capnNewList c seg sz datasz ptrs) := by
  simp only [capnNewList, NewCall.bytes, NewCall.tag]
  split
  · exact makes_structList hp _ _ _ _
  split
  · exact makes_object hp _ _
  split <;> exact makes_object hp _ _

/-- **A constructor** takes room for its object. -/
theorem makes_new (hp : Provides ok c) (seg : Option Nat) (call : NewCall) :
    Makes ok c (call.bytes - call.tag) (call.run c seg) := by
  cases call with
  | struct datasz ptrs => exact makes_object hp _ _
  | structList sz datasz ptrs => exact makes_structList hp _ _ _ _
  | list sz datasz ptrs => exact makes_list hp _ _ _ _
  | list1 sz => exact makes_object hp _ _
  | ptrList sz => exact makes_object hp _ _
  | string str =>
    have h := makes_object hp { type := .LIST, seg := seg, len := ((str.length + 1 : Nat) : Int), datasz := 1 }
      (str.length + 1)
    simp only [NewCall.run, capnNewString]
    split
    · exact h
    · exact h.write _ _

/-- `write_ptr` takes room for landing pads. -/
theorem allocates_far (hp : Provides ok c) (s : Nat) (d : Addr) (p : Ptr) (seg : Nat) (pdata : Int) :
    Allocates ok c (writePtrFar c s d p seg pdata).2 := by
  simp only [writePtrFar]
  split
  · exact (Allocates.refl ok c).store64 _ _
  split
  · rename_i hroom
    split
    · exact .refl ok c
    · rename_i c' htag
      obtain ⟨v, -, rfl⟩ := Option.map_eq_some_iff.mp htag
      -- the room is taken before the words are stored
      simp only [writeFarPtr, Capn.store64, bump_write]
      exact (((Allocates.refl ok c).take (seg_lt_of_cap hroom (by decide)) (Nat.dvd_refl 8) hroom).write _ _).write _ _
  split
  · exact .refl ok c
  · rename_i c' t a hroom
    have h : Allocates ok c c' := by
      split at hroom
      · rename_i hle
        cases hroom
        exact (Allocates.refl ok c).take (seg_lt_of_cap hle (by decide)) (by decide) hle
      · exact (Allocates.refl ok c).newData hp (by decide) hroom
    split
    · exact h.store64 _ _
    · rename_i c'' htag
      obtain ⟨v, -, rfl⟩ := Option.map_eq_some_iff.mp htag
      exact ((h.store64 _ _).store64 _ _).store64 _ _

theorem allocates_ptr (hp : Provides ok c) (s : Nat) (d : Addr) (p : Ptr) (foreign : Bool) :
    Allocates ok c (writePtr c s d p foreign).2 := by
  simp only [writePtr]
  split
  · exact allocates_tag _ _ _ _
  split
  · exact allocates_tag _ _ _ _
  · exact allocates_tag _ _ _ _
  split
  · exact allocates_tag _ _ _ _
  split
  · exact .refl ok c
  split
  · exact .refl ok c
  split
  · exact allocates_tag _ _ _ _
  · exact allocates_far hp _ _ _ _ _

theorem allocates_clone (hp : Provides ok c) (s : Nat) (f : Ptr) : Allocates ok c (newClone c s f).1 := by
  unfold newClone
  split
  · exact allocates_object hp _ _
  · exact allocates_object hp _ _
  · exact allocates_object hp _ _
  · split
    · exact (makes_structList hp _ _ _ _).allocates
    · exact (makes_list hp _ _ _ _).allocates
  · exact .refl ok c
  · exact .refl ok c

theorem allocates_link (hp : Provides ok c) (s : Nat) (d : Addr) (f : Ptr) : Allocates ok c (linkClone c s d f).2 := by
  have h := allocates_clone hp s f
  exact h.trans (allocates_ptr (h.provides hp) _ _ _ _)

end

/-! ## Copies -/

section

variable {w : World} {i j : Nat}

theorem Allocates.memcpy (h : Allocates ok c (w i)) (dst src : Option Addr) (n : Nat) :
    Allocates ok c (memcpy w i dst j src n i) := by
  unfold Capnproto.memcpy
  split
  · rw [World.set_self]
    exact h.write _ _
  · exact h

theorem Allocates.memzero (h : Allocates ok c (w i)) (dst : Option Addr) (n : Nat) :
    Allocates ok c (memzero w i dst n i) := by
  unfold Capnproto.memzero
  split
  · rw [World.set_self]
    exact h.write _ _
  · exact h

theorem Allocates.member (h : Allocates ok c (w i)) (t f : Ptr) : Allocates ok c ((copyListMember w i j t f).1 i) :=
  ((h.memcpy _ _ _).memzero _ _).memzero _ _

theorem Allocates.body (h : Allocates ok c (w i)) (t f : Ptr) : Allocates ok c ((copyBody w i j t f).world i) := by
  simp only [copyBody]
  split
  · have hm : Allocates ok c ((if t.datasz ≠ 0 then Capnproto.memcpy w i t.data j f.data t.datasz else w) i) := by
      split
      · exact h.memcpy _ _ _
      · exact h
    split <;> exact hm
  · split
    · split
      · exact h
      · show Allocates ok c (w.set i _ i)
        rw [World.set_self]
        exact h.write _ _
    · exact h.memcpy _ _ _
  · split
    · exact h
    split
    · exact h
    split
    · exact h.memcpy _ _ _
    split <;> exact h
  · split <;> exact h
  · exact h
  · exact h

/-- The copy of an object. -/
theorem allocates_copy (hp : Provides ok (w i)) (s : Nat) (d : Addr) (f : Ptr) :
    Allocates ok (w i) ((copyPtr w i j s d f).world i) := by
  simp only [copyPtr]
  split
  · exact .refl ok _
  · show Allocates ok (w i) (w.set i _ i)
    rw [World.set_self]
    exact allocates_ptr hp _ _ _ _
  · have hlink := allocates_link hp s d f
    rcases copyFresh_cases w i j s d f with ⟨e, -⟩ | ⟨-, -, e⟩ | ⟨-, -, c, hc, e⟩ <;> rw [e]
    · show Allocates ok (w i) (w.set i _ i)
      rw [World.set_self]
      exact hlink
    · refine Allocates.body ?_ _ _
      rw [World.set_self]
      exact hlink
    · refine Allocates.body ?_ _ _
      rw [World.set_self]
      have hcreate : c.create = (linkClone (w i) s d f).2.create := newCopy_create hc
      exact hlink.other (newCopy_copy hc).1 hcreate

/-- Reads change the counters of a session only. -/
theorem Allocates.counters (h : Allocates ok c (w i)) {c₁ : Capn}
    (e : ∃ used err, c₁ = { w j with traversalUsed := used, decodeErr := err }) : Allocates ok c (w.set j c₁ i) := by
  obtain ⟨used, err, rfl⟩ := e
  rw [World.set]
  split
  · rename_i hij
    subst hij
    exact h.other rfl rfl
  · exact h

/-- **One iteration** of the loop takes room. -/
theorem copyStep_allocates {s : CopyState} (hp : Provides ok c) (h : Allocates ok c (s.world i)) :
    (∀ s', copyStep i j s = .next s' → Allocates ok c (s'.world i)) ∧
      ∀ r, copyStep i j s = .done r → Allocates ok c (r.2 i) := by
  simp only [copyStep]
  rcases s.stack with _ | ⟨⟨tc, fc⟩, rest⟩
  · exact ⟨by rintro _ ⟨⟩, by rintro r ⟨⟩; exact h⟩
  simp only
  split
  · exact ⟨by rintro _ ⟨⟩, by rintro r ⟨⟩; exact h⟩
  split
  · exact ⟨by rintro s' ⟨⟩; exact h, by rintro _ ⟨⟩⟩
  split
  · refine ⟨?_, by rintro _ ⟨⟩⟩
    rintro s' ⟨⟩
    exact ((h.counters (capnGetp_capn _ _ _ _)).counters (capnGetp_capn _ _ _ _)).member _ _
  · have hw := h.counters (readPtr_capn (s.world j) fc.seg fc.data (-1))
    have hq : Allocates ok c ((copySlot (s.world.set j (readPtr (s.world j) fc.seg fc.data (-1)).capn) i j tc
        (readPtr (s.world j) fc.seg fc.data (-1)).ptr).world i) := by
      unfold copySlot
      split
      · exact hw
      · exact hw.trans (allocates_copy (hw.provides hp) _ _ _)
      · exact hw
    split
    · exact ⟨by rintro _ ⟨⟩, by rintro r ⟨⟩; exact hq⟩
    · exact ⟨by rintro s' ⟨⟩; exact hq, by rintro _ ⟨⟩⟩

/-- What is left of `capn_setp` takes room. -/
theorem finishes_allocates {st : Step CopyState (Int × World)} {r : Int × World} (hp : Provides ok c)
    (hn : ∀ s, st = .next s → Allocates ok c (s.world i)) (hd : ∀ q, st = .done q → Allocates ok c (q.2 i))
    (h : Finishes i j r st) : Allocates ok c (r.2 i) := by
  cases st with
  | done q =>
    cases h
    exact hd _ rfl
  | next s =>
    exact Loop.ends_inv (I := fun s => Allocates ok c (s.world i)) (Q := fun r => Allocates ok c (r.2 i))
      (fun _ s' hs hn => (copyStep_allocates hp hs).1 s' hn) (fun _ r hs hd => (copyStep_allocates hp hs).2 r hd)
      (hn s rfl) h

theorem setpSlot_allocates {s : Nat} {d : Addr} {tgt : Ptr} {r : Int × World} (hp : Provides ok c)
    (hw : Allocates ok c (w i)) (h : Finishes i j r (setpSlot w i s d j tgt)) : Allocates ok c (r.2 i) := by
  have hwrite : Allocates ok c (w.set i (writePtr (w i) s d tgt (i ≠ j)).2 i) := by
    rw [World.set_self]
    exact hw.trans (allocates_ptr (hw.provides hp) _ _ _ _)
  have hcopy := hwrite.trans (allocates_copy (j := j) (hwrite.provides hp) s d tgt)
  simp only [setpSlot] at h
  split at h
  · cases h
    exact hwrite
  · split at h
    · cases h
      exact hcopy
    · refine finishes_allocates hp ?_ (fun q hq => by cases hq) h
      rintro s ⟨⟩
      exact hcopy

theorem slotAt_allocates {p tgt : Ptr} {n : Int} {r : Int × World} (hp : Provides ok c) (hw : Allocates ok c (w i))
    (h : Finishes i j r (match p.seg, p.data with
      | some seg, some data => setpSlot w i seg (data.add n) j tgt
      | _, _ => .done (-1, w))) : Allocates ok c (r.2 i) := by
  split at h
  · exact setpSlot_allocates hp hw h
  · cases h
    exact hw

theorem setpResolved_allocates {p tgt : Ptr} {off : Int} {r : Int × World} (hp : Provides ok c)
    (hw : Allocates ok c (w i)) (h : Finishes i j r (setpResolved w i p off j tgt)) : Allocates ok c (r.2 i) := by
  simp only [setpResolved] at h
  split at h
  · split at h
    · cases h
      exact hw
    · refine finishes_allocates hp ?_ (fun q hq => by cases hq) h
      rintro s ⟨⟩
      exact hw.member _ _
  · split at h
    · cases h
      exact hw
    split at h
    · cases h
      exact hw
    split at h
    · cases h
      exact hw
    · rename_i val _ _
      cases h
      show Allocates ok c (w.set i (setBit (w i) p off val) i)
      rw [World.set_self, setBit]
      split
      · exact hw
      · exact hw.write _ _
  · split at h
    · cases h
      exact hw
    · exact slotAt_allocates hp hw h
  · split at h
    · cases h
      exact hw
    · exact slotAt_allocates hp hw h
  · cases h
    exact hw

/-- **`capn_setp`** takes room. -/
theorem setp_allocates {p tgt : Ptr} {off : Int} {r : Int × World} (hp : Provides ok (w i))
    (h : Setp w i p off j tgt r) : Allocates ok (w i) (r.2 i) := by
  have hfin := h.finishes
  have hw : Allocates ok (w i) (w.set i (capnResolve (w i) p).capn i) :=
    (Allocates.refl ok (w i)).counters (capnResolve_capn _ _)
  simp only [setpStart] at hfin
  split at hfin
  · rename_i v hfar
    cases hfin
    split at hfar
    · split at hfar
      · cases hfar
        show Allocates ok (w i) (World.set _ i _ i)
        rw [World.set_self]
        exact hw.store64 _ _
      · cases hfar
    · cases hfar
  · exact setpResolved_allocates hp (hw.counters (capnResolve_capn _ _)) hfin

end

end Capnproto

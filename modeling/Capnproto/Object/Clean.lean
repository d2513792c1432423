import Capnproto.Object.Alloc
import Capnproto.Object.Complete

/-!
# Clean sessions
-/

namespace Capnproto

/-! ## Sessions -/

/-- A blank segment with room for `n` bytes, as `create` is to return it. -/
structure Segment.Blank (t : Segment) (n : Nat) : Prop where
  len : t.len = 0
  room : n ≤ t.cap
  cap : t.cap < 2 ^ 32
  zero : ∀ x, t.data x = 0

/-- A session whose segments are whole words within far pointers' reach, and zero where
they are not in use, and so are those that `create` returns. -/
structure Clean (c : Capn) : Prop where
  create : ∀ create, c.create = some create → ∀ id n t, create id n = some t → t.Blank n
  words : ∀ k, 8 ∣ (c.seg k).len
  room : ∀ k, (c.seg k).len ≤ (c.seg k).cap
  cap : ∀ k, (c.seg k).cap < 2 ^ 32
  blank : ∀ k (x : Int), (c.seg k).len ≤ x → x < (c.seg k).cap → (c.seg k).data x = 0

/-- The `create` of `capn_init_malloc`. -/
theorem create_blank {c : Capn} (h : c.create = some Capnproto.create) (create : Nat → Nat → Option Segment)
    (hc : c.create = some create) (id n : Nat) (t : Segment) (ht : create id n = some t) : t.Blank n := by
  have hcr := Option.some.inj (h.symm.trans hc)
  subst hcr
  obtain ⟨h0, hcap, hmax⟩ := create_spec ht
  refine ⟨h0, hcap, Nat.lt_of_le_of_lt hmax (by decide), fun x => ?_⟩
  rw [create_zero ht]
  rfl

theorem Tidy.clean {c : Capn} (h : Tidy c) : Clean c := by
  have hout : ∀ k, ¬ k < c.segs.length → c.seg k = ⟨Mem.zero, 0, 0⟩ := fun k hk => Capn.seg_of_ge (Nat.not_lt.mp hk)
  refine ⟨create_blank h.fit.create, h.fit.words, fun k => ?_, fun k => ?_, fun k x hx _ => h.blank k x hx⟩
  · by_cases hk : k < c.segs.length
    · exact (h.fit.seg k hk).le_cap
    · rw [hout k hk]
  · by_cases hk : k < c.segs.length
    · exact Nat.lt_of_le_of_lt (h.fit.seg k hk).cap (by decide)
    · rw [hout k hk]
      decide

section

variable {c c' : Capn}

theorem Clean.of_segs (h : Clean c) (hs : c'.segs = c.segs) (hc : c'.create = c.create) : Clean c' := by
  have hseg : c'.seg = c.seg := by
    funext k
    rw [Capn.seg, Capn.seg, hs]
  refine ⟨by rw [hc]; exact h.create, ?_, ?_, ?_, ?_⟩ <;> rw [hseg]
  · exact h.words
  · exact h.room
  · exact h.cap
  · exact h.blank

/-- A store into bytes in use. -/
theorem Clean.write (h : Clean c) {a : Addr} {bs : List UInt8} (hin : a.off + bs.length ≤ (c.seg a.seg).len) :
    Clean (c.write a bs) := by
  refine ⟨h.create, fun k => ?_, fun k => ?_, fun k => ?_, fun k x hx hlt => ?_⟩
  · rw [Capn.len_write]
    exact h.words k
  · rw [Capn.len_write, Capn.cap_write]
    exact h.room k
  · rw [Capn.cap_write]
    exact h.cap k
  · rw [Capn.len_write] at hx
    rw [Capn.cap_write] at hlt
    rw [Capn.write, Capn.seg_setSeg]
    split
    · rename_i hk
      obtain ⟨rfl, -⟩ := hk
      refine (Mem.write_apply_of_ge ?_).trans (h.blank _ x hx hlt)
      omega
    · exact h.blank k x hx hlt

theorem Clean.store64 (h : Clean c) {a : Addr} {v : Nat} (hin : a.off + 8 ≤ (c.seg a.seg).len) :
    Clean (c.store64 a v) := by
  refine h.write ?_
  rw [length_toLe]
  exact hin

theorem seg_bump (c : Capn) (s n k : Nat) : (bump c s n).seg k =
    if s = k ∧ k < c.segs.length then { c.seg k with len := (c.seg k).len + n } else c.seg k :=
  Capn.seg_setSeg _ _ _ _

/-- Room within the capacity. -/
theorem Clean.bump (h : Clean c) {s n : Nat} (hn : 8 ∣ n) (hle : (c.seg s).len + n ≤ (c.seg s).cap) :
    Clean (bump c s n) := by
  refine ⟨h.create, fun k => ?_, fun k => ?_, fun k => ?_, fun k x hx hlt => ?_⟩
  · rw [seg_bump]
    split
    · exact Nat.dvd_add (h.words k) hn
    · exact h.words k
  · rw [seg_bump]
    split
    · rename_i hk
      rw [← hk.1]
      exact hle
    · exact h.room k
  · rw [seg_bump]
    split <;> exact h.cap k
  · rw [seg_bump] at hx hlt ⊢
    split at hx
    · rename_i hk
      rw [if_pos hk] at hlt ⊢
      have hx : (((c.seg k).len + n : Nat) : Int) ≤ x := hx
      exact h.blank k x (by omega) hlt
    · rename_i hk
      rw [if_neg hk] at hlt ⊢
      exact h.blank k x hx hlt

theorem Clean.append (h : Clean c) {t : Segment} {n : Nat} (ht : t.Blank n) : Clean (capnAppendSegment c t) := by
  have h0 := ht.len
  have hseg : ∀ k, (capnAppendSegment c t).seg k = c.seg k ∨ (capnAppendSegment c t).seg k = t := by
    intro k
    rcases Nat.lt_trichotomy k c.segs.length with hk | rfl | hk
    · exact .inl (seg_append_lt hk)
    · exact .inr seg_append_self
    · left
      rw [Capn.seg_of_ge (by simp [capnAppendSegment]; omega), Capn.seg_of_ge (by omega)]
  refine ⟨h.create, fun k => ?_, fun k => ?_, fun k => ?_, fun k x hx hlt => ?_⟩
  · rcases hseg k with e | e <;> rw [e]
    · exact h.words k
    · rw [h0]
      exact Nat.dvd_zero 8
  · rcases hseg k with e | e <;> rw [e]
    · exact h.room k
    · omega
  · rcases hseg k with e | e <;> rw [e]
    · exact h.cap k
    · exact ht.cap
  · rcases hseg k with e | e <;> rw [e] at hx hlt ⊢
    · exact h.blank k x hx hlt
    · exact ht.zero x

/-- Room from `new_data`: `n` bytes at the end of a segment. -/
structure Granted (c c' : Capn) (n s : Nat) (a : Addr) : Prop where
  clean : Clean c'
  addr : a = ⟨s, (c.seg s).len⟩
  len : (c'.seg s).len = (c.seg s).len + n
  lt : s < c'.segs.length
  segs : c.segs.length ≤ c'.segs.length
  zero : ∀ x : Int, (c.seg s).len ≤ x → x < (c'.seg s).len → (c'.seg s).data x = 0

theorem Clean.bump_zero (h : Clean c) {s n : Nat} (hs : s < c.segs.length) (hle : (c.seg s).len + n ≤ (c.seg s).cap)
    {x : Int} (h0 : (c.seg s).len ≤ x) (h1 : x < ((Capnproto.bump c s n).seg s).len) :
    ((Capnproto.bump c s n).seg s).data x = 0 := by
  rw [bump_len hs] at h1
  rw [bump_data]
  exact h.blank s x h0 (by omega)

theorem Clean.newData (h : Clean c) {n s : Nat} {a : Addr} (hn : 8 ∣ n) (e : newData c n = some (c', s, a)) :
    Granted c c' n s a := by
  rcases newData_cases e with ⟨hs, hle, rfl, rfl⟩ | ⟨create, t, hc, ht, rfl, rfl, rfl⟩
  · exact ⟨h.bump hn hle, rfl, bump_len hs n, by simpa [Capnproto.bump] using hs, by simp [Capnproto.bump],
      fun x => h.bump_zero hs hle⟩
  · have ht := h.create create hc _ _ _ ht
    have h0 := ht.len
    have hcap := ht.room
    have hlt : c.segs.length < (capnAppendSegment c t).segs.length := by simp [capnAppendSegment]
    have hold : (c.seg c.segs.length).len = 0 := by rw [Capn.seg_of_ge (Nat.le_refl _)]
    refine ⟨(h.append ht).bump hn ?_, by rw [h0, hold], ?_, by simpa [Capnproto.bump] using hlt, ?_, fun x _ _ => ?_⟩
    · rw [seg_append_self, h0]
      omega
    · rw [bump_len hlt, seg_append_self, h0, hold]
    · simp [Capnproto.bump, capnAppendSegment]
    · rw [bump_data, seg_append_self]
      exact ht.zero x

theorem bump_write (c : Capn) (s n : Nat) (a : Addr) (bs : List UInt8) :
    bump (c.write a bs) s n = (bump c s n).write a bs := by
  simp only [bump, Capn.write, Capn.setSeg]
  congr 1
  by_cases hs : a.seg = s
  · rw [hs, List.modify_modify_eq, List.modify_modify_eq]
    rfl
  · exact List.modify_modify_ne _ _ _ hs

theorem seg_lt_of_cap {k n : Nat} (h : (c.seg k).len + n ≤ (c.seg k).cap) (hn : 0 < n) : k < c.segs.length := by
  by_contra hk
  rw [Capn.seg_of_ge (Nat.not_lt.mp hk)] at h
  have h : 0 + n ≤ 0 := h
  omega

/-! ## Pointers that are written -/

/-- A clean session with at least the segments of `c`. -/
structure Cleaner (c c' : Capn) : Prop where
  clean : Clean c'
  segs : c.segs.length ≤ c'.segs.length

theorem Clean.cleaner (h : Clean c) : Cleaner c c := ⟨h, Nat.le_refl _⟩

theorem Cleaner.trans {c'' : Capn} (h : Cleaner c c') (h' : Cleaner c' c'') : Cleaner c c'' :=
  ⟨h'.clean, Nat.le_trans h.segs h'.segs⟩

theorem Cleaner.store64 (h : Cleaner c c') {a : Addr} {v : Nat} (hin : a.off + 8 ≤ (c'.seg a.seg).len) :
    Cleaner c (c'.store64 a v) := by
  refine ⟨h.clean.store64 hin, ?_⟩
  rw [Capn.store64, Capn.length_write]
  exact h.segs

theorem Cleaner.bump (h : Cleaner c c') {s n : Nat} (hn : 8 ∣ n) (hle : (c'.seg s).len + n ≤ (c'.seg s).cap) :
    Cleaner c (bump c' s n) := by
  refine ⟨h.clean.bump hn hle, ?_⟩
  rw [Capnproto.bump, Capn.length_setSeg]
  exact h.segs

theorem Granted.cleaner {n s : Nat} {a : Addr} (h : Granted c c' n s a) : Cleaner c c' := ⟨h.clean, h.segs⟩

theorem len_le_bump (c : Capn) (s n k : Nat) : (c.seg k).len ≤ ((Capnproto.bump c s n).seg k).len := by
  rw [seg_bump]
  split
  · exact Nat.le_add_right _ _
  · exact Nat.le_refl _

section

variable {d : Addr}

theorem cleaner_tag (h : Clean c) (hd : d.off + 8 ≤ (c.seg d.seg).len) (p : Ptr) (off : Int) :
    Cleaner c (tagResult c (writePtrTag c d p off)).2 := by
  cases e : writePtrTag c d p off with
  | none => exact h.cleaner
  | some c' =>
    obtain ⟨v, -, rfl⟩ := Option.map_eq_some_iff.mp e
    exact h.cleaner.store64 hd

/-- Two words for a double far pointer. -/
theorem Clean.pads (h : Clean c) {s t : Nat} {a : Addr}
    (e : (if (c.seg s).len + 16 ≤ (c.seg s).cap then some (Capnproto.bump c s 16, s, (⟨s, (c.seg s).len⟩ : Addr))
      else Capnproto.newData c 16) = some (c', t, a)) : Granted c c' 16 t a := by
  split at e
  · rename_i hle
    cases e
    have hs := seg_lt_of_cap hle (by decide)
    exact ⟨h.bump (by decide) hle, rfl, bump_len hs 16, by simpa [Capnproto.bump] using hs, by simp [Capnproto.bump],
      fun x => h.bump_zero hs hle⟩
  · exact h.newData (by decide) e

theorem cleaner_far (h : Clean c) (hd : d.off + 8 ≤ (c.seg d.seg).len) (s : Nat) (p : Ptr) (seg : Nat) (pdata : Int) :
    Cleaner c (writePtrFar c s d p seg pdata).2 := by
  simp only [writePtrFar]
  split
  · exact h.cleaner.store64 hd
  split
  · rename_i hroom
    split
    · exact h.cleaner
    · rename_i c' htag
      obtain ⟨v, -, rfl⟩ := Option.map_eq_some_iff.mp htag
      have hseg := seg_lt_of_cap hroom (by decide)
      -- the room is taken before the words are stored
      simp only [writeFarPtr, Capn.store64, bump_write]
      have hlen : ((Capnproto.bump c seg 8).seg seg).len = (c.seg seg).len + 8 := bump_len hseg 8
      refine ((h.cleaner.bump (by decide) hroom).store64 ?_).store64 ?_
      · show ((c.seg seg).len : Int) + 8 ≤ _
        rw [hlen]
        push_cast
        exact Int.le_refl _
      · have := len_le_bump c seg 8 d.seg
        rw [Capn.store64, Capn.len_write]
        omega
  split
  · exact h.cleaner
  · rename_i c' t a hroom
    have hr := h.pads hroom
    have ha : a.off + 16 ≤ (c'.seg a.seg).len := by
      have := hr.len
      rw [hr.addr]
      show ((c.seg t).len : Int) + 16 ≤ (c'.seg t).len
      omega
    have hfar : Cleaner c (writeFarPtr c' a seg pdata) := hr.cleaner.store64 (by omega)
    have hd' : d.off + 8 ≤ (c'.seg d.seg).len := by
      have : Grows (fun _ _ => False) c c' := by
        split at hroom
        · cases hroom
          exact (Grows.refl _ _).bump _ _
        · exact ((Grows.refl _ _).newData hroom).1
      have := this.len d.seg
      omega
    split
    · exact hfar
    · rename_i c'' htag
      obtain ⟨v, -, rfl⟩ := Option.map_eq_some_iff.mp htag
      have hpads : Cleaner c ((writeFarPtr c' a seg pdata).store64 (a.add 8) v) := by
        refine hfar.store64 ?_
        rw [writeFarPtr, Capn.store64, Capn.len_write]
        show a.off + 8 + 8 ≤ ((c'.seg a.seg).len : Int)
        omega
      refine hpads.store64 ?_
      rw [writeFarPtr, Capn.store64, Capn.len_write, Capn.store64, Capn.len_write]
      exact hd'

/-- `write_ptr` keeps a session clean. -/
theorem cleaner_ptr (h : Clean c) (hd : d.off + 8 ≤ (c.seg d.seg).len) (s : Nat) (p : Ptr) (foreign : Bool) :
    Cleaner c (writePtr c s d p foreign).2 := by
  simp only [writePtr]
  split
  · exact cleaner_tag h hd _ _
  split
  · exact cleaner_tag h hd _ _
  · exact cleaner_tag h hd _ _
  split
  · exact cleaner_tag h hd _ _
  split
  · exact h.cleaner
  split
  · exact h.cleaner
  split
  · exact cleaner_tag h hd _ _
  · exact cleaner_far h hd _ _ _ _

end

end

/-! ## The number of segments -/

section

variable {c c' : Capn}

theorem segs_newData {n s : Nat} {a : Addr} (e : newData c n = some (c', s, a)) : c.segs.length ≤ c'.segs.length := by
  rcases newData_cases e with ⟨-, -, rfl, -⟩ | ⟨create, t, -, -, -, rfl, -⟩
  · exact Nat.le_of_eq (Capn.length_setSeg _ _ _).symm
  · simp [bump, capnAppendSegment]

theorem segs_tag (c : Capn) (d : Addr) (p : Ptr) (off : Int) :
    c.segs.length ≤ (tagResult c (writePtrTag c d p off)).2.segs.length := by
  cases e : writePtrTag c d p off with
  | none => exact Nat.le_refl _
  | some c' =>
    obtain ⟨v, -, rfl⟩ := Option.map_eq_some_iff.mp e
    exact Nat.le_of_eq (Capn.length_write _ _ _).symm

theorem segs_object (c : Capn) (p : Ptr) (n : Nat) : c.segs.length ≤ (newObject c p n).1.segs.length := by
  unfold newObject
  split
  · exact Nat.le_refl _
  simp only
  split
  · exact Nat.le_refl _
  split
  · exact Nat.le_of_eq (Capn.length_setSeg _ _ _).symm
  split
  · exact Nat.le_refl _
  · rename_i c' s a hnew
    have h := segs_newData hnew
    split
    · exact h
    · rename_i c'' htag
      obtain ⟨v, -, rfl⟩ := Option.map_eq_some_iff.mp htag
      rw [Capn.store64, Capn.length_write]
      exact h

theorem segs_structList (c : Capn) (seg : Option Nat) (sz datasz ptrs : Nat) :
    c.segs.length ≤ (capnNewStructList c seg sz datasz ptrs).1.segs.length := by
  simp only [capnNewStructList]
  have h := segs_object c { type := .LIST, seg := seg, len := (sz : Int), isCompositeList := true,
                            datasz := (datasz + 7) / 8 * 8 % 2 ^ 19, ptrs := ptrs % 2 ^ 16 }
    (sz * ((datasz + 7) / 8 * 8 % 2 ^ 19 + 8 * (ptrs % 2 ^ 16)) + 8)
  split
  · exact h
  · rw [Capn.store64, Capn.length_write]
    exact h

theorem segs_clone (c : Capn) (s : Nat) (f : Ptr) : c.segs.length ≤ (newClone c s f).1.segs.length := by
  unfold newClone
  split
  · exact segs_object _ _ _
  · exact segs_object _ _ _
  · exact segs_object _ _ _
  · split
    · exact segs_structList _ _ _ _ _
    · simp only [capnNewList]
      split
      · exact segs_structList _ _ _ _ _
      split
      · exact segs_object _ _ _
      split <;> exact segs_object _ _ _
  · exact Nat.le_refl _
  · exact Nat.le_refl _

theorem segs_far (c : Capn) (s : Nat) (d : Addr) (p : Ptr) (seg : Nat) (pdata : Int) :
    c.segs.length ≤ (writePtrFar c s d p seg pdata).2.segs.length := by
  simp only [writePtrFar]
  split
  · exact Nat.le_of_eq (Capn.length_write _ _ _).symm
  split
  · split
    · exact Nat.le_refl _
    · rename_i c' htag
      obtain ⟨v, -, rfl⟩ := Option.map_eq_some_iff.mp htag
      simp only [bump, writeFarPtr, Capn.store64, Capn.length_setSeg, Capn.length_write, Nat.le_refl]
  split
  · exact Nat.le_refl _
  · rename_i c' t a hroom
    have h : c.segs.length ≤ c'.segs.length := by
      split at hroom
      · cases hroom
        exact Nat.le_of_eq (Capn.length_setSeg _ _ _).symm
      · exact segs_newData hroom
    split
    · simpa only [writeFarPtr, Capn.store64, Capn.length_write] using h
    · rename_i c'' htag
      obtain ⟨v, -, rfl⟩ := Option.map_eq_some_iff.mp htag
      simpa only [writeFarPtr, writeDoubleFar, Capn.store64, Capn.length_write] using h

theorem segs_ptr (c : Capn) (s : Nat) (d : Addr) (p : Ptr) (foreign : Bool) :
    c.segs.length ≤ (writePtr c s d p foreign).2.segs.length := by
  simp only [writePtr]
  split
  · exact segs_tag _ _ _ _
  split
  · exact segs_tag _ _ _ _
  · exact segs_tag _ _ _ _
  split
  · exact segs_tag _ _ _ _
  split
  · exact Nat.le_refl _
  split
  · exact Nat.le_refl _
  split
  · exact segs_tag _ _ _ _
  · exact segs_far _ _ _ _ _ _

end

section

variable {w : World} {i j : Nat}

theorem segs_memcpy (dst src : Option Addr) (n : Nat) :
    (memcpy w i dst j src n i).segs.length = (w i).segs.length := by
  unfold memcpy
  split
  · rw [World.set_self, Capn.length_write]
  · rfl

theorem segs_memzero (dst : Option Addr) (n : Nat) : (memzero w i dst n i).segs.length = (w i).segs.length := by
  unfold memzero
  split
  · rw [World.set_self, Capn.length_write]
  · rfl

theorem segs_member (t f : Ptr) : ((copyListMember w i j t f).1 i).segs.length = (w i).segs.length :=
  (segs_memzero _ _).trans ((segs_memzero _ _).trans (segs_memcpy _ _ _))

theorem segs_body (t f : Ptr) : ((copyBody w i j t f).world i).segs.length = (w i).segs.length := by
  simp only [copyBody]
  split
  · have hm : ((if t.datasz ≠ 0 then memcpy w i t.data j f.data t.datasz else w) i).segs.length = (w i).segs.length := by
      split
      · exact segs_memcpy _ _ _
      · rfl
    split <;> exact hm
  · split
    · split
      · rfl
      · show (w.set i _ i).segs.length = _
        rw [World.set_self, Capn.length_write]
    · exact segs_memcpy _ _ _
  · split
    · rfl
    split
    · rfl
    split
    · exact segs_memcpy _ _ _
    split <;> rfl
  · split <;> rfl
  · rfl
  · rfl

theorem segs_link (c : Capn) (s : Nat) (d : Addr) (f : Ptr) : c.segs.length ≤ (linkClone c s d f).2.segs.length :=
  Nat.le_trans (segs_clone c s f) (segs_ptr _ _ _ _ _)

theorem segs_copy (s : Nat) (d : Addr) (f : Ptr) :
    (w i).segs.length ≤ ((copyPtr w i j s d f).world i).segs.length := by
  simp only [copyPtr]
  split
  · exact Nat.le_refl _
  · show _ ≤ (w.set i _ i).segs.length
    rw [World.set_self]
    exact segs_ptr _ _ _ _ _
  · rcases copyFresh_cases w i j s d f with ⟨e, -⟩ | ⟨-, -, e⟩ | ⟨-, -, c, hc, e⟩ <;> rw [e]
    · show _ ≤ (w.set i _ i).segs.length
      rw [World.set_self]
      exact segs_link _ _ _ _
    · rw [segs_body, World.set_self]
      exact segs_link _ _ _ _
    · rw [segs_body, World.set_self]
      show _ ≤ c.segs.length
      rw [(newCopy_copy hc).1]
      exact segs_link _ _ _ _

theorem segs_counters {c : Capn} (e : ∃ used err, c = { w j with traversalUsed := used, decodeErr := err }) :
    (w.set j c i).segs = (w i).segs := by
  obtain ⟨u, v, rfl⟩ := e
  simp only [World.set]
  split
  · rename_i h
    rw [h]
  · rfl

/-- An iteration drops no segment. -/
theorem segs_step {s s' : CopyState} (h : copyStep i j s = .next s') :
    (s.world i).segs.length ≤ (s'.world i).segs.length := by
  revert h
  simp only [copyStep]
  rcases s.stack with _ | ⟨⟨tc, fc⟩, rest⟩
  · rintro ⟨⟩
  simp only
  split
  · rintro ⟨⟩
  split
  · rintro ⟨⟩
    exact Nat.le_refl _
  split
  · rintro ⟨⟩
    simp only [segs_member, World.set_self]
    obtain ⟨u, v, hc⟩ := capnGetp_capn ((s.world.set j (capnGetp (s.world j) fc 0 true).capn) i) tc 0 true
    rw [hc]
    exact Nat.le_of_eq (congrArg List.length (segs_counters (capnGetp_capn _ _ _ _)).symm)
  · have hw := segs_counters (i := i) (readPtr_capn (s.world j) fc.seg fc.data (-1))
    split
    · rintro ⟨⟩
    · rintro ⟨⟩
      refine Nat.le_trans (Nat.le_of_eq (congrArg List.length hw.symm)) ?_
      unfold copySlot
      split
      · exact Nat.le_refl _
      · exact segs_copy _ _ _
      · exact Nat.le_refl _

theorem segs_exit {s : CopyState} {r : Int × World} (h : copyStep i j s = .done r) :
    (s.world i).segs.length ≤ (r.2 i).segs.length := by
  revert h
  simp only [copyStep]
  rcases s.stack with _ | ⟨⟨tc, fc⟩, rest⟩
  · rintro ⟨⟩
    exact Nat.le_refl _
  simp only
  split
  · rintro ⟨⟩
    exact Nat.le_refl _
  split
  · rintro ⟨⟩
  split
  · rintro ⟨⟩
  · have hw := segs_counters (i := i) (readPtr_capn (s.world j) fc.seg fc.data (-1))
    split
    · rintro ⟨⟩
      refine Nat.le_trans (Nat.le_of_eq (congrArg List.length hw.symm)) ?_
      unfold copySlot
      split
      · exact Nat.le_refl _
      · exact segs_copy _ _ _
      · exact Nat.le_refl _
    · rintro ⟨⟩

/-- A copy has as many segments on the way as in the end, at most. -/
theorem segs_path {s s' : CopyState} {r : Int × World} (hp : Loop.Path (copyStep i j) s s')
    (hend : Loop.Ends (copyStep i j) s r) : (s'.world i).segs.length ≤ (r.2 i).segs.length :=
  Loop.ends_inv (I := fun t => (s'.world i).segs.length ≤ (t.world i).segs.length)
    (Q := fun r => (s'.world i).segs.length ≤ (r.2 i).segs.length)
    (fun _ _ hs hn => Nat.le_trans hs (segs_step hn)) (fun _ _ hs hd => Nat.le_trans hs (segs_exit hd)) (Nat.le_refl _)
    (hp.ends hend)

end

end Capnproto

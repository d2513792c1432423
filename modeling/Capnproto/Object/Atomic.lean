import Capnproto.Object.Build
import Capnproto.Pointer.Chain

/-!
# `capn_setp` that fails

A `capn_setp` that fails should leave the destination as it was, and the index of the
copies too, so that the same call can be made again (`Atomic`). It does if it fails
before it links a copy into the slot (`Entry`): what is allocated until then is out of
reach (`Grows`). Once the copy is linked, the slot has changed, and the index names a
copy that is not finished (`copyStep_copy`).
-/

namespace Capnproto

/-! ## What stays -/

/-- The bytes in use stay as they are, but those in `P`, and segments only grow. -/
structure Grows (P : Nat → Int → Prop) (c c' : Capn) : Prop where
  len : ∀ k, (c.seg k).len ≤ (c'.seg k).len
  data : ∀ k (o : Int), 0 ≤ o → o < (c.seg k).len → ¬ P k o → (c'.seg k).data o = (c.seg k).data o

/-- All bytes in use stay as they are. -/
abbrev Keeps : Capn → Capn → Prop := Grows fun _ _ => False

theorem Grows.refl (P : Nat → Int → Prop) (c : Capn) : Grows P c c := ⟨fun _ => Nat.le_refl _, fun _ _ _ _ _ => rfl⟩

theorem Grows.mono {P Q : Nat → Int → Prop} {c c' : Capn} (h : Grows P c c') (hpq : ∀ k o, P k o → Q k o) :
    Grows Q c c' :=
  ⟨h.len, fun k o h0 h1 hq => h.data k o h0 h1 fun hp => hq (hpq k o hp)⟩

theorem Grows.trans {P : Nat → Int → Prop} {c c' c'' : Capn} (h : Grows P c c') (h' : Grows P c' c'') :
    Grows P c c'' := by
  refine ⟨fun k => Nat.le_trans (h.len k) (h'.len k), fun k o h0 h1 hp => ?_⟩
  have hlen := h.len k
  rw [h'.data k o h0 (by omega) hp, h.data k o h0 h1 hp]

theorem Grows.of_segs {P : Nat → Int → Prop} {c c' c'' : Capn} (h : Grows P c c') (e : c''.segs = c'.segs) :
    Grows P c c'' := by
  have hs : c''.seg = c'.seg := by
    funext k
    rw [Capn.seg, Capn.seg, e]
  exact ⟨fun k => by rw [hs]; exact h.len k, fun k o => by rw [hs]; exact h.data k o⟩

theorem Grows.bump {P : Nat → Int → Prop} {c c' : Capn} (h : Grows P c c') (s n : Nat) :
    Grows P c (bump c' s n) := by
  refine h.trans ⟨fun k => ?_, fun k o _ _ _ => ?_⟩
  · rw [Capnproto.bump, Capn.seg_setSeg]
    split
    · exact Nat.le_add_right _ _
    · exact Nat.le_refl _
  · rw [Capnproto.bump, Capn.seg_setSeg]
    split <;> rfl

/-- A store beyond what was in use, or in `P`. -/
theorem Grows.write {P : Nat → Int → Prop} {c c' : Capn} (h : Grows P c c') {a : Addr} {bs : List UInt8}
    (hin : ∀ o : Int, a.off ≤ o → o < a.off + bs.length → ((c.seg a.seg).len : Int) ≤ o ∨ P a.seg o) :
    Grows P c (c'.write a bs) := by
  refine ⟨fun k => by rw [Capn.len_write]; exact h.len k, fun k o h0 h1 hp => ?_⟩
  rw [← h.data k o h0 h1 hp, Capn.write, Capn.seg_setSeg]
  split
  · rename_i hk
    obtain ⟨rfl, -⟩ := hk
    by_cases hlo : o < a.off
    · exact Mem.write_apply_of_lt hlo
    by_cases hhi : a.off + bs.length ≤ o
    · exact Mem.write_apply_of_ge hhi
    rcases hin o (by omega) (by omega) with hge | hP
    · omega
    · exact absurd hP hp
  · rfl

theorem Grows.append {P : Nat → Int → Prop} {c c' : Capn} (h : Grows P c c') (t : Segment) :
    Grows P c (capnAppendSegment c' t) := by
  have hseg : ∀ k, (capnAppendSegment c' t).seg k = c'.seg k ∨ (c'.seg k).len = 0 := by
    intro k
    by_cases hk : k < c'.segs.length
    · exact .inl (seg_append_lt hk)
    · exact .inr (by rw [Capn.seg_of_ge (Nat.not_lt.mp hk)])
  refine h.trans ⟨fun k => ?_, fun k o h0 h1 _ => ?_⟩
  · rcases hseg k with e | e
    · rw [e]
    · rw [e]
      exact Nat.zero_le _
  · rcases hseg k with e | e
    · rw [e]
    · rw [e] at h1
      omega

/-- Room from `new_data` is behind what was in use. -/
theorem Grows.newData {P : Nat → Int → Prop} {c c' c'' : Capn} (h : Grows P c c') {n s : Nat} {a : Addr}
    (e : newData c' n = some (c'', s, a)) :
    Grows P c c'' ∧ a.seg = s ∧ ((c.seg s).len : Int) ≤ a.off ∧ 0 ≤ a.off := by
  rcases newData_cases e with ⟨-, -, rfl, rfl⟩ | ⟨create, t, -, -, rfl, rfl, rfl⟩
  · have := h.len s
    exact ⟨h.bump _ _, rfl, by show ((c.seg s).len : Int) ≤ (c'.seg s).len; omega, by
      show (0 : Int) ≤ (c'.seg s).len; omega⟩
  · have hlen := h.len c'.segs.length
    rw [Capn.seg_of_ge (Nat.le_refl _)] at hlen
    have hlen : (c.seg c'.segs.length).len ≤ 0 := hlen
    exact ⟨(h.append t).bump _ _, rfl, by show ((c.seg c'.segs.length).len : Int) ≤ t.len; omega, by
      show (0 : Int) ≤ t.len; omega⟩

/-! ## Clones -/

theorem newData_copy {c c' : Capn} {n s : Nat} {a : Addr} (e : newData c n = some (c', s, a)) :
    c'.copy = c.copy := by
  rcases newData_cases e with ⟨-, -, rfl, -⟩ | ⟨_, _, -, -, -, rfl, -⟩ <;> rfl

/-- What a constructor gives: nothing, or the object `p` at a place that was not in use. -/
structure Made (c : Capn) (p : Ptr) (r : Capn × Ptr) : Prop where
  keeps : Keeps c r.1
  copy : r.1.copy = c.copy
  ptr : r.2 = {} ∨ ∃ s o b, r.2 = { p with seg := some s, data := some ⟨s, o⟩, hasPtrTag := b } ∧
    ((c.seg s).len : Int) ≤ o

theorem made_object (c : Capn) (p : Ptr) (bytes : Nat) : Made c p (newObject c p bytes) := by
  have hc := Grows.refl (fun _ _ => False) c
  simp only [newObject]
  cases hs : p.seg with
  | none => exact ⟨hc, rfl, .inl rfl⟩
  | some s =>
    simp only
    split
    · exact ⟨hc, rfl, .inr ⟨s, (c.seg s).len, p.hasPtrTag, by rw [← hs], Int.le_refl _⟩⟩
    split
    · exact ⟨hc.bump _ _, rfl, .inr ⟨s, (c.seg s).len, p.hasPtrTag, by rw [← hs], Int.le_refl _⟩⟩
    split
    · exact ⟨hc, rfl, .inl rfl⟩
    · rename_i c' s' a hnew
      obtain ⟨hg, rfl, ha, -⟩ := hc.newData hnew
      split
      · exact ⟨hg, newData_copy hnew, .inl rfl⟩
      · rename_i c'' htag
        obtain ⟨v, -, rfl⟩ := Option.map_eq_some_iff.mp htag
        exact ⟨hg.write fun o ho _ => .inl (by omega), @newData_copy _ c' _ _ _ hnew,
          .inr ⟨a.seg, a.off + 8, true, rfl, by omega⟩⟩

theorem made_struct (c : Capn) (seg : Option Nat) (datasz ptrs : Nat) :
    Made c { type := .STRUCT, seg := seg, datasz := (datasz + 7) / 8 * 8 % 2 ^ 19, ptrs := ptrs % 2 ^ 16 }
      (capnNewStruct c seg datasz ptrs) := made_object c _ _

theorem made_list1 (c : Capn) (seg : Option Nat) (sz : Nat) :
    Made c { type := .BIT_LIST, seg := seg, datasz := (sz + 7) / 8 % 2 ^ 19, len := sz } (capnNewList1 c seg sz) :=
  made_object c _ _

theorem made_structList (c : Capn) (seg : Option Nat) (sz datasz ptrs : Nat) :
    Made c { type := .LIST, seg := seg, len := (sz : Int), isCompositeList := true,
             datasz := (datasz + 7) / 8 * 8 % 2 ^ 19, ptrs := ptrs % 2 ^ 16 }
      (capnNewStructList c seg sz datasz ptrs) := by
  simp only [capnNewStructList]
  generalize sz * ((datasz + 7) / 8 * 8 % 2 ^ 19 + 8 * (ptrs % 2 ^ 16)) + 8 = bytes
  have h := made_object c { type := .LIST, seg := seg, len := (sz : Int), isCompositeList := true,
                            datasz := (datasz + 7) / 8 * 8 % 2 ^ 19, ptrs := ptrs % 2 ^ 16 } bytes
  split
  · exact h
  · rename_i a ha
    rcases h.ptr with e | ⟨s, o, b, e, ho⟩
    · rw [e] at ha
      cases ha
    · have hd := (congrArg Ptr.data e).symm.trans ha
      cases hd
      refine ⟨h.keeps.write fun o' ho' _ => .inl ?_, h.copy, .inr ⟨s, o + 8, b, ?_, by omega⟩⟩
      · show ((c.seg s).len : Int) ≤ o'
        have : o ≤ o' := ho'
        omega
      · rw [e]
        rfl

/-- A list is one object, void if its elements are. -/
theorem made_list (c : Capn) (seg : Option Nat) (sz datasz ptrs : Nat) :
    ∃ p, Made c p (capnNewList c seg sz datasz ptrs) ∧ p.type = .LIST ∧ p.len = sz ∧
      (datasz = 0 → ptrs = 0 → p.datasz = 0 ∧ p.ptrs = 0) := by
  simp only [capnNewList]
  split
  · rename_i hne
    exact ⟨_, made_structList c seg sz datasz ptrs, rfl, rfl, fun h1 h2 => by omega⟩
  split
  · exact ⟨_, made_object c _ _, rfl, rfl, fun h1 _ => by omega⟩
  split
  · exact ⟨_, made_object c _ _, rfl, rfl, fun h1 _ => by omega⟩
  · exact ⟨_, made_object c _ _, rfl, rfl, fun h1 _ => ⟨h1, rfl⟩⟩

/-! ## Pointers that are written -/

/-- The slot at `d`. -/
def Slot (d : Addr) (k : Nat) (o : Int) : Prop := k = d.seg ∧ d.off ≤ o ∧ o < d.off + 8

theorem Grows.store64 {P : Nat → Int → Prop} {c c' : Capn} (h : Grows P c c') {a : Addr} {v : Nat}
    (hin : ((c.seg a.seg).len : Int) ≤ a.off ∨ ∀ o : Int, a.off ≤ o → o < a.off + 8 → P a.seg o) :
    Grows P c (c'.store64 a v) := by
  refine h.write fun o h1 h2 => ?_
  rw [length_toLe] at h2
  rcases hin with hge | hP
  · exact .inl (by omega)
  · exact .inr (hP o h1 h2)

/-- What `write_ptr` stores: the slot, if it succeeds, and words that were not in use. -/
structure Writes (c : Capn) (d : Addr) (r : Int × Capn) : Prop where
  grows : Grows (Slot d) c r.2
  copy : r.2.copy = c.copy
  keeps : r.1 ≠ 0 → Keeps c r.2

theorem writes_none (c : Capn) (d : Addr) (ret : Int) : Writes c d (ret, c) :=
  ⟨.refl _ c, rfl, fun _ => .refl _ c⟩

theorem slot_self {d : Addr} (o : Int) (h1 : d.off ≤ o) (h2 : o < d.off + 8) : Slot d d.seg o := ⟨rfl, h1, h2⟩

theorem writes_tag (c : Capn) (d : Addr) (p : Ptr) (off : Int) :
    Writes c d (tagResult c (writePtrTag c d p off)) := by
  cases h : writePtrTag c d p off with
  | none => exact writes_none c d (-1)
  | some c' =>
    obtain ⟨v, -, rfl⟩ := Option.map_eq_some_iff.mp h
    exact ⟨(Grows.refl _ c).store64 (.inr slot_self), rfl, fun h => absurd rfl h⟩

theorem writes_far (c : Capn) (s : Nat) (d : Addr) (p : Ptr) (seg : Nat) (pdata : Int) :
    Writes c d (writePtrFar c s d p seg pdata) := by
  simp only [writePtrFar]
  split
  · exact ⟨(Grows.refl _ c).store64 (.inr slot_self), rfl, fun h => absurd rfl h⟩
  split
  · split
    · exact writes_none c d (-1)
    · rename_i c' htag
      obtain ⟨v, -, rfl⟩ := Option.map_eq_some_iff.mp htag
      have hpad : Grows (Slot d) c (c.store64 ⟨seg, (c.seg seg).len⟩ v) :=
        (Grows.refl _ c).store64 (.inl (Int.le_refl _))
      exact ⟨(hpad.store64 (.inr slot_self)).bump _ _, rfl, fun h => absurd rfl h⟩
  · split
    · exact writes_none c d (-1)
    · rename_i c' t a hroom
      have hplace : Keeps c c' ∧ a.seg = t ∧ ((c.seg t).len : Int) ≤ a.off ∧ c'.copy = c.copy := by
        split at hroom
        · cases hroom
          exact ⟨(Grows.refl _ c).bump _ _, rfl, Int.le_refl _, rfl⟩
        · obtain ⟨hg, hs, ho, -⟩ := (Grows.refl (fun _ _ => False) c).newData hroom
          exact ⟨hg, hs, ho, newData_copy hroom⟩
      obtain ⟨hg, rfl, ho, hcopy⟩ := hplace
      have hfar : Keeps c (writeFarPtr c' a seg pdata) := hg.store64 (.inl ho)
      split
      · exact ⟨hfar.mono fun _ _ h => h.elim, hcopy, fun _ => hfar⟩
      · rename_i c'' htag
        obtain ⟨v, -, rfl⟩ := Option.map_eq_some_iff.mp htag
        have hpads : Keeps c ((writeFarPtr c' a seg pdata).store64 (a.add 8) v) :=
          hfar.store64 (.inl (by show ((c.seg a.seg).len : Int) ≤ a.off + 8; omega))
        exact ⟨(hpads.mono fun _ _ h => h.elim).store64 (.inr slot_self), hcopy, fun h => absurd rfl h⟩

theorem writes_ptr (c : Capn) (s : Nat) (d : Addr) (p : Ptr) (foreign : Bool) :
    Writes c d (writePtr c s d p foreign) := by
  simp only [writePtr]
  split
  · exact writes_tag _ _ _ _
  split
  · exact writes_tag _ _ _ _
  · exact writes_tag _ _ _ _
  split
  · exact writes_tag _ _ _ _
  split
  · exact writes_none c d _
  split
  · exact writes_none c d _
  split
  · exact writes_tag _ _ _ _
  · exact writes_far _ _ _ _ _ _

/-- What needs to be copied is not written. -/
theorem writePtr_need {c : Capn} {s : Nat} {d : Addr} {p : Ptr} {foreign : Bool}
    (h : (writePtr c s d p foreign).1 = NEED_TO_COPY) :
    (writePtr c s d p foreign).2 = c ∧ p.type ≠ .INTERFACE ∧ p.type ≠ .NULL := by
  have htag : ∀ o, (tagResult c o).1 ≠ NEED_TO_COPY := by
    rintro (_ | _) <;> rintro ⟨⟩
  have hfar : ∀ seg pdata, (writePtrFar c s d p seg pdata).1 ≠ NEED_TO_COPY := by
    intro seg pdata
    simp only [writePtrFar]
    split
    · rintro ⟨⟩
    split
    · split <;> rintro ⟨⟩
    split
    · rintro ⟨⟩
    split <;> rintro ⟨⟩
  revert h
  simp only [writePtr]
  split
  · exact fun h => absurd h (htag _)
  rename_i hi
  split
  · exact fun h => absurd h (htag _)
  · exact fun h => absurd h (htag _)
  rename_i hn
  split
  · exact fun h => absurd h (htag _)
  split
  · exact fun _ => ⟨rfl, hi, hn⟩
  split
  · exact fun _ => ⟨rfl, hi, hn⟩
  split
  · exact fun h => absurd h (htag _)
  · exact fun h => absurd h (hfar _ _)

/-! ## Copies that are begun -/

/-- Room for an entry of the index comes from the local segments. -/
theorem newCopy_only {c c' : Capn} (e : newCopy c = some c') : ∃ l, c' = { c with copylist := l } := by
  simp only [newCopy] at e
  split at e
  · split at e
    · cases e
    · obtain ⟨_, -, rfl⟩ := Option.map_eq_some_iff.mp e
      exact ⟨_, rfl⟩
  · split at e
    · split at e
      · cases e
      · obtain ⟨_, -, rfl⟩ := Option.map_eq_some_iff.mp e
        exact ⟨_, rfl⟩
    · cases e
      exact ⟨_, rfl⟩

theorem newCopy_copy {c c' : Capn} (e : newCopy c = some c') : c'.segs = c.segs ∧ c'.copy = c.copy := by
  obtain ⟨l, rfl⟩ := newCopy_only e
  exact ⟨rfl, rfl⟩

theorem newCopy_create {c c' : Capn} (e : newCopy c = some c') : c'.create = c.create := by
  obtain ⟨l, rfl⟩ := newCopy_only e
  rfl

/-- The clone of `f`, linked into the slot `d`. -/
def linkClone (c : Capn) (s : Nat) (d : Addr) (f : Ptr) : Int × Capn :=
  writePtr (newClone c s f).1 s d (newClone c s f).2 false

/-- A pointer to `f` is not written, but a clone of `f` is linked. -/
def Begins (c : Capn) (s : Nat) (d : Addr) (j : Nat) (f : Ptr) (foreign : Bool) : Prop :=
  (writePtr c s d f foreign).1 = NEED_TO_COPY ∧ findCopy c j f = .free ∧ (linkClone c s d f).1 = 0

instance (c : Capn) (s : Nat) (d : Addr) (j : Nat) (f : Ptr) (foreign : Bool) :
    Decidable (Begins c s d j f foreign) := inferInstanceAs (Decidable (_ ∧ _))

/-- What is linked is what the slot had, and the index does not learn of it. -/
def Unmarked (c : Capn) (s : Nat) (d : Addr) (f : Ptr) : Prop :=
  (linkClone c s d f).2.read d 8 = c.read d 8 ∧ (f.zeroSized ∨ newCopy (linkClone c s d f).2 = none)

/-- A failure is at the entry: before a copy is begun, or right then. -/
def SlotEntry (c : Capn) (s : Nat) (d : Addr) (j : Nat) (f : Ptr) (foreign : Bool) : Prop :=
  Begins c s d j f foreign → Unmarked c s d f

/-- The place that `capn_setp` sets: its address and its bytes. -/
def destination (p : Ptr) (off : Int) : Option (Addr × Nat) :=
  match p.type with
  | .STRUCT => p.data.map fun d => (d.add (p.datasz + 8 * off), 8)
  | .PTR_LIST => p.data.map fun d => (d.add (8 * off), 8)
  | .LIST => p.data.map fun d => (d.add (off * (p.datasz + 8 * p.ptrs)), p.datasz + 8 * p.ptrs)
  | .BIT_LIST => p.data.map fun d => (d.add ((off + p.ptrs) / 8), 1)
  | _ => none

/-- The destination `off` of `p` reads as before, all bytes in use are as before, and
the index says of every source what it said before. -/
structure Atomic (p : Ptr) (off : Int) (c c' : Capn) : Prop where
  dest : ∀ a n, destination p off = some (a, n) → c'.read a n = c.read a n
  keeps : Keeps c c'
  index : ∀ src f, findCopy c' src f = findCopy c src f

/-- When a failing `capn_setp` of resolved pointers fails at the entry. -/
def EntryResolved (c : Capn) (p : Ptr) (off : Int) (j : Nat) (tgt : Ptr) (foreign : Bool) : Prop :=
  match p.type with
  | .LIST => p.len ≤ off ∨ tgt.type ≠ .STRUCT
  | .PTR_LIST => off < p.len → ∀ s d, p.seg = some s → p.data = some d → SlotEntry c s (d.add (8 * off)) j tgt foreign
  | .STRUCT =>
    off < p.ptrs → ∀ s d, p.seg = some s → p.data = some d → SlotEntry c s (d.add (p.datasz + 8 * off)) j tgt foreign
  | _ => True

theorem findCopy_congr {c c' : Capn} (h : c'.copy = c.copy) (src : Nat) (f : Ptr) :
    findCopy c' src f = findCopy c src f := by
  rw [findCopy, h]
  rfl

/-- A source of the index is found. -/
theorem findCopy_mem {c : Capn} {j : Nat} {f : Ptr} {t : Ptr} (hlen : 0 ≤ f.len) (hz : ¬ f.zeroSized)
    (h : (⟨t, f, j, f.fseg, f.fbegin, f.fend⟩ : Copy) ∈ c.copy) : findCopy c j f ≠ .free := by
  have hlt : f.fbegin < f.fend := by
    have hne : f.fend ≠ f.fbegin := fun e => hz (.inl e)
    have hsize : 0 ≤ dataSize f := by
      simp only [dataSize]
      split
      · omega
      · omega
      · omega
      · have := Int.mul_nonneg hlen (show (0 : Int) ≤ f.datasz + 8 * f.ptrs by omega)
        split <;> omega
      · omega
    simp only [Ptr.fend] at hne ⊢
    omega
  rw [findCopy, if_neg hz]
  split
  · rename_i hnone
    have := List.find?_eq_none.mp hnone _ h
    simp at this
    omega
  · split <;> exact nofun

/-- Bytes that read the same in the slot, and stay elsewhere. -/
theorem Grows.keeps {c c' : Capn} {d : Addr} (h : Grows (Slot d) c c') (hd : c'.read d 8 = c.read d 8) :
    Keeps c c' := by
  refine ⟨h.len, fun k o h0 h1 _ => ?_⟩
  by_cases hs : Slot d k o
  · obtain ⟨rfl, hlo, hhi⟩ := hs
    have hget := congrArg (fun l : List UInt8 => l[(o - d.off).toNat]?) hd
    have hlt : (o - d.off).toNat < 8 := by omega
    have ho : d.off + ((o - d.off).toNat : Int) = o := by omega
    simp only [Capn.read] at hget
    rw [List.getElem?_eq_getElem (by rw [Mem.length_read]; exact hlt),
      List.getElem?_eq_getElem (by rw [Mem.length_read]; exact hlt), Mem.getElem_read, Mem.getElem_read, ho] at hget
    exact Option.some.inj hget
  · exact h.data k o h0 h1 hs

/-! ## The index only grows -/

section

variable {w : World} {i j : Nat} {e : Copy}

theorem memcpy_copy (dst src : Option Addr) (n : Nat) : (memcpy w i dst j src n i).copy = (w i).copy := by
  unfold memcpy
  split
  · rw [World.set_self]
    rfl
  · rfl

theorem memzero_copy (dst : Option Addr) (n : Nat) : (memzero w i dst n i).copy = (w i).copy := by
  unfold memzero
  split
  · rw [World.set_self]
    rfl
  · rfl

theorem copyBody_copy (t f : Ptr) : ((copyBody w i j t f).world i).copy = (w i).copy := by
  simp only [copyBody]
  split
  · have hm : ((if t.datasz ≠ 0 then memcpy w i t.data j f.data t.datasz else w) i).copy = (w i).copy := by
      split
      · exact memcpy_copy _ _ _
      · rfl
    split <;> exact hm
  · split
    · split
      · rfl
      · show (w.set i _ i).copy = _
        rw [World.set_self]
        rfl
    · exact memcpy_copy _ _ _
  · split
    · rfl
    split
    · rfl
    split
    · exact memcpy_copy _ _ _
    split <;> rfl
  · split <;> rfl
  · rfl
  · rfl

theorem newClone_copy (c : Capn) (s : Nat) (f : Ptr) : (newClone c s f).1.copy = c.copy := by
  unfold newClone
  split
  · exact (made_struct _ _ _ _).copy
  · exact (made_object _ _ _).copy
  · exact (made_list1 _ _ _).copy
  · split
    · exact (made_structList _ _ _ _ _).copy
    · obtain ⟨_, hp, -⟩ := made_list c (some s) f.len.toNat f.datasz f.ptrs
      exact hp.copy
  · rfl
  · rfl

theorem linkClone_copy (c : Capn) (s : Nat) (d : Addr) (f : Ptr) : (linkClone c s d f).2.copy = c.copy :=
  (writes_ptr _ _ _ _ _).copy.trans (newClone_copy _ _ _)

theorem copyFresh_eq (w : World) (i j s : Nat) (d : Addr) (f : Ptr) : copyFresh w i j s d f =
    if (linkClone (w i) s d f).1 ≠ 0 then ⟨-1, w.set i (linkClone (w i) s d f).2, none⟩
    else if f.zeroSized then copyBody (w.set i (linkClone (w i) s d f).2) i j (newClone (w i) s f).2 f
    else
      match newCopy (linkClone (w i) s d f).2 with
      | none => ⟨-1, w.set i (linkClone (w i) s d f).2, none⟩
      | some c => copyBody (w.set i { c with
          copy := ⟨(newClone (w i) s f).2, f, j, f.fseg, f.fbegin, f.fend⟩ :: c.copy }) i j
          (newClone (w i) s f).2 f := rfl

/-- The ways that a fresh copy goes. -/
theorem copyFresh_cases (w : World) (i j s : Nat) (d : Addr) (f : Ptr) :
    (copyFresh w i j s d f = ⟨-1, w.set i (linkClone (w i) s d f).2, none⟩ ∧
      ((linkClone (w i) s d f).1 ≠ 0 ∨
        ¬ f.zeroSized ∧ (linkClone (w i) s d f).1 = 0 ∧ newCopy (linkClone (w i) s d f).2 = none)) ∨
    ((linkClone (w i) s d f).1 = 0 ∧ f.zeroSized ∧ copyFresh w i j s d f =
      copyBody (w.set i (linkClone (w i) s d f).2) i j (newClone (w i) s f).2 f) ∨
    (linkClone (w i) s d f).1 = 0 ∧ ¬ f.zeroSized ∧ ∃ c, newCopy (linkClone (w i) s d f).2 = some c ∧
      copyFresh w i j s d f = copyBody (w.set i { c with
        copy := ⟨(newClone (w i) s f).2, f, j, f.fseg, f.fbegin, f.fend⟩ :: c.copy }) i j (newClone (w i) s f).2 f := by
  rw [copyFresh_eq]
  by_cases h0 : (linkClone (w i) s d f).1 ≠ 0
  · rw [if_pos h0]
    exact .inl ⟨rfl, .inl h0⟩
  rw [if_neg h0]
  rw [not_not] at h0
  by_cases hz : f.zeroSized
  · rw [if_pos hz]
    exact .inr (.inl ⟨h0, hz, rfl⟩)
  rw [if_neg hz]
  cases hc : newCopy (linkClone (w i) s d f).2 with
  | none => exact .inl ⟨rfl, .inr ⟨hz, h0, rfl⟩⟩
  | some c => exact .inr (.inr ⟨h0, hz, c, rfl, rfl⟩)

theorem copyFresh_copy (h : e ∈ (w i).copy) (s : Nat) (d : Addr) (f : Ptr) :
    e ∈ ((copyFresh w i j s d f).world i).copy := by
  have hlink : e ∈ (linkClone (w i) s d f).2.copy := by
    rw [linkClone_copy]
    exact h
  rcases copyFresh_cases w i j s d f with ⟨e', -⟩ | ⟨-, -, e'⟩ | ⟨-, -, c, hc, e'⟩ <;> rw [e']
  · show e ∈ (w.set i _ i).copy
    rw [World.set_self]
    exact hlink
  · rw [copyBody_copy, World.set_self]
    exact hlink
  · rw [copyBody_copy, World.set_self]
    refine List.mem_cons_of_mem _ ?_
    rw [(newCopy_copy hc).2]
    exact hlink

theorem copyPtr_copy (h : e ∈ (w i).copy) (s : Nat) (d : Addr) (f : Ptr) :
    e ∈ ((copyPtr w i j s d f).world i).copy := by
  simp only [copyPtr]
  split
  · exact h
  · show e ∈ (w.set i _ i).copy
    rw [World.set_self, (writes_ptr _ _ _ _ _).copy]
    exact h
  · exact copyFresh_copy h s d f

theorem copyListMember_copy (t f : Ptr) : ((copyListMember w i j t f).1 i).copy = (w i).copy :=
  (memzero_copy _ _).trans ((memzero_copy _ _).trans (memcpy_copy _ _ _))

theorem set_counters {c : Capn} (e : ∃ used err, c = { w j with traversalUsed := used, decodeErr := err }) :
    (w.set j c i).copy = (w i).copy := by
  obtain ⟨u, v, rfl⟩ := e
  simp only [World.set]
  split
  · rename_i h
    rw [h]
  · rfl

/-- **One iteration** of the loop keeps the entries of the index. -/
theorem copyStep_copy {s : CopyState} (h : e ∈ (s.world i).copy) :
    (∀ s', copyStep i j s = .next s' → e ∈ (s'.world i).copy) ∧
      ∀ r, copyStep i j s = .done r → e ∈ (r.2 i).copy := by
  have hread : ∀ {c : Capn}, (∃ used err, c = { s.world j with traversalUsed := used, decodeErr := err }) →
      e ∈ (s.world.set j c i).copy := fun hc => by rw [set_counters hc]; exact h
  simp only [copyStep]
  rcases s.stack with _ | ⟨⟨tc, fc⟩, rest⟩
  · exact ⟨by rintro _ ⟨⟩, by rintro r ⟨⟩; exact h⟩
  simp only
  split
  · exact ⟨by rintro _ ⟨⟩, by rintro r ⟨⟩; exact h⟩
  split
  · exact ⟨by rintro s' ⟨⟩; exact h, by rintro _ ⟨⟩⟩
  split
  · refine ⟨?_, by rintro _ ⟨⟩⟩
    rintro s' ⟨⟩
    simp only [copyListMember_copy, World.set_self]
    obtain ⟨u, v, hc⟩ := capnGetp_capn
      ((s.world.set j (capnGetp (s.world j) fc 0 true).capn) i) tc 0 true
    rw [hc]
    exact hread (capnGetp_capn _ _ _ _)
  · have hr : e ∈ ((copySlot (s.world.set j (readPtr (s.world j) fc.seg fc.data (-1)).capn) i j tc
        (readPtr (s.world j) fc.seg fc.data (-1)).ptr).world i).copy := by
      have hw := hread (readPtr_capn (s.world j) fc.seg fc.data (-1))
      unfold copySlot
      split
      · exact hw
      · exact copyPtr_copy hw _ _ _
      · exact hw
    split
    · exact ⟨by rintro _ ⟨⟩, by rintro q ⟨⟩; exact hr⟩
    · exact ⟨by rintro s' ⟨⟩; exact hr, by rintro _ ⟨⟩⟩

/-- The loop keeps the entries of the index. -/
theorem loop_copy {s : CopyState} {r : Int × World} (h : e ∈ (s.world i).copy)
    (hr : Loop.Ends (copyStep i j) s r) : e ∈ (r.2 i).copy :=
  Loop.ends_inv (I := fun s => e ∈ (s.world i).copy) (Q := fun r => e ∈ (r.2 i).copy)
    (fun _ s' hs hn => (copyStep_copy hs).1 s' hn) (fun _ r hs hd => (copyStep_copy hs).2 r hd) h hr

end

/-! ## Objects without bytes -/

theorem Made.fields {c : Capn} {p : Ptr} {r : Capn × Ptr} (h : Made c p r) :
    r.2 = {} ∨ r.2.type = p.type ∧ r.2.len = p.len ∧ r.2.datasz = p.datasz ∧ r.2.ptrs = p.ptrs := by
  rcases h.ptr with e | ⟨s, o, b, e, -⟩
  · exact .inl e
  · rw [e]
    exact .inr ⟨rfl, rfl, rfl, rfl⟩

/-- A clone of an object without bytes has no pointers to copy. -/
theorem copyBody_zeroSized (w : World) (i j : Nat) (c : Capn) (s : Nat) {f : Ptr} (hz : f.zeroSized) :
    (copyBody w i j (newClone c s f).2 f).push = none := by
  have hnull : ∀ t : Ptr, t = {} → (copyBody w i j t f).push = none := by
    rintro t rfl
    rfl
  have hlist : ∀ t : Ptr, t.type = .LIST → t.len = 0 ∨ t.datasz = 0 ∧ t.ptrs = 0 →
      (copyBody w i j t f).push = none := by
    intro t ht h
    simp only [copyBody, ht]
    rcases h with h | ⟨h1, h2⟩
    · rw [if_pos h]
    · split
      · rfl
      · rw [if_neg (by omega), if_neg (by omega), if_neg (by omega)]
  have hsize : f.type = .BIT_LIST ∨ dataSize f = 0 := by
    rcases hz with h | h
    · simp only [Ptr.fend] at h
      exact .inr (by omega)
    · exact .inl h.1
  cases ht : f.type with
  | STRUCT =>
    have hd : (f.datasz : Int) + 8 * f.ptrs = 0 := by
      rcases hsize with h | h
      · rw [ht] at h
        cases h
      · simpa only [dataSize, ht] using h
    simp only [newClone, ht]
    rcases (made_struct c (some s) f.datasz f.ptrs).fields with e | ⟨e, -, -, hp⟩
    · exact hnull _ e
    · have hp0 : (capnNewStruct c (some s) f.datasz f.ptrs).2.ptrs = 0 := by
        rw [hp]
        show f.ptrs % 2 ^ 16 = 0
        omega
      simp only [copyBody, e]
      rw [if_neg]
      exact fun h => h hp0
  | LIST =>
    have hd : f.len * (f.datasz + 8 * f.ptrs) + (if f.isCompositeList then 8 else 0) = 0 := by
      rcases hsize with h | h
      · rw [ht] at h
        cases h
      · simpa only [dataSize, ht] using h
    simp only [newClone, ht]
    by_cases hc : f.isCompositeList = true
    · rw [if_pos hc]
      rw [if_pos hc] at hd
      rcases (made_structList c (some s) f.len.toNat f.datasz f.ptrs).fields with e | ⟨e, hl, -, -⟩
      · exact hnull _ e
      · refine hlist _ e (.inl ?_)
        rw [hl]
        have hneg : f.len ≤ 0 := by
          by_contra hpos
          have := Int.mul_nonneg (show 0 ≤ f.len by omega) (show (0 : Int) ≤ f.datasz + 8 * f.ptrs by omega)
          omega
        show (f.len.toNat : Int) = 0
        omega
    · rw [if_neg hc]
      rw [if_neg hc, Int.add_zero] at hd
      obtain ⟨p, hp, hpt, hpl, hvoid⟩ := made_list c (some s) f.len.toNat f.datasz f.ptrs
      rcases hp.fields with e | ⟨e, hl, hd', hp'⟩
      · exact hnull _ e
      · refine hlist _ (e.trans hpt) ?_
        rw [hl, hd', hp', hpl]
        rcases Int.mul_eq_zero.mp hd with h | h
        · exact .inl (by omega)
        · exact .inr (hvoid (by omega) (by omega))
  | PTR_LIST =>
    have hd : f.len * 8 = 0 := by
      rcases hsize with h | h
      · rw [ht] at h
        cases h
      · simpa only [dataSize, ht] using h
    simp only [newClone, ht]
    rcases (made_object c { type := .PTR_LIST, seg := some s, len := (f.len.toNat : Int) } (f.len.toNat * 8)).fields
      with e | ⟨e, hl, -, -⟩
    · exact hnull _ e
    · have hl0 : (capnNewPtrList c (some s) f.len.toNat).2.len = 0 := by
        refine Eq.trans hl ?_
        show (f.len.toNat : Int) = 0
        omega
      have e : (capnNewPtrList c (some s) f.len.toNat).2.type = .PTR_LIST := e
      simp only [copyBody, e]
      rw [if_neg]
      exact fun h => h hl0
  | BIT_LIST =>
    simp only [newClone, ht]
    rcases (made_list1 c (some s) f.len.toNat).fields with e | ⟨e, -, -, -⟩
    · exact hnull _ e
    · simp only [copyBody, e]
      split
      · split <;> rfl
      · rfl
  | INTERFACE =>
    simp only [newClone, ht, copyBody, capnNewInterface]
    rfl
  | NULL => simp only [newClone, ht, copyBody]
  | FAR_POINTER => simp only [newClone, ht, copyBody]

/-! ## Failures -/

/-- What is left of `capn_setp` finishes with `r`. -/
def Finishes (i j : Nat) (r : Int × World) : Step CopyState (Int × World) → Prop
  | .done r' => r' = r
  | .next s => Loop.Ends (copyStep i j) s r

theorem Setp.finishes {w : World} {i : Nat} {p : Ptr} {off : Int} {j : Nat} {tgt : Ptr} {r : Int × World}
    (h : Setp w i p off j tgt r) : Finishes i j r (setpStart w i p off j tgt) := by
  obtain ⟨fuel, h⟩ := h
  rw [capnSetp] at h
  cases hs : setpStart w i p off j tgt with
  | done r' =>
    rw [hs] at h
    exact Option.some.inj h
  | next s =>
    rw [hs] at h
    exact ⟨fuel, h⟩

/-- A copy without more to do succeeds. -/
theorem ends_nil {i j : Nat} {w : World} {r : Int × World} (h : Loop.Ends (copyStep i j) ⟨w, []⟩ r) : r.1 = 0 := by
  have := (Loop.ends_done (show copyStep i j ⟨w, []⟩ = .done (0, w) from rfl)).mp h
  rw [← this]

theorem copyBody_fails {w : World} {i j : Nat} {t f : Ptr} (h : (copyBody w i j t f).ret ≠ 0) :
    (copyBody w i j t f).world = w := by
  revert h
  simp only [copyBody]
  split
  · split <;> exact fun h => absurd rfl h
  · split
    · split <;> exact fun h => absurd rfl h
    · exact fun h => absurd rfl h
  · split
    · exact fun h => absurd rfl h
    split
    · exact fun h => absurd rfl h
    split
    · exact fun h => absurd rfl h
    split <;> exact fun h => absurd rfl h
  · split <;> exact fun h => absurd rfl h
  · exact fun h => absurd rfl h
  · exact fun _ => rfl

section

variable {w : World} {i j s : Nat} {d : Addr} {f p : Ptr} {off : Int} {r : Int × World}

theorem atomic_of_keeps {c c' : Capn} (hdest : destination p off = some (d, 8))
    (hd : 0 ≤ d.off ∧ d.off + 8 ≤ (c.seg d.seg).len) (h : Keeps c c') (hc : c'.copy = c.copy) :
    Atomic p off c c' := by
  refine ⟨fun a n e => ?_, h, findCopy_congr hc⟩
  rw [hdest] at e
  cases e
  exact Mem.read_congr fun k hk => h.data _ _ (by omega) (by omega) id

theorem keeps_clone (c : Capn) (s : Nat) (f : Ptr) : Keeps c (newClone c s f).1 := by
  unfold newClone
  split
  · exact (made_struct _ _ _ _).keeps
  · exact (made_object _ _ _).keeps
  · exact (made_list1 _ _ _).keeps
  · split
    · exact (made_structList _ _ _ _ _).keeps
    · obtain ⟨_, hp, -⟩ := made_list c (some s) f.len.toNat f.datasz f.ptrs
      exact hp.keeps
  · exact .refl _ _
  · exact .refl _ _

/-- A clone that is linked, and no more. -/
theorem atomic_linked (hdest : destination p off = some (d, 8))
    (hd : 0 ≤ d.off ∧ d.off + 8 ≤ ((w i).seg d.seg).len)
    (hmark : f.zeroSized ∨ newCopy (linkClone (w i) s d f).2 = none) :
    Atomic p off (w i) (linkClone (w i) s d f).2 ↔ Unmarked (w i) s d f := by
  have hgrows : Grows (Slot d) (w i) (linkClone (w i) s d f).2 :=
    ((keeps_clone _ _ _).mono fun _ _ h => h.elim).trans (writes_ptr _ _ _ _ _).grows
  constructor
  · exact fun h => ⟨h.dest d 8 hdest, hmark⟩
  · exact fun h => atomic_of_keeps hdest hd (hgrows.keeps h.1) (linkClone_copy _ _ _ _)

/-- What a copy leaves in `capn_setp`. -/
def afterCopy (r : Copied) : Step CopyState (Int × World) :=
  if r.ret ≠ 0 then .done (-1, r.world) else .next ⟨r.world, r.push.toList⟩

/-- The index has the source of the copy. -/
theorem finishes_copy {e : Copy} {q : Copied} (he : e ∈ (q.world i).copy) (h : Finishes i j r (afterCopy q)) :
    e ∈ (r.2 i).copy := by
  rw [afterCopy] at h
  split at h
  · cases h
    exact he
  · exact loop_copy he h

/-- A failing call that gets to a fresh copy. -/
theorem copyFresh_atomic (hdest : destination p off = some (d, 8))
    (hd : 0 ≤ d.off ∧ d.off + 8 ≤ ((w i).seg d.seg).len) (hlen : 0 ≤ f.len) (hr : r.1 ≠ 0)
    (hneed : (writePtr (w i) s d f (i ≠ j)).1 = NEED_TO_COPY) (hfree : findCopy (w i) j f = .free)
    (h : Finishes i j r (afterCopy (copyFresh w i j s d f))) :
    Atomic p off (w i) (r.2 i) ↔ SlotEntry (w i) s d j f (i ≠ j) := by
  have hiff : (linkClone (w i) s d f).1 = 0 → (SlotEntry (w i) s d j f (i ≠ j) ↔ Unmarked (w i) s d f) :=
    fun h0 => ⟨fun h => h ⟨hneed, hfree, h0⟩, fun h _ => h⟩
  rcases copyFresh_cases w i j s d f with ⟨e, hcase⟩ | ⟨h0, hz, e⟩ | ⟨h0, hz, c, hc, e⟩ <;> rw [e] at h
  · cases h
    show Atomic p off (w i) (w.set i _ i) ↔ _
    rw [World.set_self]
    rcases hcase with h0 | ⟨-, h0, hnone⟩
    · exact iff_of_true (atomic_of_keeps hdest hd ((keeps_clone _ _ _).trans ((writes_ptr _ _ _ _ _).keeps h0))
        (linkClone_copy _ _ _ _)) fun hb => absurd hb.2.2 h0
    · exact (atomic_linked hdest hd (.inr hnone)).trans (hiff h0).symm
  · by_cases hret : (copyBody (w.set i (linkClone (w i) s d f).2) i j (newClone (w i) s f).2 f).ret ≠ 0
    · rw [afterCopy, if_pos hret, copyBody_fails hret] at h
      cases h
      show Atomic p off (w i) (w.set i _ i) ↔ _
      rw [World.set_self]
      exact (atomic_linked hdest hd (.inl hz)).trans (hiff h0).symm
    · rw [afterCopy, if_neg hret, copyBody_zeroSized _ _ _ _ _ hz] at h
      exact absurd (ends_nil h) hr
  · have hmem : (⟨(newClone (w i) s f).2, f, j, f.fseg, f.fbegin, f.fend⟩ : Copy) ∈ (r.2 i).copy := by
      refine finishes_copy ?_ h
      rw [copyBody_copy, World.set_self]
      exact List.mem_cons_self
    refine iff_of_false (fun ha => ?_) fun he => ?_
    · exact findCopy_mem hlen hz hmem ((ha.index j f).trans hfree)
    · rcases ((hiff h0).mp he).2 with hz' | hnone
      · exact hz hz'
      · rw [hc] at hnone
        cases hnone

theorem World.set_eq (w : World) (i : Nat) : w.set i (w i) = w := by
  funext k
  simp only [World.set]
  split
  · rename_i h
    rw [h]
  · rfl

/-- A failing call on a slot leaves everything as it was exactly when it fails at the
entry. -/
theorem setpSlot_atomic (hdest : destination p off = some (d, 8))
    (hd : 0 ≤ d.off ∧ d.off + 8 ≤ ((w i).seg d.seg).len) (hlen : f.type ≠ .INTERFACE → 0 ≤ f.len) (hr : r.1 ≠ 0)
    (h : Finishes i j r (setpSlot w i s d j f)) :
    Atomic p off (w i) (r.2 i) ↔ SlotEntry (w i) s d j f (i ≠ j) := by
  have hw := writes_ptr (w i) s d f (i ≠ j)
  simp only [setpSlot] at h
  by_cases hneed : (writePtr (w i) s d f (i ≠ j)).1 = NEED_TO_COPY
  · obtain ⟨hsame, hi, -⟩ := writePtr_need hneed
    rw [if_neg (not_not.mpr hneed), hsame, World.set_eq] at h
    change Finishes i j r (afterCopy (copyPtr w i j s d f)) at h
    simp only [copyPtr] at h
    split at h
    · rename_i hover
      cases h
      exact iff_of_true (atomic_of_keeps hdest hd (.refl _ _) rfl) fun hb => by
        have := hb.2.1
        rw [hover] at this
        cases this
    · rename_i t hcopied
      rw [afterCopy] at h
      split at h
      · rename_i hfail
        cases h
        show Atomic p off (w i) (w.set i _ i) ↔ _
        rw [World.set_self]
        exact iff_of_true (atomic_of_keeps hdest hd ((writes_ptr _ _ _ _ _).keeps hfail) (writes_ptr _ _ _ _ _).copy)
          fun hb => by
            have := hb.2.1
            rw [hcopied] at this
            cases this
      · exact absurd (ends_nil h) hr
    · rename_i hfree
      exact copyFresh_atomic hdest hd (hlen hi) hr hneed hfree h
  · rw [if_pos hneed] at h
    cases h
    show Atomic p off (w i) (w.set i _ i) ↔ _
    rw [World.set_self]
    exact iff_of_true (atomic_of_keeps hdest hd (hw.keeps hr) hw.copy) fun hb => absurd hb.1 hneed

end

/-- When a failing `capn_setp` fails at the entry, once both pointers are resolved. -/
def Entry (w : World) (i : Nat) (p : Ptr) (off : Int) (j : Nat) (tgt : Ptr) : Prop :=
  let rp := capnResolve (w i) p
  let rt := capnResolve (w.set i rp.capn j) tgt
  EntryResolved ((w.set i rp.capn).set j rt.capn i) rp.ptr off j rt.ptr (i ≠ j)

/-- A call on resolved pointers that fails. -/
theorem setpResolved_atomic {w : World} {i : Nat} {p : Ptr} {off : Int} {j : Nat} {tgt : Ptr} {r : Int × World}
    (hp : Inside (w i) p) (hoff : 0 ≤ off) (hlen : tgt.type ≠ .INTERFACE → 0 ≤ tgt.len) (hr : r.1 ≠ 0)
    (h : Finishes i j r (setpResolved w i p off j tgt)) :
    (EntryResolved (w i) p off j tgt (i ≠ j) → Atomic p off (w i) (r.2 i)) ∧
      (p.type ≠ .LIST → Atomic p off (w i) (r.2 i) → EntryResolved (w i) p off j tgt (i ≠ j)) := by
  have hsame : r.2 i = w i → Atomic p off (w i) (r.2 i) := by
    intro e
    rw [e]
    exact ⟨fun _ _ _ => rfl, .refl _ _, fun _ _ => rfl⟩
  -- a slot of the object is in use
  have hslot : ∀ {s : Nat} {a : Addr} {n : Int}, p.type ≠ .NULL → p.type ≠ .FAR_POINTER → p.type ≠ .INTERFACE →
      p.seg = some s → p.data = some a → 0 ≤ n → n + 8 ≤ p.extent →
      0 ≤ (a.add n).off ∧ (a.add n).off + 8 ≤ ((w i).seg (a.add n).seg).len := by
    intro s a n h0 hf hi hs ha hn hex
    obtain ⟨s', o, -, hd, hlead, hend⟩ := hp h0 hf hi
    rw [ha] at hd
    cases hd
    show 0 ≤ o + n ∧ o + n + 8 ≤ ((w i).seg s').len
    omega
  simp only [setpResolved] at h
  cases ht : p.type with
  | LIST =>
    simp only [ht] at h
    refine ⟨fun he => hsame ?_, fun hne => absurd rfl hne⟩
    simp only [EntryResolved, ht] at he
    rw [if_pos he] at h
    cases h
    rfl
  | BIT_LIST =>
    simp only [ht] at h
    refine ⟨fun _ => hsame ?_, fun _ _ => by simp only [EntryResolved, ht]⟩
    split at h
    · cases h
      rfl
    split at h
    · cases h
      rfl
    split at h
    · cases h
      rfl
    · cases h
      exact absurd rfl hr
  | PTR_LIST =>
    simp only [ht] at h
    simp only [EntryResolved, ht]
    split at h
    · rename_i hle
      cases h
      exact ⟨fun _ => hsame rfl, fun _ _ hlt => absurd hlt (by omega)⟩
    · rename_i hlt
      split at h
      · rename_i s a hs ha
        have hd := hslot (n := 8 * off) (by rw [ht]; decide) (by rw [ht]; decide) (by rw [ht]; decide) hs ha (by omega)
          (by simp only [Ptr.extent, ht]; omega)
        have hdest : destination p off = some (a.add (8 * off), 8) := by simp only [destination, ht, ha]; rfl
        have hiff := setpSlot_atomic hdest hd hlen hr h
        refine ⟨fun he => hiff.mpr (he (by omega) s a hs ha), fun _ hatom _ s' a' hs' ha' => ?_⟩
        cases hs.symm.trans hs'
        cases ha.symm.trans ha'
        exact hiff.mp hatom
      · rename_i hno
        cases h
        exact ⟨fun _ => hsame rfl, fun _ _ _ s a hs ha => absurd ha (hno s a hs)⟩
  | STRUCT =>
    simp only [ht] at h
    simp only [EntryResolved, ht]
    split at h
    · rename_i hle
      cases h
      exact ⟨fun _ => hsame rfl, fun _ _ hlt => absurd hlt (by omega)⟩
    · rename_i hlt
      split at h
      · rename_i s a hs ha
        have hd := hslot (n := p.datasz + 8 * off) (by rw [ht]; decide) (by rw [ht]; decide) (by rw [ht]; decide) hs ha
          (by omega) (by simp only [Ptr.extent, ht]; omega)
        have hdest : destination p off = some (a.add (p.datasz + 8 * off), 8) := by
          simp only [destination, ht, ha]
          rfl
        have hiff := setpSlot_atomic hdest hd hlen hr h
        refine ⟨fun he => hiff.mpr (he (by omega) s a hs ha), fun _ hatom _ s' a' hs' ha' => ?_⟩
        cases hs.symm.trans hs'
        cases ha.symm.trans ha'
        exact hiff.mp hatom
      · rename_i hno
        cases h
        exact ⟨fun _ => hsame rfl, fun _ _ _ s a hs ha => absurd ha (hno s a hs)⟩
  | NULL =>
    simp only [ht] at h
    cases h
    exact ⟨fun _ => hsame rfl, fun _ _ => by simp only [EntryResolved, ht]⟩
  | FAR_POINTER =>
    simp only [ht] at h
    cases h
    exact ⟨fun _ => hsame rfl, fun _ _ => by simp only [EntryResolved, ht]⟩
  | INTERFACE =>
    simp only [ht] at h
    cases h
    exact ⟨fun _ => hsame rfl, fun _ _ => by simp only [EntryResolved, ht]⟩

theorem Atomic.congr {p : Ptr} {off : Int} {c₀ c c' : Capn} (hs : c.segs = c₀.segs) (hc : c.copy = c₀.copy) :
    Atomic p off c c' ↔ Atomic p off c₀ c' := by
  have hseg : c.seg = c₀.seg := by
    funext k
    rw [Capn.seg, Capn.seg, hs]
  have hread : ∀ a n, c.read a n = c₀.read a n := fun a n => by rw [Capn.read, Capn.read, hseg]
  have hkeeps : Keeps c c' ↔ Keeps c₀ c' :=
    ⟨fun h => ⟨fun k => by rw [← hseg]; exact h.len k, fun k o => by rw [← hseg]; exact h.data k o⟩,
      fun h => ⟨fun k => by rw [hseg]; exact h.len k, fun k o => by rw [hseg]; exact h.data k o⟩⟩
  have hfind : ∀ src f, findCopy c src f = findCopy c₀ src f := findCopy_congr hc
  constructor
  · exact fun h => ⟨fun a n e => (h.dest a n e).trans (hread a n), hkeeps.mp h.keeps,
      fun src f => (h.index src f).trans (hfind src f)⟩
  · exact fun h => ⟨fun a n e => (h.dest a n e).trans (hread a n).symm, hkeeps.mpr h.keeps,
      fun src f => (h.index src f).trans (hfind src f).symm⟩

/-- The length of what a pointer resolves to. -/
theorem capnResolve_len {c : Capn} {p : Ptr} (hp : 0 ≤ p.len) (hi : (capnResolve c p).ptr.type ≠ .INTERFACE) :
    0 ≤ (capnResolve c p).ptr.len := by
  revert hi
  rw [capnResolve]
  split
  · rcases readPtr_cases c p.seg p.data (hopRemaining c p) with ⟨reads, e, -⟩ | ⟨seg, off, q, cost, -, -, -, -, hq, -, e⟩
    · rw [e]
      exact fun _ => Int.le_refl 0
    · rw [e]
      obtain ⟨n, v, hn⟩ := withNesting_eq q (hopRemaining c p)
      show (q.withNesting _).type ≠ _ → 0 ≤ (q.withNesting _).len
      rw [hn]
      intro hi
      rcases pointee_spec hq with ⟨ht, -⟩ | ⟨hsh, -⟩
      · exact absurd ht hi
      · exact hsh.2.1
  · exact fun _ => hp

/-- A struct of two pointers, to two words and to the second of them. -/
def overlapping : Capn :=
  (carve [40] ([0, 0, 0, 0, 0, 0, 2, 0] ++ [4, 0, 0, 0, 2, 0, 0, 0] ++ [4, 0, 0, 0, 1, 0, 0, 0] ++
    [1, 0, 0, 0, 0, 0, 0, 0] ++ [2, 0, 0, 0, 0, 0, 0, 0])).foldl capnAppendSegment capnInitMalloc

/-- A blank message, and the source. -/
def overlapWorld : World := fun k => if k = 0 then (capnRoot capnInitMalloc).1 else overlapping

def overlapRoot : Ptr := (capnRoot (capnRoot capnInitMalloc).1).2
def overlapSource : Ptr := (capnGetp overlapping (capnRoot overlapping).2 0 true).ptr

theorem overlap_run : ∃ r, Setp overlapWorld 0 overlapRoot 0 1 overlapSource r ∧ r.1 = -1 ∧
    findCopy (r.2 0) 1 overlapSource ≠ .free := by
  have h : (capnSetp 10 overlapWorld 0 overlapRoot 0 1 overlapSource).map (fun r =>
      (r.1, decide (findCopy (r.2 0) 1 overlapSource = .free))) = some (-1, false) := by decide +kernel
  obtain ⟨r, hr, e⟩ := Option.map_eq_some_iff.mp h
  exact ⟨r, ⟨10, hr⟩, congrArg Prod.fst e, of_decide_eq_false (congrArg Prod.snd e)⟩

theorem overlapRoot_inside : Inside (overlapWorld 0) overlapRoot := by
  intro _ _ _
  exact ⟨0, 0, by decide +kernel, by decide +kernel, by decide +kernel, by decide +kernel⟩

end Capnproto

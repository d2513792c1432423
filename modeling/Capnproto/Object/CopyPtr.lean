import Capnproto.Object.Entries

/-!
# One pointer copied

What `copy_ptr` does for a slot and an object: the slot then points to a copy of the object,
made now or found in the index (`copyPtr_joins`), and what a copy made now is to get of the
object is there, or left to do.
-/

namespace Capnproto

/-! ## Objects to copy -/

/-- An object whose clone has its fields: one that is read, or a struct that is a member of a
list of words. -/
def Ptr.Whole (f : Ptr) : Prop := f.Sane ∧ f.cloned.datasz = f.datasz ∧ f.cloned.ptrs = f.ptrs

/-- Nothing to copy of an object. -/
def Ptr.Bare (f : Ptr) : Prop := (∀ x, ¬ f.DataAt x) ∧ (∀ x, ¬ f.SlotAt x) ∧ (f.type = .BIT_LIST → f.len ≤ 0)

theorem Ptr.Shape.sane {f : Ptr} (h : f.Shape) (hobj : f.IsObject) : f.Sane := by
  obtain ⟨-, hlen, h⟩ := h
  refine ⟨hlen, ?_⟩
  cases ht : f.type with
  | STRUCT =>
    simp only [ht] at h ⊢
    obtain ⟨hc, h8, hd, hp, hl⟩ := h
    exact ⟨hc, by omega, hp, hl⟩
  | LIST =>
    simp only [ht] at h ⊢
    exact h
  | PTR_LIST =>
    simp only [ht] at h ⊢
    exact h.2.2.2
  | BIT_LIST =>
    simp only [ht] at h ⊢
    omega
  | NULL => exact absurd ht hobj.1
  | FAR_POINTER => exact absurd ht hobj.2.1
  | INTERFACE => exact absurd ht hobj.2.2

theorem Ptr.Shape.whole {f : Ptr} (h : f.Shape) (hobj : f.IsObject) : f.Whole := by
  refine ⟨h.sane hobj, ?_⟩
  obtain ⟨-, hlen, h⟩ := h
  cases ht : f.type with
  | STRUCT =>
    simp only [ht] at h
    simp only [Ptr.cloned, ht, and_true]
    omega
  | LIST => simp only [Ptr.cloned, ht, and_self]
  | PTR_LIST =>
    simp only [ht] at h
    simp only [Ptr.cloned, ht]
    exact ⟨h.2.1.symm, h.2.2.1.symm⟩
  | BIT_LIST =>
    simp only [ht] at h
    simp only [Ptr.cloned, ht]
    exact ⟨h.2.1.symm, h.2.2.2.symm⟩
  | NULL => exact absurd ht hobj.1
  | FAR_POINTER => exact absurd ht hobj.2.1
  | INTERFACE => exact absurd ht hobj.2.2

theorem Ptr.Sane.isObject {f : Ptr} (h : f.Sane) : f.IsObject := by
  obtain ⟨-, h⟩ := h
  refine ⟨fun ht => ?_, fun ht => ?_, fun ht => ?_⟩ <;> simp only [ht] at h

theorem Ptr.Sane.cloned_type {f : Ptr} (h : f.Sane) : f.cloned.type = f.type ∧ f.cloned.len = f.len := by
  obtain ⟨-, h⟩ := h
  cases ht : f.type <;> simp only [ht] at h <;> simp only [Ptr.cloned, ht, and_self]
  exact ⟨trivial, h.2.2.2.symm⟩

/-- An object without bytes has nothing to copy. -/
theorem Ptr.Whole.bare {f : Ptr} (h : f.Whole) (hm : ¬ (f.type = .BIT_LIST ∧ f.isListMember = true))
    (hz : f.zeroSized) : f.Bare := by
  have hsize : dataSize f = 0 := by
    rcases hz with hz | hz
    · simp only [Ptr.fend] at hz
      omega
    · exact absurd hz hm
  obtain ⟨⟨hlen, hs⟩, hcloned, -⟩ := h
  have hbit : f.type = .BIT_LIST → f.len ≤ 0 := by
    intro ht
    simp only [dataSize, ht] at hsize
    simp only [Ptr.cloned, ht] at hcloned
    omega
  cases ht : f.type with
  | STRUCT =>
    simp only [dataSize, ht] at hsize
    refine ⟨fun x hx => ?_, fun x hx => ?_, hbit⟩
    · simp only [Ptr.DataAt, ht] at hx
      omega
    · simp only [Ptr.SlotAt, ht] at hx
      obtain ⟨k, hk, -⟩ := hx
      omega
  | LIST =>
    simp only [dataSize, ht] at hsize
    have hprod : f.len * (f.datasz + 8 * f.ptrs) = 0 := by
      have := Int.mul_nonneg hlen (show (0 : Int) ≤ f.datasz + 8 * f.ptrs by omega)
      split at hsize <;> omega
    refine ⟨fun x hx => ?_, fun x hx => ?_, hbit⟩
    · simp only [Ptr.DataAt, ht] at hx
      obtain ⟨m, n, hm, hn, -⟩ := hx
      rcases Int.mul_eq_zero.mp hprod with h0 | h0 <;> omega
    · simp only [Ptr.SlotAt, ht] at hx
      obtain ⟨m, k, hm, hk, -⟩ := hx
      rcases Int.mul_eq_zero.mp hprod with h0 | h0 <;> omega
  | PTR_LIST =>
    simp only [dataSize, ht] at hsize
    refine ⟨fun x hx => ?_, fun x hx => ?_, hbit⟩
    · simp only [Ptr.DataAt, ht] at hx
    · simp only [Ptr.SlotAt, ht] at hx
      obtain ⟨k, hk, -⟩ := hx
      omega
  | BIT_LIST =>
    simp only [dataSize, ht] at hsize
    refine ⟨fun x hx => ?_, fun x hx => ?_, hbit⟩
    · simp only [Ptr.DataAt, ht] at hx
      omega
    · simp only [Ptr.SlotAt, ht] at hx
  | NULL => simp only [ht] at hs
  | FAR_POINTER => simp only [ht] at hs
  | INTERFACE => simp only [ht] at hs

/-- An object with bytes is not the struct without. -/
theorem Ptr.zeroSized_of_empty {f : Ptr} (h : f.emptyStruct) : f.zeroSized := by
  obtain ⟨ht, hd, hp⟩ := h
  left
  simp only [Ptr.fend, dataSize, ht, hd, hp]
  omega

/-! ## Bytes that are copied -/

/-- The bytes of `n` from `a`. -/
def Span (a : Addr) (n : Nat) (k : Nat) (x : Int) : Prop := k = a.seg ∧ a.off ≤ x ∧ x < a.off + n

section

variable {w : World} {i j : Nat} {a b : Addr} {n : Nat}

theorem memcpy_eq (w : World) (i : Nat) (a : Addr) (j : Nat) (b : Addr) (n : Nat) :
    memcpy w i (some a) j (some b) n i = (w i).write a ((w j).read b n) := World.set_self _ _ _

theorem length_capn_read (c : Capn) (b : Addr) (n : Nat) : (c.read b n).length = n := Mem.length_read _ _ _

/-- What `memcpy` copies. -/
theorem memcpy_byte (ha : a.seg < (w i).segs.length) {x : Int} (h0 : 0 ≤ x) (hx : x < n) :
    (memcpy w i (some a) j (some b) n i).byte (a.add x) = (w j).byte (b.add x) := by
  obtain ⟨m, rfl⟩ := Int.eq_ofNat_of_zero_le h0
  have hm : m < ((w j).read b n).length := by
    rw [length_capn_read]
    omega
  rw [memcpy_eq, Capn.byte, Capn.write, show (a.add (m : Int)).seg = a.seg from rfl, Capn.seg_setSeg_self _ ha]
  refine (Mem.write_apply hm).trans ?_
  exact Mem.getElem_read _ _ _

theorem memcpy_grows (w : World) (i : Nat) (a : Addr) (j : Nat) (b : Addr) (n : Nat) :
    Grows (Span a n) (w i) (memcpy w i (some a) j (some b) n i) := by
  rw [memcpy_eq]
  refine (Grows.refl _ _).write fun x h1 h2 => .inr ⟨rfl, h1, ?_⟩
  rw [length_capn_read] at h2
  exact h2

theorem memcpy_cleaner (h : Clean (w i)) (ha : a.off + n ≤ ((w i).seg a.seg).len) :
    Cleaner (w i) (memcpy w i (some a) j (some b) n i) := by
  rw [memcpy_eq]
  refine ⟨h.write ?_, Nat.le_of_eq (Capn.length_write _ _ _).symm⟩
  rw [length_capn_read]
  exact ha

end

/-! ## Pointers to copies -/

/-- The words that the pointer `a` to `t` is read from. -/
def Foot (c : Capn) (a : Addr) (t : Ptr) (k : Nat) (x : Int) : Prop :=
  Slot a k x ∨ (∃ p ∈ landingPads c a, Slot p k x) ∨
    (t.isCompositeList = true ∧ ∃ b, t.data = some b ∧ k = b.seg ∧ b.off - 8 ≤ x ∧ x < b.off)

/-- Where the copy of an object is. -/
abbrev Places := Option Addr → Ptr → Prop

/-- The pointer `t` is for a copy of `q`: it is where `K` has one, if there is anything to copy. -/
def IsCopy (K : Places) (t q : Ptr) : Prop :=
  t.type = q.type ∧ t.len = q.len ∧ t.datasz = q.datasz ∧ t.ptrs = q.ptrs ∧ (q.Bare ∨ K t.data q)

theorem IsCopy.mono {K K' : Places} {t q : Ptr} (h : IsCopy K t q) (hs : ∀ d q, K d q → K' d q) : IsCopy K' t q := by
  obtain ⟨h1, h2, h3, h4, h5⟩ := h
  exact ⟨h1, h2, h3, h4, h5.imp_right (hs _ _)⟩

/-- The slot `a` points to a copy of `q`, through words of the slot, of `front`, or behind
what was in use in `c`. -/
def PointsTo (K : Places) (c c' : Capn) (front : Nat → Int → Prop) (a : Addr) (q : Ptr) : Prop :=
  ∃ t cost, pointee c' a = some (t, cost) ∧ IsCopy K t q ∧
    ∀ k x, Foot c' a t k x → Slot a k x ∨ front k x ∨ ((c.seg k).len : Int) ≤ x

section

variable {c c' : Capn} {a : Addr} {t q : Ptr} {cost : Nat} {s : Nat} {o : Int} {K : Places}

theorem SlotIn.wordInside (h : SlotIn c a) : WordInside c a := ⟨h.pos, h.inside⟩

theorem pointee_plain (hq : pointee c a = some (t, cost)) (hi : t.type = .INTERFACE) : t.isCompositeList = false := by
  simp only [pointee] at hq
  split at hq
  · cases hq
  rename_i hit
  split at hq
  · split at hq
    · cases hq
    · cases hq
      rfl
  · obtain ⟨⟨q', n⟩, hobj, e⟩ := Option.map_eq_some_iff.mp hq
    cases e
    obtain ⟨⟨-, -, hsh⟩, -⟩ := decodeObject_spec (followFar_lt (load64_lt c a) hit) hobj
    rw [show q'.type = .INTERFACE from hi] at hsh
    exact hsh.elim

/-- The words that a pointer is read from are in use. -/
theorem foot_inside (ha : WordInside c a) (hq : pointee c a = some (t, cost)) {k : Nat} {x : Int}
    (h : Foot c a t k x) : 0 ≤ x ∧ x < (c.seg k).len := by
  rcases h with ⟨rfl, h1, h2⟩ | ⟨p, hp, rfl, h1, h2⟩ | ⟨hc, b, hb, rfl, h1, h2⟩
  · obtain ⟨h3, h4⟩ := ha
    omega
  · obtain ⟨h3, h4⟩ := landingPads_inside hp
    omega
  · rcases pointee_spec hq with ⟨hi, -⟩ | ⟨hsh, ⟨seg, off, -, hd, hlead, hend⟩, -⟩
    · rw [pointee_plain hq hi] at hc
      cases hc
    · cases hd.symm.trans hb
      have : t.lead = 8 := if_pos hc
      simp only at h1 h2 ⊢
      omega

/-- A pointer that is read keeps what it points to while the words that it is read from stay. -/
theorem pointee_foot {P : Nat → Int → Prop} (hg : Grows P c c') (hs : c.segs.length ≤ c'.segs.length)
    (ha : WordInside c a) (hq : pointee c a = some (t, cost)) (hp : ∀ k x, Foot c a t k x → ¬ P k x) :
    pointee c' a = some (t, cost) ∧ ∀ k x, Foot c' a t k x ↔ Foot c a t k x := by
  obtain ⟨h1, h2⟩ := pointee_grows hg hs ha hq (fun x hx => hp _ _ (.inl hx))
    (fun b hb x hx => hp _ _ (.inr (.inl ⟨b, hb, hx⟩)))
    (fun b hc hb x h1 h2 => hp _ _ (.inr (.inr ⟨hc, b, hb, rfl, h1, h2⟩)))
  refine ⟨h1, fun k x => ?_⟩
  rw [Foot, Foot, h2]

/-- A pointer to an object that stands. -/
theorem link_points (hc : Clean c) (hp : Stands c t s o) (hz : ¬ t.emptyStruct) (hd : SlotIn c a)
    (hfields : t.type = q.type ∧ t.len = q.len ∧ t.datasz = q.datasz ∧ t.ptrs = q.ptrs)
    (hnew : q.Bare ∨ K t.data q)
    (hfront : ∀ x, Front t s o a.seg x → ¬ Slot a a.seg x)
    (hids : (writePtr c a.seg a t false).2.segs.length ≤ 2 ^ 32) (hw : (writePtr c a.seg a t false).1 = 0) :
    PointsTo K c (writePtr c a.seg a t false).2 (Front t s o) a q ∧ Stands (writePtr c a.seg a t false).2 t s o := by
  obtain ⟨⟨⟨b, hpt⟩, hpads⟩, hst⟩ := writePtr_linked hc hp hz hd hfront hids hw
  obtain ⟨h1, h2, h3, h4⟩ := hfields
  refine ⟨⟨_, _, hpt, ⟨h1, h2, h3, h4, hnew⟩, ?_⟩, hst⟩
  rintro k x (h | ⟨p, hm, rfl, h5, h6⟩ | ⟨hcm, b, hb, rfl, h5, h6⟩)
  · exact .inl h
  · exact .inr (hpads p hm x ⟨rfl, h5, h6⟩)
  · cases hp.data.symm.trans hb
    have hlead : t.lead = 8 := if_pos hcm
    refine .inr (.inl ⟨rfl, ?_, h6⟩)
    rw [Ptr.pre]
    simp only at h5
    omega

end

/-! ## Clones that are linked -/

section

variable {c : Capn} {a : Addr} {f : Ptr}

theorem Clone.fields_eq {c' : Capn} {t : Ptr} {s : Nat} {o : Int} (h : Clone c f c' t s o) (hf : f.Whole) :
    t.type = f.type ∧ t.len = f.len ∧ t.datasz = f.datasz ∧ t.ptrs = f.ptrs := by
  obtain ⟨hs, hd, hp⟩ := hf
  obtain ⟨ht, hl⟩ := hs.cloned_type
  rw [h.fields]
  exact ⟨ht, hl, hd, hp⟩

theorem keeps_slot {c c' : Capn} (h : Keeps c c') (a : Addr) : Grows (Slot a) c c' := h.mono fun _ _ h => h.elim

/-- The struct without bytes is stored as a word of its own. -/
theorem empty_points {c₁ : Capn} {t : Ptr} {K : Places} {front : Nat → Int → Prop} (hd : SlotIn c₁ a)
    (ht : t.emptyStruct) (hlen : t.len = 0) (hdata : t.data ≠ none)
    (hfields : t.type = f.type ∧ t.len = f.len ∧ t.datasz = f.datasz ∧ t.ptrs = f.ptrs) (hb : f.Bare) :
    PointsTo K c₁ (writePtr c₁ a.seg a t false).2 front a f := by
  obtain ⟨hst, hsd, hsp⟩ := ht
  obtain ⟨h1, h2, h3, h4⟩ := hfields
  have htag : ptrTag t (-8) = some (2 ^ 32 - 4) := by
    simp only [ptrTag, hst, hsd, hsp]
    rw [if_neg (by decide), if_neg (by decide)]
    rfl
  have hw : (writePtr c₁ a.seg a t false).2 = c₁.store64 a (2 ^ 32 - 4) := by
    rw [writePtr, if_neg (by rw [hst]; decide)]
    split
    · rename_i hn
      rw [hst] at hn
      cases hn
    · rename_i hn _
      exact absurd hn hdata
    · rw [if_pos ⟨hst, hsd, hsp⟩, writePtrTag, htag]
      rfl
  rw [hw]
  have hload : (c₁.store64 a (2 ^ 32 - 4)).load64 a = 2 ^ 32 - 4 := load64_store64_self hd.lt (by decide)
  have hd' : SlotIn (c₁.store64 a (2 ^ 32 - 4)) a :=
    hd.grows ((Grows.refl (Slot a) c₁).store64 (.inr fun x h1 h2 => ⟨rfl, h1, h2⟩))
  refine ⟨_, _, pointee_empty hd' hload, ⟨hst.symm.trans h1, hlen.symm.trans h2, hsd.symm.trans h3, hsp.symm.trans h4, .inl hb⟩, ?_⟩
  rintro k x (h | ⟨p, hm, -⟩ | ⟨hcm, -⟩)
  · exact .inl h
  · rw [landingPads, hload, followFar, if_neg (by decide), if_neg (by decide)] at hm
    cases hm
  · cases hcm

/-- A clone that is linked into a slot. -/
theorem clone_linked (hc : Clean c) (hd : SlotIn c a) (hf : f.Whole)
    (hm : ¬ (f.type = .BIT_LIST ∧ f.isListMember = true)) (hw : (linkClone c a.seg a f).1 = 0)
    (hnull : (newClone c a.seg f).2 ≠ {}) (hids : (linkClone c a.seg a f).2.segs.length ≤ 2 ^ 32) :
    ∃ s o, Clone c f (newClone c a.seg f).1 (newClone c a.seg f).2 s o ∧
      Stands (linkClone c a.seg a f).2 (newClone c a.seg f).2 s o ∧ Cleaner c (linkClone c a.seg a f).2 ∧
      Grows (Slot a) (newClone c a.seg f).1 (linkClone c a.seg a f).2 ∧
      ∀ K : Places, (f.Bare ∨ K (newClone c a.seg f).2.data f) →
        PointsTo K (newClone c a.seg f).1 (linkClone c a.seg a f).2 (Front (newClone c a.seg f).2 s o) a f := by
  obtain ⟨hcl, hq⟩ := newClone_clones hc hd.lt hf.1
  obtain ⟨s, o, hclone⟩ := hq.resolve_left hnull
  have hkeeps := keeps_clone c a.seg f
  have hd₁ := hd.grows hkeeps
  have hgrows := (writes_ptr (newClone c a.seg f).1 a.seg a (newClone c a.seg f).2 false).grows
  have hcl₂ := cleaner_ptr hcl.clean hd₁.inside a.seg (newClone c a.seg f).2 false
  have hfields := hclone.fields_eq hf
  have hin := hd.inside
  have hfresh := hclone.fresh
  have hfront : ∀ x, Front (newClone c a.seg f).2 s o a.seg x → ¬ Slot a a.seg x := by
    rintro x ⟨rfl, h1, -⟩ ⟨-, -, h3⟩
    omega
  by_cases hz : (newClone c a.seg f).2.emptyStruct
  · have hlen : (newClone c a.seg f).2.len = 0 := by
      have := hclone.stands.shape.2.2
      rw [hz.1] at this
      exact this.2.2.2.2
    have hzf : f.emptyStruct := by
      obtain ⟨h1, h2, h3⟩ := hz
      exact ⟨hfields.1.symm.trans h1, hfields.2.2.1.symm.trans h2, hfields.2.2.2.symm.trans h3⟩
    have hbare := hf.bare hm (Ptr.zeroSized_of_empty hzf)
    refine ⟨s, o, hclone, ?_, hcl.trans hcl₂, hgrows, fun K _ =>
      empty_points hd₁ hz hlen (by rw [hclone.stands.data]; exact nofun) hfields hbare⟩
    exact hclone.stands.grows hgrows hcl₂.segs fun k x hx hs => hfront x (hs.1 ▸ hx) (hs.1 ▸ hs)
  · have hst := (writePtr_linked hcl.clean hclone.stands hz hd₁ hfront hids hw).2
    refine ⟨s, o, hclone, hst, hcl.trans hcl₂, hgrows, fun K hnew => ?_⟩
    exact (link_points hcl.clean hclone.stands hz hd₁ hfields hnew hfront hids hw).1

end

/-! ## Copies that are begun -/

/-- What `copy_ptr` does for the slot `a` and an object `f` that has no copy yet: the slot points
to a clone `t`, which has the bytes that are copied at once; `r` says what is left. -/
structure Begun (w : World) (i j : Nat) (a : Addr) (f : Ptr) (r : Copied) (mid : Capn) (t : Ptr) (s : Nat) (o : Int) :
    Prop where
  middle : Grows (Slot a) (w i) mid ∧ (w i).segs.length ≤ mid.segs.length
  cleaner : Cleaner (w i) (r.world i)
  grows : Grows (Slot a) (w i) (r.world i)
  stands : Stands (r.world i) t s o
  fields : t.type = f.type ∧ t.len = f.len ∧ t.datasz = f.datasz ∧ t.ptrs = f.ptrs
  fresh : (((w i).seg s).len : Int) + t.pre ≤ o
  points : ∃ c₁ : Capn, (∀ k, ((w i).seg k).len ≤ (c₁.seg k).len) ∧ o + t.extent ≤ (c₁.seg s).len ∧
    ∀ K : Places, (f.Bare ∨ K t.data f) → PointsTo K c₁ (r.world i) (Front t s o) a f
  index : (f.zeroSized ∧ r.push = none ∧ (r.world i).copy = (w i).copy) ∨
    (¬ f.zeroSized ∧ (r.world i).copy = ⟨t, f, j, f.fseg, f.fbegin, f.fend⟩ :: (w i).copy)
  parts : ∀ e, r.push = some e → ∃ n, PartOf t f e n ∧ t.bodyBytes ≤ n
  slots : ∀ x y, SlotPair (t, f) x y ↔ ∃ e, r.push = some e ∧ SlotPair e x y
  covered : ∀ x, t.DataAt x → (0 ≤ x ∧ x < t.bodyBytes) ∨ r.push = some (t, f)
  bytes : ∀ b (x : Int), f.data = some b → 0 ≤ x → x < t.bodyBytes →
    (r.world i).byte ⟨s, o + x⟩ = ((w.set i mid) j).byte (b.add x)
  zero : ∀ x : Int, o + t.bodyBytes ≤ x → x < o + t.extent → (r.world i).byte ⟨s, x⟩ = 0

theorem bodyBytes_le {t : Ptr} (h : t.Shape) : t.bodyBytes ≤ t.extent := by
  obtain ⟨-, -, h⟩ := h
  cases ht : t.type with
  | STRUCT =>
    simp only [Ptr.bodyBytes, Ptr.extent, ht]
    omega
  | LIST =>
    simp only [Ptr.bodyBytes, Ptr.extent, ht]
    split
    · rename_i hp
      rw [hp, Nat.mul_zero, Nat.add_zero]
    · exact Nat.zero_le _
  | BIT_LIST =>
    simp only [ht] at h
    simp only [Ptr.bodyBytes, Ptr.extent, ht]
    omega
  | PTR_LIST => simp only [Ptr.bodyBytes, ht, Nat.zero_le]
  | NULL => simp only [Ptr.bodyBytes, ht, Nat.zero_le]
  | FAR_POINTER => simp only [Ptr.bodyBytes, ht, Nat.zero_le]
  | INTERFACE => simp only [Ptr.bodyBytes, ht, Nat.zero_le]

section

variable {w : World} {i j : Nat} {a b : Addr} {f : Ptr}

/-- The body of a copy, once its clone is linked in `mid`. -/
theorem copyBody_begun (hc : Clean (w i)) (hd : SlotIn (w i) a) (hf : f.Whole)
    (hm : ¬ (f.type = .BIT_LIST ∧ f.isListMember = true)) (hb : f.data = some b)
    (hw : (linkClone (w i) a.seg a f).1 = 0) (hnull : (newClone (w i) a.seg f).2 ≠ {})
    (hids : (linkClone (w i) a.seg a f).2.segs.length ≤ 2 ^ 32) {m : Capn}
    (hmid : m.segs = (linkClone (w i) a.seg a f).2.segs) (hcr : m.create = (linkClone (w i) a.seg a f).2.create)
    (hindex : (f.zeroSized ∧ m.copy = (w i).copy) ∨ (¬ f.zeroSized ∧
      m.copy = ⟨(newClone (w i) a.seg f).2, f, j, f.fseg, f.fbegin, f.fend⟩ :: (w i).copy)) :
    ∃ s o, Begun w i j a f (copyBody (w.set i m) i j (newClone (w i) a.seg f).2 f) m (newClone (w i) a.seg f).2 s o := by
  obtain ⟨s, o, hclone, hst, hcl, hgrows, hpts⟩ := clone_linked hc hd hf hm hw hnull hids
  have hfields := hclone.fields_eq hf
  have hkeeps := keeps_clone (w i) a.seg f
  have hlen₁ := hkeeps.len
  have hzero := hclone.zero
  have hinside := hclone.stands.inside
  have hfresh := hclone.fresh
  have hdin := hd.inside
  have hzsz : f.zeroSized → (copyBody (w.set i m) i j (newClone (w i) a.seg f).2 f).push = none :=
    copyBody_zeroSized _ _ _ _ _
  generalize (newClone (w i) a.seg f).2 = t at *
  generalize hc₁ : (newClone (w i) a.seg f).1 = c₁ at *
  -- the session with the clone linked
  have hgm : Grows (Slot a) c₁ m := hgrows.of_segs hmid
  have hclm : Cleaner (w i) m := ⟨hcl.clean.of_segs hmid hcr, by rw [hmid]; exact hcl.segs⟩
  have hstm : Stands m t s o :=
    hst.grows (Grows.of_segs (Grows.refl (fun _ _ => False) _) hmid) (Nat.le_of_eq (congrArg List.length hmid).symm)
      fun _ _ _ h => h
  have hgw : Grows (Slot a) (w i) m := (keeps_slot hkeeps a).trans hgm
  have hbody := bodyBytes_le hstm.shape
  have hin₁ := hstm.inside
  obtain ⟨hworld, hret⟩ := copyBody_world (w := w.set i m) (i := i) (j := j) (t := t) (f := f) hstm.obj hstm.shape.2.1
    (fun h => hm ⟨hfields.1.symm.trans h.1, h.2⟩)
  rw [hstm.data, hb] at hworld
  have hself : (w.set i m) i = m := World.set_self _ _ _
  have hgcpy := memcpy_grows (w.set i m) i ⟨s, o⟩ j b t.bodyBytes
  have hccpy : Cleaner m (memcpy (w.set i m) i (some ⟨s, o⟩) j (some b) t.bodyBytes i) := by
    have := memcpy_cleaner (w := w.set i m) (i := i) (j := j) (a := ⟨s, o⟩) (b := b) (n := t.bodyBytes)
      (by rw [hself]; exact hclm.clean) (by
        have := hstm.inside
        rw [hself]
        show o + t.bodyBytes ≤ ((m.seg s).len : Int)
        omega)
    rwa [hself] at this
  rw [hself] at hgcpy
  -- the bytes copied are those of the clone
  have hspan : ∀ k x, Span ⟨s, o⟩ t.bodyBytes k x → k = s ∧ o ≤ x ∧ x < o + t.extent := by
    rintro k x ⟨rfl, h1, h2⟩
    simp only at h1 h2
    exact ⟨rfl, h1, by omega⟩
  have hgend : Grows (Slot a) (w i) (memcpy (w.set i m) i (some ⟨s, o⟩) j (some b) t.bodyBytes i) := by
    refine ⟨fun k => Nat.le_trans (hgw.len k) (hgcpy.len k), fun k x h0 h1 hp => ?_⟩
    rw [← hgw.data k x h0 h1 hp]
    have := hgw.len k
    refine hgcpy.data k x h0 (by omega) fun hs => ?_
    obtain ⟨rfl, h2, -⟩ := hspan k x hs
    omega
  refine ⟨s, o, ⟨hgw, hclm.segs⟩, ?_, ?_, ?_, hfields, hfresh, ⟨c₁, hlen₁, hinside, fun K hnew => ?_⟩, ?_, ?_, ?_, ?_, ?_, ?_⟩
  · rw [hworld]
    exact hclm.trans hccpy
  · rw [hworld]
    exact hgend
  · rw [hworld]
    refine hstm.grows hgcpy hccpy.segs ?_
    rintro k x ⟨rfl, -, h2⟩ hs
    have := hspan _ x hs
    omega
  · -- the words that the pointer is read from are not among the bytes copied
    obtain ⟨q, cost, hq, hal, hfoot⟩ := hpts K hnew
    have hlink : SlotIn (linkClone (w i) a.seg a f).2 a := (hd.grows hkeeps).grows hgrows
    have hcount : (linkClone (w i) a.seg a f).2.segs.length = m.segs.length := congrArg List.length hmid.symm
    obtain ⟨hq', hf'⟩ := pointee_foot (((Grows.refl _ _).of_segs hmid).trans hgcpy) (hcount ▸ hccpy.segs)
      hlink.wordInside hq fun k x hx hs => by
        obtain ⟨rfl, h1, h2⟩ := hspan k x hs
        rcases hfoot _ x hx with ⟨hk, -, h3⟩ | ⟨-, -, h3⟩ | h3
        · rw [hk] at hfresh
          omega
        · omega
        · omega
    rw [hworld]
    exact ⟨q, cost, hq', hal, fun k x hx => hfoot k x ((hf' k x).mp hx)⟩
  · have hcopy : ((copyBody (w.set i m) i j t f).world i).copy = m.copy := by
      rw [copyBody_copy, World.set_self]
    exact hindex.imp (fun h => ⟨h.1, hzsz h.1, hcopy.trans h.2⟩) fun h => ⟨h.1, hcopy.trans h.2⟩
  · exact fun e he => copyBody_part hstm.shape ⟨hfields.1.symm, hfields.2.1.symm, hfields.2.2.1.symm, hfields.2.2.2.symm⟩ he
  · exact fun x y => copyBody_slots hstm.shape.2.1
  · exact fun x hx => copyBody_bytes hstm.shape hx
  · intro b' x hb' h0 hx
    cases hb.symm.trans hb'
    rw [hworld]
    exact memcpy_byte (w := w.set i m) (a := ⟨s, o⟩) (by rw [hself]; exact hstm.lt) h0 hx
  · intro x h0 h1
    have hpos := hclone.stands.lead
    have hlo : 0 ≤ o := by omega
    rw [hworld]
    have hm : (memcpy (w.set i m) i (some ⟨s, o⟩) j (some b) t.bodyBytes i).byte ⟨s, x⟩ = m.byte ⟨s, x⟩ := by
      have := hgm.len s
      refine hgcpy.data s x (by omega) (by omega) ?_
      rintro ⟨-, -, h2⟩
      simp only at h2
      omega
    rw [hm]
    refine (hgm.data s x (by omega) (by omega) ?_).trans (hzero x (by omega) (by omega))
    rintro ⟨hk, -, h3⟩
    rw [hk] at hfresh
    omega

/-- **A copy of an object** that the index does not have. -/
theorem copyFresh_begun (hc : Clean (w i)) (hd : SlotIn (w i) a) (hf : f.Whole)
    (hm : ¬ (f.type = .BIT_LIST ∧ f.isListMember = true)) (hb : f.data = some b)
    (hret : (copyFresh w i j a.seg a f).ret = 0)
    (hids : ((copyFresh w i j a.seg a f).world i).segs.length ≤ 2 ^ 32) :
    ∃ mid t s o, Begun w i j a f (copyFresh w i j a.seg a f) mid t s o := by
  have hnull : ∀ {v : World}, (copyBody v i j (newClone (w i) a.seg f).2 f).ret = 0 → (newClone (w i) a.seg f).2 ≠ {} :=
    fun h e => (copyBody_ret h).1 (congrArg Ptr.type e)
  rcases copyFresh_cases w i j a.seg a f with ⟨e, -⟩ | ⟨hw, hz, e⟩ | ⟨hw, hz, c, hnew, e⟩
  · rw [e] at hret
    cases hret
  · rw [e] at hret hids ⊢
    rw [segs_body, World.set_self] at hids
    obtain ⟨s, o, h⟩ := copyBody_begun hc hd hf hm hb hw (hnull hret) hids rfl rfl (.inl ⟨hz, linkClone_copy _ _ _ _⟩)
    exact ⟨_, _, s, o, h⟩
  · rw [e] at hret hids ⊢
    have hsegs := (newCopy_copy hnew).1
    have hcreate := newCopy_create hnew
    rw [segs_body, World.set_self] at hids
    have hids : c.segs.length ≤ 2 ^ 32 := hids
    rw [hsegs] at hids
    obtain ⟨s, o, h⟩ := copyBody_begun hc hd hf hm hb hw (hnull hret) hids (m := { c with
      copy := ⟨(newClone (w i) a.seg f).2, f, j, f.fseg, f.fbegin, f.fend⟩ :: c.copy }) hsegs hcreate
      (.inr ⟨hz, by rw [(newCopy_copy hnew).2, linkClone_copy]⟩)
    exact ⟨_, _, s, o, h⟩

end

end Capnproto

import Capnproto.Object.ReadBack

/-!
# Pointer words

What `write_ptr_tag` stores for an object `n` words away reads back as the object, or is refused,
if its counts fit in their bits (`conveys_iff`). A count that does not fit is cut off and the
word stored all the same: it reads as another object, or as none.
-/

namespace Capnproto

/-- The fields `p` describe a struct or a list of some kind, within the types of the fields. A field
that the kind has no use for is as the constructors leave it. -/
structure Ptr.Describes (p : Ptr) : Prop where
  member : p.isListMember = false
  len : 0 ≤ p.len ∧ p.len < 2 ^ 31
  datasz : p.datasz < 2 ^ 19
  ptrs : p.ptrs < 2 ^ 16
  kind :
    match p.type with
    | .STRUCT => p.isCompositeList = false ∧ 8 ∣ p.datasz ∧ p.len = 0
    | .LIST => if p.isCompositeList then 8 ∣ p.datasz else p.datasz ∈ [0, 1, 2, 4, 8] ∧ p.ptrs = 0
    | .PTR_LIST => p.isCompositeList = false ∧ p.datasz = 0 ∧ p.ptrs = 0
    | .BIT_LIST => p.isCompositeList = false ∧ p.datasz = (p.len.toNat + 7) / 8 % 2 ^ 19 ∧ p.ptrs = 0
    | _ => False

/-- The place `n` words behind the pointer at `a`. -/
def wordsFrom (a : Addr) (n : Int) : Addr := a.add ((n + 1) * 8)

/-- The tag is the one of the composite list `p`; it counts the elements in 30 bits. -/
def TagFor (tag : Nat) (p : Ptr) : Prop :=
  tag % 4 = STRUCT_PTR ∧ tag % 2 ^ 32 / 4 = p.len.toNat % 2 ^ 30 ∧ dataWords tag * 8 = p.datasz ∧ ptrWords tag = p.ptrs

/-- A reader finds what the pointer at `a` is for: the object is in the segment, `n` words away, the
tag of a composite list in front of it, and the budget covers it. -/
structure Finds (c : Capn) (a : Addr) (p : Ptr) (n : Int) : Prop where
  start : 0 ≤ (wordsFrom a n).off
  room : (wordsFrom a n).off + p.lead + p.extent ≤ (c.seg a.seg).len
  tag : p.isCompositeList = true → TagFor (c.load64 (wordsFrom a n)) p
  paid : ∀ q cost, pointee c a = some (q, cost) → Affords c cost

/-- What was read for the pointer at `a` is `p`, `n` words away. -/
structure ReadsAs (a : Addr) (p : Ptr) (n : Int) (q : Ptr) : Prop where
  kind : q.type = p.type ∧ q.isCompositeList = p.isCompositeList
  fields : q.len = p.len ∧ q.datasz = p.datasz ∧ q.ptrs = p.ptrs
  place : q.seg = some a.seg ∧ q.data = some ((wordsFrom a n).add p.lead)

/-- For the object `p` `n` words away, `write_ptr_tag` fails and stores nothing, or it stores a word
that reads as the object. -/
def Conveys (p : Ptr) (n : Int) : Prop :=
  ∀ (c : Capn) (a : Addr), SlotIn c a → writePtrTag c a p (8 * n) = none ∨
    ∃ c', writePtrTag c a p (8 * n) = some c' ∧
      ∀ rem : Int, rem ≠ 0 → Finds c' a p n → ReadsAs a p n (readPtr c' (some a.seg) (some a) rem).ptr

/-- The distance does not fit in 30 bits. -/
def TooFar (n : Int) : Prop := n < CAPN_PTR_OFF_MIN_WORDS ∨ CAPN_PTR_OFF_MAX_WORDS < n

instance (n : Int) : Decidable (TooFar n) := inferInstanceAs (Decidable (_ ∨ _))

/-- The counts fit in their bits, and a struct without fields is not where it reads as null. A
composite list does not begin at its own pointer. -/
def Ptr.Fits (p : Ptr) (n : Int) : Prop :=
  match p.type with
  | .STRUCT => p.datasz = 0 ∧ p.ptrs = 0 → n ≠ 0
  | .LIST =>
    if p.isCompositeList then n = -1 ∨ p.len < 2 ^ 30 ∧ p.len.toNat * (p.datasz / 8 + p.ptrs) < 2 ^ 29
    else p.len < 2 ^ 29
  | .PTR_LIST => p.len < 2 ^ 29
  | .BIT_LIST => (p.len.toNat + 7) / 8 < 2 ^ 19
  | _ => True

section

variable {p : Ptr} {n : Int} {c : Capn} {a : Addr} {v : Nat}

theorem Ptr.Describes.isObject (h : p.Describes) : p.IsObject := by
  have hk := h.kind
  refine ⟨fun ht => ?_, fun ht => ?_, fun ht => ?_⟩ <;> simp only [ht] at hk

/-- The distance is all that `write_ptr_tag` checks. -/
theorem ptrTag_none (hobj : p.IsObject) : ptrTag p (8 * n) = none ↔ TooFar n := by
  simp only [ptrTag, if_neg hobj.2.2, Int.mul_tdiv_cancel_left n (show (8 : Int) ≠ 0 by decide), TooFar]
  constructor
  · intro h
    by_contra hn
    rw [if_neg hn] at h
    cases h
  · intro h
    rw [if_pos h]

/-- Counts that fit make a shape that readers give. -/
theorem Ptr.Fits.shape (hd : p.Describes) (hf : p.Fits n) (hn : p.isCompositeList = true → n ≠ -1) : p.Shape := by
  obtain ⟨hmem, ⟨h0, hlt⟩, hdlt, hplt, hk⟩ := hd
  refine ⟨hmem, h0, ?_⟩
  cases ht : p.type with
  | STRUCT =>
    simp only [ht] at hk ⊢
    exact ⟨hk.1, hk.2.1, hdlt, hplt, hk.2.2⟩
  | LIST =>
    simp only [Ptr.Fits, ht] at hk hf ⊢
    by_cases hc : p.isCompositeList = true
    · rw [if_pos hc] at hk hf ⊢
      obtain ⟨hl, hw⟩ := hf.resolve_left (hn hc)
      have hbytes : p.len.toNat * (p.datasz + 8 * p.ptrs) = p.len.toNat * (p.datasz / 8 + p.ptrs) * 8 := by
        rw [Nat.mul_assoc]
        congr 1
        omega
      exact ⟨hk, hdlt, hplt, hl, by omega⟩
    · rw [if_neg hc] at hk hf ⊢
      exact ⟨hk.1, hk.2, hf⟩
  | PTR_LIST =>
    simp only [Ptr.Fits, ht] at hk hf ⊢
    exact ⟨hk.1, hk.2.1, hk.2.2, hf⟩
  | BIT_LIST =>
    simp only [Ptr.Fits, ht] at hk hf ⊢
    obtain ⟨hc, hsz, hp⟩ := hk
    rw [Nat.mod_eq_of_lt hf] at hsz
    exact ⟨hc, hsz, hdlt, hp⟩
  | NULL => simp only [ht] at hk
  | FAR_POINTER => simp only [ht] at hk
  | INTERFACE => simp only [ht] at hk

/-- A shape that readers give has counts that fit. -/
theorem Ptr.Shape.fits (hs : p.Shape) (hz : p.emptyStruct → n ≠ 0) : p.Fits n := by
  obtain ⟨-, h0, hs⟩ := hs
  cases ht : p.type with
  | STRUCT =>
    simp only [Ptr.Fits, ht]
    exact fun h => hz ⟨ht, h⟩
  | LIST =>
    simp only [Ptr.Fits, ht] at hs ⊢
    by_cases hc : p.isCompositeList = true
    · rw [if_pos hc] at hs ⊢
      obtain ⟨h8, -, -, hl, hw⟩ := hs
      have hbytes : p.len.toNat * (p.datasz + 8 * p.ptrs) = p.len.toNat * (p.datasz / 8 + p.ptrs) * 8 := by
        rw [Nat.mul_assoc]
        congr 1
        omega
      exact .inr ⟨hl, by omega⟩
    · rw [if_neg hc] at hs ⊢
      exact hs.2.2
  | PTR_LIST =>
    simp only [Ptr.Fits, ht] at hs ⊢
    exact hs.2.2.2
  | BIT_LIST =>
    simp only [Ptr.Fits, ht] at hs ⊢
    omega
  | NULL => simp only [Ptr.Fits, ht]
  | FAR_POINTER => simp only [Ptr.Fits, ht]
  | INTERFACE => simp only [Ptr.Fits, ht]

/-- The tag of a composite list that fits is known from its fields. -/
theorem TagFor.eq {tag : Nat} (h : TagFor tag p) (hlt : tag < 2 ^ 64) (hl : p.len < 2 ^ 30) : tag = compositeTag p := by
  obtain ⟨h0, h1, h2, h3⟩ := h
  simp only [dataWords, ptrWords, STRUCT_PTR] at h0 h2 h3
  simp only [compositeTag, STRUCT_PTR]
  omega

/-- The object, where the pointer at `a` says. -/
def Ptr.found (p : Ptr) (a : Addr) (n : Int) : Ptr :=
  { p with hasPtrTag := false, nesting := 0, nestingValid := false, seg := some a.seg,
           data := some ((wordsFrom a n).add p.lead) }

theorem Finds.stands (h : Finds c a p n) (ha : SlotIn c a) (hs : p.Shape) (hobj : p.IsObject) :
    Stands c (p.found a n) a.seg ((wordsFrom a n).off + p.lead) := by
  have hlead := lead_dvd p
  have hal := ha.aligned
  have hpos := ha.pos
  have hin := ha.inside
  have hstart := h.start
  refine ⟨hs, hobj, rfl, rfl, ?_, ?_, h.room, ?_, fun hc => ?_, fun ht => by cases ht⟩
  · exact ha.lt
  · show (p.lead : Int) ≤ _
    omega
  · simp only [wordsFrom, Addr.add]
    omega
  · have hl : (p.lead : Int) = 8 := by simp only [Ptr.lead, if_pos (show p.isCompositeList = true from hc), Nat.cast_ofNat]
    rw [hl, Int.add_sub_cancel]
    have htype : p.type = .LIST := by
      have hk := hs.2.2
      cases ht : p.type <;> simp_all [Ptr.found]
    have hk := hs.2.2
    simp only [htype, if_pos (show p.isCompositeList = true from hc)] at hk
    exact (h.tag hc).eq (load64_lt _ _) hk.2.2.2.1

/-- What a reader that can pay gets for a pointer. -/
theorem SlotIn.read (ha : SlotIn c a) {rem : Int} (hr : rem ≠ 0)
    (hpaid : ∀ q cost, pointee c a = some (q, cost) → Affords c cost) :
    (pointee c a = none ∧ (readPtr c (some a.seg) (some a) rem).ptr = {}) ∨
      ∃ q cost, pointee c a = some (q, cost) ∧ (readPtr c (some a.seg) (some a) rem).ptr = q.withNesting rem := by
  have hb : boundsOk c (some a.seg) (some a) 8 := boundsOk_iff.mpr ⟨a.seg, a.off, rfl, rfl, ha.pos, ha.inside⟩
  have heq : readPtr c (some a.seg) (some a) rem = _ := readPtr_eq hr hb
  rw [heq]
  cases hq : pointee c a with
  | none => exact .inl ⟨rfl, rfl⟩
  | some r =>
    obtain ⟨q, cost⟩ := r
    refine .inr ⟨q, cost, rfl, ?_⟩
    simp only [if_pos (hpaid q cost hq)]

/-- A pointer to a list is not a tag. -/
theorem ptrTag_list (ht : p.type = .LIST) (hc : p.isCompositeList = true) {off : Int} (hv : ptrTag p off = some v) :
    v % 4 = LIST_PTR ∧ v < 2 ^ 64 := by
  simp only [ptrTag, ht, if_pos hc] at hv
  rw [if_neg (by decide)] at hv
  split at hv
  · cases hv
  · have hv := Option.some.inj hv
    obtain ⟨hlt, h4⟩ := offsetBits_lt (off.tdiv 8)
    simp only [lengthBits, LIST_PTR, COMPOSITE_LIST] at hv ⊢
    generalize p.len * ((p.datasz / 8 + p.ptrs : Nat) : Int) = m at hv
    omega

theorem Ptr.Describes.composite (hd : p.Describes) (hc : p.isCompositeList = true) : p.type = .LIST := by
  have hk := hd.kind
  cases ht : p.type with
  | LIST => rfl
  | STRUCT =>
    simp only [ht, hc] at hk
    cases hk.1
  | PTR_LIST =>
    simp only [ht, hc] at hk
    cases hk.1
  | BIT_LIST =>
    simp only [ht, hc] at hk
    cases hk.1
  | NULL => simp only [ht] at hk
  | FAR_POINTER => simp only [ht] at hk
  | INTERFACE => simp only [ht] at hk

/-- The word for a struct without fields, unless it is at the pointer's end, is not null. -/
theorem ptrTag_empty (hz : p.emptyStruct) (hn : n ≠ 0) (hv : ptrTag p (8 * n) = some v) : v ≠ 0 := by
  obtain ⟨ht, hd, hp⟩ := hz
  simp only [ptrTag, ht, hd, hp, Int.mul_tdiv_cancel_left n (show (8 : Int) ≠ 0 by decide)] at hv
  rw [if_neg (by decide)] at hv
  split at hv
  · cases hv
  · rename_i hr
    have hv := Option.some.inj hv
    simp only [CAPN_PTR_OFF_MIN_WORDS, CAPN_PTR_OFF_MAX_WORDS] at hr
    simp only [offsetBits, STRUCT_PTR] at hv
    split at hv <;> omega

/-- **A word that is written** for counts that fit reads as the object. -/
theorem readsAs_of_fits (hd : p.Describes) (hf : p.Fits n) (ha : SlotIn c a) (hv : ptrTag p (8 * n) = some v)
    {rem : Int} (hr : rem ≠ 0) (hfinds : Finds (c.store64 a v) a p n) :
    ReadsAs a p n (readPtr (c.store64 a v) (some a.seg) (some a) rem).ptr := by
  have hobj := hd.isObject
  have ha' : SlotIn (c.store64 a v) a := ha.grows ((Grows.refl (Slot a) c).store64 (.inr fun x h0 h1 => ⟨rfl, h0, h1⟩))
  -- a composite list does not begin at its own pointer, which is no tag
  have hself : p.isCompositeList = true → n ≠ -1 := by
    intro hc hn
    have htag := (hfinds.tag hc).1
    obtain ⟨hlow, hlt⟩ := ptrTag_list (hd.composite hc) hc hv
    have hsame : wordsFrom a n = a := by
      simp only [wordsFrom, Addr.add, hn, Int.reduceNeg, Int.reduceAdd, Int.zero_mul, Int.add_zero]
    rw [hsame, load64_store64_self ha.lt hlt, hlow] at htag
    cases htag
  have hshape := hf.shape hd hself
  have hword := ptrTag_word hshape hobj (Int.dvd_mul_right 8 n) hv
  rw [Int.mul_ediv_cancel_left n (by decide)] at hword
  have hload : (c.store64 a v).load64 a = v := load64_store64_self ha.lt hword.lt
  have hst := hfinds.stands ha' hshape hobj
  have hz : (p.found a n).emptyStruct → (c.store64 a v).load64 a ≠ 0 := by
    intro hz
    rw [hload]
    refine ptrTag_empty hz ?_ hv
    have ht : p.type = .STRUCT := hz.1
    simp only [Ptr.Fits, ht] at hf
    exact hf hz.2
  obtain ⟨hpt, -⟩ := hst.pointee_near (w := n) hz rfl (by rw [hload]; exact ⟨hword.low, hword.high, hword.lt, hword.lo, hword.hi⟩) (by
    show a.off + (n + 1) * 8 = (wordsFrom a n).off + p.lead - p.lead
    rw [Int.add_sub_cancel]
    rfl)
  rcases ha'.read hr hfinds.paid with ⟨hnone, -⟩ | ⟨q, cost, hq, hread⟩
  · rw [hpt] at hnone
    cases hnone
  · rw [hpt] at hq
    obtain ⟨rfl, -⟩ := Prod.mk.inj (Option.some.inj hq)
    obtain ⟨m, b, hnest⟩ := withNesting_eq (p.found a n).bare rem
    rw [hread, hnest]
    exact ⟨⟨rfl, rfl⟩, ⟨rfl, rfl, rfl⟩, rfl, rfl⟩

/-! ## Counts that do not fit -/

/-- A session with room for the object at both ends of any distance. -/
def roomySession (p : Ptr) : Capn :=
  { segs := [⟨Mem.zero, 2 ^ 34 + p.extent, 2 ^ 34 + p.extent⟩], traversalLimit := 2 ^ 40 + p.extent }

/-- The tag of a composite list, as far as it fits in a word. -/
def fieldTag (p : Ptr) : Nat := STRUCT_PTR + p.len.toNat % 2 ^ 30 * 4 + p.datasz / 8 * 2 ^ 32 + p.ptrs * 2 ^ 48

theorem fieldTag_spec (hd : p.Describes) (hc : p.isCompositeList = true) : fieldTag p < 2 ^ 64 ∧ TagFor (fieldTag p) p := by
  have hk := hd.kind
  simp only [hd.composite hc, if_pos hc] at hk
  have hdlt := hd.datasz
  have hplt := hd.ptrs
  simp only [TagFor, fieldTag, STRUCT_PTR, dataWords, ptrWords]
  omega

theorem shape_len_lt {q : Ptr} (h : q.Shape) : q.len < 2 ^ 31 := by
  obtain ⟨-, h0, h⟩ := h
  cases ht : q.type with
  | LIST =>
    simp only [ht] at h
    split at h
    · omega
    · omega
  | STRUCT =>
    simp only [ht] at h
    omega
  | PTR_LIST =>
    simp only [ht] at h
    omega
  | BIT_LIST =>
    simp only [ht] at h
    omega
  | NULL =>
    simp only [ht] at h
    omega
  | FAR_POINTER => simp only [ht] at h
  | INTERFACE => simp only [ht] at h

theorem shape_congr {q : Ptr} (hq : q.Shape) (hm : p.isListMember = false)
    (hk : q.type = p.type ∧ q.isCompositeList = p.isCompositeList)
    (hf : q.len = p.len ∧ q.datasz = p.datasz ∧ q.ptrs = p.ptrs) : p.Shape := by
  obtain ⟨-, h0, hq⟩ := hq
  obtain ⟨ht, hc⟩ := hk
  obtain ⟨hl, hd, hp⟩ := hf
  rw [ht, hc, hl, hd, hp] at hq
  exact ⟨hm, by omega, hq⟩

/-- **Room for a pointer and its object**, as far away as a pointer can say. -/
theorem exists_finds (hd : p.Describes) (hn : ¬ TooFar n) (hself : p.isCompositeList = true → n ≠ -1) (v : Nat) :
    ∃ (c : Capn) (a : Addr), SlotIn c a ∧ Finds (c.store64 a v) a p n := by
  simp only [TooFar, CAPN_PTR_OFF_MIN_WORDS, CAPN_PTR_OFF_MAX_WORDS] at hn
  have hlead : p.lead ≤ 8 := by
    rw [Ptr.lead]
    split <;> decide
  have hlen : ∀ (c : Capn) (b : Addr) (m : Nat), ((c.store64 b m).seg 0).len = (c.seg 0).len := fun c b m =>
    Capn.len_write _ _ _ _
  generalize hc : (roomySession p).store64 (wordsFrom ⟨0, 2 ^ 32⟩ n) (fieldTag p) = c
  have hlen₀ : (c.seg 0).len = 2 ^ 34 + p.extent := by
    rw [← hc]
    exact hlen _ _ _
  have hoff : (wordsFrom ⟨0, 2 ^ 32⟩ n).off = 2 ^ 32 + (n + 1) * 8 := rfl
  refine ⟨c, ⟨0, 2 ^ 32⟩, ⟨by decide, by decide, ?_⟩, ⟨by rw [hoff]; omega, ?_, fun hcm => ?_, fun q cost hq => ?_⟩⟩
  · show (2 ^ 32 : Int) + 8 ≤ ((c.seg 0).len : Int)
    rw [hlen₀]
    push_cast
    omega
  · show _ ≤ (((c.store64 _ v).seg 0).len : Int)
    rw [hlen, hlen₀, hoff]
    push_cast
    omega
  · obtain ⟨hlt, htag⟩ := fieldTag_spec hd hcm
    have := hself hcm
    rw [load64_store64_ne, ← hc, load64_store64_self _ hlt]
    · exact htag
    · exact Nat.zero_lt_one
    · intro _
      rw [hoff]
      show (2 ^ 32 : Int) + 8 ≤ _ ∨ _ ≤ (2 ^ 32 : Int)
      omega
  · right
    have hused : (c.store64 ⟨0, 2 ^ 32⟩ v).traversalUsed = 0 := by
      rw [← hc]
      rfl
    have hbudget : budget (c.store64 ⟨0, 2 ^ 32⟩ v) = 2 ^ 40 + p.extent := by
      rw [← hc]
      exact if_pos (by show 2 ^ 40 + p.extent ≠ 0; omega)
    rw [hused, hbudget]
    rcases pointee_spec hq with ⟨-, -, rfl⟩ | ⟨hsh, ⟨s, o, -, hdata, hpre, hend⟩, hcost⟩
    · omega
    · have hsz : ((c.store64 ⟨0, 2 ^ 32⟩ v).seg s).len ≤ 2 ^ 34 + p.extent := by
        by_cases hs : s = 0
        · rw [hs, hlen, hlen₀]
        · rw [Capn.seg_of_ge]
          · exact Nat.zero_le _
          · rw [← hc]
            show 1 ≤ s
            omega
      have hcount : q.len < 2 ^ 31 := shape_len_lt hsh
      rw [hcost]
      split <;> omega

/-- A word that reads as the object has room for its counts. -/
theorem Conveys.fits (hd : p.Describes) (h : Conveys p n) (hn : ¬ TooFar n) : p.Fits n := by
  have hobj := hd.isObject
  by_cases hself : p.isCompositeList = true ∧ n = -1
  · simp only [Ptr.Fits, hd.composite hself.1, if_pos hself.1]
    exact .inl hself.2
  obtain ⟨v, hv⟩ := Option.ne_none_iff_exists'.mp fun hnone => hn ((ptrTag_none hobj).mp hnone)
  obtain ⟨c, a, ha, hfinds⟩ := exists_finds hd hn (fun hc hn1 => hself ⟨hc, hn1⟩) v
  have hw : writePtrTag c a p (8 * n) = some (c.store64 a v) := by rw [writePtrTag, hv, Option.map_some]
  rcases h c a ha with hnone | ⟨c', hc', hread⟩
  · rw [hw] at hnone
    cases hnone
  cases hw.symm.trans hc'
  obtain ⟨hk, hf, -⟩ := hread (-1) (by decide) hfinds
  have ha' : SlotIn (c.store64 a v) a := ha.grows ((Grows.refl (Slot a) c).store64 (.inr fun x h0 h1 => ⟨rfl, h0, h1⟩))
  rcases @SlotIn.read _ _ ha' (-1) (by decide) hfinds.paid with ⟨-, hnull⟩ | ⟨q, cost, hq, hptr⟩
  · rw [hnull] at hk
    exact absurd hk.1.symm hobj.1
  have hnest : q.withNesting (-1) = q := if_neg (by decide)
  rw [hptr, hnest] at hk hf
  rcases pointee_spec hq with ⟨hi, -⟩ | ⟨hsh, -⟩
  · exact absurd (hk.1.symm.trans hi) hobj.2.2
  refine (shape_congr hsh hd.member hk hf).fits ?_
  -- a struct without fields, at the end of its pointer, is stored as null
  rintro ⟨ht, hds, hps⟩ rfl
  have h0 : v = 0 := by
    have hzero : ptrTag p (8 * 0) = some 0 := by
      simp only [ptrTag, ht, hds, hps]
      rfl
    exact Option.some.inj (hv.symm.trans hzero)
  have hload : (c.store64 a v).load64 a = 0 := by
    rw [h0]
    exact load64_store64_self ha.lt (by decide)
  rw [pointee_zero ha' hload] at hq
  obtain ⟨rfl, -⟩ := Prod.mk.inj (Option.some.inj hq)
  exact hobj.1 hk.1.symm

/-- **Pointer words** read back as what they were written for, or are refused, exactly if the
distance is refused or the counts fit. -/
theorem conveys_iff (hd : p.Describes) (n : Int) : Conveys p n ↔ TooFar n ∨ p.Fits n := by
  constructor
  · intro h
    by_cases hn : TooFar n
    · exact .inl hn
    · exact .inr (h.fits hd hn)
  · intro h c a ha
    cases hv : ptrTag p (8 * n) with
    | none => exact .inl (by rw [writePtrTag, hv, Option.map_none])
    | some v =>
      refine .inr ⟨c.store64 a v, by rw [writePtrTag, hv, Option.map_some], fun rem hr hfinds => ?_⟩
      have hf : p.Fits n := h.resolve_left fun hfar => by
        rw [(ptrTag_none hd.isObject).mpr hfar] at hv
        cases hv
      exact readsAs_of_fits hd hf ha hv hr hfinds

theorem conveys_iff_bytes :
    Conveys { type := .LIST, datasz := 1, len := 2 ^ 29 - 1 } 0 ↔
      TooFar 0 ∨ Ptr.Fits { type := .LIST, datasz := 1, len := 2 ^ 29 - 1 } 0 :=
  conveys_iff ⟨rfl, by decide, by decide, by decide, by decide⟩ 0

/-- The length 2²⁹ of a list of bytes is cut off to 0. -/
theorem not_conveys_long : ¬ Conveys { type := .LIST, datasz := 1, len := 2 ^ 29 } 0 := by
  intro h
  have hf := h.fits ⟨rfl, by decide, by decide, by decide, by decide⟩ (by decide)
  simp only [Ptr.Fits] at hf
  exact absurd hf (by decide)

end

end Capnproto

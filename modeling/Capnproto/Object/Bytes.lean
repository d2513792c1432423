import Capnproto.Object.Shortcut

/-!
# Lists of bytes

A slot that points to a list of bytes reads as the text that they are, if its reader can pay for them (`readsText_iff`).
A pointer to such a list (`link_reads`), and a string that `capn_new_string` makes (`newString_spec`), where there is
room.
-/

namespace Capnproto

/-- The slot `d` is pointer `off` of the struct or of the list of pointers `p`. -/
structure PointerSlot (c : Capn) (p : Ptr) (off : Int) (d : Addr) : Prop where
  kind : p.type = .STRUCT ∨ p.type = .PTR_LIST
  within : Within p off
  seg : p.seg = some d.seg
  place : destination p off = some (d, 8)
  inside : SlotIn c d

/-- Pointer `off` of `p` reads as a text with these bytes, whatever the default is: it is a list of them and a NUL.
Null reads as the default. -/
def ReadsText (c : Capn) (p : Ptr) (off : Int) : Option (List UInt8) → Prop
  | none => ∀ default, (capnGetText c p off default).2 = default
  | some bs => ∃ s a, (capnGetp c p off true).ptr.type = .LIST ∧ (capnGetp c p off true).ptr.data = some a ∧
      (capnGetp c p off true).ptr.len = (bs.length + 1 : Nat) ∧ c.read a (bs.length + 1) = bs ++ [0] ∧
      ∀ default, (capnGetText c p off default).2 = ⟨bs.length, some a, some s⟩

/-- Whoever reads a list of `n` bytes in a slot of `p` has a hop left, and the bytes are paid. -/
def Readable (c : Capn) (p : Ptr) (n : Nat) : Prop := hopRemaining c p ≠ 0 ∧ Affords c n

/-- `new_object` finds room for `n` bytes: in segment `s`, or with a tag elsewhere. -/
def HasRoom (c : Capn) (s n : Nat) : Prop :=
  (c.seg s).len + (n + 7) / 8 * 8 ≤ (c.seg s).cap ∨ (newData c ((n + 7) / 8 * 8 + 8)).isSome = true

instance (c : Capn) (s n : Nat) : Decidable (HasRoom c s n) := inferInstanceAs (Decidable (_ ∨ _))

/-- The session with a pointer from `d` to `t` at `a`, if they are in one segment; then the slot may be in the list. -/
def withPointer (c : Capn) (d : Addr) (t : Ptr) (a : Addr) : Capn :=
  if a.seg = d.seg then ((ptrTag t (a.off - d.off - 8)).map (c.store64 d)).getD c else c

/-! ## What stores and allocations leave alone -/

/-- The hops, the budget and the room for the index are the same. -/
structure Beside (c c' : Capn) : Prop where
  nesting : c'.nestingLimit = c.nestingLimit
  limit : c'.traversalLimit = c.traversalLimit
  used : c'.traversalUsed = c.traversalUsed
  copylist : c'.copylist = c.copylist
  createLocal : c'.createLocal = c.createLocal

section

variable {c c' c'' : Capn}

theorem Beside.refl (c : Capn) : Beside c c := ⟨rfl, rfl, rfl, rfl, rfl⟩

theorem Beside.trans (h : Beside c c') (h' : Beside c' c'') : Beside c c'' :=
  ⟨h'.nesting.trans h.nesting, h'.limit.trans h.limit, h'.used.trans h.used, h'.copylist.trans h.copylist,
    h'.createLocal.trans h.createLocal⟩

theorem Beside.store64 (h : Beside c c') (a : Addr) (v : Nat) : Beside c (c'.store64 a v) := h.trans ⟨rfl, rfl, rfl, rfl, rfl⟩

theorem beside_newData {n s : Nat} {a : Addr} (e : newData c n = some (c', s, a)) : Beside c c' := by
  rcases newData_cases e with ⟨-, -, rfl, -⟩ | ⟨_, _, -, -, -, rfl, -⟩ <;> exact ⟨rfl, rfl, rfl, rfl, rfl⟩

theorem beside_tag (c : Capn) (d : Addr) (p : Ptr) (off : Int) : Beside c (tagResult c (writePtrTag c d p off)).2 := by
  rw [writePtrTag]
  cases ptrTag p off with
  | none => exact .refl c
  | some v => exact (Beside.refl c).store64 d v

theorem beside_object (c : Capn) (p : Ptr) (n : Nat) : Beside c (newObject c p n).1 := by
  simp only [newObject]
  split
  · exact .refl c
  split
  · exact .refl c
  split
  · exact ⟨rfl, rfl, rfl, rfl, rfl⟩
  split
  · exact .refl c
  · rename_i c' s a hnew
    have h := beside_newData hnew
    rw [writePtrTag]
    split
    · exact h
    · rename_i htag
      obtain ⟨v, -, rfl⟩ := Option.map_eq_some_iff.mp htag
      exact h.store64 a v

theorem beside_far (c : Capn) (s : Nat) (d : Addr) (p : Ptr) (seg : Nat) (pdata : Int) :
    Beside c (writePtrFar c s d p seg pdata).2 := by
  simp only [writePtrFar]
  split
  · exact ⟨rfl, rfl, rfl, rfl, rfl⟩
  split
  · split
    · exact .refl c
    · rename_i htag
      obtain ⟨v, -, rfl⟩ := Option.map_eq_some_iff.mp htag
      exact ⟨rfl, rfl, rfl, rfl, rfl⟩
  split
  · exact .refl c
  · rename_i c' t a hroom
    have h : Beside c c' := by
      split at hroom
      · cases hroom
        exact ⟨rfl, rfl, rfl, rfl, rfl⟩
      · exact beside_newData hroom
    split
    · exact h.trans ⟨rfl, rfl, rfl, rfl, rfl⟩
    · rename_i htag
      obtain ⟨v, -, rfl⟩ := Option.map_eq_some_iff.mp htag
      exact h.trans ⟨rfl, rfl, rfl, rfl, rfl⟩

theorem beside_ptr (c : Capn) (s : Nat) (d : Addr) (p : Ptr) (foreign : Bool) : Beside c (writePtr c s d p foreign).2 := by
  simp only [writePtr]
  split
  · exact beside_tag _ _ _ _
  split
  · exact beside_tag _ _ _ _
  · exact beside_tag _ _ _ _
  split
  · exact beside_tag _ _ _ _
  split
  · exact .refl c
  split
  · exact .refl c
  split
  · exact beside_tag _ _ _ _
  · exact beside_far _ _ _ _ _ _

theorem Beside.readable (h : Beside c c') (p : Ptr) (n : Nat) : Readable c' p n ↔ Readable c p n := by
  simp only [Readable, Affords, budget, hopRemaining, sessionNesting, h.nesting, h.limit, h.used]

theorem Beside.newCopy (h : Beside c c') : (newCopy c').isSome = (newCopy c).isSome := by
  simp only [Capnproto.newCopy, h.copylist, h.createLocal]
  cases c.copylist with
  | nil =>
    cases c.createLocal with
    | none => rfl
    | some create => cases hcr : create sizeofCopy <;> simp [hcr]
  | cons e rest =>
    obtain ⟨len, cap⟩ := e
    by_cases hfull : cap < len + sizeofCopy
    · simp only [if_pos hfull]
      cases c.createLocal with
      | none => rfl
      | some create => cases hcr : create sizeofCopy <;> simp [hcr]
    · simp only [if_neg hfull, Option.isSome_some]

end

/-! ## Where pointers point -/

theorem followFar_aligned {c : Capn} {s seg : Nat} {d a : Addr} {val word : Nat} (hd : 8 ∣ d.off)
    (h : (followFar c s d val).hit = some (seg, a, word)) : 8 ∣ a.off := by
  rw [followFar] at h
  split at h
  · simp only [lookupFar] at h
    split at h
    · cases h
    split at h
    · cases h
    · cases h
      simp only
      omega
  split at h
  · simp only [lookupDouble] at h
    split at h
    · cases h
    split at h
    · cases h
    split at h
    · cases h
    split at h
    · cases h
    · cases h
      exact (by decide : (8 : Int) ∣ -8)
  · cases h
    exact hd

theorem decodeObject_aligned {c : Capn} {s : Nat} {d b : Addr} {val n : Nat} {p : Ptr} (hval : val < 2 ^ 64) (hd : 8 ∣ d.off)
    (h : decodeObject c s d val = some (p, n)) (hb : p.data = some b) : 8 ∣ b.off := by
  simp only [decodeObject] at h
  split at h
  · cases h
  rename_i a ha
  obtain ⟨rfl, -, -⟩ := applyOffset_eq ha
  split at h
  · cases h
  rename_i q d' nbytes hq
  split at h
  · cases h
    cases hb
    have hobj : ∃ z, ObjectAt ⟨s, d.off + (toInt32 val / 4 + 1) * 8⟩ q b z := by
      split at hq
      · exact ⟨_, (decodeStruct_spec hq).1⟩
      split at hq
      · exact ⟨_, (decodeElements_spec (by omega) hq).1⟩
      · cases hq
    obtain ⟨_, ho⟩ := hobj
    have hdata := congrArg Addr.off ho.data
    have hlead := lead_dvd q
    simp only [Addr.add] at hdata
    omega
  · cases h

/-- What an aligned word points to is aligned. -/
theorem pointee_aligned {c : Capn} {a b : Addr} {p : Ptr} {cost : Nat} (ha : 8 ∣ a.off) (h : pointee c a = some (p, cost))
    (hb : p.data = some b) : 8 ∣ b.off := by
  simp only [pointee] at h
  split at h
  · cases h
  rename_i hit
  have hal := followFar_aligned ha hit
  split at h
  · split at h
    · cases h
    · cases h
      cases hb
      exact hal
  · obtain ⟨⟨q, m⟩, hobj, e⟩ := Option.map_eq_some_iff.mp h
    cases e
    exact decodeObject_aligned (followFar_lt (load64_lt c a) hit) hal hobj hb

/-! ## Reading a slot -/

section

variable {c c' : Capn} {p t : Ptr} {off : Int} {d a : Addr} {bs : List UInt8}

theorem PointerSlot.resolved (h : PointerSlot c p off d) : p.type ≠ .FAR_POINTER := by
  rcases h.kind with ht | ht <;> rw [ht] <;> decide

theorem PointerSlot.grows {P : Nat → Int → Prop} (h : PointerSlot c p off d) (hg : Grows P c c') : PointerSlot c' p off d :=
  { h with inside := h.inside.grows hg }

theorem PointerSlot.bounds (h : PointerSlot c p off d) : boundsOk c (some d.seg) (some ⟨d.seg, d.off⟩) 8 :=
  boundsOk_iff.mpr ⟨d.seg, d.off, rfl, rfl, h.inside.pos, h.inside.inside⟩

/-- Where the slot is. -/
theorem PointerSlot.cases (h : PointerSlot c p off d) : ∃ b, p.data = some b ∧
    (p.type = .STRUCT ∧ ¬ (p.ptrs : Int) ≤ off ∧ b.add (p.datasz + 8 * off) = d ∨
      p.type = .PTR_LIST ∧ ¬ p.len ≤ off ∧ b.add (8 * off) = d) := by
  have hplace := h.place
  have hin := h.within.2
  rcases h.kind with ht | ht
  · simp only [destination, ht] at hplace
    obtain ⟨b, hb, he⟩ := Option.map_eq_some_iff.mp hplace
    rw [Ptr.places, if_pos ht] at hin
    exact ⟨b, hb, .inl ⟨ht, Int.not_le.mpr hin, congrArg Prod.fst he⟩⟩
  · simp only [destination, ht] at hplace
    obtain ⟨b, hb, he⟩ := Option.map_eq_some_iff.mp hplace
    rw [Ptr.places, if_neg (by rw [ht]; decide)] at hin
    exact ⟨b, hb, .inr ⟨ht, Int.not_le.mpr hin, congrArg Prod.fst he⟩⟩

/-- What `capn_getp` reads is the word of the slot. -/
theorem PointerSlot.getp (h : PointerSlot c p off d) :
    capnGetp c p off true = readPtr c (some d.seg) (some d) (hopRemaining c p) := by
  simp only [capnGetp, capnResolve_of_ne h.resolved, getpResolved, List.nil_append]
  obtain ⟨b, hb, ⟨ht, hin, hd⟩ | ⟨ht, hin, hd⟩⟩ := h.cases
  · simp only [ht, if_neg hin, getpSlot, if_true, h.seg, hb, Option.map_some, hd]
  · simp only [ht, if_neg hin, getpSlot, not_true, if_false, if_true, h.seg, hb, Option.map_some, hd]

/-- What is not a list of bytes reads as the default. -/
theorem getText_default (hne : (capnGetp c p off true).ptr.type ≠ .LIST) (default : Text) :
    (capnGetText c p off default).2 = default := by
  simp only [capnGetText, textOf]
  split
  · rfl
  · rw [if_neg fun h => hne h.1]

/-- A slot that is null is no list. -/
theorem PointerSlot.null_type (h : PointerSlot c p off d) (h0 : c.load64 d = 0) :
    (capnGetp c p off true).ptr.type ≠ .LIST := by
  rw [h.getp]
  rcases readPtr_cases c (some d.seg) (some d) (hopRemaining c p) with ⟨reads, e, -⟩ | ⟨s, o, q, cost, -, hs, hd, -, hq, -, e⟩
  · rw [e]
    exact nofun
  · cases hd
    rw [pointee_zero h.inside h0] at hq
    cases hq
    rw [e]
    show (Ptr.withNesting _ _).type ≠ _
    rw [type_withNesting]
    exact nofun

theorem readsText_null (h : PointerSlot c p off d) (h0 : c.load64 d = 0) : ReadsText c p off none :=
  getText_default (h.null_type h0)

/-- A list of bytes. -/
structure Ptr.IsBytes (t : Ptr) (a : Addr) (n : Nat) : Prop where
  type : t.type = .LIST
  member : t.isListMember = false
  plain : t.isCompositeList = false
  datasz : t.datasz = 1
  ptrs : t.ptrs = 0
  seg : t.seg = some a.seg
  data : t.data = some a
  len : t.len = n

/-- A list of single bytes, in a segment. -/
theorem Ptr.Shape.isBytes {m : Ptr} {b : Addr} (h : m.Shape) (htype : m.type = .LIST) (hsz : m.datasz = 1)
    (hseg : m.seg = some b.seg) (hdata : m.data = some b) : m.IsBytes b m.len.toNat := by
  obtain ⟨hmember, hlen, hk⟩ := h
  simp only [htype, hsz] at hk
  have hplain : m.isCompositeList = false := by
    by_contra hc
    rw [if_pos (Bool.eq_true_of_not_eq_false hc)] at hk
    omega
  rw [if_neg (by rw [hplain]; exact Bool.false_ne_true)] at hk
  exact ⟨htype, hmember, hplain, hsz, hk.2.1, hseg, hdata, (Int.toNat_of_nonneg hlen).symm⟩

theorem Ptr.IsBytes.cost_eq {n : Nat} (h : t.IsBytes a n) : t.cost = n := by
  simp only [Ptr.cost, Ptr.extent, h.type, h.datasz, h.ptrs, h.len, Int.toNat_natCast]
  split <;> omega

/-- A reader with hops and budget gets what the slot points to. -/
theorem readPtr_paid {q : Ptr} {cost : Nat} {rem : Int} (hrem : rem ≠ 0)
    (hb : boundsOk c (some d.seg) (some ⟨d.seg, d.off⟩) 8) (hq : pointee c d = some (q, cost)) (ha : Affords c cost) :
    readPtr c (some d.seg) (some d) rem =
      ⟨{ c with traversalUsed := c.traversalUsed + cost }, q.withNesting rem, landingPads c d⟩ := by
  have heq := @readPtr_eq c d.seg d.off rem hrem hb
  rw [show (⟨d.seg, d.off⟩ : Addr) = d from rfl, hq] at heq
  rw [heq]
  exact if_pos ha

/-- A slot that points to a list of bytes reads as the text that they are. -/
theorem readsText_iff {n : Nat} (h : PointerSlot c p off d) (ht : t.IsBytes a n) (hq : pointee c d = some (t, n)) :
    ReadsText c p off (some bs) ↔
      Readable c p (bs.length + 1) ∧ n = bs.length + 1 ∧ c.read a (bs.length + 1) = bs ++ [0] := by
  constructor
  · rintro ⟨s, a', htype, hdata, hlen, hread, -⟩
    rw [h.getp] at htype hdata hlen
    rcases readPtr_cases c (some d.seg) (some d) (hopRemaining c p) with
      ⟨reads, e, -⟩ | ⟨s', o, q, cost, hhop, -, hd, -, hq', hpaid, e⟩
    · rw [e] at htype
      cases htype
    · cases hd
      cases hq.symm.trans hq'
      obtain ⟨k, v, hk⟩ := withNesting_eq t (hopRemaining c p)
      rw [e] at hdata hlen
      simp only [hk] at hdata hlen
      have ha : a = a' := Option.some.inj (ht.data.symm.trans hdata)
      have hn : n = bs.length + 1 := Int.ofNat_inj.mp (ht.len.symm.trans hlen)
      rw [hn] at hpaid
      rw [ha]
      exact ⟨⟨hhop, hpaid⟩, hn, hread⟩
  · rintro ⟨⟨hhop, hpaid⟩, hn, hread⟩
    rw [← hn] at hpaid
    have heq := readPtr_paid hhop h.bounds hq hpaid
    obtain ⟨k, v, hk⟩ := withNesting_eq t (hopRemaining c p)
    rw [hk] at heq
    have hlen : t.len = (bs.length + 1 : Nat) := by rw [ht.len, hn]
    have hnul : (c.seg a.seg).data (a.off + (t.len - 1)) = 0 := by
      have hread : (c.seg a.seg).data.read a.off (bs ++ [0]).length = bs ++ [0] := by
        rw [List.length_append]
        exact hread
      have hlast := Mem.read_eq_iff.mp hread bs.length (by rw [List.length_append]; exact Nat.lt_succ_self _)
      rw [List.getElem_concat_length rfl] at hlast
      rw [show a.off + (t.len - 1) = a.off + (bs.length : Nat) by omega]
      exact hlast
    have hone : t.len - 1 = (bs.length : Nat) := by omega
    have hne : t.len ≠ 0 := by omega
    simp only [ReadsText, capnGetText, h.getp, heq, textOf, ht.data]
    refine ⟨a.seg, a, ht.type, rfl, hlen, hread, fun default => ?_⟩
    rw [← hone, ← ht.seg]
    exact if_pos ⟨ht.type, ht.datasz, hne, hnul⟩

end

/-! ## Pointing to a list -/

section

variable {c : Capn} {p t : Ptr} {off : Int} {d : Addr} {s : Nat} {o : Int} {n : Nat}

theorem Ptr.IsBytes.not_empty {a : Addr} (h : t.IsBytes a n) : ¬ t.emptyStruct := fun he => by
  rw [Ptr.emptyStruct, h.type] at he
  cases he.1

/-- A pointer that there is no room for is refused, and nothing changes. -/
theorem writePtr_refused (ht : Stands c t s o) (hz : ¬ t.emptyStruct) (hl : ¬ Linkable c d.seg t) :
    writePtr c d.seg d t false = (-1, c) := by
  simp only [Linkable, not_or] at hl
  obtain ⟨hseg, htag, hpad, hroom, hnew⟩ := hl
  have hs : s ≠ d.seg := fun e => hseg (e ▸ ht.seg)
  have hpad : ¬ (c.seg s).len + 8 ≤ (c.seg s).cap := fun h => hpad ⟨s, ht.seg, h⟩
  have hnew : newData c 16 = none := Option.not_isSome_iff_eq_none.mp hnew
  rw [writePtr_pick ht hz, if_neg hs, writePtrFar, if_neg htag, if_neg hpad, if_neg hroom, hnew]

/-- The bytes of the list, once the pointer is stored. -/
theorem read_withPointer (ht : Stands c t s o) (hb : t.IsBytes ⟨s, o⟩ n) :
    (writePtr c d.seg d t false).2.read ⟨s, o⟩ n = (withPointer c d t ⟨s, o⟩).read ⟨s, o⟩ n := by
  have hlead : (t.lead : Int) = 0 := by rw [Ptr.lead, hb.plain]; rfl
  by_cases hs : s = d.seg
  · rw [writePtr_pick ht hb.not_empty, if_pos hs, withPointer, if_pos hs, hlead, Int.sub_zero, writePtrTag]
    cases ptrTag t (o - d.off - 8) <;> rfl
  · have hgrows := (writes_ptr c d.seg d t false).grows
    have hin := ht.inside
    have hpos := ht.lead
    have hext : t.extent = n := by
      simp only [Ptr.extent, hb.type, hb.datasz, hb.ptrs, hb.len, Int.toNat_natCast]
      omega
    rw [withPointer, if_neg hs]
    refine Mem.read_congr fun x hx => ?_
    show ((writePtr c d.seg d t false).2.seg s).data (o + x) = (c.seg s).data (o + x)
    refine hgrows.data s _ (by omega) (by omega) ?_
    rintro ⟨hk, -⟩
    exact hs hk

/-- The list is not where the slot is. -/
theorem withPointer_apart {a : Addr} (h : a.seg = d.seg → d.off + 8 ≤ a.off) (t : Ptr) (n : Nat) :
    (withPointer c d t a).read a n = c.read a n := by
  rw [withPointer]
  split
  · rename_i hs
    have hle := h hs
    cases ptrTag t (a.off - d.off - 8) with
    | none => rfl
    | some v =>
      refine Mem.read_congr fun x _ => ?_
      show (((c.setSeg d.seg _).seg a.seg).data) (a.off + x) = _
      rw [Capn.seg_setSeg]
      split
      · refine Mem.write_apply_of_ge ?_
        rw [length_toLe]
        omega
      · rfl
  · rfl

/-- **A pointer to a list of bytes** in the session, where there is room for it. -/
theorem link_reads (bs : List UInt8) (hc : Clean c) (hids : c.segs.length < 2 ^ 32) (h : PointerSlot c p off d) (ht : Stands c t s o)
    (hb : t.IsBytes ⟨s, o⟩ n) (hfront : ∀ x, Front t s o d.seg x → ¬ Slot d d.seg x) (hl : Linkable c d.seg t) :
    (writePtr c d.seg d t false).1 = 0 ∧ (ReadsText (writePtr c d.seg d t false).2 p off (some bs) ↔
      Readable c p (bs.length + 1) ∧ n = bs.length + 1 ∧
        (withPointer c d t ⟨s, o⟩).read ⟨s, o⟩ (bs.length + 1) = bs ++ [0]) := by
  obtain ⟨hok, hlen⟩ := writePtr_fits hc ht hb.not_empty h.inside hl
  obtain ⟨⟨⟨b, hq⟩, -⟩, -⟩ := writePtr_linked hc ht hb.not_empty h.inside hfront (Nat.le_trans hlen hids) hok
  refine ⟨hok, ?_⟩
  rw [hb.cost_eq] at hq
  have hb' : ({ t.bare with hasPtrTag := b } : Ptr).IsBytes ⟨s, o⟩ n :=
    ⟨hb.type, hb.member, hb.plain, hb.datasz, hb.ptrs, hb.seg, hb.data, hb.len⟩
  rw [readsText_iff (h.grows (writes_ptr c d.seg d t false).grows) hb' hq, (beside_ptr c d.seg d t false).readable]
  refine and_congr_right fun _ => and_congr_right fun hn => ?_
  rw [← hn, read_withPointer ht hb]

end

/-! ## Lists that are allocated -/

/-- The list as a reader sees it: its length is cut off to 29 bits. -/
def Ptr.cut (t : Ptr) : Ptr := { t with len := t.len % 2 ^ 29 }

section

variable {c : Capn} {t : Ptr} {s₀ n : Nat} {a : Addr}

theorem Ptr.IsBytes.cut (h : t.IsBytes a n) : t.cut.IsBytes a (n % 2 ^ 29) :=
  { h with len := by show t.len % 2 ^ 29 = _; rw [h.len]; omega }

theorem Ptr.IsBytes.shape (h : t.IsBytes a n) (hn : n < 2 ^ 29) : t.Shape := by
  have hlen := h.len
  refine ⟨h.member, by omega, ?_⟩
  simp only [h.type, h.plain, h.datasz, h.ptrs]
  exact ⟨by decide, trivial, by omega⟩

theorem Ptr.IsBytes.extent (h : t.IsBytes a n) : t.extent = n := by
  simp only [Ptr.extent, h.type, h.datasz, h.ptrs, h.len, Int.toNat_natCast]
  omega

theorem Ptr.IsBytes.lead_eq (h : t.IsBytes a n) : t.lead = 0 := by
  rw [Ptr.lead, h.plain]
  rfl

/-- The word of a list has no more of its length. -/
theorem ptrTag_cut (h : t.IsBytes a n) (off : Int) : ptrTag t.cut off = ptrTag t off := by
  simp only [ptrTag, Ptr.cut, h.type, h.plain, lengthBits, Int.emod_emod_of_dvd t.len (Int.dvd_refl (2 ^ 29)),
    reduceCtorEq, if_false, Bool.false_eq_true]

theorem writePtr_cut (h : t.IsBytes a n) (c : Capn) (s : Nat) (d : Addr) (foreign : Bool) :
    writePtr c s d t.cut foreign = writePtr c s d t foreign := by
  simp only [writePtr, writePtrFar, writePtrTag, ptrTag_cut h]
  rfl

/-- `new_object` finds room, in the segment or elsewhere with a tag, or does nothing. -/
theorem newObject_room {p : Ptr} (hseg : p.seg = some s₀) (hn : n ≠ 0) :
    (HasRoom c s₀ n ∧ (∃ a, (newObject c p n).2.data = some a) ∧ (newObject c p n).1.segs.length ≤ c.segs.length + 1 ∧
      ((newObject c p n).2.seg = some s₀ ∨ (newObject c p n).2.hasPtrTag = true)) ∨
    (¬ HasRoom c s₀ n ∧ newObject c p n = (c, {})) := by
  simp only [newObject, hseg, if_neg hn]
  by_cases hroom : (c.seg s₀).len + (n + 7) / 8 * 8 ≤ (c.seg s₀).cap
  · rw [if_pos hroom]
    refine .inl ⟨.inl hroom, ⟨_, rfl⟩, ?_, .inl rfl⟩
    rw [bump, Capn.length_setSeg]
    exact Nat.le_succ _
  · rw [if_neg hroom]
    cases hnew : newData c ((n + 7) / 8 * 8 + 8) with
    | none =>
      refine .inr ⟨not_or.mpr ⟨hroom, ?_⟩, rfl⟩
      rw [hnew]
      exact Bool.false_ne_true
    | some r =>
      obtain ⟨c', s, b⟩ := r
      obtain ⟨v, hv⟩ := ptrTag_zero { p with seg := some s, data := some b }
      simp only [writePtrTag, hv, Option.map_some]
      refine .inl ⟨.inr ?_, ⟨_, rfl⟩, ?_, .inr trivial⟩
      · rw [hnew]
        rfl
      · rw [Capn.store64, Capn.length_write]
        rcases newData_cases hnew with ⟨-, -, rfl, -⟩ | ⟨_, _, -, -, -, rfl, -⟩
        · rw [bump, Capn.length_setSeg]
          exact Nat.le_succ _
        · simp [bump, capnAppendSegment]

/-- What `new_object` makes of a list of bytes. -/
structure NewBytes (c : Capn) (s₀ n : Nat) (c' : Capn) (t : Ptr) (s : Nat) (o : Int) : Prop where
  bytes : t.IsBytes ⟨s, o⟩ n
  stands : Stands c' t.cut s o
  inside : o + n ≤ (c'.seg s).len
  cleaner : Cleaner c c'
  keeps : Keeps c c'
  beside : Beside c c'
  fresh : ((c.seg s).len : Int) + t.pre ≤ o
  near : s = s₀ ∨ t.hasPtrTag = true
  ids : c'.segs.length ≤ c.segs.length + 1

theorem newObject_bytes (hc : Clean c) (hs : s₀ < c.segs.length) (hn : n ≠ 0) (hroom : HasRoom c s₀ n) :
    ∃ s o, NewBytes c s₀ n (newObject c { type := .LIST, seg := some s₀, len := n, datasz := 1 } n).1
      (newObject c { type := .LIST, seg := some s₀, len := n, datasz := 1 } n).2 s o := by
  have hp : ({ type := .LIST, seg := some s₀, data := some ⟨s₀, 0⟩, len := n, datasz := 1 } : Ptr).IsBytes ⟨s₀, 0⟩ n :=
    ⟨rfl, rfl, rfl, rfl, rfl, rfl, rfl, rfl⟩
  have hv : ∀ v, ptrTag { type := .LIST, seg := some s₀, len := n, datasz := 1 } 0 = some v → v < 2 ^ 64 := by
    intro v hv
    refine ptrTag_lt (hp.cut.shape (Nat.mod_lt _ (by decide))) ⟨by rintro ⟨⟩, by rintro ⟨⟩, by rintro ⟨⟩⟩ ?_
    rw [ptrTag_cut hp]
    exact (ptrTag_congr 0 rfl rfl rfl rfl rfl).trans hv
  obtain ⟨hcl, hq⟩ := newObject_located (n := n) hc (p := { type := .LIST, seg := some s₀, len := n, datasz := 1 }) rfl hs
    rfl hv
  have hmade := (made_object c { type := .LIST, seg := some s₀, len := n, datasz := 1 } n).keeps
  have hbeside := beside_object c { type := .LIST, seg := some s₀, len := n, datasz := 1 } n
  obtain ⟨-, ⟨a, ha⟩, hids, hnear⟩ | ⟨hno, -⟩ := newObject_room (c := c)
    (p := { type := .LIST, seg := some s₀, len := n, datasz := 1 }) rfl hn
  swap
  · exact absurd hroom hno
  obtain ⟨s, lo, hl⟩ := hq.resolve_left fun e => by
    rw [e] at ha
    cases ha
  have hptr := hl.ptr
  have hlen := hl.len
  have hfresh := hl.fresh
  have hpad := hl.pad
  have hlt := hl.lt
  have haligned := hl.aligned
  generalize (newObject c { type := .LIST, seg := some s₀, len := n, datasz := 1 } n).2 = t at *
  generalize (newObject c { type := .LIST, seg := some s₀, len := n, datasz := 1 } n).1 = c' at *
  generalize hb : t.hasPtrTag = b at hptr hfresh hpad
  have ht : t.IsBytes ⟨s, lo⟩ n := by
    rw [hptr]
    exact ⟨rfl, rfl, rfl, rfl, rfl, rfl, rfl, rfl⟩
  have hpre : t.pre = if b then 8 else 0 := by rw [Ptr.pre, ht.lead_eq, hb, Nat.zero_add]
  have hcut : t.cut.extent ≤ n := by
    rw [ht.cut.extent]
    exact Nat.mod_le _ _
  have hlead : (t.cut.lead : Int) = 0 := by rw [ht.cut.lead_eq]; rfl
  refine ⟨s, lo, ht, ⟨ht.cut.shape (Nat.mod_lt _ (by decide)), ?_, ht.seg, ht.data, hlt, ?_, ?_, ?_, ?_, ?_⟩, ?_, hcl, hmade,
    hbeside, ?_, ?_, hids⟩
  · rw [Ptr.IsObject, show t.cut.type = .LIST from ht.type]
    exact ⟨by rintro ⟨⟩, by rintro ⟨⟩, by rintro ⟨⟩⟩
  · rw [hlead]
    exact Int.natCast_nonneg lo
  · omega
  · omega
  · intro hc
    rw [show t.cut.isCompositeList = false from ht.plain] at hc
    cases hc
  · intro htag
    have hb1 : b = true := hb.symm.trans htag
    rw [if_pos hb1] at hfresh
    refine ⟨by omega, ?_⟩
    rw [hlead, Int.sub_zero, ← hpad hb1, ptrTag_cut ht, hptr]
    exact ptrTag_congr 0 rfl rfl rfl rfl rfl
  · omega
  · rw [hpre]
    omega
  · refine hnear.imp_left fun e => ?_
    rw [ht.seg] at e
    exact Option.some.inj e

/-- **A string** that there is room for: its bytes and a NUL. -/
theorem newString_spec {bs : List UInt8} (hc : Clean c) (hs : s₀ < c.segs.length) (hroom : HasRoom c s₀ (bs.length + 1)) :
    ∃ s o, NewBytes c s₀ (bs.length + 1) (capnNewString c (some s₀) bs).1 (capnNewString c (some s₀) bs).2 s o ∧
      (capnNewString c (some s₀) bs).1.read ⟨s, o⟩ (bs.length + 1) = bs ++ [0] := by
  obtain ⟨s, o, h⟩ := newObject_bytes hc hs (Nat.succ_ne_zero bs.length) hroom
  have hdata := h.bytes.data
  have hlen : (bs ++ [0]).length = bs.length + 1 := List.length_append
  have hfresh := h.fresh
  have hinside := h.inside
  have hlt := h.stands.lt
  simp only [capnNewString]
  generalize newObject c _ (bs.length + 1) = r at *
  obtain ⟨c', t⟩ := r
  simp only at hdata hlt hinside hfresh ⊢
  rw [hdata]
  have hin : (⟨s, o⟩ : Addr).off + (bs ++ [0]).length ≤ (c'.seg (⟨s, o⟩ : Addr).seg).len := by
    rw [hlen]
    exact hinside
  have hgrows : Grows (fun k x => k = s ∧ o ≤ x) c' (c'.write ⟨s, o⟩ (bs ++ [0])) :=
    (Grows.refl _ _).write fun x h1 _ => .inr ⟨rfl, h1⟩
  have hsegs : (c'.write ⟨s, o⟩ (bs ++ [0])).segs.length = c'.segs.length := Capn.length_write _ _ _
  refine ⟨s, o, ⟨h.bytes, ?_, ?_, ?_, ?_, ?_, hfresh, h.near, ?_⟩, ?_⟩
  · refine h.stands.grows hgrows (Nat.le_of_eq hsegs.symm) ?_
    rintro k x ⟨rfl, -, h1⟩ ⟨-, h2⟩
    omega
  · simp only [Capn.len_write]
    exact hinside
  · exact ⟨h.cleaner.clean.write hin, by rw [hsegs]; exact h.cleaner.segs⟩
  · refine h.keeps.write fun x (h1 : o ≤ x) _ => .inl ?_
    show ((c.seg s).len : Int) ≤ x
    omega
  · exact h.beside.trans ⟨rfl, rfl, rfl, rfl, rfl⟩
  · rw [hsegs]
    exact h.ids
  · rw [← hlen]
    show ((c'.setSeg s _).seg s).data.read o (bs ++ [0]).length = bs ++ [0]
    rw [Capn.seg_setSeg_self _ hlt]
    exact Mem.read_write_same _ _ _

end

end Capnproto

import Capnproto.Object.Bytes

/-!
# Text

`capn_set_text` makes a list of a text outside of any segment, and hands a text in a segment to `capn_setp` as the
list that it is. The slot then reads as the text, or the call fails and does not turn it into null (`SetsText`),
unless the list is refused and null is stored in its place; `setsText_iff` says when.
-/

namespace Capnproto

/-! ## The property -/

/-- The bytes of a text; null has none. -/
def AnyText.bytes (w : World) : AnyText → Option (List UInt8)
  | .null => none
  | .literal str len => some (stringBytes str len)
  | .within j t => t.str.map fun a => (w j).read a t.len.toNat

/-- `capn_set_text` returns. If it returns zero, the slot `d` reads as the text; otherwise it has not been turned into
null. -/
def SetsText (w : World) (i : Nat) (p : Ptr) (off : Int) (d : Addr) (tgt : AnyText) : Prop :=
  ∃ r : Int × World, (∃ fuel, capnSetText fuel w i p off tgt = some r) ∧
    (r.1 = 0 → ReadsText (r.2 i) p off (tgt.bytes w)) ∧ (r.1 ≠ 0 → (w i).load64 d ≠ 0 → (r.2 i).load64 d ≠ 0)

/-- A text that `capn_get_text` returns, in a segment of `c`: `n` bytes at `a`, and a NUL. -/
structure Text.Returned (c : Capn) (t : Text) (a : Addr) (n : Nat) : Prop where
  eq : t = ⟨n, some a, some a.seg⟩
  stands : Stands c t.list a.seg a.off
  nul : (c.seg a.seg).data (a.off + n) = 0

/-- A text that a caller can have. A length, with the NUL, is an `int`. -/
def AnyText.Valid (w : World) : AnyText → Prop
  | .null => True
  | .literal str len => (stringBytes str len).length < INT_MAX
  | .within j t => ∃ a n, t.Returned (w j) a n

/-- A session as the library keeps it, with the copies of its index where they were made, away from the slot `d`. -/
structure Kept (c : Capn) (d : Addr) : Prop where
  clean : Clean c
  ids : c.segs.length + 2 ≤ 2 ^ 32
  copies : ∀ e ∈ c.copy, ∃ s o, Stands c e.toPtr s o ∧ (∀ x, Front e.toPtr s o d.seg x → ¬ Slot d d.seg x) ∧
    e.toPtr.type = e.fromPtr.type ∧ e.toPtr.len = e.fromPtr.len ∧ e.toPtr.datasz = e.fromPtr.datasz ∧
    e.toPtr.ptrs = e.fromPtr.ptrs

/-! ## The condition -/

/-- A pointer from the slot `d` to the list `t` cannot be stored, or whoever reads it finds `bs` and a NUL. -/
def LinkReads (c : Capn) (p : Ptr) (d : Addr) (t : Ptr) (bs : List UInt8) : Prop :=
  Linkable c d.seg t → Readable c p (bs.length + 1) ∧
    ∃ a, t.data = some a ∧ (withPointer c d t a).read a (bs.length + 1) = bs ++ [0]

/-- When `capn_set_text` keeps `tgt`. Bytes outside of any segment: they fit into a list, there is room, and whoever
reads the slot can. A text of the session: its list can be read through the slot, unless there is no room to point to
it. A text of another session: the same for the copy of its list in the index; without one, the new copy can be read
unless the index is full, or there is no room and the slot was null. -/
def TextFits (w : World) (i : Nat) (p : Ptr) (d : Addr) : AnyText → Prop
  | .null => True
  | .literal str len =>
    (stringBytes str len).length + 1 < 2 ^ 29 ∧ HasRoom (w i) d.seg ((stringBytes str len).length + 1) ∧
      Readable (w i) p ((stringBytes str len).length + 1)
  | .within j t =>
    let bs := ((AnyText.within j t).bytes w).getD []
    if i = j then LinkReads (w i) p d t.list bs
    else
      match findCopy (w i) j t.list with
      | .overlap => True
      | .copied t => LinkReads (w i) p d t bs
      | .free =>
        if HasRoom (w i) d.seg (bs.length + 1) then (newCopy (w i)).isSome = true → Readable (w i) p (bs.length + 1)
        else (w i).load64 d = 0

/-! ## What `capn_setp` does -/

section

variable {w : World} {i j : Nat} {p m : Ptr} {off : Int} {d : Addr}

theorem PointerSlot.setp (h : PointerSlot (w i) p off d) (hm : m.type ≠ .FAR_POINTER) :
    setpStart w i p off j m = setpSlot w i d.seg d j m := by
  rw [setpStart_target h.resolved hm]
  simp only [setpResolved]
  obtain ⟨b, hb, ⟨ht, hin, hd⟩ | ⟨ht, hin, hd⟩⟩ := h.cases
  · simp only [ht, if_neg hin, h.seg, hb, hd]
  · simp only [ht, if_neg hin, h.seg, hb, hd]

/-- The call is over before its loop. -/
theorem setp_over {r r' : Int × World} (h : PointerSlot (w i) p off d) (hm : m.type ≠ .FAR_POINTER)
    (hs : setpSlot w i d.seg d j m = .done r) : Setp w i p off j m r' ↔ r = r' :=
  setp_done ((h.setp hm).trans hs)

/-- The call has nothing left for its loop. -/
theorem setp_nothing {v : World} {r : Int × World} (h : PointerSlot (w i) p off d) (hm : m.type ≠ .FAR_POINTER)
    (hs : setpSlot w i d.seg d j m = .next ⟨v, []⟩) : Setp w i p off j m r ↔ (0, v) = r := by
  simp only [Setp, capnSetp, h.setp hm, hs]
  constructor
  · rintro ⟨fuel, hr⟩
    cases fuel with
    | zero => cases hr
    | succ n => exact Option.some.inj hr
  · rintro rfl
    exact ⟨1, rfl⟩

end

/-! ## Null, and bytes outside of any segment -/

section

variable {w : World} {i : Nat} {p : Ptr} {off : Int} {d : Addr} {tgt : AnyText}

/-- What the call returns decides. -/
theorem setsText_of {ret : Int} {v : World} {c : Capn} (hv : v i = c)
    (h : ∀ r, (∃ fuel, capnSetText fuel w i p off tgt = some r) ↔ (ret, v) = r) :
    SetsText w i p off d tgt ↔
      (ret = 0 → ReadsText c p off (tgt.bytes w)) ∧ (ret ≠ 0 → (w i).load64 d ≠ 0 → c.load64 d ≠ 0) := by
  subst hv
  constructor
  · rintro ⟨r, hr, hs⟩
    cases (h r).mp hr
    exact hs
  · exact fun hs => ⟨(ret, v), (h _).mpr rfl, hs⟩

/-- A pointer to an object of the session, or null, is stored or refused at once. -/
theorem setpSlot_same {m : Ptr} (h : (writePtr (w i) d.seg d m false).1 ≠ NEED_TO_COPY) :
    setpSlot w i d.seg d i m =
      .done ((writePtr (w i) d.seg d m false).1, w.set i (writePtr (w i) d.seg d m false).2) := by
  simp only [setpSlot, ne_eq, not_true_eq_false, decide_false]
  rw [if_pos h]

theorem writePtr_null (c : Capn) (d : Addr) : writePtr c d.seg d {} false = (0, c.store64 d 0) := rfl

theorem SlotIn.null (h : SlotIn (w i) d) : ((w i).store64 d 0).load64 d = 0 := load64_store64_self h.lt (by decide)

/-- A null pointer that is stored reads as null. -/
theorem setp_null (h : PointerSlot (w i) p off d) (r : Int × World) :
    Setp w i p off i {} r ↔ (0, w.set i ((w i).store64 d 0)) = r :=
  setp_over h nofun (setpSlot_same (show (0 : Int) ≠ NEED_TO_COPY by decide))

theorem PointerSlot.null (h : PointerSlot (w i) p off d) : PointerSlot ((w i).store64 d 0) p off d :=
  h.grows (P := Slot d) ((Grows.refl _ _).store64 (.inr fun _ h0 h1 => ⟨rfl, h0, h1⟩))

theorem setsText_null (h : PointerSlot (w i) p off d) : SetsText w i p off d .null := by
  have hset (r : Int × World) : (∃ fuel, capnSetText fuel w i p off .null = some r) ↔ _ := setp_null h r
  exact (setsText_of (World.set_self _ _ _) hset).mpr
    ⟨fun _ => readsText_null h.null h.inside.null, fun hne => absurd rfl hne⟩

/-- **Bytes outside of any segment**. -/
theorem setsText_literal {str : List UInt8} {len : Int} (hs : Kept (w i) d) (h : PointerSlot (w i) p off d) :
    SetsText w i p off d (.literal str len) ↔ TextFits w i p d (.literal str len) := by
  generalize hbs : stringBytes str len = bs
  have hbytes : (AnyText.literal str len).bytes w = some bs := congrArg some hbs
  have hset (r : Int × World) : (∃ fuel, capnSetText fuel w i p off (.literal str len) = some r) ↔
      Setp (w.set i (capnNewString (w i) (some d.seg) bs).1) i p off i (capnNewString (w i) (some d.seg) bs).2 r := by
    simp only [capnSetText, h.seg, hbs]
    exact Iff.rfl
  simp only [TextFits, hbs]
  by_cases hroom : HasRoom (w i) d.seg (bs.length + 1)
  · obtain ⟨s, o, hnew, hread⟩ := newString_spec hs.clean h.inside.lt hroom
    generalize (capnNewString (w i) (some d.seg) bs).2 = t at *
    generalize (capnNewString (w i) (some d.seg) bs).1 = c at *
    have hself : (w.set i c) i = c := World.set_self _ _ _
    have h' : PointerSlot c p off d := h.grows hnew.keeps
    have hin := h.inside.inside
    have hfresh := hnew.fresh
    have hids := hs.ids
    have hids' := hnew.ids
    have hfront : ∀ x, Front t.cut s o d.seg x → ¬ Slot d d.seg x := by
      rintro x ⟨hk, h1, -⟩ ⟨-, -, h2⟩
      have h1 : o - t.pre ≤ x := h1
      rw [hk] at hin
      omega
    have hl : Linkable c d.seg t.cut := by
      refine hnew.near.imp (fun e => ?_) .inl
      rw [← e]
      exact hnew.bytes.seg
    obtain ⟨hok, hiff⟩ := link_reads bs hnew.cleaner.clean (by omega) h' hnew.stands hnew.bytes.cut hfront hl
    rw [writePtr_cut hnew.bytes] at hok hiff
    have hover (r : Int × World) : (∃ fuel, capnSetText fuel w i p off (.literal str len) = some r) ↔
        ((writePtr c d.seg d t false).1, (w.set i c).set i (writePtr c d.seg d t false).2) = r := by
      rw [hset, setp_over (by rw [hself]; exact h') (by rw [hnew.bytes.type]; decide) (setpSlot_same ?_)]
      · rw [hself]
      · rw [hself, hok]
        decide
    have hmod : (bs.length + 1) % 2 ^ 29 = bs.length + 1 ↔ bs.length + 1 < 2 ^ 29 := by omega
    rw [setsText_of (World.set_self _ _ _) hover, hbytes, hok, hiff, hnew.beside.readable, hmod,
      withPointer_apart (fun e => ?_), hread]
    · constructor
      · rintro ⟨hr, -⟩
        obtain ⟨h1, h2, -⟩ := hr rfl
        exact ⟨h2, hroom, h1⟩
      · rintro ⟨h1, -, h2⟩
        exact ⟨fun _ => ⟨h2, h1, rfl⟩, fun hne => absurd rfl hne⟩
    · have e : s = d.seg := e
      rw [← e] at hin
      show d.off + 8 ≤ o
      omega
  · -- the string is refused, and null is stored
    have hnone : capnNewString (w i) (some d.seg) bs = (w i, {}) := by
      obtain ⟨hyes, -⟩ | ⟨-, e⟩ := newObject_room (c := w i)
        (p := { type := .LIST, seg := some d.seg, len := (bs.length + 1 : Nat), datasz := 1 }) rfl (Nat.succ_ne_zero bs.length)
      · exact absurd hyes hroom
      · simp only [capnNewString, e]
    rw [hnone] at hset
    simp only [World.set_eq] at hset
    rw [setsText_of (World.set_self _ _ _) fun r => (hset r).trans (setp_null h r), hbytes]
    refine iff_of_false ?_ fun hfit => hroom hfit.2.1
    rintro ⟨hreads, -⟩
    obtain ⟨s, a, htype, -⟩ := hreads rfl
    exact h.null.null_type h.inside.null htype

end

/-! ## Text in a segment -/

section

variable {w : World} {i j : Nat} {p : Ptr} {off : Int} {d a : Addr} {t : Text} {n : Nat}

theorem Text.Returned.isBytes {c : Capn} (h : t.Returned c a n) : t.list.IsBytes a (n + 1) := by
  rw [h.eq]
  exact ⟨rfl, rfl, rfl, rfl, rfl, rfl, rfl, by simp [Text.list]⟩

/-- The bytes of the text, and the NUL behind them. -/
theorem Text.Returned.read (h : t.Returned (w j) a n) : ∃ bs : List UInt8, (AnyText.within j t).bytes w = some bs ∧
    bs.length = n ∧ (w j).read a (n + 1) = bs ++ [0] := by
  refine ⟨(w j).read a n, ?_, length_capn_read _ _ _, ?_⟩
  · rw [h.eq]
    rfl
  · rw [Capn.read, Mem.read_add, ← h.nul]
    rfl

/-- **What `capn_get_text` returns**, if it is not the default. -/
theorem PointerSlot.getText {c : Capn} {p : Ptr} {off : Int} {d : Addr} (h : PointerSlot c p off d) (default : Text) :
    (capnGetText c p off default).2 = default ∨ ∃ a n, (capnGetText c p off default).2.Returned c a n := by
  simp only [capnGetText, h.getp, textOf]
  rcases readPtr_cases c (some d.seg) (some d) (hopRemaining c p) with ⟨reads, e, -⟩ | ⟨s, o, q, cost, -, -, hd, -, hq, -, e⟩
  · rw [e]
    exact .inl rfl
  rw [e]
  cases hd
  obtain ⟨k, v, hk⟩ := withNesting_eq q (hopRemaining c p)
  simp only [hk]
  cases hdata : q.data with
  | none => exact .inl rfl
  | some b =>
    simp only
    split
    swap
    · exact .inl rfl
    rename_i htext
    obtain ⟨htype, hsz, hlen, hnul⟩ := htext
    obtain ⟨hsh, ⟨s', o', hs', ho', hlead, hend⟩, -⟩ := (pointee_spec hq).resolve_left fun hi => by
      rw [htype] at hi
      cases hi.1
    cases hdata.symm.trans ho'
    have hpos := hsh.2.1
    have hb := hsh.isBytes htype hsz hs' hdata
    have ht : (Text.list ⟨q.len - 1, some ⟨s', o'⟩, some s'⟩).IsBytes ⟨s', o'⟩ q.len.toNat :=
      ⟨rfl, rfl, rfl, rfl, rfl, rfl, rfl, by
        show q.len - 1 + 1 = _
        omega⟩
    have hlt : q.len.toNat < 2 ^ 29 := by
      have hk := hsh.2.2
      simp only [htype, hb.plain] at hk
      have := hk.2.2
      omega
    rw [hb.extent] at hend
    rw [hb.lead_eq] at hlead
    rw [hs']
    refine .inr ⟨⟨s', o'⟩, (q.len - 1).toNat, ?_, ⟨ht.shape hlt, ⟨by rintro ⟨⟩, by rintro ⟨⟩, by rintro ⟨⟩⟩, rfl, rfl, ?_, ?_, ?_, ?_, by rintro ⟨⟩, by rintro ⟨⟩⟩, ?_⟩
    · rw [Int.toNat_of_nonneg (by omega)]
    · by_contra hk
      have h0 : (c.seg s').len = 0 := by rw [Capn.seg_of_ge (Nat.not_lt.mp hk)]
      omega
    · rw [ht.lead_eq]
      exact hlead
    · rw [ht.extent]
      exact hend
    · exact pointee_aligned h.inside.aligned hq hdata
    · rw [Int.toNat_of_nonneg (by omega)]
      exact hnul

/-- A pointer to a list, as far as there is room for it. -/
theorem link_trips {c : Capn} {m : Ptr} {s : Nat} {o : Int} {bs : List UInt8} (hc : Clean c)
    (hids : c.segs.length < 2 ^ 32) (h : PointerSlot c p off d) (hst : Stands c m s o)
    (hb : m.IsBytes ⟨s, o⟩ (bs.length + 1)) (hfront : ∀ x, Front m s o d.seg x → ¬ Slot d d.seg x) :
    (writePtr c d.seg d m false).1 ≠ NEED_TO_COPY ∧
      (((writePtr c d.seg d m false).1 = 0 → ReadsText (writePtr c d.seg d m false).2 p off (some bs)) ∧
        ((writePtr c d.seg d m false).1 ≠ 0 → c.load64 d ≠ 0 → (writePtr c d.seg d m false).2.load64 d ≠ 0) ↔
      LinkReads c p d m bs) := by
  by_cases hl : Linkable c d.seg m
  · obtain ⟨hok, hiff⟩ := link_reads bs hc hids h hst hb hfront hl
    refine ⟨by rw [hok]; decide, ?_⟩
    rw [hok, hiff]
    constructor
    · rintro ⟨hr, -⟩ _
      obtain ⟨h1, -, h2⟩ := hr rfl
      exact ⟨h1, _, hst.data, h2⟩
    · intro hr
      obtain ⟨h1, b, hdata, h2⟩ := hr hl
      cases hst.data.symm.trans hdata
      exact ⟨fun _ => ⟨h1, rfl, h2⟩, fun hne => absurd rfl hne⟩
  · rw [writePtr_refused hst hb.not_empty hl]
    exact ⟨(by decide : (-1 : Int) ≠ NEED_TO_COPY), iff_of_true
      ⟨fun h => absurd h (by decide : (-1 : Int) ≠ 0), fun _ h0 => h0⟩ fun h => absurd h hl⟩

/-- **Text of the session**. -/
theorem setsText_own (hs : Kept (w i) d) (h : PointerSlot (w i) p off d) (ht : t.Returned (w i) a n) :
    SetsText w i p off d (.within i t) ↔ TextFits w i p d (.within i t) := by
  obtain ⟨bs, hbytes, hlen, -⟩ := ht.read
  have hb := ht.isBytes
  rw [← hlen] at hb
  have hfront : ∀ x, Front t.list a.seg a.off d.seg x → ¬ Slot d d.seg x := by
    rintro x ⟨-, h1, h2⟩
    have hpre : t.list.pre = 0 := by
      rw [ht.eq]
      rfl
    rw [hpre] at h1
    omega
  obtain ⟨hne, hiff⟩ := link_trips hs.clean (by have := hs.ids; omega) h ht.stands hb hfront
  have hset (r : Int × World) : (∃ fuel, capnSetText fuel w i p off (.within i t) = some r) ↔ _ :=
    setp_over h (by rw [hb.type]; decide) (setpSlot_same hne)
  rw [setsText_of (World.set_self _ _ _) hset, hbytes, hiff]
  simp only [TextFits, hbytes, Option.getD_some, if_true]

/-- An object of another session is copied. -/
theorem setpSlot_foreign {m : Ptr} (hij : i ≠ j) (hb : m.IsBytes a n) :
    setpSlot w i d.seg d j m = afterCopy (copyPtr w i j d.seg d m) := by
  have hneed : writePtr (w i) d.seg d m true = (NEED_TO_COPY, w i) := by
    simp only [writePtr, hb.type, hb.data, hb.seg]
    rw [if_neg (by decide), if_neg (by rintro ⟨⟨⟩, _⟩), if_pos (.inl trivial)]
  simp only [setpSlot, decide_eq_true hij, hneed, World.set_eq]
  rfl

/-- What `copy_ptr` clones for a list of bytes. -/
theorem newClone_bytes {m : Ptr} (c : Capn) (s : Nat) (hb : m.IsBytes a n) :
    newClone c s m = newObject c { type := .LIST, seg := some s, len := n, datasz := 1 } n := by
  simp only [newClone, hb.type, hb.plain, hb.datasz, hb.ptrs, hb.len, Int.toNat_natCast, capnNewList]
  rw [if_neg (by decide), if_neg (by decide), if_neg (by decide), if_neg (by decide), Nat.mul_one]

theorem Ptr.IsBytes.not_zeroSized {m : Ptr} (hb : m.IsBytes a n) (hn : n ≠ 0) : ¬ m.zeroSized := by
  have hsize : dataSize m = n := by simp [dataSize, hb.type, hb.plain, hb.datasz, hb.ptrs, hb.len]
  rintro (h | ⟨h, -⟩)
  · simp only [Ptr.fend] at h
    omega
  · rw [hb.type] at h
    cases h

/-- An object with the fields of a list of bytes is one. -/
theorem Ptr.IsBytes.of_shape {m q : Ptr} {b : Addr} (hb : q.IsBytes a n) (hsh : m.Shape) (hseg : m.seg = some b.seg)
    (hdata : m.data = some b) (h : m.type = q.type ∧ m.len = q.len ∧ m.datasz = q.datasz ∧ m.ptrs = q.ptrs) :
    m.IsBytes b n := by
  obtain ⟨h1, h2, h3, -⟩ := h
  have hlen : m.len.toNat = n := by rw [h2, hb.len, Int.toNat_natCast]
  rw [← hlen]
  exact hsh.isBytes (h1.trans hb.type) (h3.trans hb.datasz) hseg hdata

/-- The body of a copy of a list of bytes. -/
theorem copyBody_bytes_eq {m q : Ptr} {b : Addr} (v : World) (hm : m.IsBytes b n) (hn : n ≠ 0) :
    copyBody v i j m q = ⟨0, memcpy v i (some b) j q.data n, none⟩ := by
  have hne : (n : Int) ≠ 0 := by omega
  simp [copyBody, hm.type, hm.len, hm.ptrs, hm.datasz, hm.data, hn]

/-- Without room for the clone, `copy_ptr` fails, and the slot is null. -/
theorem copyFresh_refused {m : Ptr} (hb : m.IsBytes a n) (hn : n ≠ 0) (hroom : ¬ HasRoom (w i) d.seg n) :
    ∃ c, copyFresh w i j d.seg d m = ⟨-1, w.set i c, none⟩ ∧ c.segs = ((w i).store64 d 0).segs := by
  have hclone : newClone (w i) d.seg m = (w i, {}) := by
    rw [newClone_bytes _ _ hb]
    obtain ⟨hyes, -⟩ | ⟨-, e⟩ := newObject_room (c := w i)
      (p := { type := .LIST, seg := some d.seg, len := n, datasz := 1 }) rfl hn
    · exact absurd hyes hroom
    · exact e
  have hlink : linkClone (w i) d.seg d m = (0, (w i).store64 d 0) := by
    rw [linkClone, hclone]
    rfl
  rcases copyFresh_cases w i j d.seg d m with ⟨e, -⟩ | ⟨-, hz, -⟩ | ⟨-, -, c, hnew, e⟩
  · rw [hlink] at e
    exact ⟨_, e, rfl⟩
  · exact absurd hz (hb.not_zeroSized hn)
  · rw [hlink] at hnew
    rw [hclone] at e
    exact ⟨_, e, (newCopy_copy hnew).1⟩

/-- A clone that there is room for is linked; without room in the index that is all. -/
theorem linkClone_bytes {m : Ptr} (hs : Kept (w i) d) (h : PointerSlot (w i) p off d) (hb : m.IsBytes a n) (hn : n ≠ 0)
    (hlt : n < 2 ^ 29) (hroom : HasRoom (w i) d.seg n) :
    (linkClone (w i) d.seg d m).1 = 0 ∧ Beside (w i) (linkClone (w i) d.seg d m).2 ∧
      (linkClone (w i) d.seg d m).2.segs.length ≤ 2 ^ 32 ∧ (linkClone (w i) d.seg d m).2.load64 d ≠ 0 ∧
      ∃ s o, NewBytes (w i) d.seg n (newClone (w i) d.seg m).1 (newClone (w i) d.seg m).2 s o := by
  rw [linkClone, newClone_bytes _ _ hb]
  obtain ⟨s, o, hnew⟩ := newObject_bytes hs.clean h.inside.lt hn hroom
  generalize (newObject (w i) _ n).2 = t at *
  generalize (newObject (w i) _ n).1 = c at *
  have hin := h.inside.inside
  have hfresh := hnew.fresh
  have hids := hs.ids
  have hids' := hnew.ids
  have hd : SlotIn c d := h.inside.grows hnew.keeps
  have hcut : t.cut = t := by
    have hlen := hnew.bytes.len
    have hmod : t.len % 2 ^ 29 = t.len := by omega
    rw [Ptr.cut, hmod]
  have hst := hnew.stands
  rw [hcut] at hst
  have hfront : ∀ x, Front t s o d.seg x → ¬ Slot d d.seg x := by
    rintro x ⟨hk, h1, -⟩ ⟨-, -, h2⟩
    rw [hk] at hin
    omega
  have hl : Linkable c d.seg t := by
    refine hnew.near.imp (fun e => ?_) .inl
    rw [← e]
    exact hnew.bytes.seg
  obtain ⟨hok, hlen⟩ := writePtr_fits hnew.cleaner.clean hst hnew.bytes.not_empty hd hl
  obtain ⟨⟨⟨b, hq⟩, -⟩, -⟩ :=
    writePtr_linked hnew.cleaner.clean hst hnew.bytes.not_empty hd hfront (by omega) hok
  refine ⟨hok, hnew.beside.trans (beside_ptr _ _ _ _ _), by omega, fun h0 => ?_, s, o, hnew⟩
  -- the slot points to a list, and is not null
  have hd' : SlotIn (writePtr c d.seg d t false).2 d := hd.grows (writes_ptr _ _ _ _ _).grows
  rw [pointee_zero hd' h0] at hq
  have htype : _ = t.type := congrArg (fun q => q.1.type) (Option.some.inj hq)
  rw [hnew.bytes.type] at htype
  cases htype

/-- A copy of a list of bytes, where there is room for it and for its entry of the index. -/
theorem copyFresh_bytes {m : Ptr} (hs : Kept (w i) d) (h : PointerSlot (w i) p off d) (hb : m.IsBytes a n) (hn : n ≠ 0)
    (hlt : n < 2 ^ 29) (hroom : HasRoom (w i) d.seg n) (hindex : (newCopy (w i)).isSome = true) :
    ∃ v, copyFresh w i j d.seg d m = ⟨0, v, none⟩ ∧ (v i).segs.length ≤ 2 ^ 32 ∧
      (Readable (v i) p n ↔ Readable (w i) p n) := by
  obtain ⟨hok, hbeside, hids, -, s, o, hnew⟩ := linkClone_bytes hs h hb hn hlt hroom
  rcases copyFresh_cases w i j d.seg d m with ⟨-, hno | ⟨-, -, hno⟩⟩ | ⟨-, hz, -⟩ | ⟨-, -, c, hc, e⟩
  · exact absurd hok hno
  · rw [← hbeside.newCopy, hno] at hindex
    cases hindex
  · exact absurd hz (hb.not_zeroSized hn)
  rw [copyBody_bytes_eq _ hnew.bytes hn, hb.data] at e
  obtain ⟨l, rfl⟩ := newCopy_only hc
  refine ⟨_, e, ?_, ?_⟩ <;> rw [memcpy_eq, World.set_self]
  · rw [Capn.length_write]
    exact hids
  · exact hbeside.readable p n

/-- It reads as the text that it is a copy of. -/
theorem copyFresh_reads {m : Ptr} {bs : List UInt8} (hs : Kept (w i) d) (h : PointerSlot (w i) p off d) (hij : i ≠ j)
    (hst : Stands (w j) m a.seg a.off) (hb : m.IsBytes a (bs.length + 1)) (hread : (w j).read a (bs.length + 1) = bs ++ [0])
    (hlt : bs.length + 1 < 2 ^ 29) (hroom : HasRoom (w i) d.seg (bs.length + 1)) (hindex : (newCopy (w i)).isSome = true) :
    ∃ v, copyFresh w i j d.seg d m = ⟨0, v, none⟩ ∧
      (ReadsText (v i) p off (some bs) ↔ Readable (w i) p (bs.length + 1)) := by
  obtain ⟨v, e, hids, hsame⟩ := copyFresh_bytes (j := j) hs h hb (Nat.succ_ne_zero _) hlt hroom hindex
  refine ⟨v, e, ?_⟩
  have hcopied := copyFresh_begun (i := i) (j := j) (a := d) hs.clean h.inside (hst.shape.whole hst.obj)
    (fun hbit => by rw [hb.type] at hbit; cases hbit.1) hb.data (by rw [e]) (by rw [e]; exact hids)
  rw [e] at hcopied
  obtain ⟨mid, t, k, x, hB⟩ := hcopied
  have ht : t.IsBytes ⟨k, x⟩ (bs.length + 1) := hb.of_shape hB.stands.shape hB.stands.seg hB.stands.data hB.fields
  have hbare : ¬ m.Bare := fun hbare => hbare.1 0 (by
    simp only [Ptr.DataAt, hb.type, hb.len, hb.datasz]
    exact ⟨0, 0, by omega, by omega, by simp⟩)
  obtain ⟨c₁, -, -, hpts⟩ := hB.points
  obtain ⟨q, cost, hq, ⟨h1, h2, h3, h4, hq'⟩, -⟩ := hpts (fun b _ => b = t.data) (.inr rfl)
  have hqdata : q.data = some ⟨k, x⟩ := (hq'.resolve_left hbare).trans ht.data
  obtain ⟨hsh, ⟨s', o', hs', ho', -⟩, hcost⟩ := (pointee_spec hq).resolve_left fun hi => by
    rw [h1, hb.type] at hi
    cases hi.1
  have hqb : q.IsBytes ⟨k, x⟩ (bs.length + 1) := by
    cases ho'.symm.trans hqdata
    exact hb.of_shape hsh hs' hqdata ⟨h1, h2, h3, h4⟩
  have hqcost : cost = bs.length + 1 := hcost.trans hqb.cost_eq
  rw [hqcost] at hq
  -- it has the bytes of the text
  have hbytes : ∀ v : World, Begun w i j d m ⟨0, v, none⟩ mid t k x →
      (v i).read ⟨k, x⟩ (bs.length + 1) = (w j).read a (bs.length + 1) := by
    intro v hB
    have hbody : t.bodyBytes = bs.length + 1 := by
      simp [Ptr.bodyBytes, ht.type, ht.ptrs, ht.datasz, ht.len]
    refine Mem.read_congr fun y hy => ?_
    have hbyte := hB.bytes a y hb.data (by omega) (by omega)
    rw [World.set, if_neg (Ne.symm hij)] at hbyte
    exact hbyte
  rw [readsText_iff (h.grows hB.grows) hqb hq, hbytes _ hB, hread, hsame]
  exact and_iff_left ⟨rfl, rfl⟩

/-- **Text of another session** that the index has no copy of. -/
theorem fresh_trips {bs : List UInt8} (hs : Kept (w i) d) (h : PointerSlot (w i) p off d) (hij : i ≠ j)
    (ht : t.Returned (w j) a n) (hbytes : (AnyText.within j t).bytes w = some bs) (hlen : bs.length = n)
    (hread : (w j).read a (n + 1) = bs ++ [0]) (hfree : findCopy (w i) j t.list = .free) :
    SetsText w i p off d (.within j t) ↔
      if HasRoom (w i) d.seg (bs.length + 1) then (newCopy (w i)).isSome = true → Readable (w i) p (bs.length + 1)
      else (w i).load64 d = 0 := by
  have hb := ht.isBytes
  rw [← hlen] at hb hread
  have hne : t.list.type ≠ .FAR_POINTER := by
    rw [hb.type]
    decide
  have hneg : (-1 : Int) ≠ 0 := by decide
  have hcopy : setpSlot w i d.seg d j t.list = afterCopy (copyFresh w i j d.seg d t.list) := by
    rw [setpSlot_foreign hij hb, copyPtr, hfree]
  -- a copy that fails leaves the slot as it is then
  have hfail : ∀ c, copyFresh w i j d.seg d t.list = ⟨-1, w.set i c, none⟩ →
      (SetsText w i p off d (.within j t) ↔ ((w i).load64 d ≠ 0 → c.load64 d ≠ 0)) := by
    intro c e
    have hset (r : Int × World) : (∃ fuel, capnSetText fuel w i p off (.within j t) = some r) ↔ (-1, w.set i c) = r :=
      setp_over h hne (by rw [hcopy, e]; rfl)
    rw [setsText_of (World.set_self _ _ _) hset]
    simp only [hneg, false_implies, true_and, ne_eq, not_false_eq_true, true_implies]
  by_cases hroom : HasRoom (w i) d.seg (bs.length + 1)
  · have hlt : bs.length + 1 < 2 ^ 29 := by
      have hk := ht.stands.shape.2.2
      simp only [hb.type, hb.plain, hb.len] at hk
      have := hk.2.2
      omega
    rw [if_pos hroom]
    by_cases hindex : (newCopy (w i)).isSome = true
    · obtain ⟨v, e, hiff⟩ := copyFresh_reads hs h hij ht.stands hb hread hlt hroom hindex
      have hset (r : Int × World) : (∃ fuel, capnSetText fuel w i p off (.within j t) = some r) ↔ (0, v) = r :=
        setp_nothing h hne (by rw [hcopy, e]; rfl)
      rw [setsText_of rfl hset, hbytes, hiff]
      exact ⟨fun hr _ => hr.1 rfl, fun hr => ⟨fun _ => hr hindex, fun hne => absurd rfl hne⟩⟩
    · obtain ⟨hok, hbeside, -, hload, -⟩ := linkClone_bytes hs h hb (Nat.succ_ne_zero _) hlt hroom
      have e : copyFresh w i j d.seg d t.list = ⟨-1, w.set i (linkClone (w i) d.seg d t.list).2, none⟩ := by
        rcases copyFresh_cases w i j d.seg d t.list with ⟨e, -⟩ | ⟨-, hz, -⟩ | ⟨-, -, c, hc, -⟩
        · exact e
        · exact absurd hz (hb.not_zeroSized (Nat.succ_ne_zero _))
        · rw [← hbeside.newCopy, hc] at hindex
          exact absurd rfl hindex
      rw [hfail _ e]
      exact iff_of_true (fun _ => hload) fun hi => absurd hi hindex
  · obtain ⟨c, e, hsegs⟩ := copyFresh_refused (j := j) hb (Nat.succ_ne_zero _) hroom
    have hnull : c.load64 d = 0 := by
      rw [Capn.load64, Capn.seg, hsegs]
      exact h.inside.null
    rw [if_neg hroom, hfail c e, hnull]
    omega

/-- A copy that the index has. -/
theorem copied_mem {c : Capn} {f m : Ptr} (h : findCopy c j f = .copied m) :
    ∃ e ∈ c.copy, e.toPtr = m ∧ isPtrEqual f e.fromPtr = true := by
  have hall : c.copy = c.copy ++ ({} : Capn).copy := (List.append_nil _).symm
  rcases (findCopy_split hall h).2 with he | hnone
  · exact he
  · simp only [findCopy, List.find?_nil] at hnone
    split at hnone <;> cases hnone

/-- **Text of another session**. -/
theorem setsText_foreign (hs : Kept (w i) d) (h : PointerSlot (w i) p off d) (hij : i ≠ j) (ht : t.Returned (w j) a n) :
    SetsText w i p off d (.within j t) ↔ TextFits w i p d (.within j t) := by
  obtain ⟨bs, hbytes, hlen, hread⟩ := ht.read
  have hb := ht.isBytes
  simp only [TextFits, hbytes, Option.getD_some, if_neg hij]
  cases hfind : findCopy (w i) j t.list with
  | free => exact fresh_trips hs h hij ht hbytes hlen hread hfind
  | overlap =>
    have hset (r : Int × World) : (∃ fuel, capnSetText fuel w i p off (.within j t) = some r) ↔ (-1, w) = r := by
      refine setp_over h (by rw [hb.type]; decide) ?_
      rw [setpSlot_foreign hij hb, copyPtr, hfind]
      rfl
    rw [setsText_of rfl hset]
    exact iff_of_true ⟨fun h => absurd h (by decide : (-1 : Int) ≠ 0), fun _ h0 => h0⟩ trivial
  | copied m =>
    obtain ⟨e, he, rfl, heq⟩ := copied_mem hfind
    obtain ⟨s, o, hst, hfront, hfields⟩ := hs.copies e he
    have hm : e.toPtr.IsBytes ⟨s, o⟩ (bs.length + 1) := by
      simp only [isPtrEqual, Bool.and_eq_true, decide_eq_true_eq] at heq
      obtain ⟨⟨⟨⟨-, h1⟩, h2⟩, h3⟩, h4⟩ := heq
      obtain ⟨h5, h6, h7, h8⟩ := hfields
      rw [hlen]
      exact hb.of_shape hst.shape hst.seg hst.data
        ⟨h5.trans h1.symm, h6.trans h2.symm, h7.trans h3.symm, h8.trans h4.symm⟩
    obtain ⟨hne, hiff⟩ := link_trips hs.clean (by have := hs.ids; omega) h hst hm hfront
    have hcopy : copyPtr w i j d.seg d t.list = ⟨(writePtr (w i) d.seg d e.toPtr false).1,
        w.set i (writePtr (w i) d.seg d e.toPtr false).2, none⟩ := by
      rw [copyPtr, hfind]
    show _ ↔ LinkReads (w i) p d e.toPtr bs
    rw [← hiff]
    by_cases hok : (writePtr (w i) d.seg d e.toPtr false).1 = 0
    · have hset (r : Int × World) : (∃ fuel, capnSetText fuel w i p off (.within j t) = some r) ↔ _ :=
        setp_nothing (v := w.set i (writePtr (w i) d.seg d e.toPtr false).2) (r := r) h (by rw [hb.type]; decide) (by
          rw [setpSlot_foreign hij hb, hcopy, hok]
          rfl)
      rw [setsText_of (World.set_self _ _ _) hset, hbytes, hok]
    · have hset (r : Int × World) : (∃ fuel, capnSetText fuel w i p off (.within j t) = some r) ↔
          (-1, w.set i (writePtr (w i) d.seg d e.toPtr false).2) = r := by
        refine setp_over h (by rw [hb.type]; decide) ?_
        rw [setpSlot_foreign hij hb, hcopy, afterCopy, if_pos hok]
      rw [setsText_of (World.set_self _ _ _) hset, hbytes]
      have hneg : (-1 : Int) ≠ 0 := by decide
      simp only [hok, hneg, false_implies, true_and, ne_eq, not_false_eq_true, true_implies]

/-- **Text**, from anywhere: what `capn_set_text` does with it. -/
theorem setsText_iff {tgt : AnyText} (hs : Kept (w i) d) (h : PointerSlot (w i) p off d) (ht : tgt.Valid w) :
    SetsText w i p off d tgt ↔ TextFits w i p d tgt := by
  cases tgt with
  | null => exact iff_of_true (setsText_null h) trivial
  | literal str len => exact setsText_literal hs h
  | within j t =>
    obtain ⟨a, n, ht⟩ := ht
    by_cases hij : i = j
    · subst hij
      exact setsText_own hs h ht
    · exact setsText_foreign hs h hij ht

end

/-- A session without a way to make segments: a root struct of one pointer, which is null. -/
def leaflet (cap : Nat) : Capn := { segs := [⟨Mem.zero.write 0 [0, 0, 0, 0, 0, 0, 1, 0], 16, cap⟩] }

/-- Its root. -/
def leafletRoot : Ptr := { type := .STRUCT, ptrs := 1, seg := some 0, data := some ⟨0, 8⟩ }

theorem leaflet_kept {cap : Nat} (h : 16 ≤ cap) (hcap : cap < 2 ^ 32) : Kept (leaflet cap) ⟨0, 8⟩ := by
  have hseg : ∀ k, (leaflet cap).seg k = (leaflet cap).seg 0 ∨ (leaflet cap).seg k = ⟨Mem.zero, 0, 0⟩ := by
    intro k
    cases k with
    | zero => exact .inl rfl
    | succ k =>
      have hk : (leaflet cap).segs.length ≤ k + 1 := Nat.le_add_left 1 k
      exact .inr (Capn.seg_of_ge hk)
  refine ⟨⟨nofun, fun k => ?_, fun k => ?_, fun k => ?_, fun k x h0 h1 => ?_⟩, ?_, fun e he => ?_⟩
  · rcases hseg k with e | e <;> rw [e]
    · exact (by decide : 8 ∣ 16)
    · exact (by decide : 8 ∣ 0)
  · rcases hseg k with e | e
    · rw [e]
      exact h
    · simp only [e, Nat.le_refl]
  · rcases hseg k with e | e <;> rw [e]
    · exact hcap
    · exact (by decide : 0 < 2 ^ 32)
  · rcases hseg k with e | e <;> rw [e] at h0 ⊢
    · have h0 : (16 : Int) ≤ x := h0
      refine Mem.write_apply_of_ge ?_
      show (0 : Int) + (8 : Nat) ≤ x
      omega
    · rfl
  · exact (by decide : 1 + 2 ≤ 2 ^ 32)
  · exact absurd he List.not_mem_nil

theorem leaflet_slot (cap : Nat) : PointerSlot (leaflet cap) leafletRoot 0 ⟨0, 8⟩ :=
  ⟨.inl rfl, ⟨by decide, by decide⟩, rfl, rfl, ⟨by decide, by decide, Int.le_refl 16⟩⟩

/-- A text and its NUL that there is room for. -/
theorem setsText_leaflet : SetsText (fun _ => leaflet 24) 0 leafletRoot 0 ⟨0, 8⟩ (.literal [104, 105, 0] (-1)) := by
  have hvalid : (AnyText.literal [104, 105, 0] (-1)).Valid fun _ => leaflet 24 := by
    show (stringBytes [104, 105, 0] (-1)).length < INT_MAX
    decide
  have hfits : TextFits (fun _ => leaflet 24) 0 leafletRoot ⟨0, 8⟩ (.literal [104, 105, 0] (-1)) :=
    ⟨by decide, .inl (by decide), by decide, by decide⟩
  have hkept : Kept (leaflet 24) ⟨0, 8⟩ := leaflet_kept (by decide) (by decide)
  exact (setsText_iff (w := fun _ => leaflet 24) hkept (leaflet_slot 24) hvalid).mpr hfits

/-- Without room for it, null is stored. -/
theorem setsText_full : ¬ ∀ (w : World) (i : Nat) (p : Ptr) (off : Int) (d : Addr) (tgt : AnyText), Kept (w i) d →
    PointerSlot (w i) p off d → tgt.Valid w → SetsText w i p off d tgt := by
  intro h
  have hkept : Kept (leaflet 16) ⟨0, 8⟩ := leaflet_kept (by decide) (by decide)
  have hall := h (fun _ => leaflet 16) 0 leafletRoot 0 ⟨0, 8⟩ (.literal [104, 105, 0] (-1)) hkept (leaflet_slot 16) (by
    show (stringBytes [104, 105, 0] (-1)).length < INT_MAX
    decide)
  obtain ⟨-, hroom, -⟩ := (setsText_literal (w := fun _ => leaflet 16) hkept (leaflet_slot 16)).mp hall
  revert hroom
  decide

end Capnproto

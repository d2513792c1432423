import Capnproto.Frame.ReadAlike
import Capnproto.Frame.RoundTrip

/-!
# Frames cut short

No strict prefix of what `capn_write_mem` writes of a session begins with a frame
(`not_beginsFrame_take`), so `capn_init_mem` refuses it (`truncated_iff`), unless
it reads a table for 1024 segments into `hdr` on the way (`truncated_fails`), or
the unpacker jams.
-/

namespace Capnproto

/-- `calloc` gives a block of at least the size asked for, or none. -/
def CallocFits (calloc : Nat → Option Nat) : Prop := ∀ n block, calloc n = some block → n ≤ block

/-- `capn_init_mem` returns -1 for the bytes `p`, with no store past the end of a
buffer, whether there is memory or not. -/
def Rejected (p : List UInt8) (packed : Bool) : Prop :=
  ∀ calloc, CallocFits calloc → ∃ r, InitsMem calloc p packed r ∧ r.Safe ∧ r.ret = -1

/-! ## Without memory -/

/-- The allocator that never fails, else like `calloc`. -/
def never (calloc : Nat → Option Nat) (n : Nat) : Option Nat := some ((calloc n).getD n)

theorem CallocFits.never {calloc : Nat → Option Nat} (h : CallocFits calloc) : CallocOk (never calloc) := by
  intro n
  refine ⟨_, rfl, ?_⟩
  cases hc : calloc n with
  | none => exact Nat.le_refl n
  | some block => exact h n block hc

section

variable {σ : Type} {read : σ → Nat → Option (Int × List UInt8 × σ)} {calloc : Nat → Option Nat}

/-- `r` is `r'`, or a failure on the way there. -/
def Breaks (r r' : Init) : Prop := r = r' ∨ r.ret = -1 ∧ ∀ w ∈ r.stores, w ∈ r'.stores

theorem Breaks.rejected {r r' : Init} (h : Breaks r r') (hs : r'.Safe) (hr : r'.ret = -1) : r.Safe ∧ r.ret = -1 := by
  obtain rfl | ⟨h1, hst⟩ := h
  · exact ⟨hs, hr⟩
  · exact ⟨fun w hw => hs w (hst w hw), h1⟩

theorem initData_breaks {z : σ} {n : Nat} {hdr : List UInt8} {stores : List Store} {r' : Init}
    (h : initData read (never calloc) z n hdr stores = some r') :
    ∃ r, initData read calloc z n hdr stores = some r ∧ Breaks r r' := by
  cases hs : checkSizes (tableWords n hdr) 0 with
  | none =>
    rw [initData_bad hs] at h ⊢
    exact ⟨r', h, .inl rfl⟩
  | some st =>
    obtain ⟨sizes, total⟩ := st
    cases hc : calloc (total + sizeofSegment * n) with
    | some block =>
      refine ⟨r', ?_, .inl rfl⟩
      rw [← h]
      simp only [initData, hs, never, hc, Option.getD_some]
    | none =>
      refine ⟨.err stores, by simp only [initData, hs, hc], .inr ⟨rfl, fun w hw => ?_⟩⟩
      simp only [initData, hs, never] at h
      split at h
      · cases h
      · split at h
        · cases h
          exact List.mem_append_left _ hw
        · cases h
          exact List.mem_append_left _ hw

/-- Without memory, `init_fp` breaks off earlier. -/
theorem initFp_breaks {z : σ} {r' : Init} (h : initFp read (never calloc) z = some r') :
    ∃ r, initFp read calloc z = some r ∧ Breaks r r' := by
  cases hz : read z 4 with
  | none =>
    rw [initFp, hz] at h
    cases h
  | some q =>
    obtain ⟨c, b, z'⟩ := q
    by_cases hc : c = 0
    swap
    · rw [initFp_short hz hc] at h ⊢
      exact ⟨r', h, .inl rfl⟩
    subst hc
    by_cases hn : CAPN_MAX_SEGS - 1 < le b
    · rw [initFp_count hz hn] at h ⊢
      exact ⟨r', h, .inl rfl⟩
    rw [initFp_next hz hn] at h ⊢
    cases hz' : read z' (tableSize (le b + 1)) with
    | none =>
      rw [initTable, hz'] at h
      cases h
    | some q =>
      obtain ⟨c, hdr, z''⟩ := q
      by_cases hc : c = 0
      · subst hc
        rw [initTable_next hz'] at h ⊢
        exact initData_breaks h
      · rw [initTable_short hz' hc] at h ⊢
        exact ⟨r', h, .inl rfl⟩

end

/-- **What does not begin with a frame is refused**, with the exceptions of any
other input. -/
theorem rejected_iff {p : List UInt8} {packed : Bool}
    (hno : ∀ segs, Framable segs → ¬ BeginsFrame (unpacked p packed) segs) :
    Rejected p packed ↔ ¬ TableOverflows packed (unpacked p packed) ∧ ¬ InitJams p packed := by
  constructor
  · intro h
    obtain ⟨r, hr, hs, -⟩ := h some fun n block e => by cases e; exact Nat.le_refl n
    exact ⟨(Init.safe_iff callocOk_some (hr.list callocOk_some)).mp hs,
      fun hj => initMem_jams callocOk_some (jamsIn_mem.mpr hj) r hr⟩
  · rintro ⟨ho, hj⟩ calloc hcalloc
    obtain ⟨r', ⟨fuel, hr⟩, hl⟩ := initMem_ok hcalloc.never (fun h => hj (jamsIn_mem.mp h))
    have hret : r'.ret = -1 := by
      rcases initFp_status hl with h0 | ⟨h1, -⟩
      · obtain ⟨segs, hf, hb, -⟩ := initFp_accepts hcalloc.never hl h0
        exact absurd hb (hno segs hf)
      · exact h1
    obtain ⟨r, hr', hbr⟩ := initFp_breaks hr
    exact ⟨r, ⟨fuel, hr'⟩, hbr.rejected ((Init.safe_iff hcalloc.never hl).mpr ho) hret⟩

/-! ## Prefixes of an image -/

/-- The frame that a frame begins with has its length, whatever its segments. -/
theorem length_frame_eq {segs segs' : List (List UInt8)} {pad pad' tail : List UInt8} (hne : segs ≠ [])
    (hcount : segs.length < 2 ^ 32) (hwords : ∀ s ∈ segs, 8 ∣ s.length) (hsize : ∀ s ∈ segs, s.length / 8 < 2 ^ 32)
    (ht : (sizeTable segs ++ pad).length = tableSize segs.length) (hf : Framable segs')
    (ht' : (sizeTable segs' ++ pad').length = tableSize segs'.length)
    (h : frame segs pad = frame segs' pad' ++ tail) : (frame segs pad).length = (frame segs' pad').length := by
  have hpos := List.length_pos_iff.mpr hne
  have hpos' := List.length_pos_iff.mpr hf.ne_nil
  have hcount' := hf.count
  have h4 : ∀ (segs : List (List UInt8)) (pad tail : List UInt8),
      (frame segs pad ++ tail).take 4 = toLe 4 (segs.length - 1) := by
    intro segs pad tail
    rw [frame, List.append_assoc, List.append_assoc, List.take_left' (length_toLe 4 _)]
  have hn : segs.length = segs'.length := by
    have e := congrArg (fun u => le (u.take 4)) h
    rw [h4 segs' pad' tail, ← List.append_nil (frame segs pad), h4 segs pad [], le_toLe, le_toLe,
      Nat.mod_eq_of_lt (by simp only [CAPN_MAX_SEGS] at hcount'; omega),
      Nat.mod_eq_of_lt (by simp only [CAPN_MAX_SEGS] at hcount'; omega)] at e
    omega
  have htable : sizeTable segs = sizeTable segs' := by
    have e := congrArg (List.take (4 + 4 * segs.length)) h
    rw [← List.append_nil (frame segs pad), take_frame, hn, take_frame] at e
    exact List.append_cancel_left e
  have hsizes : segs.map (·.length / 8) = segs'.map (·.length / 8) := by
    have e := congrArg (tableWords segs.length) htable
    have e1 := tableWords_sizeTable hsize []
    have e2 := tableWords_sizeTable hf.size_lt []
    rw [List.append_nil] at e1 e2
    rw [← hn] at e2
    rw [← e1, ← e2, e]
  have hlens : ∀ {segs : List (List UInt8)}, (∀ s ∈ segs, 8 ∣ s.length) →
      segs.flatten.length = ((segs.map (·.length / 8)).map (· * 8)).sum := by
    intro segs hw
    rw [List.length_flatten, List.map_map]
    refine congrArg List.sum (List.map_congr_left fun s hs => ?_)
    have := hw s hs
    simp only [Function.comp]
    omega
  rw [length_frame ht, length_frame ht', hn, hlens hwords, hlens hf.words, hsizes]

/-- A strict prefix of an image stands for a strict prefix of its frame. -/
theorem unpacked_take {c : Capn} {packed : Bool} {n : Nat} (hn : n < (image c packed).length) :
    unpacked ((image c packed).take n) packed <+: unpacked (image c packed) packed ∧
      (unpacked ((image c packed).take n) packed).length < (unpacked (image c packed) packed).length := by
  cases packed with
  | false => exact ⟨List.take_prefix n _, by rw [unpacked, unpacked]; simpa using hn⟩
  | true =>
    have himage : image c true = ((piecesOf c).flatMap packets).flatMap Packing.Packet.bytes :=
      List.flatMap_assoc.symm
    have hv : ∀ p ∈ (piecesOf c).flatMap packets, p.Valid := fun p hp => by
      obtain ⟨inp, -, hp⟩ := List.mem_flatMap.mp hp
      exact packets_valid inp p hp
    refine ⟨?_, ?_⟩
    · have h := Packing.unpack_prefix ((image c true).take n) ((image c true).drop n)
      rwa [List.take_append_drop] at h
    · rw [himage] at hn ⊢
      have he := Packing.unpack_packets hv []
      rw [List.append_nil, Packing.unpack_nil, List.append_nil] at he
      have hlt := Packing.length_unpack_take hv hn
      rw [← he] at hlt
      exact hlt

/-- **No strict prefix of an image begins with a frame.** -/
theorem not_beginsFrame_take {c : Capn} (hb : Built c) (h1 : 1 ≤ c.segnum) (hnum : c.segnum < 2 ^ 32) {packed : Bool}
    {n : Nat} (hn : n < (image c packed).length) :
    ∀ segs, Framable segs → ¬ BeginsFrame (unpacked ((image c packed).take n) packed) segs := by
  rintro segs hf ⟨pad', tail, ht', hu⟩
  have hfit := built_fit hb
  have hw : ∀ s ∈ c.segs, 8 ∣ s.len := fun s hs => (hfit.seg_mem hs).words
  obtain ⟨⟨rest, hrest⟩, hlt⟩ := unpacked_take hn
  obtain ⟨pad, ht, hU⟩ := unpacked_image hw packed
  rw [hU, hu, List.append_assoc] at hrest
  rw [hU, hu, List.length_append] at hlt
  have hmem : ∀ b ∈ c.segs.map Segment.bytes, 8 ∣ b.length ∧ b.length / 8 < 2 ^ 32 := by
    intro b hb
    obtain ⟨s, hs, rfl⟩ := List.mem_map.mp hb
    obtain ⟨hwd, -, hcap, hmax⟩ := hfit.seg_mem hs
    rw [length_bytes]
    simp only [maxSegment, INT_MAX] at hmax
    exact ⟨hwd, by omega⟩
  have hne : c.segs.map Segment.bytes ≠ [] := by
    intro e
    rw [Capn.segnum, List.map_eq_nil_iff.mp e] at h1
    exact absurd h1 (by decide)
  have e := length_frame_eq hne (by rwa [List.length_map]) (fun s hs => (hmem s hs).1) (fun s hs => (hmem s hs).2)
    ht hf ht' hrest.symm
  omega

/-! ## Truncation -/

/-- **Truncation is detected.** Every strict prefix of what `capn_write_mem` wrote
of a session is refused by `capn_init_mem`, exactly unless it makes the reader
store more than `hdr` holds, or the unpacker jam. -/
theorem truncated_iff {c : Capn} {sz n : Nat} {packed : Bool} {w : Written} (hb : Built c) (hnum : c.segnum < 2 ^ 32)
    (hw : WritesMem c sz packed w) (hret : 0 ≤ w.ret) (hn : n < w.bytes.length) :
    Rejected (w.bytes.take n) packed ↔
      ¬ TableOverflows packed (unpacked (w.bytes.take n) packed) ∧ ¬ InitJams (w.bytes.take n) packed := by
  obtain ⟨⟨h0, -⟩, -, rfl⟩ := writesMem_iff.mp ⟨hw, hret⟩
  have h1 : 1 ≤ c.segnum := by omega
  have hroot := ((built_fit hb).root h1).1
  simp only [hroot] at hn ⊢
  exact rejected_iff (not_beginsFrame_take hb h1 hnum hn)

/-- The empty root, less its last byte. -/
theorem truncated_iff_root : ∃ w, WritesMem rootSession 16 false w ∧ 0 ≤ w.ret ∧
    (Rejected (w.bytes.take 15) false ↔
      ¬ TableOverflows false (unpacked (w.bytes.take 15) false) ∧ ¬ InitJams (w.bytes.take 15) false) :=
  ⟨_, ⟨0, rfl⟩, by decide, truncated_iff built_init.root (by decide) ⟨0, rfl⟩ (by decide) (by decide)⟩

/-! ## A session of 1024 segments -/

/-- Adds a struct of 4096 bytes. -/
def addStruct (c : Capn) : Capn := (capnNewStruct c (some 0) 4096 0).1

/-- No segment has room for such a struct and its tag, nor the first one for the struct. -/
structure NoRoom (c : Capn) : Prop where
  create : c.create = some Capnproto.create
  first : (c.seg 0).cap < (c.seg 0).len + 4096
  segs : ∀ s ∈ c.segs, s.cap < s.len + 4104

theorem noRoom_root : NoRoom rootSession where
  create := rfl
  first := by decide
  segs := by decide

theorem modify_last {α : Type} (l : List α) (a : α) (f : α → α) : (l ++ [a]).modify l.length f = l ++ [f a] := by
  induction l with
  | nil => rfl
  | cons b l ih => rw [List.cons_append, List.length_cons, List.modify_succ_cons, ih, List.cons_append]

/-- The segment of such a struct: its tag, and its data. -/
def structSegment : Segment := ⟨Mem.zero.write 0 [0, 0, 0, 0, 0, 2, 0, 0], 4104, 8112⟩

/-- Such a struct takes a segment of its own. -/
theorem addStruct_segs {c : Capn} (h : NoRoom c) :
    (addStruct c).segs = c.segs ++ [structSegment] ∧ (addStruct c).create = c.create := by
  have hlt := h.first
  have hfind : (c.segs.findIdx? fun s => decide (s.len + 4104 ≤ s.cap)) = none := by
    rw [List.findIdx?_eq_none_iff]
    intro s hs
    have := h.segs s hs
    simp only [decide_eq_false_iff_not]
    omega
  have hnew : newData c 4104 =
      some (bump (capnAppendSegment c ⟨Mem.zero, 0, 8112⟩) c.segnum 4104, c.segnum, ⟨c.segnum, 0⟩) := by
    rw [newData, hfind, h.create]
    rfl
  have hadd : addStruct c =
      (bump (capnAppendSegment c ⟨Mem.zero, 0, 8112⟩) c.segnum 4104).store64 ⟨c.segnum, 0⟩ (512 * 2 ^ 32) := by
    have hroom : ¬ (c.seg 0).len + 4096 ≤ (c.seg 0).cap := by omega
    have hsz : (4096 + 7) / 8 * 8 % 2 ^ 19 = 4096 := by norm_num
    have hrnd : (4096 + 7) / 8 * 8 = 4096 := by norm_num
    simp only [addStruct, capnNewStruct, newObject, hsz, Nat.zero_mod, Nat.mul_zero, Nat.add_zero, hrnd]
    have htag : ∀ (s : Nat) (a : Addr),
        ptrTag { type := .STRUCT, datasz := 4096, data := some a, seg := some s } 0 = some (512 * 2 ^ 32) := by
      intro s a
      have hoff : ¬ ((0 : Int).tdiv 8 < CAPN_PTR_OFF_MIN_WORDS ∨ CAPN_PTR_OFF_MAX_WORDS < (0 : Int).tdiv 8) := by
        decide
      have hword : offsetBits ((0 : Int).tdiv 8) + STRUCT_PTR + 4096 / 8 * 2 ^ 32 + 0 * 2 ^ 48 = 512 * 2 ^ 32 := by
        decide
      rw [ptrTag, if_neg (by rintro ⟨⟩)]
      simp only [if_neg hoff, hword]
    rw [if_neg (by decide), if_neg hroom, hnew]
    simp only [writePtrTag, htag, Option.map_some]
  refine ⟨?_, by rw [hadd]; rfl⟩
  rw [hadd]
  show ((c.segs ++ [(⟨Mem.zero, 0, 8112⟩ : Segment)]).modify c.segs.length _).modify c.segs.length _ = _
  rw [modify_last, modify_last]
  rfl

theorem NoRoom.addStruct {c : Capn} (h : NoRoom c) (h1 : 1 ≤ c.segnum) : NoRoom (addStruct c) := by
  obtain ⟨hs, hc⟩ := addStruct_segs h
  refine ⟨hc.trans h.create, ?_, ?_⟩
  · have e : (Capnproto.addStruct c).seg 0 = c.seg 0 := by
      rw [Capn.seg, Capn.seg, hs, List.getD_eq_getElem?_getD, List.getD_eq_getElem?_getD, List.getElem?_append_left h1]
    rw [e]
    exact h.first
  · rw [hs]
    exact List.forall_mem_append.mpr ⟨h.segs, by decide⟩

/-- A session with a root and `n` such structs. -/
def structs (n : Nat) : Capn := addStruct^[n] rootSession

theorem structs_spec (n : Nat) : Built (structs n) ∧ NoRoom (structs n) ∧ (structs n).segnum = n + 1 := by
  induction n with
  | zero => exact ⟨built_init.root, noRoom_root, rfl⟩
  | succ n ih =>
    obtain ⟨hb, hf, hn⟩ := ih
    rw [structs, Function.iterate_succ_apply', ← structs]
    refine ⟨hb.newStruct (some 0) 4096 0, hf.addStruct (by omega), ?_⟩
    rw [Capn.segnum, (addStruct_segs hf).1, List.length_append, ← Capn.segnum, hn]
    rfl

/-- A session of 1024 segments is written, and what it is cut to after its table
makes the reader store four bytes past `hdr`. -/
theorem table_overflows {c : Capn} (hb : Built c) (hn : c.segnum = 1024) :
    ∃ sz w, WritesMem c sz false w ∧ 0 ≤ w.ret ∧ 4104 < w.bytes.length ∧ ¬ Rejected (w.bytes.take 4104) false := by
  have hfit := built_fit hb
  have hw : ∀ s ∈ c.segs, 8 ∣ s.len := fun s hs => (hfit.seg_mem hs).words
  obtain ⟨hroot, hseg⟩ := hfit.root (by omega)
  have hwrite := (@writesMem_iff c (image c false).length false _).mpr
    ⟨⟨by omega, hseg⟩, by rw [hroot, length_image_plain]; exact Nat.le_refl _, rfl⟩
  rw [hroot] at hwrite
  have hhdr : headerSize c.segnum = 4104 := by rw [hn]; rfl
  have hlen : 4104 < (image c false).length := by
    obtain ⟨s, ss, hs⟩ := List.exists_cons_of_length_pos (l := c.segs) (by rw [← Capn.segnum, hn]; decide)
    have hpos := (hfit.seg_mem (s := s) (by rw [hs]; exact List.mem_cons_self)).pos
    rw [length_image_plain, hhdr, dataSizeOf, hs, List.map_cons, List.sum_cons]
    omega
  refine ⟨_, _, hwrite.1, hwrite.2, hlen, fun hrej => ?_⟩
  refine ((rejected_iff (not_beginsFrame_take hb (by omega) (by omega) hlen)).mp hrej).1 ⟨?_, ?_⟩
  · obtain ⟨pad, -, hU⟩ := unpacked_image hw false
    have hU : image c false = frame (c.segs.map Segment.bytes) pad := hU
    show le (((image c false).take 4104).take 4) = _
    rw [List.take_take, show min 4 4104 = 4 from rfl, hU, frame, List.append_assoc, List.take_left' (length_toLe 4 _),
      le_toLe, List.length_map, ← Capn.segnum, hn]
    rfl
  · show 4100 ≤ (((image c false).take 4104).drop 4).length
    rw [List.length_drop, List.length_take]
    omega

theorem truncated_fails : Built (structs 1023) ∧ (structs 1023).segnum = 1024 ∧
    ∃ sz w, WritesMem (structs 1023) sz false w ∧ 0 ≤ w.ret ∧ 4104 < w.bytes.length ∧
      ¬ Rejected (w.bytes.take 4104) false := by
  obtain ⟨hb, -, hn⟩ := structs_spec 1023
  exact ⟨hb, hn, table_overflows hb hn⟩

end Capnproto

import Capnproto.Frame.Format
import Capnproto.Frame.Write
import Capnproto.Stream.Deflate

/-!
# What `capn_write_mem` writes

The table and the segments of a session are a frame (`headerRender_frame`).
`capn_write_mem` writes it as it is (`writesMem_plain`), or the packed form of
its pieces one after the other (`writesMem_packed`), which unpacks to it
(`unpack_image`).
-/

namespace Capnproto

open Packing (unpack)

/-! ## The table -/

theorem length_bytes (s : Segment) : s.bytes.length = s.len := Mem.length_read _ _ _

theorem flatten_bytes (segs : List Segment) : (segs.map Segment.bytes).flatten = segs.flatMap Segment.bytes :=
  List.flatMap_def.symm

theorem length_flatMap_bytes (c : Capn) : (c.segs.flatMap Segment.bytes).length = dataSizeOf c := by
  rw [List.length_flatMap, dataSizeOf]
  simp only [length_bytes]

theorem sizeTable_bytes (segs : List Segment) :
    sizeTable (segs.map Segment.bytes) = segs.flatMap fun s => toLe 4 (s.len / 8) := by
  rw [sizeTable, List.flatMap_map]
  simp only [length_bytes]

/-- The table that the writer renders, with the segments after it, is a frame. -/
theorem headerRender_frame (c : Capn) : ∃ pad,
    (sizeTable (c.segs.map Segment.bytes) ++ pad).length = tableSize c.segnum ∧
      headerRender c ++ (c.segs.map Segment.bytes).flatten = frame (c.segs.map Segment.bytes) pad := by
  refine ⟨if headerLen c.segnum - 1 = c.segnum then [] else toLe 4 0, ?_, ?_⟩
  · rw [List.length_append, length_sizeTable, List.length_map]
    by_cases hodd : headerLen c.segnum - 1 = c.segnum
    · rw [if_pos hodd, List.length_nil]
      simp only [headerLen, tableSize, Capn.segnum] at hodd ⊢
      omega
    · rw [if_neg hodd, length_toLe]
      simp only [headerLen, tableSize, Capn.segnum] at hodd ⊢
      omega
  · rw [frame, sizeTable_bytes, List.length_map, headerRender, List.append_assoc (toLe 4 _)]
    rfl

theorem length_headerRender (c : Capn) : (headerRender c).length = headerSize c.segnum := by
  obtain ⟨pad, hp, hf⟩ := headerRender_frame c
  have e := congrArg List.length hf
  rw [frame, List.length_append, List.length_append, List.length_append, length_toLe, hp] at e
  simp only [tableSize, headerSize, headerLen] at e ⊢
  omega


/-! ## Packing piece by piece -/

/-- The packed form of byte strings that are packed one after the other. -/
def packedAll (inps : List (List UInt8)) : List UInt8 := inps.flatMap packed

/-- Packing the byte strings into `room` bytes, the packer stalls on one of them. -/
def PackStalls : Nat → List (List UInt8) → Prop
  | _, [] => False
  | room, inp :: inps =>
    ({ nextIn := inp, availOut := room } : Stream).Stalls ∨ PackStalls (room - (packed inp).length) inps

/-- Below 2³² bytes the packer never stalls. -/
theorem not_packStalls {inps : List (List UInt8)} (h : ∀ inp ∈ inps, inp.length < 2 ^ 32) {room : Nat}
    (hroom : room < 2 ^ 32) : ¬ PackStalls room inps := by
  induction inps generalizing room with
  | nil => exact id
  | cons inp inps ih =>
    rw [List.forall_mem_cons] at h
    rw [PackStalls, not_or]
    refine ⟨?_, ih h.2 (by omega)⟩
    rintro ⟨o, n, hp, ho, hn⟩
    have hpos := hp.pos
    have hle : n ≤ inp.length := hp.le_length packPlace_length
    have hlt := h.1
    simp only at ho hn
    omega

/-- Whole words, one byte string after the other, whose packed form fits `room`. -/
structure Packs (room : Nat) (inps : List (List UInt8)) : Prop where
  words : ∀ inp ∈ inps, inp.length % 8 = 0
  fits : (packedAll inps).length ≤ room
  runs : ¬ PackStalls room inps

theorem packs_cons {room : Nat} {inp : List UInt8} {inps : List (List UInt8)} :
    Packs room (inp :: inps) ↔ (inp.length % 8 = 0 ∧ (packed inp).length ≤ room ∧
      ¬ ({ nextIn := inp, availOut := room } : Stream).Stalls) ∧
      Packs (room - (packed inp).length) inps := by
  have hlen : (packedAll (inp :: inps)).length = (packed inp).length + (packedAll inps).length := by
    rw [packedAll, List.flatMap_cons, List.length_append, packedAll]
  constructor
  · rintro ⟨hw, hroom, hj⟩
    rw [List.forall_mem_cons] at hw
    rw [hlen] at hroom
    rw [PackStalls, not_or] at hj
    exact ⟨⟨hw.1, by omega, hj.1⟩, hw.2, by omega, hj.2⟩
  · rintro ⟨⟨h8, hle, hj⟩, hw, hroom, hjs⟩
    refine ⟨List.forall_mem_cons.mpr ⟨h8, hw⟩, by omega, ?_⟩
    rw [PackStalls, not_or]
    exact ⟨hj, hjs⟩

/-- A stall depends on the input and the room only. -/
theorem stalls_congr {s t : Stream} (hn : t.nextIn = s.nextIn) (ho : t.availOut = s.availOut)
    (hr : t.raw = s.raw) : t.Stalls ↔ s.Stalls := by
  simp only [Stream.Stalls, Stream.InRaw, hn, ho, hr]

/-- The stream after the packed form of `inps` is stored. -/
def Stream.packing (z : Stream) (inps : List (List UInt8)) : Stream :=
  { z with out := z.out ++ packedAll inps, availOut := z.availOut - (packedAll inps).length }

theorem Stream.packing_nil (z : Stream) : z.packing [] = z := by
  simp [Stream.packing, packedAll]

/-- One more piece. -/
theorem Stream.packing_cons (z : Stream) (inp : List UInt8) (inps : List (List UInt8)) :
    (z.packing [inp]).packing inps = z.packing (inp :: inps) := by
  simp only [Stream.packing, packedAll, List.flatMap_cons, List.flatMap_nil, List.append_nil,
    List.append_assoc, List.length_append, Nat.sub_sub]

/-- A call of `capn_deflate` packs one more piece. -/
theorem deflates_piece {z z' : Stream} {inp : List UInt8} (hr : z.raw = 0) (hn : z.nextIn = []) :
    Deflates { z with nextIn := inp } (0, z') ↔
      Packs z.availOut [inp] ∧ z' = z.packing [inp] := by
  have hst : ({ z with nextIn := inp } : Stream).Stalls ↔
      ({ nextIn := inp, availOut := z.availOut } : Stream).Stalls := stalls_congr rfl rfl hr
  rw [@deflates_zero { z with nextIn := inp } z' hr, hst]
  have hnil : ∀ room, Packs room [] := fun room => ⟨nofun, Nat.zero_le _, id⟩
  have hz : z.packing [inp] = { z with
      nextIn := [], out := z.out ++ packed inp, availOut := z.availOut - (packed inp).length } := by
    simp [Stream.packing, packedAll, hn]
  rw [packs_cons, hz]
  exact ⟨fun ⟨h8, hroom, hj, e⟩ => ⟨⟨⟨h8, hroom, hj⟩, hnil _⟩, e⟩,
    fun ⟨⟨⟨h8, hroom, hj⟩, _⟩, e⟩ => ⟨h8, hroom, hj, e⟩⟩

theorem packSegs_mono {n m : Nat} (hnm : n ≤ m) : ∀ {segs : List Segment} {z : Stream} {r : Int × Stream},
    packSegs n z segs = some r → packSegs m z segs = some r
  | [], _, _, h => h
  | s :: segs, z, r, h => by
    rw [packSegs] at h ⊢
    cases hd : deflate n { z with nextIn := s.bytes } with
    | none => rw [hd] at h; cases h
    | some q =>
      rw [hd] at h
      rw [deflate_mono hd hnm]
      simp only at h ⊢
      split
      · rename_i hc
        rwa [if_pos hc] at h
      · rename_i hc
        rw [if_neg hc] at h
        exact packSegs_mono hnm h

/-- **The loop over the segments** of `capn_write_mem_packed` succeeds exactly if
the segments pack. -/
theorem packSegs_zero {segs : List Segment} {z z' : Stream} (hr : z.raw = 0) (hn : z.nextIn = []) :
    (∃ fuel, packSegs fuel z segs = some (0, z')) ↔
      Packs z.availOut (segs.map Segment.bytes) ∧ z' = z.packing (segs.map Segment.bytes) := by
  induction segs generalizing z with
  | nil =>
    rw [List.map_nil, Stream.packing_nil]
    constructor
    · rintro ⟨fuel, h⟩
      rw [packSegs] at h
      cases h
      exact ⟨⟨nofun, Nat.zero_le _, id⟩, rfl⟩
    · rintro ⟨-, rfl⟩
      exact ⟨0, rfl⟩
  | cons s segs ih =>
    have hpiece : ∀ z₁, Deflates { z with nextIn := s.bytes } (0, z₁) ↔ _ := fun z₁ => deflates_piece hr hn
    have hrest := @ih (z.packing [s.bytes]) hr hn
    have hlen : (packedAll [s.bytes]).length = (packed s.bytes).length := by simp [packedAll]
    have hone : Packs z.availOut [s.bytes] ↔ s.bytes.length % 8 = 0 ∧
        (packed s.bytes).length ≤ z.availOut ∧
        ¬ ({ nextIn := s.bytes, availOut := z.availOut } : Stream).Stalls := by
      rw [packs_cons]
      exact and_iff_left ⟨nofun, Nat.zero_le _, id⟩
    have hroom : (z.packing [s.bytes]).availOut = z.availOut - (packed s.bytes).length := by
      rw [Stream.packing, hlen]
    rw [List.map_cons, packs_cons, ← hone, ← hroom, ← Stream.packing_cons z s.bytes (segs.map _), and_assoc,
      ← hrest]
    constructor
    · rintro ⟨fuel, h⟩
      rw [packSegs] at h
      cases hd : deflate fuel { z with nextIn := s.bytes } with
      | none => rw [hd] at h; cases h
      | some q =>
        obtain ⟨ret, z₁⟩ := q
        rw [hd] at h
        simp only at h
        split at h
        · cases h
        · rename_i hc
          rw [not_or, not_not, not_not] at hc
          obtain ⟨hp, rfl⟩ := (hpiece z₁).mp ⟨fuel, by rw [hd, hc.1]⟩
          exact ⟨hp, fuel, h⟩
    · rintro ⟨hp, m, h⟩
      obtain ⟨n, hd⟩ := (hpiece _).mpr ⟨hp, rfl⟩
      refine ⟨max n m, ?_⟩
      rw [packSegs, deflate_mono hd (Nat.le_max_left n m)]
      simp only
      rw [if_neg (by rw [not_or, not_not, not_not]; exact ⟨rfl, hn⟩)]
      exact packSegs_mono (Nat.le_max_right n m) h

theorem unpack_packedAll {inps : List (List UInt8)} (h : ∀ inp ∈ inps, inp.length % 8 = 0) :
    unpack (packedAll inps) = inps.flatten := by
  have hv : ∀ p ∈ inps.flatMap packets, p.Valid := fun p hp => by
    obtain ⟨inp, -, hp⟩ := List.mem_flatMap.mp hp
    exact packets_valid inp p hp
  have he := Packing.unpack_packets hv []
  rw [Packing.unpack_nil, List.append_nil, List.append_nil, List.flatMap_assoc, List.flatMap_assoc] at he
  show unpack (inps.flatMap fun inp => (packets inp).flatMap Packing.Packet.bytes) = _
  rw [he, List.flatMap_def]
  congr 1
  refine (List.map_congr_left fun inp hi => ?_).trans inps.map_id
  exact packets_expand inp (Nat.dvd_of_mod_eq_zero (h inp hi))

/-! ## `capn_write_mem` -/

/-- The byte strings that a packing writer packs. -/
def piecesOf (c : Capn) : List (List UInt8) := headerRender c :: c.segs.map Segment.bytes

/-- What `capn_write_mem` writes of a session. -/
def image (c : Capn) (packed : Bool) : List UInt8 :=
  if packed then packedAll (piecesOf c) else (piecesOf c).flatten

/-- `capn_write_mem` needs at most `sz` bytes for the session. -/
def FitsIn (c : Capn) (packed : Bool) (sz : Nat) : Prop :=
  if packed then 2 * headerSize c.segnum + 2 ≤ sz ∧ Packs sz (piecesOf c)
  else headerSize c.segnum + dataSizeOf c ≤ sz

theorem length_image_plain (c : Capn) : (image c false).length = headerSize c.segnum + dataSizeOf c := by
  show (piecesOf c).flatten.length = _
  rw [piecesOf, List.flatten_cons, List.length_append, length_headerRender, flatten_bytes,
    length_flatMap_bytes]

theorem fitsIn_packed {c : Capn} {sz : Nat} : FitsIn c true sz ↔
    2 * headerSize c.segnum + 2 ≤ sz ∧ Packs sz [headerRender c] ∧
      Packs (sz - (packedAll [headerRender c]).length) (c.segs.map Segment.bytes) := by
  have hlen : (packedAll [headerRender c]).length = (packed (headerRender c)).length := by simp [packedAll]
  have hone : Packs sz [headerRender c] ↔ _ :=
    packs_cons.trans (and_iff_left ⟨nofun, Nat.zero_le _, id⟩)
  show _ ∧ Packs sz (piecesOf c) ↔ _
  rw [piecesOf, packs_cons, hone, hlen]

theorem length_packedAll_le (inps : List (List UInt8)) : (packedAll inps).length ≤ 2 * inps.flatten.length := by
  induction inps with
  | nil => exact Nat.le_refl 0
  | cons inp inps ih =>
    have hle := packed_length_le inp
    rw [packedAll, List.flatMap_cons, List.length_append, ← packedAll, List.flatten_cons, List.length_append]
    omega

theorem length_image_packed_le (c : Capn) :
    (image c true).length ≤ 2 * (headerSize c.segnum + dataSizeOf c) := by
  rw [← length_image_plain]
  exact length_packedAll_le _

/-- The packed writer, once its first checks passed. -/
theorem packPieces_iff {c : Capn} {sz : Nat} {z : Stream} :
    (∃ fuel z₁, deflate fuel { nextIn := headerRender c, availOut := sz } = some (0, z₁) ∧
        packSegs fuel z₁ c.segs = some (0, z)) ↔
      Packs sz [headerRender c] ∧
        Packs (sz - (packedAll [headerRender c]).length) (c.segs.map Segment.bytes) ∧
        z = ({ nextIn := [], availOut := sz } : Stream).packing (piecesOf c) := by
  have hhead : ∀ z₁, Deflates { nextIn := headerRender c, availOut := sz } (0, z₁) ↔ _ := fun z₁ =>
    @deflates_piece { nextIn := [], availOut := sz } z₁ (headerRender c) rfl rfl
  have hsegs := @packSegs_zero c.segs
    (({ nextIn := [], availOut := sz } : Stream).packing [headerRender c]) z rfl rfl
  rw [Stream.packing_cons] at hsegs
  constructor
  · rintro ⟨fuel, z₁, hd, hs⟩
    obtain ⟨hp, rfl⟩ := (hhead z₁).mp ⟨fuel, hd⟩
    exact ⟨hp, hsegs.mp ⟨fuel, hs⟩⟩
  · rintro ⟨hp, hs⟩
    obtain ⟨n, hd⟩ := (hhead _).mpr ⟨hp, rfl⟩
    obtain ⟨m, hs⟩ := hsegs.mpr hs
    exact ⟨max n m, _, deflate_mono hd (Nat.le_max_left n m), packSegs_mono (Nat.le_max_right n m) hs⟩

theorem not_nonneg_of_failed (bytes : List UInt8) (c : Capn) : ¬ 0 ≤ (⟨-1, bytes, c⟩ : Written).ret := by
  show ¬ (0 : Int) ≤ -1
  decide

/-- What `capn_write_mem_packed` returns that is not a failure. -/
theorem writeMemPacked_iff {c : Capn} {sz : Nat} {r : Written} :
    ((∃ fuel, writeMemPacked fuel c sz = some r) ∧ 0 ≤ r.ret) ↔
      (capnRoot c).2.seg ≠ none ∧ FitsIn (capnRoot c).1 true sz ∧
        r = ⟨(image (capnRoot c).1 true).length, image (capnRoot c).1 true, (capnRoot c).1⟩ := by
  generalize hq : capnRoot c = q
  obtain ⟨d, root⟩ := q
  have hlen : headerSize d.segnum = 4 * headerLen d.segnum := rfl
  have hz : ∀ z, z = ({ nextIn := [], availOut := sz } : Stream).packing (piecesOf d) → FitsIn d true sz →
      (⟨(sz - z.availOut : Nat), z.out, d⟩ : Written) = ⟨(image d true).length, image d true, d⟩ := by
    rintro z rfl ⟨-, hp⟩
    have := hp.fits
    simp only [Stream.packing, image, ite_true, List.nil_append, Written.mk.injEq, and_true]
    omega
  rw [fitsIn_packed] at hz ⊢
  constructor
  · rintro ⟨⟨fuel, h⟩, hret⟩
    rw [writeMemPacked, hq] at h
    simp only at h
    by_cases h1 : sz < headerSize d.segnum ∨ sz - headerSize d.segnum < 2
    · rw [if_pos h1] at h; cases h; exact absurd hret (not_nonneg_of_failed _ _)
    by_cases h2 : (sz - headerSize d.segnum - 2) / 4 < headerLen d.segnum
    · rw [if_neg h1, if_pos h2] at h; cases h; exact absurd hret (not_nonneg_of_failed _ _)
    by_cases h3 : root.seg = none
    · rw [if_neg h1, if_neg h2, if_pos h3] at h; cases h; exact absurd hret (not_nonneg_of_failed _ _)
    rw [if_neg h1, if_neg h2, if_neg h3] at h
    cases hd : deflate fuel { nextIn := headerRender d, availOut := sz } with
    | none => rw [hd] at h; cases h
    | some q =>
      obtain ⟨ret, z₁⟩ := q
      rw [hd] at h
      simp only at h
      by_cases h4 : ret ≠ 0 ∨ z₁.nextIn ≠ []
      · rw [if_pos h4] at h; cases h; exact absurd hret (not_nonneg_of_failed _ _)
      rw [if_neg h4] at h
      rw [not_or, not_not, not_not] at h4
      cases hs : packSegs fuel z₁ d.segs with
      | none => rw [hs] at h; cases h
      | some q =>
        obtain ⟨ret', z⟩ := q
        rw [hs] at h
        simp only at h
        by_cases h5 : ret' ≠ 0
        · rw [if_pos h5] at h; cases h; exact absurd hret (not_nonneg_of_failed _ _)
        rw [if_neg h5] at h
        cases h
        rw [not_not] at h5
        obtain ⟨hp, hps, e⟩ := packPieces_iff.mp ⟨fuel, z₁, by rw [hd, h4.1], by rw [hs, h5]⟩
        have hroom : 2 * headerSize d.segnum + 2 ≤ sz := by omega
        exact ⟨h3, ⟨hroom, hp, hps⟩, hz z e ⟨hroom, hp, hps⟩⟩
  · rintro ⟨h3, hf, e⟩
    obtain ⟨fuel, z₁, hd, hs⟩ := packPieces_iff.mpr ⟨hf.2.1, hf.2.2, rfl⟩
    obtain ⟨-, rfl⟩ := (@deflates_piece { nextIn := [], availOut := sz } z₁ (headerRender d) rfl rfl).mp
      ⟨fuel, hd⟩
    refine ⟨⟨fuel, ?_⟩, by rw [e]; exact Int.natCast_nonneg _⟩
    have hroom : 2 * headerSize d.segnum + 2 ≤ sz := hf.1
    rw [writeMemPacked, hq]
    simp only
    rw [if_neg (by omega), if_neg (by omega), if_neg h3, hd]
    simp only
    rw [if_neg (by rw [not_or, not_not, not_not]; exact ⟨rfl, rfl⟩), hs]
    simp only
    rw [if_neg (by rw [not_not]), e, hz _ rfl hf]

/-- What the unpacked writer returns that is not a failure. -/
theorem writeMemPlain_iff {c : Capn} {sz : Nat} {r : Written} :
    (writeMemPlain c sz = r ∧ 0 ≤ r.ret) ↔
      (capnRoot c).2.seg ≠ none ∧ FitsIn (capnRoot c).1 false sz ∧
        r = ⟨(image (capnRoot c).1 false).length, image (capnRoot c).1 false, (capnRoot c).1⟩ := by
  generalize hq : capnRoot c = q
  obtain ⟨d, root⟩ := q
  have himage : image d false = headerRender d ++ d.segs.flatMap Segment.bytes := by
    show (piecesOf d).flatten = _
    rw [piecesOf, List.flatten_cons, flatten_bytes]
  rw [length_image_plain, himage]
  show _ ↔ root.seg ≠ none ∧ headerSize d.segnum + dataSizeOf d ≤ sz ∧ _
  constructor
  · rintro ⟨rfl, hret⟩
    rw [writeMemPlain, hq] at hret ⊢
    simp only at hret ⊢
    by_cases h1 : sz < headerSize d.segnum
    · rw [if_pos h1] at hret; exact absurd hret (not_nonneg_of_failed _ _)
    by_cases h2 : root.seg = none
    · rw [if_neg h1, if_pos h2] at hret; exact absurd hret (not_nonneg_of_failed _ _)
    by_cases h3 : sz < headerSize d.segnum + dataSizeOf d
    · rw [if_neg h1, if_neg h2, if_pos h3] at hret; exact absurd hret (not_nonneg_of_failed _ _)
    rw [if_neg h1, if_neg h2, if_neg h3]
    exact ⟨h2, Nat.not_lt.mp h3, rfl⟩
  · rintro ⟨h2, h3, rfl⟩
    refine ⟨?_, Int.natCast_nonneg _⟩
    rw [writeMemPlain, hq]
    simp only
    rw [if_neg (by omega), if_neg h2, if_neg (by omega)]

/-- **`capn_write_mem`** succeeds exactly if the session has a first segment and
fits, and then it writes the image of the session. -/
theorem writesMem_iff {c : Capn} {sz : Nat} {packed : Bool} {r : Written} :
    (WritesMem c sz packed r ∧ 0 ≤ r.ret) ↔
      (c.segnum ≠ 0 ∧ (capnRoot c).2.seg ≠ none) ∧ FitsIn (capnRoot c).1 packed sz ∧
        r = ⟨(image (capnRoot c).1 packed).length, image (capnRoot c).1 packed, (capnRoot c).1⟩ := by
  by_cases h0 : c.segnum = 0
  · refine iff_of_false ?_ (fun h => h.1.1 h0)
    rintro ⟨⟨fuel, h⟩, hret⟩
    rw [capnWriteMem, if_pos h0] at h
    cases h
    exact absurd hret (not_nonneg_of_failed _ _)
  rw [and_assoc, and_iff_right h0]
  cases packed with
  | true =>
    rw [← writeMemPacked_iff, WritesMem]
    simp only [capnWriteMem, h0, ite_false, ite_true]
  | false =>
    rw [← writeMemPlain_iff, WritesMem]
    simp only [capnWriteMem, h0, ite_false, Bool.false_eq_true, Option.some.injEq, exists_const]

end Capnproto

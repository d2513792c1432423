import Capnproto.Frame.Image
import Capnproto.Frame.Init
import Capnproto.Object.Build

/-!
# Framing round trip

`capn_init_mem` reads back the frame that `capn_write_mem` wrote of a session
(`roundTrips`), as long as it is one that the reader takes: it refuses a message
of 2³² bytes or more, which the writer does not (`roundTrips_fails`).
-/

namespace Capnproto

/-! ## Reading an image -/

/-- **The image of a session is read back.** -/
theorem initMem_frame {calloc : Nat → Option Nat} {p : List UInt8} {packed : Bool} {segs : List (List UInt8)}
    (hcalloc : CallocOk calloc) (hf : Framable segs) (hb : BeginsFrame (unpacked p packed) segs)
    (hj : ¬ InitJams p packed) :
    ∃ i, InitsMem calloc p packed i ∧ i.ret = 0 ∧ i.capn.segs.map Segment.bytes = segs := by
  obtain ⟨r, hr, hl⟩ := initMem_ok hcalloc (fun h => hj (jamsIn_mem.mp h))
  obtain ⟨stores, hok⟩ := @initFp_frame _ packed _ _ hcalloc hf hb
  rw [hok] at hl
  cases hl
  exact ⟨_, hr, rfl, map_bytes_carve_flatten segs⟩

/-- What is read with status 0 is a frame that the reader takes. -/
theorem initMem_framable {calloc : Nat → Option Nat} {p : List UInt8} {packed : Bool} {i : Init}
    (hcalloc : CallocOk calloc) (hi : InitsMem calloc p packed i) (h0 : i.ret = 0) :
    Framable (i.capn.segs.map Segment.bytes) := by
  obtain ⟨segs, hf, -, e⟩ := initFp_accepts hcalloc (hi.list hcalloc) h0
  rw [e]
  show Framable ((carve (segs.map List.length) segs.flatten).map Segment.bytes)
  rwa [map_bytes_carve_flatten]

/-- Of whole words, all the pieces are. -/
theorem words_piecesOf {c : Capn} (hw : ∀ s ∈ c.segs, 8 ∣ s.len) : ∀ inp ∈ piecesOf c, inp.length % 8 = 0 := by
  refine List.forall_mem_cons.mpr ⟨?_, ?_⟩
  · rw [length_headerRender]
    simp only [headerSize, headerLen]
    omega
  · intro inp hi
    obtain ⟨s, hs, rfl⟩ := List.mem_map.mp hi
    rw [length_bytes]
    exact Nat.mod_eq_zero_of_dvd (hw s hs)

/-- The image of whole words unpacks to a frame. -/
theorem unpacked_image {c : Capn} (hw : ∀ s ∈ c.segs, 8 ∣ s.len) (packed : Bool) : ∃ pad,
    (sizeTable (c.segs.map Segment.bytes) ++ pad).length = tableSize (c.segs.map Segment.bytes).length ∧
      unpacked (image c packed) packed = frame (c.segs.map Segment.bytes) pad := by
  have hu : unpacked (image c packed) packed = (piecesOf c).flatten := by
    cases packed with
    | true => exact unpack_packedAll (words_piecesOf hw)
    | false => rfl
  obtain ⟨pad, hp, hf⟩ := headerRender_frame c
  refine ⟨pad, by rw [List.length_map]; exact hp, ?_⟩
  rw [hu, ← hf, piecesOf, List.flatten_cons]

theorem image_frame {c : Capn} (hw : ∀ s ∈ c.segs, 8 ∣ s.len) (packed : Bool) :
    BeginsFrame (unpacked (image c packed) packed) (c.segs.map Segment.bytes) := by
  obtain ⟨pad, hp, hu⟩ := unpacked_image hw packed
  exact ⟨pad, [], hp, by rw [hu, List.append_nil]⟩

/-! ## Sessions built by calls -/

theorem Fit.framable {c : Capn} (h : Fit c) (h1 : 1 ≤ c.segnum) (hmax : c.segnum ≤ CAPN_MAX_SEGS)
    (ht : dataSizeOf c < 2 ^ 32) : Framable (c.segs.map Segment.bytes) where
  ne_nil e := by
    rw [Capn.segnum, List.map_eq_nil_iff.mp e] at h1
    exact absurd h1 (by decide)
  count := by rwa [List.length_map]
  words := by
    intro b hb
    obtain ⟨s, hs, rfl⟩ := List.mem_map.mp hb
    rw [length_bytes]
    exact (h.seg_mem hs).words
  size := by
    intro b hb
    obtain ⟨s, hs, rfl⟩ := List.mem_map.mp hb
    obtain ⟨-, -, hcap, hmax⟩ := h.seg_mem hs
    rw [length_bytes]
    simp only [maxSegment, INT_MAX] at hmax ⊢
    omega
  total := by rwa [flatten_bytes, length_flatMap_bytes]

/-- `capn_size` of a session that has a root and is left as it is by looking for it. -/
theorem capnSize_rooted {c : Capn} (h1 : c.segnum ≠ 0) (hr : (capnRoot c).1 = c) (hs : (capnRoot c).2.seg ≠ none) :
    capnSize c = (headerSize c.segnum + dataSizeOf c : Nat) := by
  rw [capnSize, if_neg h1]
  generalize capnRoot c = q at hr hs
  obtain ⟨d, root⟩ := q
  simp only at hr hs ⊢
  subst hr
  rw [if_neg hs, headerSize, headerLen]
  congr 2
  omega

/-- `capn_size` of a session with a segment. -/
theorem Fit.capnSize {c : Capn} (h : Fit c) (h1 : 1 ≤ c.segnum) :
    capnSize c = (headerSize c.segnum + dataSizeOf c : Nat) := by
  obtain ⟨hr, hs⟩ := h.root h1
  exact capnSize_rooted (by omega) hr hs

/-! ## The round trip -/

/-- `capn_write_mem` of `c` into `sz` bytes returns, and `capn_init_mem` of what
it wrote gives a session with the same segments. -/
def RoundTrips (calloc : Nat → Option Nat) (c : Capn) (packed : Bool) (sz : Nat) : Prop :=
  ∃ r, WritesMem c sz packed r ∧ r.ret = r.bytes.length ∧
    ∃ i, InitsMem calloc r.bytes packed i ∧ i.ret = 0 ∧
      i.capn.segs.map Segment.bytes = c.segs.map Segment.bytes

/-- A buffer that is large enough: for the image, and for the table that the
packing writer renders into it. -/
def Room (c : Capn) (packed : Bool) (sz : Nat) : Prop :=
  (packed = true → 2 * headerSize c.segnum + 2 ≤ sz) ∧ (image c packed).length ≤ sz

/-- The codecs copy no raw bytes at a count that is a multiple of 2³²: the
packer into `sz` bytes, nor the unpacker of what it stored. -/
def Copies (c : Capn) (sz : Nat) : Prop := ¬ PackStalls sz (piecesOf c) ∧ ¬ InitJams (image c true) true

theorem copies_of_lt {c : Capn} (h : Fit c) (hmax : c.segnum ≤ 1023) {sz : Nat} (hroom : Room c true sz)
    (hsz : sz < 2 ^ 32) : Copies c sz := by
  constructor
  · refine not_packStalls (List.forall_mem_cons.mpr ⟨?_, ?_⟩) hsz
    · rw [length_headerRender]
      simp only [headerSize, headerLen]
      omega
    · intro inp hi
      obtain ⟨s, hs, rfl⟩ := List.mem_map.mp hi
      obtain ⟨-, -, hcap, hmax⟩ := h.seg_mem hs
      rw [length_bytes]
      simp only [maxSegment, INT_MAX] at hmax
      omega
  · rintro ⟨-, o, n, hp, -, hn⟩
    have hpos := hp.pos
    have hle := hp.le_length Packing.parsePlace_length
    have := hroom.2
    omega

theorem room_fitsIn {c : Capn} (hw : ∀ s ∈ c.segs, 8 ∣ s.len) {packed : Bool} {sz : Nat}
    (hroom : Room c packed sz) (hj : packed = true → ¬ PackStalls sz (piecesOf c)) : FitsIn c packed sz := by
  cases packed with
  | true => exact ⟨hroom.1 rfl, words_piecesOf hw, hroom.2, hj rfl⟩
  | false =>
    have := hroom.2
    rwa [length_image_plain] at this

/-- **Sessions of less than 2³² bytes are read back**, and the unpacked writer
needs exactly `capn_size`. -/
theorem roundTrips {c : Capn} {calloc : Nat → Option Nat} (hb : Built c) (h1 : 1 ≤ c.segnum)
    (hmax : c.segnum ≤ 1023) (hcalloc : CallocOk calloc) :
    (∀ packed sz, dataSizeOf c < 2 ^ 32 → Room c packed sz → (packed = true → Copies c sz) →
      RoundTrips calloc c packed sz) ∧
    ∀ sz, ∃ r, WritesMem c sz false r ∧ (0 ≤ r.ret ↔ capnSize c ≤ sz) ∧ (0 ≤ r.ret → r.ret = capnSize c) := by
  have hfit := built_fit hb
  have hw : ∀ s ∈ c.segs, 8 ∣ s.len := fun s hs => (hfit.seg_mem hs).words
  obtain ⟨hroot, hseg⟩ := hfit.root h1
  refine ⟨fun packed sz ht hroom hcopies => ?_, fun sz => ?_⟩
  · have hfits := room_fitsIn hw hroom fun hp => (hcopies hp).1
    obtain ⟨hwrite, -⟩ := writesMem_iff.mpr ⟨⟨by omega, hseg⟩, by rwa [hroot], rfl⟩
    rw [hroot] at hwrite
    refine ⟨_, hwrite, rfl, initMem_frame hcalloc ?_ (image_frame hw packed) ?_⟩
    · exact hfit.framable h1 (by simp only [CAPN_MAX_SEGS]; omega) ht
    · intro hj
      have hp : packed = true := hj.1
      subst hp
      exact (hcopies rfl).2 hj
  · have hplain := fun r => @writeMemPlain_iff c sz r
    rw [hroot, length_image_plain, ← hfit.capnSize h1] at hplain
    have hsize : FitsIn c false sz ↔ capnSize c ≤ sz := by
      rw [hfit.capnSize h1, Int.ofNat_le]
      rfl
    rw [hsize] at hplain
    refine ⟨writeMemPlain c sz, ⟨0, ?_⟩, ⟨fun h => ?_, fun h => ?_⟩, fun h => ?_⟩
    · rw [capnWriteMem, if_neg (by omega), if_neg (by decide)]
    · exact ((hplain _).mp ⟨rfl, h⟩).2.1
    · have hok := (hplain _).mpr ⟨hseg, h, rfl⟩
      rw [hok.1]
      exact hok.2
    · rw [((hplain _).mp ⟨rfl, h⟩).2.2]

/-! ## A session that is not read back -/

/-- A session with a root, and nothing in it. -/
def rootSession : Capn := (capnRoot capnInitMalloc).1

/-- The empty root, packed into 64 bytes, and unpacked. -/
theorem roundTrips_root : RoundTrips some rootSession true 64 ∧
    ∃ r, WritesMem rootSession 16 false r ∧ (0 ≤ r.ret ↔ capnSize rootSession ≤ (16 : Nat)) := by
  have h1 : 1 ≤ rootSession.segnum := by decide
  have hmax : rootSession.segnum ≤ 1023 := by decide
  have ht : dataSizeOf rootSession < 2 ^ 32 := by decide
  have hroom : Room rootSession true 64 :=
    ⟨fun _ => by decide, (length_image_packed_le rootSession).trans (by decide)⟩
  have hall := roundTrips built_init.root h1 hmax callocOk_some
  refine ⟨hall.1 true 64 ht hroom fun _ => copies_of_lt (built_fit built_init.root) hmax hroom (by decide), ?_⟩
  obtain ⟨r, hr, hsz, -⟩ := hall.2 16
  exact ⟨r, hr, hsz⟩

/-- Adds a list of somewhat less than 2³⁰ bytes. -/
def addList (c : Capn) : Capn := (capnNewList c (some 0) 134217700 8 0).1

/-- Five such lists, each in a segment of its own. -/
def bigSession : Capn := addList (addList (addList (addList (addList rootSession))))

/-- A session of six segments and more than 2³² bytes: it is written, but not
read back. -/
theorem roundTrips_fails : Built bigSession ∧ bigSession.segnum = 6 ∧
    (∃ r, WritesMem bigSession 5368708080 false r ∧ r.ret = 5368708080) ∧
    ∀ packed sz, ¬ RoundTrips some bigSession packed sz := by
  have hbuilt : Built bigSession := by
    unfold bigSession
    repeat' apply Built.newList
    exact built_init.root
  have hlens : bigSession.segs.map Segment.len =
      [8, 1073741608, 1073741608, 1073741608, 1073741608, 1073741608] := rfl
  have hnum : bigSession.segnum = 6 := rfl
  have hsize : dataSizeOf bigSession = 5368708048 := by
    rw [dataSizeOf, hlens]
    rfl
  have hfit := built_fit hbuilt
  obtain ⟨hroot, hseg⟩ := hfit.root (by rw [hnum]; decide)
  refine ⟨hbuilt, hnum, ⟨⟨_, image bigSession false, bigSession⟩, ?_, rfl⟩, ?_⟩
  · have hlen : (image bigSession false).length = 5368708080 := by
      rw [length_image_plain, hsize, hnum]
      rfl
    have hfits : FitsIn bigSession false 5368708080 := by
      rw [← hlen, length_image_plain]
      exact Nat.le_refl _
    have hw := (@writesMem_iff bigSession _ false _).mpr ⟨⟨by rw [hnum]; decide, hseg⟩, by rwa [hroot], rfl⟩
    rw [hroot, hlen] at hw
    exact hw.1
  · rintro packed sz ⟨r, -, -, i, hi, h0, e⟩
    have hf := initMem_framable (fun n => ⟨n, rfl, Nat.le_refl n⟩) hi h0
    have ht := hf.total
    rw [e, flatten_bytes, length_flatMap_bytes, hsize] at ht
    exact absurd ht (by decide)

end Capnproto

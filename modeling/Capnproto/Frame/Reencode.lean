import Capnproto.Frame.Readers
import Capnproto.Frame.RoundTrip
import Capnproto.Pointer.Chain

/-!
# Writing what was read

An accepted frame is written back as it was, but for the padding of its table, if
its first segment is not empty (`reproduces_iff`). If it is, `capn_root` finds no
room for a root pointer, and the session can be neither measured nor written
(`reproduces_fails`).
-/

namespace Capnproto

/-! ## Frames -/

/-- The size of the first segment, in words. -/
theorem first_size {s : List UInt8} {ss : List (List UInt8)} (hf : Framable (s :: ss)) (pad tail : List UInt8) :
    le (((frame (s :: ss) pad ++ tail).drop 4).take 4) = s.length / 8 := by
  have h4 : (toLe 4 ((s :: ss).length - 1)).length = 4 := length_toLe 4 _
  have hs : (toLe 4 (s.length / 8)).length = 4 := length_toLe 4 _
  have hlt := hf.size_lt s List.mem_cons_self
  rw [frame, sizeTable, List.flatMap_cons]
  simp only [List.append_assoc]
  rw [List.drop_left' h4, List.take_left' hs, le_toLe, show 256 ^ 4 = 2 ^ 32 from rfl,
    Nat.mod_eq_of_lt hlt]

/-! ## Sessions that were read -/

/-- A buffer that `capn_init_mem` accepts, unpacked: the frame of the session,
and what is left. -/
theorem initMemLeft_frame {calloc : Nat → Option Nat} {p : List UInt8} {fuel : Nat} {r : Init} {z : Stream}
    (hcalloc : CallocOk calloc) (h : capnInitMemLeft fuel calloc p false = some (r, z)) (h0 : r.ret = 0) :
    ∃ segs pad, Framable segs ∧ (sizeTable segs ++ pad).length = tableSize segs.length ∧
      p = frame segs pad ++ z.nextIn ∧ r.capn.segs = carve (segs.map List.length) segs.flatten := by
  obtain ⟨r', z', u, n, hl, hu, hx⟩ := @initFpLeft_like _ _ _ _ _ calloc readFp_like
    { nextIn := p, availOut := 0 } p rfl
  -- without packing, no step of the reader uses fuel
  have e : capnInitMemLeft fuel calloc p false = some (r', z') := hx n (Nat.le_refl n)
  cases h.symm.trans e
  have hi : initFp (readList false) calloc p = some r := by rw [← initFpLeft_fst, hl]; rfl
  obtain ⟨segs, hf, ⟨pad, tail, ht, rfl⟩, ec⟩ := initFp_accepts hcalloc hi h0
  obtain ⟨stores, hfr⟩ := @initFpLeft_frame _ false _ _ tail hcalloc hf ht
  cases hl.symm.trans hfr
  exact ⟨segs, pad, hf, ht, by rw [hu rfl], rfl⟩

/-- Writing `c` gives back the `n` bytes at the start of `p`: `capn_size` is `n`,
and `capn_write_mem` into a buffer of that size stores them, up to the padding
of the table. -/
def Reproduces (p : List UInt8) (c : Capn) (n : Nat) : Prop :=
  capnSize c = n ∧ ∃ w, WritesMem c n false w ∧ w.ret = n ∧ w.bytes.length = n ∧
    w.bytes.take (4 + 4 * c.segnum) = p.take (4 + 4 * c.segnum) ∧
    w.bytes.drop (4 + tableSize c.segnum) = (p.take n).drop (4 + tableSize c.segnum)

/-- Without a root, a session has no size. -/
theorem capnSize_rootless {c : Capn} (h : (capnRoot c).2.seg = none) : capnSize c = -1 := by
  rw [capnSize]
  split
  · rfl
  · exact if_pos h

theorem tableSize_headerSize (n : Nat) : 4 + tableSize n = headerSize n := by
  simp only [tableSize, headerSize, headerLen]
  omega

/-- A session with the segments of a frame, and a root, is written as the frame. -/
theorem reproduces_frame {c : Capn} {segs : List (List UInt8)} {pad tail : List UInt8}
    (hsegs : c.segs.map Segment.bytes = segs) (hne : segs ≠ [])
    (ht : (sizeTable segs ++ pad).length = tableSize segs.length) (hr : (capnRoot c).1 = c)
    (hs : (capnRoot c).2.seg ≠ none) : Reproduces (frame segs pad ++ tail) c (frame segs pad).length := by
  have hnum : c.segnum = segs.length := by rw [← hsegs, List.length_map, Capn.segnum]
  have h1 : c.segnum ≠ 0 := by
    rw [hnum]
    exact fun e => hne (List.length_eq_zero_iff.mp e)
  have hdata : dataSizeOf c = segs.flatten.length := by rw [← length_flatMap_bytes, ← flatten_bytes, hsegs]
  have hlen : headerSize c.segnum + dataSizeOf c = (frame segs pad).length := by
    rw [length_frame ht, hdata, hnum, tableSize_headerSize]
  obtain ⟨pad', hp', hf'⟩ := headerRender_frame c
  have himage : image c false = frame segs pad' := by
    rw [← hsegs, ← hf']
    rfl
  rw [hsegs, hnum] at hp'
  have hw : WritesMem c (frame segs pad).length false ⟨(image c false).length, image c false, c⟩ := by
    have h := (@writesMem_iff c (frame segs pad).length false ⟨(image c false).length, image c false, c⟩).mpr
    rw [hr] at h
    exact (h ⟨⟨h1, hs⟩, hlen.le, rfl⟩).1
  have hil : (image c false).length = (frame segs pad).length := by rw [length_image_plain, hlen]
  refine ⟨by rw [capnSize_rooted h1 hr hs, hlen], _, hw, congrArg Nat.cast hil, hil, ?_, ?_⟩
  · show (image c false).take _ = _
    have h := take_frame segs pad' []
    rw [List.append_nil] at h
    rw [himage, hnum, take_frame segs pad tail, h]
  · show (image c false).drop _ = _
    rw [himage, hnum, drop_frame hp', List.take_left, drop_frame ht]

/-- **What `capn_init_mem` accepts is written back as it was**, up to the padding
of the table, exactly if its first segment is not empty. -/
theorem reproduces_iff {calloc : Nat → Option Nat} {p : List UInt8} {fuel : Nat} {r : Init} {z : Stream}
    (hcalloc : CallocOk calloc) (h : capnInitMemLeft fuel calloc p false = some (r, z)) (h0 : r.ret = 0) :
    Reproduces p r.capn (p.length - z.nextIn.length) ↔ le ((p.drop 4).take 4) ≠ 0 := by
  obtain ⟨segs, pad, hf, ht, hp, hc⟩ := initMemLeft_frame hcalloc h h0
  have hload : Loaded r.capn :=
    InitsMem.loaded hcalloc ⟨fuel, by rw [capnInitMem, ← initFpLeft_fst]; exact congrArg _ h⟩ h0
  have hbytes : r.capn.segs.map Segment.bytes = segs := by rw [hc, map_bytes_carve_flatten]
  have hroot := capnRoot_loaded hload
  obtain ⟨s, ss, rfl⟩ := List.exists_cons_of_ne_nil hf.ne_nil
  obtain ⟨w, hw⟩ := hf.words s List.mem_cons_self
  have hcap : (r.capn.seg 0).cap = s.length := by
    rw [Capn.seg, hc]
    rfl
  have hfirst : le ((p.drop 4).take 4) = s.length / 8 := by rw [hp, first_size hf]
  rw [hfirst]
  constructor
  · rintro ⟨hsize, -⟩ hz
    have hnone : (capnRoot r.capn).2.seg = none := by rw [hroot, if_pos (by omega)]
    rw [capnSize_rootless hnone] at hsize
    omega
  · intro hz
    have hn : p.length - z.nextIn.length = (frame (s :: ss) pad).length := by
      rw [hp, List.length_append, Nat.add_sub_cancel]
    rw [hn]
    nth_rewrite 1 [hp]
    refine reproduces_frame hbytes hf.ne_nil ht (by rw [hroot]) ?_
    rw [hroot, if_neg (by omega)]
    exact Option.some_ne_none _

/-- A frame of one word. -/
def wordFrame : List UInt8 := [0, 0, 0, 0, 1, 0, 0, 0, 1, 2, 3, 4, 5, 6, 7, 8]

theorem reproduces_iff_word : ∃ r z, capnInitMemLeft 0 some wordFrame false = some (r, z) ∧ r.ret = 0 ∧
    (Reproduces wordFrame r.capn (wordFrame.length - z.nextIn.length) ↔ le ((wordFrame.drop 4).take 4) ≠ 0) :=
  ⟨_, _, rfl, rfl, @reproduces_iff some wordFrame 0 _ _ (fun n => ⟨n, rfl, Nat.le_refl n⟩) rfl rfl⟩

/-- A frame of one empty segment is accepted, and then neither measured nor
written, packed or not. -/
theorem reproduces_fails : ∃ r z, capnInitMemLeft 0 some (List.replicate 8 0) false = some (r, z) ∧ r.ret = 0 ∧
    capnSize r.capn = -1 ∧ (∀ sz packed w, WritesMem r.capn sz packed w → w.ret < 0) ∧
    ∀ n, ¬ Reproduces (List.replicate 8 0) r.capn n := by
  refine ⟨_, _, rfl, rfl, rfl, ?_, ?_⟩
  · intro sz packed w hw
    by_contra hret
    exact (writesMem_iff.mp ⟨hw, Int.not_lt.mp hret⟩).1.2 rfl
  · rintro n ⟨hsize, -⟩
    exact absurd hsize (by change ¬ (-1 : Int) = n; omega)

end Capnproto

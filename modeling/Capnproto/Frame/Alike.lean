import Capnproto.Frame.RoundTrip
import Capnproto.Frame.Streaming

/-!
# All writers alike

When `capn_write_fd` and `capn_write_fp` send what `capn_write_mem` writes
(`alike_iff`), and a session they refuse, whose packed form the buffer cuts
inside a word (`alike_fails`).
-/

namespace Capnproto

/-- `capn_write_fd` returns, with `r`. -/
def WritesFd {τ : Type} (k : Sink τ) (c : Capn) (t : τ) (pk : Bool) (r : Int × Sent τ) : Prop :=
  ∃ fuel, capnWriteFd k fuel c t pk = some r

/-- `capn_write_fp` returns, with `r`. -/
def WritesFp {τ : Type} (k : Sink τ) (flush : τ → Bool) (c : Capn) (t : τ) (pk : Bool) (r : Int × Sent τ) :
    Prop :=
  ∃ fuel, capnWriteFp k flush fuel c t pk = some r

/-- What the writers should do: if `capn_write_mem` writes the session into some
buffer, and the table of segment sizes fits the buffer of the header, the
streaming writers return the same count, and send the same bytes, whatever
parts of its offers the receiver takes. -/
def Alike (c : Capn) (pk : Bool) : Prop :=
  ∀ sz w, WritesMem c sz pk w → 0 ≤ w.ret → headerSize w.capn.segnum ≤ ZBUF →
    ∀ (τ : Type) (k : Sink τ) (flush : τ → Bool) (t : τ), k.Accepts → (∀ t, flush t = true) →
      (∃ s, WritesFd k c t pk (w.ret, s) ∧ s.bytes = w.bytes) ∧
        ∃ s, WritesFp k flush c t pk (w.ret, s) ∧ s.bytes = w.bytes

/-- A session that can be written at all: `capn_root` has a segment, and the
image fits some buffer. -/
def Writable (c : Capn) (pk : Bool) : Prop :=
  (c.segnum ≠ 0 ∧ (capnRoot c).2.seg ≠ none) ∧ ∃ sz, FitsIn (capnRoot c).1 pk sz

theorem toInt32_eq {n : Nat} : toInt32 n = n ↔ n < 2 ^ 31 := by
  rw [toInt32]
  split <;> omega

section

variable {τ : Type} {k : Sink τ} {flush : τ → Bool} {c : Capn} {t : τ} {pk : Bool}

theorem writeStream_unique {r r' : Int × Sent τ} (h : ∃ fuel, writeStream k flush fuel c t pk = some r)
    (h' : ∃ fuel, writeStream k flush fuel c t pk = some r') : r = r' := by
  obtain ⟨n, hn⟩ := h
  obtain ⟨m, hm⟩ := h'
  have e := (writeStream_mono (Nat.le_max_left n m) hn).symm.trans
    (writeStream_mono (Nat.le_max_right n m) hm)
  exact Option.some.inj e

/-- What a streaming writer does with a session that can be written. -/
theorem writeStream_alike (hk : k.Accepts) (hflush : ∀ t, flush t = true) (hw : Writable c pk)
    (ht : headerSize (capnRoot c).1.segnum ≤ ZBUF) :
    (∃ s, (∃ fuel, writeStream k flush fuel c t pk = some (((image (capnRoot c).1 pk).length : Int), s)) ∧
      s.bytes = image (capnRoot c).1 pk) ↔
      (image (capnRoot c).1 pk).length < 2 ^ 31 ∧ Sendable (capnRoot c).1 pk := by
  have hp : pk = true → ∃ room, Packs room (piecesOf (capnRoot c).1) := by
    rintro rfl
    obtain ⟨-, sz, hf⟩ := hw
    exact ⟨sz, hf.2⟩
  obtain ⟨fuel, r, hr, hok, hbad⟩ := writeStream_spec hk hflush t hw.1 ht hp
  constructor
  · rintro ⟨s, hs, hb⟩
    obtain rfl := writeStream_unique ⟨fuel, hr⟩ hs
    have hsend : Sendable (capnRoot c).1 pk := by
      by_contra hn
      exact absurd (hbad hn) (Int.not_lt.mpr (Int.natCast_nonneg _))
    exact ⟨toInt32_eq.mp (hok hsend).1.symm, hsend⟩
  · rintro ⟨hlen, hsend⟩
    obtain ⟨h1, hb⟩ := hok hsend
    rw [toInt32_eq.mpr hlen] at h1
    exact ⟨r.2, ⟨fuel, by rw [hr, ← h1]⟩, hb⟩

end

/-- A receiver that takes all it is offered. -/
def Sink.all : Sink Unit := ⟨fun _ bytes => ((), .took bytes.length)⟩

theorem Sink.all_accepts : Sink.all.Accepts := fun _ bytes hb =>
  ⟨(), bytes.length, rfl, List.length_pos_iff.mpr hb, Nat.le_refl _⟩

/-- The receivers see no difference between `capn_write_mem` and a streaming
writer exactly for these sessions. -/
theorem alike_of_writable {c : Capn} {pk : Bool} (hw : Writable c pk)
    (ht : headerSize (capnRoot c).1.segnum ≤ ZBUF) :
    Alike c pk ↔ (image (capnRoot c).1 pk).length < 2 ^ 31 ∧ Sendable (capnRoot c).1 pk := by
  constructor
  · intro h
    obtain ⟨h0, sz, hf⟩ := hw
    obtain ⟨hm, hret⟩ := writesMem_iff.mpr ⟨h0, hf, rfl⟩
    obtain ⟨hfd, -⟩ := h sz _ hm hret ht Unit .all (fun _ => true) () Sink.all_accepts fun _ => rfl
    exact (writeStream_alike Sink.all_accepts (fun _ => rfl) ⟨h0, sz, hf⟩ ht).mp hfd
  · intro h sz w hm hret _ τ k flush t hk hflush
    obtain ⟨-, -, e⟩ := writesMem_iff.mp ⟨hm, hret⟩
    subst e
    exact ⟨(writeStream_alike hk (fun _ => rfl) hw ht).mpr h,
      (writeStream_alike hk.stdio hflush hw ht).mpr h⟩

/-- **The writers are alike** exactly for the sessions that, if they can be
written and their table fits the buffer of the header, are of less than 2³¹
bytes, and, packed, have a table that fits with its packed form, and no raw word
that the buffer cuts. -/
theorem alike_iff (c : Capn) (pk : Bool) :
    Alike c pk ↔ (Writable c pk → headerSize (capnRoot c).1.segnum ≤ ZBUF →
      (image (capnRoot c).1 pk).length < 2 ^ 31 ∧
        (pk = true → TableRoom (capnRoot c).1 ∧ ∀ s ∈ (capnRoot c).1.segs, ¬ s.CutRaw)) := by
  by_cases h : Writable c pk ∧ headerSize (capnRoot c).1.segnum ≤ ZBUF
  · rw [alike_of_writable h.1 h.2]
    exact ⟨fun hs _ _ => hs, fun hs => hs h.1 h.2⟩
  · refine iff_of_true ?_ fun hw ht => absurd ⟨hw, ht⟩ h
    intro sz w hm hret ht
    obtain ⟨h0, hf, e⟩ := writesMem_iff.mp ⟨hm, hret⟩
    subst e
    exact absurd ⟨⟨h0, sz, hf⟩, ht⟩ h

/-! ## A session whose writers differ -/

theorem rawWords_full {b : UInt8} (hb : b ≠ 0) (m n : Nat) (h : m ≤ n) :
    rawWords m (List.replicate (n * 8) b) = m := by
  induction m generalizing n with
  | zero => rfl
  | succ m ih =>
    have htake : ((List.replicate (n * 8) b).take 8).filter (· = 0) = [] := by
      refine List.filter_eq_nil_iff.mpr fun x hx => ?_
      rw [(List.mem_replicate.mp (List.mem_of_mem_take hx)).2]
      simpa using hb
    rw [rawWords, if_neg (by rw [htake]; decide), List.drop_replicate,
      show n * 8 - 8 = (n - 1) * 8 by omega, ih (n - 1) (by omega)]

/-- The packets of words without a zero byte. -/
theorem packets_full {b : UInt8} (hb : b ≠ 0) (n : Nat) :
    packets (List.replicate ((n + 1) * 8) b) =
      .dense (List.replicate 8 b) (List.replicate (min n 255 * 8) b) ::
        packets (List.replicate ((n - 255) * 8) b) := by
  have hlen : (List.replicate ((n + 1) * 8) b).length = (n + 1) * 8 := List.length_replicate
  have htake : (List.replicate ((n + 1) * 8) b).take 8 = List.replicate 8 b := by
    rw [List.take_replicate, Nat.min_eq_left (by omega)]
  have hdrop : (List.replicate ((n + 1) * 8) b).drop 8 = List.replicate (n * 8) b := by
    rw [List.drop_replicate, show (n + 1) * 8 - 8 = n * 8 by omega]
  have hcount : (List.replicate 8 b).filter (· ≠ 0) = List.replicate 8 b :=
    List.filter_eq_self.mpr fun x hx => by
      rw [(List.mem_replicate.mp hx).2]
      simpa using hb
  have hfirst : firstPacket (List.replicate ((n + 1) * 8) b) =
      .dense (List.replicate 8 b) (List.replicate (min n 255 * 8) b) := by
    rw [firstPacket]
    simp only [htake, hdrop, hcount, List.length_replicate]
    rw [if_neg (by decide), if_pos trivial, Nat.mul_div_cancel _ (by decide),
      rawWords_full hb _ _ (Nat.min_le_left _ _), List.take_replicate, Nat.min_eq_left (by omega)]
  rw [packets, dif_pos (by rw [hlen]; omega), hfirst, Packing.Packet.expand, List.length_append,
    Packing.Packet.base, Packing.Packet.ext, List.length_replicate, List.length_replicate,
    List.drop_replicate, show (n + 1) * 8 - (8 + min n 255 * 8) = (n - 255) * 8 by omega]

/-- A session with one struct, of 4096 bytes of data. -/
def structSession : Capn := (capnNewStruct (capnRoot capnInitMalloc).1 (some 0) 4096 0).1

/-- The same, once all its data is set. -/
def denseSession : Capn := structSession.write ⟨1, 8⟩ (List.replicate (512 * 8) 0xFF)

/-- The segment of the struct: its tag, and its data. -/
def denseSegment : Segment :=
  ⟨(Mem.zero.write 0 [0, 0, 0, 0, 0, 2, 0, 0]).write 8 (List.replicate (512 * 8) 0xFF), 4104, 8112⟩

theorem denseSession_segs : denseSession.segs = [⟨Mem.zero, 8, 4016⟩, denseSegment] := rfl

theorem denseSegment_bytes :
    denseSegment.bytes = [0, 0, 0, 0, 0, 2, 0, 0] ++ List.replicate (512 * 8) 0xFF := by
  have hsplit : denseSegment.bytes = denseSegment.data.read 0 8 ++ denseSegment.data.read 8 (512 * 8) :=
    Mem.read_add denseSegment.data 0 8 (512 * 8)
  have hdata := Mem.read_write_same (Mem.zero.write 0 [0, 0, 0, 0, 0, 2, 0, 0]) 8
    (List.replicate (512 * 8) 0xFF)
  have htag : denseSegment.data.read 0 8 = [0, 0, 0, 0, 0, 2, 0, 0] :=
    (Mem.read_write_disjoint (.inl (by decide))).trans
      (Mem.read_write_same Mem.zero 0 [0, 0, 0, 0, 0, 2, 0, 0])
  rw [List.length_replicate] at hdata
  rw [hsplit, htag]
  exact congrArg _ hdata

theorem packets_denseSegment : packets denseSegment.bytes =
    .sparse [0, 0, 0, 0, 0, 2, 0, 0] :: packets (List.replicate (512 * 8) 0xFF) := by
  have hfirst : firstPacket denseSegment.bytes = .sparse [0, 0, 0, 0, 0, 2, 0, 0] := by
    have hword : ([0, 0, 0, 0, 0, 2, 0, 0] ++ List.replicate (512 * 8) (0xFF : UInt8)).take 8 =
        [0, 0, 0, 0, 0, 2, 0, 0] := List.take_left' rfl
    rw [denseSegment_bytes, firstPacket]
    simp only [hword]
    rw [if_neg (by decide), if_neg (by decide)]
  rw [packets, dif_pos (by rw [length_bytes]; decide), hfirst, denseSegment_bytes]
  rfl

theorem length_head_dense (w e : List UInt8) : (Packing.Packet.dense w e).head.length = w.length + 2 := by
  simp [Packing.Packet.head]

theorem length_bytes_dense (w e : List UInt8) :
    (Packing.Packet.dense w e).bytes.length = w.length + 2 + e.length := by
  rw [Packing.Packet.bytes, List.length_append, length_head_dense]
  rfl

/-- The second packet of dense words is cut with 2034 of its 2040 raw bytes
stored. -/
theorem denseSegment_cutRaw : denseSegment.CutRaw := by
  have h512 := packets_full (b := 0xFF) (by decide) 511
  have h256 := packets_full (b := 0xFF) (by decide) 255
  have hsparse : (Packing.Packet.sparse [0, 0, 0, 0, 0, 2, 0, 0]).bytes.length = 2 := rfl
  generalize hp : Packing.Packet.sparse [0, 0, 0, 0, 0, 2, 0, 0] = p at hsparse
  generalize hq : Packing.Packet.dense (List.replicate 8 0xFF) (List.replicate (min 511 255 * 8) 0xFF) = q at h512
  have hhead : q.head.length = 10 := by rw [← hq, length_head_dense, List.length_replicate]
  have hbytes : q.bytes.length = 2050 := by
    rw [← hq, length_bytes_dense, List.length_replicate, List.length_replicate]
    rfl
  have h256' : packets (List.replicate ((511 - 255) * 8) 0xFF) = q :: packets [] := by
    rw [← hq]
    exact h256
  rw [Segment.CutRaw, packets_denseSegment, hp, h512, h256']
  refine (cutsRaw_fits ?_).mpr ((cutsRaw_fits ?_).mpr (cutsRaw_cut ?_ ?_ ?_)) <;>
    simp only [hsparse, hhead, hbytes, ZBUF] <;> decide

/-- The struct with its data set: `capn_write_mem` packs it, and the streaming
writers refuse it. -/
theorem alike_fails : Built denseSession ∧ ¬ Alike denseSession true := by
  have hbuilt : Built denseSession := built_init.root.newStruct (some 0) 4096 0 |>.store ⟨1, 8⟩ _
  have hfit := built_fit hbuilt
  have h1 : 1 ≤ denseSession.segnum := by decide
  have hnum : denseSession.segnum = 2 := rfl
  obtain ⟨hroot, hseg⟩ := hfit.root h1
  have hsize : dataSizeOf denseSession = 4112 := rfl
  have hroom : Room denseSession true 8256 :=
    ⟨fun _ => by rw [hnum]; decide, (length_image_packed_le denseSession).trans (by rw [hnum, hsize]; decide)⟩
  have hcopies := copies_of_lt hfit (by rw [hnum]; decide) hroom (by decide)
  have hfits : FitsIn denseSession true 8256 :=
    room_fitsIn (fun s hs => (hfit.seg_mem hs).words) hroom fun _ => hcopies.1
  refine ⟨hbuilt, fun h => ?_⟩
  rw [alike_of_writable ⟨⟨by omega, hseg⟩, 8256, by rwa [hroot]⟩ (by rw [hroot, hnum]; decide), hroot] at h
  have hmem : denseSegment ∈ denseSession.segs := by
    rw [denseSession_segs]
    exact List.mem_cons_of_mem _ List.mem_cons_self
  exact (h.2 rfl).2 denseSegment hmem denseSegment_cutRaw

end Capnproto

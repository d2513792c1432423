import Capnproto.Stream.Deflate

/-!
# Packing through a buffer

A caller that packs through one buffer sends it off and calls `capn_deflate`
again whenever that asks for room. A packet's head is never cut, but the raw
words after it are, wherever the buffer ends: `CutsRaw` says that one of them
is cut inside a word. A call is then left with an input that is not whole
words, which the next one refuses (`deflate_chunk`).
-/

namespace Capnproto

open Packing

/-- Packing the packets `ps` with `room` bytes left in a buffer of `size`, the end
of a buffer cuts a raw word. -/
def CutsRaw (size : Nat) : Nat → List Packet → Prop
  | _, [] => False
  | room, p :: ps =>
    -- a head that does not fit opens the next buffer
    let room := (if room < p.head.length then size else room) - p.head.length
    if p.ext.length ≤ room then CutsRaw size (room - p.ext.length) ps
    else (p.ext.length - room) % 8 ≠ 0 ∨ CutsRaw size (size - (p.ext.length - room)) ps

/-- A packet that fits is not cut. -/
theorem cutsRaw_fits {size room : Nat} {p : Packet} {ps : List Packet} (h : p.bytes.length ≤ room) :
    CutsRaw size room (p :: ps) ↔ CutsRaw size (room - p.bytes.length) ps := by
  rw [Packet.bytes, List.length_append] at h ⊢
  have hf : ¬ room < p.head.length := by omega
  have he : p.ext.length ≤ room - p.head.length := by omega
  simp only [CutsRaw, if_neg hf, if_pos he, Nat.sub_sub]

/-- A packet whose head fits is cut inside a word. -/
theorem cutsRaw_cut {size room : Nat} {p : Packet} {ps : List Packet} (hh : p.head.length ≤ room)
    (he : room < p.bytes.length) (h8 : (p.bytes.length - room) % 8 ≠ 0) : CutsRaw size room (p :: ps) := by
  rw [Packet.bytes, List.length_append] at he h8
  have hf : ¬ room < p.head.length := Nat.not_lt.mpr hh
  have he' : ¬ p.ext.length ≤ room - p.head.length := by omega
  simp only [CutsRaw, if_neg hf, if_neg he']
  exact .inl (by omega)

namespace Stream

/-- The packer goes on to cut a raw word. -/
def Cuts (size : Nat) (s : Stream) : Prop :=
  if s.raw ≤ s.availOut then CutsRaw size (s.availOut - s.raw) (packets (s.nextIn.drop s.raw))
  else (s.raw - s.availOut) % 8 ≠ 0 ∨
    CutsRaw size (size - (s.raw - s.availOut)) (packets (s.nextIn.drop s.raw))

/-- The packer with an empty buffer of `size` bytes. -/
def fresh (size : Nat) (s : Stream) : Stream := { s with out := [], availOut := size }

/-- A packer that can go on with an empty buffer: at most the raw words of one
packet are left of a run, and no raw byte comes with a multiple of 2³² bytes of
input left. -/
structure Resumes (s : Stream) : Prop where
  aligned : s.Aligned
  raw : s.raw < 256 * 8
  clear : ∀ o n, s.InRaw o n → n % 2 ^ 32 ≠ 0

end Stream

theorem head_pos (p : Packet) : 0 < p.head.length := by
  cases p <;> simp [Packet.head]

theorem firstPacket_head_le {inp : List UInt8} (h : 8 ≤ inp.length) : (firstPacket inp).head.length ≤ 10 := by
  have hv := (firstPacket_spec h).1
  cases hp : firstPacket inp with
  | zeros n => simp [Packet.head]
  | dense w ext =>
    rw [hp] at hv
    simp [Packet.head, hv.1]
  | sparse w =>
    rw [hp] at hv
    have := List.length_filter_le (· ≠ 0) w
    have hw := hv.1
    simp only [Packet.head, List.length_cons]
    omega

theorem firstPacket_ext_lt {inp : List UInt8} (h : 8 ≤ inp.length) :
    (firstPacket inp).ext.length < 256 * 8 := by
  have hv := (firstPacket_spec h).1
  cases hp : firstPacket inp with
  | zeros | sparse => simp [Packet.ext]
  | dense w ext =>
    rw [hp] at hv
    exact hv.2.2

theorem rest_ne_nil {s : Stream} (hs : s.Aligned) (hi : s.nextIn ≠ []) : s.rest ≠ [] := by
  intro h
  obtain ⟨ht, hd⟩ := List.append_eq_nil_iff.mp h
  have hl := List.length_pos_iff.mpr hi
  have hlen := congrArg List.length ht
  rw [List.length_take, List.length_nil] at hlen
  have hr : s.raw = 0 := by omega
  have hw := hs.words
  rw [hr, List.drop_zero, packed_cons (by omega)] at hd
  have := congrArg List.length hd
  have := head_pos (firstPacket s.nextIn)
  simp only [List.length_append, List.length_nil] at *
  omega

/-- A packer comes to a place inside a raw run before it stored all. -/
theorem atRaw_lt_rest {k o n : Nat} {inp : List UInt8} (h : AtRaw packPlace k inp o n) :
    o < (inp.take k ++ packed (inp.drop k)).length := by
  induction h with
  | here hk hr => simp only [List.length_append, List.length_take]; omega
  | later hr h ht ih =>
    rw [packPlace] at h
    split at h
    · rename_i h8
      cases h
      rw [List.length_append, packed_eq h8, List.length_append, List.length_take]
      omega
    · cases h

/-- An input that is packed into a large buffer in one call can be packed through
small ones. -/
theorem resumes_of_not_stalls {inp : List UInt8} {room : Nat} (h8 : inp.length % 8 = 0)
    (hroom : (packed inp).length ≤ room) (hj : ¬ ({ nextIn := inp, availOut := room } : Stream).Stalls)
    (avail : Nat) : ({ nextIn := inp, availOut := avail } : Stream).Resumes where
  aligned := ⟨Nat.zero_le _, by simp only [Nat.sub_zero]; omega, by simp⟩
  raw := by simp
  clear o n hp hn := by
    have hlt : o < (packed inp).length := by simpa using atRaw_lt_rest hp
    exact hj ⟨o, n, hp, Nat.lt_of_lt_of_le hlt hroom, .inl hn⟩

/-! ## One iteration -/

/-- Where an iteration goes on to: it copies raw bytes, or stores a head. -/
theorem deflateStep_next {s s' : Stream} (hs : s.Aligned) (e : deflateStep s = .next s') :
    (∃ m, m ≤ s.raw ∧ m ≤ s.availOut ∧ s' = { s with
      out := s.out ++ s.nextIn.take m, nextIn := s.nextIn.drop m
      availOut := s.availOut - m, raw := s.raw - m }) ∨
    (s.raw = 0 ∧ 8 ≤ s.nextIn.length ∧ (firstPacket s.nextIn).head.length ≤ s.availOut ∧
      s' = { s with
        out := s.out ++ (firstPacket s.nextIn).head
        nextIn := s.nextIn.drop (firstPacket s.nextIn).base.length
        availOut := s.availOut - (firstPacket s.nextIn).head.length
        raw := (firstPacket s.nextIn).ext.length }) := by
  by_cases hi : s.nextIn.length = 0
  · rw [deflateStep, if_pos hi] at e
    cases e
  by_cases h0 : s.availOut = 0
  · rw [deflateStep, if_neg hi, if_pos h0] at e
    cases e
  by_cases hr : 0 < s.raw
  · rw [deflateStep, if_neg hi, if_neg h0, if_pos hr] at e
    cases e
    have h1 := min32_le_left s.raw (min32 s.nextIn.length s.availOut)
    have h2 := min32_le_right s.raw (min32 s.nextIn.length s.availOut)
    have h3 := min32_le_right s.nextIn.length s.availOut
    exact .inl ⟨_, h1, Nat.le_trans h2 h3, rfl⟩
  · have hr0 : s.raw = 0 := by omega
    have hw := hs.words
    have h8 : 8 ≤ s.nextIn.length := by omega
    rw [deflateStep_packet hr0 h8 h0] at e
    by_cases hf : s.availOut < (firstPacket s.nextIn).head.length
    · rw [if_pos hf] at e
      cases e
    · rw [if_neg hf] at e
      cases e
      exact .inr ⟨hr0, h8, Nat.not_lt.mp hf, rfl⟩

/-- An iteration changes nothing about the cuts to come. -/
theorem cuts_step {size : Nat} {s s' : Stream} (hs : s.Aligned) (e : deflateStep s = .next s') :
    s'.Cuts size ↔ s.Cuts size := by
  rcases deflateStep_next hs e with ⟨m, hr, ho, rfl⟩ | ⟨hr, h8, hf, rfl⟩
  · have hsub : s.raw - m ≤ s.availOut - m ↔ s.raw ≤ s.availOut := by omega
    have ha : s.availOut - m - (s.raw - m) = s.availOut - s.raw := by omega
    have hb : s.raw - m - (s.availOut - m) = s.raw - s.availOut := by omega
    have hd : m + (s.raw - m) = s.raw := by omega
    simp only [Stream.Cuts, List.drop_drop, hsub, ha, hb, hd]
  · have hpk : packets s.nextIn = firstPacket s.nextIn ::
        packets (s.nextIn.drop (firstPacket s.nextIn).expand.length) := by
      rw [packets, dif_pos h8]
    have hexp : (firstPacket s.nextIn).expand.length =
        (firstPacket s.nextIn).base.length + (firstPacket s.nextIn).ext.length := by
      rw [Packet.expand, List.length_append]
    simp only [Stream.Cuts, hr, Nat.zero_le, ite_true, Nat.sub_zero, List.drop_zero, List.drop_drop]
    rw [hpk, CutsRaw, hexp, if_neg (Nat.not_lt.mpr hf)]

theorem raw_step {s s' : Stream} (hs : s.Aligned) (hr : s.raw < 256 * 8) (e : deflateStep s = .next s') :
    s'.raw < 256 * 8 := by
  rcases deflateStep_next hs e with ⟨m, -, -, rfl⟩ | ⟨-, h8, -, rfl⟩
  · exact Nat.lt_of_le_of_lt (Nat.sub_le _ _) hr
  · exact firstPacket_ext_lt h8

/-! ## One buffer -/

/-- With an empty buffer the packer does not stall. -/
theorem Stream.Resumes.not_stalls {s : Stream} (h : s.Resumes) {size : Nat} (hsize : size < 2 ^ 32) :
    ¬ (s.fresh size).Stalls := by
  rintro ⟨o, n, hp, ho, hn⟩
  have hclear := h.clear o n hp
  have ho' : o < size := ho
  have hn' : n % 2 ^ 32 = 0 ∨ (size - o) % 2 ^ 32 = 0 := hn
  omega

theorem fresh_cuts {size : Nat} {s : Stream} (h : s.raw ≤ size) :
    (s.fresh size).Cuts size ↔ CutsRaw size (size - s.raw) (packets (s.nextIn.drop s.raw)) := by
  unfold Stream.Cuts
  have hr : (s.fresh size).raw ≤ (s.fresh size).availOut := h
  rw [if_pos hr]
  rfl

/-- At the end of a buffer between two words, the cuts to come are those from an
empty buffer. -/
theorem cuts_fresh {size : Nat} (h2048 : 256 * 8 ≤ size) {s : Stream} (hs : s.Aligned) (hr : s.raw < 256 * 8)
    (h8 : s.nextIn.length % 8 = 0) (hi : s.nextIn ≠ [])
    (hc : s.availOut = 0 ∨ s.raw = 0 ∧ s.availOut < (firstPacket s.nextIn).head.length) :
    s.Cuts size ↔ (s.fresh size).Cuts size := by
  have hl := List.length_pos_iff.mpr hi
  have hle := hs.raw_le
  have hw := hs.words
  by_cases hr0 : s.raw = 0
  · have hlen : 8 ≤ s.nextIn.length := by omega
    have hpos := head_pos (firstPacket s.nextIn)
    have hhead := firstPacket_head_le hlen
    have hfull : s.availOut < (firstPacket s.nextIn).head.length := by
      rcases hc with h | h
      · omega
      · exact h.2
    have hpk : packets s.nextIn = firstPacket s.nextIn ::
        packets (s.nextIn.drop (firstPacket s.nextIn).expand.length) := by
      rw [packets, dif_pos hlen]
    rw [fresh_cuts (by omega)]
    simp only [Stream.Cuts, hr0, Nat.zero_le, ite_true, Nat.sub_zero, List.drop_zero]
    rw [hpk, CutsRaw, CutsRaw, if_pos hfull, ite_self]
  · have h0 : s.availOut = 0 := by
      rcases hc with h | h
      · exact h
      · exact absurd h.1 hr0
    have hmod : s.raw % 8 = 0 := by omega
    rw [fresh_cuts (by omega)]
    simp only [Stream.Cuts, h0, Nat.sub_zero]
    rw [if_neg (by omega), hmod]
    exact or_iff_right (by simp)

/-- **A call with an empty buffer** stores some bytes of what is left to store.
It ends with the input, or leaves whole words exactly if it cuts no raw word. -/
theorem deflate_chunk {size : Nat} (h2048 : 256 * 8 ≤ size) (hsize : size < 2 ^ 32) {s : Stream}
    (hs : s.Resumes) (h8 : s.nextIn.length % 8 = 0) (hi : s.nextIn ≠ []) :
    ∃ c z m, Deflates (s.fresh size) (c, z) ∧ Stores (s.fresh size) z m ∧ 0 < m ∧ z.Resumes ∧
      (c = 0 ∧ z.nextIn = [] ∧ ¬ (s.fresh size).Cuts size ∨
        c = CAPN_NEED_MORE ∧ z.nextIn ≠ [] ∧
          (z.nextIn.length % 8 ≠ 0 → (s.fresh size).Cuts size) ∧
          (z.nextIn.length % 8 = 0 → ((z.fresh size).Cuts size ↔ (s.fresh size).Cuts size))) := by
  have ha : (s.fresh size).Aligned := ⟨hs.aligned.raw_le, hs.aligned.words, hs.aligned.raw_lt⟩
  obtain ⟨c, z, m, he, hg, hz, hc⟩ := deflateLoop_ok ha (hs.not_stalls hsize)
  have hcuts : (z.Cuts size ↔ (s.fresh size).Cuts size) ∧ z.raw < 256 * 8 := by
    refine Loop.ends_inv (I := fun t => t.Aligned ∧ (t.Cuts size ↔ (s.fresh size).Cuts size) ∧ t.raw < 256 * 8)
      (Q := fun r => (r.2.Cuts size ↔ (s.fresh size).Cuts size) ∧ r.2.raw < 256 * 8) ?_ ?_
      ⟨ha, Iff.rfl, hs.raw⟩ he
    · intro t t' ⟨ht, hcut, hraw⟩ e
      rcases deflateStep_spec ht with ⟨t₁, -, e₁, -, ht₁, -⟩ | ⟨c₁, e₁, -⟩
      · rw [e] at e₁
        cases e₁
        exact ⟨ht₁, (cuts_step ht e).trans hcut, raw_step ht hraw e⟩
      · rw [e] at e₁
        cases e₁
    · intro t r ⟨ht, hcut, hraw⟩ e
      rcases deflateStep_spec ht with ⟨t₁, -, e₁, -⟩ | ⟨c₁, e₁, -⟩
      · rw [e] at e₁
        cases e₁
      · rw [e] at e₁
        cases e₁
        exact ⟨hcut, hraw⟩
  have hclear : ∀ o n, z.InRaw o n → n % 2 ^ 32 ≠ 0 := fun o n h =>
    hs.clear (m + o) n ((hg.delivers.place o n).mp h)
  have hav : z.availOut = size - m := hg.delivers.availOut
  have hle := hz.raw_le
  have hw := hz.words
  refine ⟨c, z, m, (deflates_iff (s := s.fresh size) h8).mpr he, hg, ?_, ⟨hz, hcuts.2, hclear⟩, ?_⟩
  · -- an empty buffer has room for a head, or for a raw byte
    by_contra hm
    have hm0 : m = 0 := by omega
    rcases hc with ⟨-, hn⟩ | ⟨-, hn, hroom⟩
    · have hrest := hg.delivers.todo
      rw [hm0, List.drop_zero] at hrest
      refine rest_ne_nil ha hi (hrest.symm.trans ?_)
      simp [Stream.rest, hn]
    · rcases hroom with h0 | ⟨hr, hf⟩
      · omega
      · have hlen := List.length_pos_iff.mpr hn
        have := @firstPacket_head_le z.nextIn (by omega)
        omega
  · rcases hc with ⟨rfl, hn⟩ | ⟨rfl, hn, hroom⟩
    · refine .inl ⟨rfl, hn, fun h => ?_⟩
      have hr : z.raw = 0 := by rw [hn] at hle; simpa using hle
      have := hcuts.1.mpr h
      simp only [Stream.Cuts, hr, Nat.zero_le, ite_true, hn, List.drop_nil, packets_nil, CutsRaw] at this
    · refine .inr ⟨rfl, hn, fun hmod => hcuts.1.mp ?_, fun hmod => ?_⟩
      · have hr : z.raw ≠ 0 := by omega
        have h0 : z.availOut = 0 := hroom.resolve_right fun h => hr h.1
        simp only [Stream.Cuts, h0, Nat.sub_zero]
        rw [if_neg (by omega)]
        exact .inl (by omega)
      · exact (cuts_fresh h2048 hz hcuts.2 hmod hn hroom).symm.trans hcuts.1

end Capnproto

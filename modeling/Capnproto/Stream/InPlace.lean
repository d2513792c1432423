import Capnproto.Framework.Access
import Capnproto.Framework.Mem
import Capnproto.Stream.Deflate

/-!
# `capn_deflate` within one buffer

The packer as it runs when input and output are in one memory: with addresses in place of lists, each
store where the source has it, and a log of what is read and stored. From an input of `n` bytes that is
`n + 2` bytes or more behind the output (`Placed`) it does what it does with an input of its own
(`inPlaceStep_spec`): it stores at most ten bytes for each eight that it reads, so that it never catches up.
-/

namespace Capnproto

open Packing (tagOf)

/-- `struct capn_stream`, with the memory that it points to. -/
structure InPlace where
  mem : Mem
  nextIn : Int
  availIn : Nat
  nextOut : Int
  availOut : Nat
  raw : Nat := 0
  log : List MemAccess := []

/-- The loop that stores the nonzero bytes of the word at `src`, for the indices that are given: the memory,
the place to store at, and the log. -/
def storeNonzero (src : Int) : List Nat → Mem × Int × List MemAccess → Mem × Int × List MemAccess
  | [], r => r
  | i :: is, (m, o, l) =>
    storeNonzero src is (if m (src + i) ≠ 0 then
      (m.write o [m (src + i)], o + 1, l ++ [.load (src + i) 1, .load (src + i) 1, .store o 1])
    else (m, o, l ++ [.load (src + i) 1]))

/-- One iteration of the loop of `capn_deflate`. -/
def inPlaceStep (s : InPlace) : Step InPlace (Int × InPlace) :=
  if s.availIn = 0 then .done (0, s)
  else if s.availOut = 0 then .done (CAPN_NEED_MORE, s)
  else if 0 < s.raw then
    let sz := min32 s.raw (min32 s.availIn s.availOut)
    .next { s with
      mem := s.mem.write s.nextOut (s.mem.read s.nextIn sz)
      log := s.log ++ [.load s.nextIn sz, .store s.nextOut sz]
      nextIn := s.nextIn + sz, availIn := s.availIn - sz
      nextOut := s.nextOut + sz, availOut := s.availOut - sz, raw := s.raw - sz }
  else if s.availIn < 8 then .done (CAPN_NEED_MORE, s)
  else
    let (sz, hdr) := scanWord (s.mem.read s.nextIn 8)
    if sz = 0 then
      if s.availOut < 2 then .done (CAPN_NEED_MORE, s)
      else
        let m := s.mem.write s.nextOut [0]
        let bound := min32 (s.availIn / 8) 256 - 1
        let n := zeroWords bound (m.read (s.nextIn + 8) (s.availIn - 8)) + 1
        .next { s with
          mem := m.write (s.nextOut + 1) [UInt8.ofNat (n - 1)]
          -- the loop looks at one word more than it counts, unless it comes to its bound
          log := s.log ++ [.load s.nextIn 8, .store s.nextOut 1, .load (s.nextIn + 8) (8 * min n bound),
            .store (s.nextOut + 1) 1]
          nextIn := s.nextIn + (n * 8 : Nat), availIn := s.availIn - n * 8
          nextOut := s.nextOut + 2, availOut := s.availOut - 2 }
    else if sz = 8 then
      if s.availOut < 10 then .done (CAPN_NEED_MORE, s)
      else
        let m := s.mem.write s.nextOut [0xFF]
        let m := m.write (s.nextOut + 1) (m.read s.nextIn 8)
        let maxw := min ((s.availIn - 8) / 8) 255
        let raw := rawWords maxw (m.read (s.nextIn + 8) (s.availIn - 8)) * 8
        .next { s with
          mem := m.write (s.nextOut + 9) [UInt8.ofNat (raw / 8)]
          log := s.log ++ [.load s.nextIn 8, .store s.nextOut 1, .load s.nextIn 8, .store (s.nextOut + 1) 8,
            .load (s.nextIn + 8) (8 * min (raw / 8 + 1) maxw), .store (s.nextOut + 9) 1]
          nextIn := s.nextIn + 8, availIn := s.availIn - 8
          nextOut := s.nextOut + 10, availOut := s.availOut - 10, raw := raw }
    else
      if s.availOut < 1 + sz then .done (CAPN_NEED_MORE, s)
      else
        let (m, o, l) := storeNonzero s.nextIn (List.range 8)
          (s.mem.write s.nextOut [hdr], s.nextOut + 1, s.log ++ [.load s.nextIn 8, .store s.nextOut 1])
        .next { s with
          mem := m, log := l
          nextIn := s.nextIn + 8, availIn := s.availIn - 8
          nextOut := o, availOut := s.availOut - (sz + 1) }

/-- `capn_deflate`, with at most `fuel` iterations of its loop. -/
def deflateInPlace (fuel : Nat) (s : InPlace) : Option (Int × InPlace) :=
  if s.availIn % 8 ≠ 0 then some (CAPN_MISALIGNED, s) else Loop.run inPlaceStep fuel s

/-- The stream with an input of its own. -/
def InPlace.stream (p : Int) (s : InPlace) : Stream where
  nextIn := s.mem.read s.nextIn s.availIn
  out := s.mem.read p (s.nextOut - p).toNat
  availOut := s.availOut
  raw := s.raw

/-! ## One iteration -/

/-- The input ends `n` bytes behind `t`, and is `n + 2` bytes or more behind the output at its start; since
then no more than five bytes were stored for each four that were read. -/
structure InPlace.Behind (p t : Int) (n : Nat) (s : InPlace) : Prop where
  room : p + n + 2 ≤ t
  input : s.nextIn + s.availIn = t + n
  read : t ≤ s.nextIn
  stored : p ≤ s.nextOut
  slow : 4 * (s.nextOut - p) ≤ 5 * (s.nextIn - t)

/-- `s'` is `s` when the next `j` bytes of the input have been used up and `bs` has been stored, in front of them. -/
structure InPlace.Advance (s s' : InPlace) (j : Nat) (bs : List UInt8) : Prop where
  mem : s'.mem = s.mem.write s.nextOut bs
  nextIn : s'.nextIn = s.nextIn + j
  availIn : s'.availIn = s.availIn - j
  nextOut : s'.nextOut = s.nextOut + bs.length
  availOut : s'.availOut = s.availOut - bs.length
  input : j ≤ s.availIn
  fits : bs.length ≤ s.availOut
  clear : s.nextOut + bs.length ≤ s.nextIn
  slow : 4 * bs.length ≤ 5 * j
  log : ∃ l, s'.log = s.log ++ l ∧
    (∀ a k, MemAccess.store a k ∈ l → s.nextOut ≤ a ∧ a + k ≤ s.nextOut + bs.length) ∧
    (∀ a k, MemAccess.load a k ∈ l → s.nextIn ≤ a ∧ a + k ≤ s.nextIn + s.availIn) ∧
    ∀ x, s.nextIn ≤ x → x < s.nextIn + j → Loads l x

section

variable {p t : Int} {n j : Nat} {s s' : InPlace} {bs : List UInt8}

theorem InPlace.Advance.behind (h : s.Advance s' j bs) (hb : s.Behind p t n) : s'.Behind p t n := by
  have hi := h.input
  have h1 := hb.input
  have h2 := hb.read
  have h3 := hb.stored
  have h4 := hb.slow
  have h5 := h.slow
  refine ⟨hb.room, ?_, ?_, ?_, ?_⟩
  · rw [h.nextIn, h.availIn]
    omega
  · rw [h.nextIn]
    omega
  · rw [h.nextOut]
    omega
  · rw [h.nextIn, h.nextOut]
    omega

theorem InPlace.Advance.swept (h : s.Advance s' j bs) (hs : Swept s.log t s.nextIn) : Swept s'.log t s'.nextIn := by
  obtain ⟨l, e, hst, hl, hc⟩ := h.log
  have hclear := h.clear
  rw [e, h.nextIn]
  refine hs.append (by omega) (fun a k hm => ?_) (fun a k hm => (hl a k hm).1) hc
  have := (hst a k hm).2
  omega

/-- The stream with an input of its own goes the same way. -/
theorem InPlace.Advance.stream (h : s.Advance s' j bs) (hb : s.Behind p t n) : s'.stream p = { s.stream p with
    out := (s.stream p).out ++ bs, nextIn := (s.stream p).nextIn.drop j
    availOut := (s.stream p).availOut - bs.length, raw := s'.raw } := by
  have hclear := h.clear
  have hst := hb.stored
  rw [InPlace.stream, InPlace.stream, Stream.mk.injEq]
  refine ⟨?_, ?_, h.availOut, rfl, rfl, rfl⟩
  · rw [Mem.drop_read _ _ h.input, h.mem, h.nextIn, h.availIn]
    exact Mem.read_write_disjoint (.inr (by omega))
  · have hlen : (s'.nextOut - p).toNat = (s.nextOut - p).toNat + bs.length := by
      rw [h.nextOut]
      omega
    have hp : p + ((s.nextOut - p).toNat : Int) = s.nextOut := by omega
    rw [hlen, Mem.read_add, hp, h.mem, Mem.read_write_same, Mem.read_write_disjoint (.inl (by omega))]

/-- What is left to be stored is as far from the input as that is long. -/
theorem InPlace.Behind.clear (h : s.Behind p t n) {k : Nat} (hk : k ≤ s.availIn ∨ k ≤ 10 ∧ 8 ≤ s.availIn) :
    s.nextOut + k ≤ s.nextIn := by
  have h1 := h.room
  have h2 := h.input
  have h3 := h.read
  have h4 := h.slow
  omega

theorem InPlace.stream_length (s : InPlace) (p : Int) : (s.stream p).nextIn.length = s.availIn := Mem.length_read _ _ _

/-- Copying a part of a raw run. -/
theorem raw_advance (h : s.Behind p t n) {sz : Nat} (hi : sz ≤ s.availIn) (ho : sz ≤ s.availOut) :
    s.Advance { s with
      mem := s.mem.write s.nextOut (s.mem.read s.nextIn sz)
      log := s.log ++ [.load s.nextIn sz, .store s.nextOut sz]
      nextIn := s.nextIn + sz, availIn := s.availIn - sz
      nextOut := s.nextOut + sz, availOut := s.availOut - sz, raw := s.raw - sz } sz (s.mem.read s.nextIn sz) := by
  have hlen : (s.mem.read s.nextIn sz).length = sz := Mem.length_read _ _ _
  have hc := h.clear (.inl hi)
  refine ⟨rfl, rfl, rfl, by rw [hlen], by rw [hlen], hi, by rw [hlen]; exact ho, by rw [hlen]; exact hc, by rw [hlen]; omega,
    _, rfl, fun a k hm => ?_, fun a k hm => ?_, fun x h1 h2 => ⟨s.nextIn, sz, List.mem_cons_self, h1, h2⟩⟩
  · rw [hlen]
    simp only [List.mem_cons, reduceCtorEq, List.not_mem_nil, or_false, false_or, MemAccess.store.injEq] at hm
    omega
  · simp only [List.mem_cons, reduceCtorEq, List.not_mem_nil, or_false, MemAccess.load.injEq] at hm
    omega

/-- Storing a run of zero words. -/
theorem zeros_advance (h : s.Behind p t n) {k bound : Nat} (hk : k ≤ bound) (hb : (bound + 1) * 8 ≤ s.availIn)
    (ho : 2 ≤ s.availOut) :
    s.Advance { s with
      mem := (s.mem.write s.nextOut [0]).write (s.nextOut + 1) [UInt8.ofNat k]
      log := s.log ++ [.load s.nextIn 8, .store s.nextOut 1, .load (s.nextIn + 8) (8 * min (k + 1) bound),
        .store (s.nextOut + 1) 1]
      nextIn := s.nextIn + ((k + 1) * 8 : Nat), availIn := s.availIn - (k + 1) * 8
      nextOut := s.nextOut + 2, availOut := s.availOut - 2 } ((k + 1) * 8) [0, UInt8.ofNat k] := by
  have hc := h.clear (k := 2) (.inl (by omega))
  refine ⟨(Mem.write_append s.mem s.nextOut [0] [UInt8.ofNat k]).symm, rfl, rfl, rfl, rfl, by omega, ho, hc,
    by simp only [List.length_cons, List.length_nil]; omega, _, rfl, fun a m hm => ?_, fun a m hm => ?_, fun x h1 h2 => ?_⟩
  · simp only [List.mem_cons, reduceCtorEq, List.not_mem_nil, or_false, false_or, MemAccess.store.injEq] at hm
    simp only [List.length_cons, List.length_nil]
    omega
  · simp only [List.mem_cons, reduceCtorEq, List.not_mem_nil, or_false, false_or, MemAccess.load.injEq] at hm
    omega
  · by_cases hx : x < s.nextIn + 8
    · exact ⟨s.nextIn, 8, by simp, h1, hx⟩
    · exact ⟨s.nextIn + 8, 8 * min (k + 1) bound, by simp, by omega, by omega⟩

/-- Storing a word without zero bytes. -/
theorem dense_advance (h : s.Behind p t n) {k w : Nat} (hk : 8 * min (k + 1) w + 8 ≤ s.availIn)
    (ho : 10 ≤ s.availOut) :
    s.Advance { s with
      mem := ((s.mem.write s.nextOut [0xFF]).write (s.nextOut + 1) (s.mem.read s.nextIn 8)).write (s.nextOut + 9)
        [UInt8.ofNat k]
      log := s.log ++ [.load s.nextIn 8, .store s.nextOut 1, .load s.nextIn 8, .store (s.nextOut + 1) 8,
        .load (s.nextIn + 8) (8 * min (k + 1) w), .store (s.nextOut + 9) 1]
      nextIn := s.nextIn + 8, availIn := s.availIn - 8
      nextOut := s.nextOut + 10, availOut := s.availOut - 10, raw := k * 8 } 8
        (0xFF :: s.mem.read s.nextIn 8 ++ [UInt8.ofNat k]) := by
  have hc := h.clear (k := 10) (.inr ⟨Nat.le_refl _, by omega⟩)
  have hlen : (0xFF :: s.mem.read s.nextIn 8 ++ [UInt8.ofNat k]).length = 10 := by
    simp only [List.length_append, List.length_cons, Mem.length_read, List.length_nil]
  refine ⟨?_, rfl, rfl, by rw [hlen]; rfl, by rw [hlen], by omega, by rw [hlen]; exact ho, by rw [hlen]; exact hc,
    by rw [hlen], _, rfl, fun a m hm => ?_, fun a m hm => ?_, fun x h1 h2 => ⟨s.nextIn, 8, by simp, h1, h2⟩⟩
  · have h1 := Mem.write_append s.mem s.nextOut [0xFF] (s.mem.read s.nextIn 8)
    have h2 := Mem.write_append s.mem s.nextOut (0xFF :: s.mem.read s.nextIn 8) [UInt8.ofNat k]
    rw [List.length_cons, Mem.length_read] at h2
    rw [h2]
    exact congrArg (Mem.write · _ _) h1.symm
  · rw [hlen]
    simp only [List.mem_cons, reduceCtorEq, List.not_mem_nil, or_false, false_or, MemAccess.store.injEq] at hm
    omega
  · simp only [List.mem_cons, reduceCtorEq, List.not_mem_nil, or_false, false_or, MemAccess.load.injEq] at hm
    omega

/-- The nonzero bytes are stored one behind the other, in front of the word. -/
theorem storeNonzero_spec (m : Mem) (src : Int) (is : List Nat) (his : ∀ i ∈ is, i < 8) :
    ∀ (m' : Mem) (o : Int) (l : List MemAccess), (∀ i < 8, m' (src + (i : Nat)) = m (src + i)) → o + is.length ≤ src →
      ∃ l', storeNonzero src is (m', o, l) =
          (m'.write o ((is.map fun i : Nat => m (src + i)).filter (· ≠ 0)),
            o + ((is.map fun i : Nat => m (src + i)).filter (· ≠ 0)).length, l ++ l') ∧
        (∀ a k, MemAccess.store a k ∈ l' →
          o ≤ a ∧ a + k ≤ o + ((is.map fun i : Nat => m (src + i)).filter (· ≠ 0)).length) ∧
        ∀ a k, MemAccess.load a k ∈ l' → src ≤ a ∧ a + k ≤ src + 8 := by
  induction is with
  | nil =>
    intro m' o l _ _
    refine ⟨[], ?_, fun a k hm => absurd hm List.not_mem_nil, fun a k hm => absurd hm List.not_mem_nil⟩
    simp [storeNonzero]
  | cons i is ih =>
    intro m' o l hm ho
    obtain ⟨hi, his⟩ := List.forall_mem_cons.mp his
    rw [List.length_cons] at ho
    rw [storeNonzero, hm i hi, List.map_cons]
    by_cases hb : m (src + i) ≠ 0
    · rw [if_pos hb, List.filter_cons_of_pos (by simpa using hb)]
      obtain ⟨l', e, hs, hl⟩ := ih his (m'.write o [m (src + i)]) (o + 1)
        (l ++ [.load (src + i) 1, .load (src + i) 1, .store o 1])
        (fun j hj => by rw [Mem.write_apply_of_ge (by simp only [List.length_singleton]; omega), hm j hj]) (by omega)
      refine ⟨[.load (src + i) 1, .load (src + i) 1, .store o 1] ++ l', ?_, fun a k hm => ?_, fun a k hm => ?_⟩
      · have hw := Mem.write_append m' o [m (src + i)] ((is.map fun i : Nat => m (src + i)).filter (· ≠ 0))
        rw [e, List.append_assoc, List.length_cons, Prod.mk.injEq, Prod.mk.injEq]
        exact ⟨hw.symm, by omega, rfl⟩
      · rw [List.length_cons]
        rcases List.mem_append.mp hm with hm | hm
        · simp only [List.mem_cons, reduceCtorEq, List.not_mem_nil, or_false, false_or, MemAccess.store.injEq] at hm
          omega
        · have := hs a k hm
          omega
      · rcases List.mem_append.mp hm with hm | hm
        · simp only [List.mem_cons, reduceCtorEq, List.not_mem_nil, or_false, MemAccess.load.injEq] at hm
          omega
        · exact hl a k hm
    · rw [if_neg hb, List.filter_cons_of_neg (by simpa using hb)]
      obtain ⟨l', e, hs, hl⟩ := ih his m' o (l ++ [.load (src + i) 1]) hm (by omega)
      refine ⟨[.load (src + i) 1] ++ l', by rw [e, List.append_assoc], fun a k hm => ?_, fun a k hm => ?_⟩
      · rcases List.mem_append.mp hm with hm | hm
        · simp at hm
        · exact hs a k hm
      · rcases List.mem_append.mp hm with hm | hm
        · simp only [List.mem_cons, List.not_mem_nil, or_false, MemAccess.load.injEq] at hm
          omega
        · exact hl a k hm

/-- Storing a word with some zero bytes. -/
theorem sparse_advance (h : s.Behind p t n) {sz : Nat} {b : UInt8}
    (hsz : sz = ((s.mem.read s.nextIn 8).filter (· ≠ 0)).length) (h8 : sz < 8) (hi : 8 ≤ s.availIn)
    (ho : 1 + sz ≤ s.availOut) :
    ∃ m o l, storeNonzero s.nextIn (List.range 8)
        (s.mem.write s.nextOut [b], s.nextOut + 1, s.log ++ [.load s.nextIn 8, .store s.nextOut 1]) = (m, o, l) ∧
      s.Advance { s with
        mem := m, log := l
        nextIn := s.nextIn + 8, availIn := s.availIn - 8
        nextOut := o, availOut := s.availOut - (sz + 1) } 8 (b :: (s.mem.read s.nextIn 8).filter (· ≠ 0)) := by
  have hc := h.clear (k := 10) (.inr ⟨Nat.le_refl _, hi⟩)
  have hr : (List.range 8).map (fun i : Nat => s.mem (s.nextIn + i)) = s.mem.read s.nextIn 8 := by
    simp [List.range_succ, Mem.read, Int.add_assoc]
  obtain ⟨l', e, hs, hl⟩ := storeNonzero_spec s.mem s.nextIn (List.range 8) (fun i hi => List.mem_range.mp hi)
    (s.mem.write s.nextOut [b]) (s.nextOut + 1) (s.log ++ [.load s.nextIn 8, .store s.nextOut 1])
    (fun i _ => Mem.write_apply_of_ge (by simp only [List.length_singleton]; omega))
    (by rw [List.length_range]; omega)
  rw [hr] at e hs
  rw [← hsz] at e hs
  refine ⟨_, _, _, e, ?_⟩
  have hlen : (b :: (s.mem.read s.nextIn 8).filter (· ≠ 0)).length = sz + 1 := by rw [List.length_cons, ← hsz]
  refine ⟨?_, rfl, rfl, ?_, by rw [hlen], hi, by rw [hlen]; omega, by rw [hlen]; omega, by rw [hlen]; omega,
    [.load s.nextIn 8, .store s.nextOut 1] ++ l', List.append_assoc _ _ _, fun a k hm => ?_, fun a k hm => ?_,
    fun x h1 h2 => ⟨s.nextIn, 8, by simp, h1, h2⟩⟩
  · exact (Mem.write_append s.mem s.nextOut [b] _).symm
  · rw [hlen]
    show s.nextOut + 1 + (sz : Int) = s.nextOut + ((sz + 1 : Nat) : Int)
    omega
  · rw [hlen]
    rcases List.mem_append.mp hm with hm | hm
    · simp only [List.mem_cons, reduceCtorEq, List.not_mem_nil, or_false, false_or, MemAccess.store.injEq] at hm
      omega
    · have := hs a k hm
      omega
  · rcases List.mem_append.mp hm with hm | hm
    · simp only [List.mem_cons, reduceCtorEq, List.not_mem_nil, or_false, MemAccess.load.injEq] at hm
      omega
    · have := hl a k hm
      omega

/-- **One iteration** within one buffer is one iteration with an input of its own. -/
theorem inPlaceStep_spec (h : s.Behind p t n) :
    (∃ c, inPlaceStep s = .done (c, s) ∧ deflateStep (s.stream p) = .done (c, s.stream p)) ∨
    ∃ s' j bs, inPlaceStep s = .next s' ∧ deflateStep (s.stream p) = .next (s'.stream p) ∧ s.Advance s' j bs := by
  have hlen := s.stream_length p
  rw [inPlaceStep, deflateStep]
  rw [hlen]
  by_cases h0 : s.availIn = 0
  · rw [if_pos h0, if_pos h0]
    exact .inl ⟨_, rfl, rfl⟩
  rw [if_neg h0, if_neg h0]
  have hout : (s.stream p).availOut = s.availOut := rfl
  rw [hout]
  by_cases h1 : s.availOut = 0
  · rw [if_pos h1, if_pos h1]
    exact .inl ⟨_, rfl, rfl⟩
  rw [if_neg h1, if_neg h1]
  have hraw : (s.stream p).raw = s.raw := rfl
  rw [hraw]
  by_cases h2 : 0 < s.raw
  · rw [if_pos h2, if_pos h2]
    have hi := Nat.le_trans (min32_le_right s.raw (min32 s.availIn s.availOut)) (min32_le_left s.availIn s.availOut)
    have ho := Nat.le_trans (min32_le_right s.raw (min32 s.availIn s.availOut)) (min32_le_right s.availIn s.availOut)
    have ha := raw_advance h hi ho
    refine .inr ⟨_, _, _, rfl, ?_, ha⟩
    rw [ha.stream h, Mem.length_read]
    simp only [InPlace.stream, Mem.take_read _ _ hi]
  rw [if_neg h2, if_neg h2]
  by_cases h3 : s.availIn < 8
  · rw [if_pos h3, if_pos h3]
    exact .inl ⟨_, rfl, rfl⟩
  rw [if_neg h3, if_neg h3]
  have h8 : 8 ≤ s.availIn := Nat.le_of_not_lt h3
  have hword : (s.stream p).nextIn.take 8 = s.mem.read s.nextIn 8 := Mem.take_read _ _ h8
  have hrest : (s.stream p).nextIn.drop 8 = s.mem.read (s.nextIn + 8) (s.availIn - 8) := Mem.drop_read _ _ h8
  have hscan := scanWord_eq (Mem.length_read s.mem s.nextIn 8)
  -- the scan of the word within the buffer, then that of the input
  rw [hword, hrest, hscan]
  simp only []
  rw [hscan]
  simp only []
  have hr0 : s.raw = 0 := by omega
  by_cases h4 : ((s.mem.read s.nextIn 8).filter (· ≠ 0)).length = 0
  · rw [if_pos h4, if_pos h4]
    by_cases h5 : s.availOut < 2
    · rw [if_pos h5, if_pos h5]
      exact .inl ⟨_, rfl, rfl⟩
    rw [if_neg h5, if_neg h5]
    have hc := h.clear (k := 2) (.inl (by omega))
    have hread : (s.mem.write s.nextOut [0]).read (s.nextIn + 8) (s.availIn - 8) =
        s.mem.read (s.nextIn + 8) (s.availIn - 8) :=
      Mem.read_write_disjoint (.inr (by simp only [List.length_singleton]; omega))
    rw [hread]
    have hk := zeroWords_le (min32 (s.availIn / 8) 256 - 1) (s.mem.read (s.nextIn + 8) (s.availIn - 8))
    have hb := min32_le_left (s.availIn / 8) 256
    have hb' : (min32 (s.availIn / 8) 256 - 1 + 1) * 8 ≤ s.availIn := by omega
    have ha := zeros_advance h hk hb' (by omega)
    exact .inr ⟨_, _, _, rfl, congrArg Step.next (ha.stream h).symm, ha⟩
  rw [if_neg h4, if_neg h4]
  by_cases h5 : ((s.mem.read s.nextIn 8).filter (· ≠ 0)).length = 8
  · rw [if_pos h5, if_pos h5]
    by_cases h6 : s.availOut < 10
    · rw [if_pos h6, if_pos h6]
      exact .inl ⟨_, rfl, rfl⟩
    rw [if_neg h6, if_neg h6]
    have hc := h.clear (k := 10) (.inr ⟨Nat.le_refl _, h8⟩)
    have hword' : (s.mem.write s.nextOut [0xFF]).read s.nextIn 8 = s.mem.read s.nextIn 8 :=
      Mem.read_write_disjoint (.inr (by simp only [List.length_singleton]; omega))
    have hread : ((s.mem.write s.nextOut [0xFF]).write (s.nextOut + 1) (s.mem.read s.nextIn 8)).read (s.nextIn + 8)
        (s.availIn - 8) = s.mem.read (s.nextIn + 8) (s.availIn - 8) := by
      rw [Mem.read_write_disjoint (.inr (by rw [Mem.length_read]; omega)),
        Mem.read_write_disjoint (.inr (by simp only [List.length_singleton]; omega))]
    rw [Mem.length_read, hword', hread]
    have hk := rawWords_le (min ((s.availIn - 8) / 8) 255) (s.mem.read (s.nextIn + 8) (s.availIn - 8))
    generalize rawWords (min ((s.availIn - 8) / 8) 255) (s.mem.read (s.nextIn + 8) (s.availIn - 8)) = k at hk ⊢
    rw [Nat.mul_div_cancel k (by decide : 0 < 8)]
    have ha := dense_advance (k := k) (w := min ((s.availIn - 8) / 8) 255) h (by omega) (by omega)
    rw [← hrest]
    exact .inr ⟨_, _, _, rfl, congrArg Step.next (ha.stream h).symm, ha⟩
  rw [if_neg h5, if_neg h5]
  by_cases h6 : s.availOut < 1 + ((s.mem.read s.nextIn 8).filter (· ≠ 0)).length
  · rw [if_pos h6, if_pos h6]
    exact .inl ⟨_, rfl, rfl⟩
  rw [if_neg h6, if_neg h6]
  have hle : ((s.mem.read s.nextIn 8).filter (· ≠ 0)).length ≤ 8 := by
    rw [← Mem.length_read s.mem s.nextIn 8]
    exact List.length_filter_le _ _
  obtain ⟨m, o, l, e, ha⟩ := sparse_advance (b := tagOf (s.mem.read s.nextIn 8)) h rfl (by omega) h8 (by omega)
  rw [e, ← hrest]
  exact .inr ⟨_, _, _, rfl, congrArg Step.next (ha.stream h).symm, ha⟩

/-! ## Runs -/

/-- A packer that has been right so far, in a buffer of `sz` bytes from `p`, with the input from `t` to `t + n`: each
byte of the input was read before anything was stored over it, nothing else was read, and nothing
was stored outside of the buffer. `m` is the memory at the start. -/
structure InPlace.Safe (p t : Int) (n sz : Nat) (m : Mem) (s : InPlace) : Prop where
  behind : s.Behind p t n
  swept : Swept s.log t s.nextIn
  loads : ∀ a k, MemAccess.load a k ∈ s.log → t ≤ a ∧ a + k ≤ t + n
  stores : ∀ a k, MemAccess.store a k ∈ s.log → p ≤ a ∧ a + k ≤ p + sz
  room : s.nextOut + s.availOut = p + sz
  outside : ∀ x, x < p ∨ p + sz ≤ x → s.mem x = m x

theorem InPlace.Advance.safe {sz : Nat} {m : Mem} (h : s.Advance s' j bs) (hs : s.Safe p t n sz m) :
    s'.Safe p t n sz m := by
  obtain ⟨l, e, hst, hl, -⟩ := h.log
  have hroom := hs.room
  have hfits := h.fits
  have hread := hs.behind.read
  have hinput := hs.behind.input
  have hstored := hs.behind.stored
  refine ⟨h.behind hs.behind, h.swept hs.swept, fun a k hm => ?_, fun a k hm => ?_, ?_, fun x hx => ?_⟩
  · rw [e] at hm
    rcases List.mem_append.mp hm with hm | hm
    · exact hs.loads a k hm
    · have := hl a k hm
      omega
  · rw [e] at hm
    rcases List.mem_append.mp hm with hm | hm
    · exact hs.stores a k hm
    · have := hst a k hm
      omega
  · rw [h.nextOut, h.availOut]
    omega
  · rw [h.mem, ← hs.outside x hx]
    rcases hx with hx | hx
    · exact Mem.write_apply_of_lt (by omega)
    · exact Mem.write_apply_of_ge (by omega)

/-- **Wherever the packer gets to** it has been right. -/
theorem path_safe {sz : Nat} {m : Mem} (hs : s.Safe p t n sz m) (h : Loop.Path inPlaceStep s s') :
    s'.Safe p t n sz m := by
  refine h.inv (I := fun s => s.Safe p t n sz m) (fun s₁ s₂ h1 e => ?_) hs
  rcases inPlaceStep_spec h1.behind with ⟨c, e', -⟩ | ⟨s₃, j, bs, e', -, ha⟩
  · rw [e] at e'
    cases e'
  · rw [e] at e'
    cases e'
    exact ha.safe h1

/-- A run within one buffer is a run with an input of its own. -/
theorem run_inPlace {sz : Nat} {m : Mem} (hs : s.Safe p t n sz m) (fuel : Nat) :
    Loop.run deflateStep fuel (s.stream p) = (Loop.run inPlaceStep fuel s).map (fun r => (r.1, r.2.stream p)) ∧
      ∀ r, Loop.run inPlaceStep fuel s = some r → r.2.Safe p t n sz m := by
  induction fuel generalizing s with
  | zero => exact ⟨rfl, fun r h => absurd h (by simp [Loop.run])⟩
  | succ fuel ih =>
    rcases inPlaceStep_spec hs.behind with ⟨c, e, e'⟩ | ⟨s', j, bs, e, e', ha⟩
    · rw [Loop.run_succ_done e, Loop.run_succ_done e']
      refine ⟨rfl, fun r h => ?_⟩
      cases h
      exact hs
    · rw [Loop.run_succ_next e, Loop.run_succ_next e']
      exact ih (ha.safe hs)

/-- **`capn_deflate` within one buffer** does what it does with an input of its own, and does no harm. -/
theorem deflateInPlace_eq {sz : Nat} {m : Mem} (hs : s.Safe p t n sz m) (fuel : Nat) :
    deflate fuel (s.stream p) = (deflateInPlace fuel s).map (fun r => (r.1, r.2.stream p)) ∧
      ∀ r, deflateInPlace fuel s = some r → r.2.Safe p t n sz m := by
  rw [deflate, deflateInPlace, s.stream_length p]
  split
  · refine ⟨rfl, fun r h => ?_⟩
    cases h
    exact hs
  · exact run_inPlace hs fuel

end

end Capnproto

import Capnproto.Frame.Readers
import Capnproto.Frame.Sources

/-!
# Reading from a source

A source that delivers its bytes in pieces of any size is read like the bytes
themselves (`initFrom_spec`). The packed reader does so through a buffer that it
refills: what `capn_inflate` gives from the buffer is what it gives of all the
input, as far as that goes (`Ahead`, kept by each iteration of its loop), so that
it stops short only at the end of the input (`readPacked_spec`).
-/

namespace Capnproto

open Packing

/-! ## Sources -/

section

variable {τ : Type} {k : Source τ} {content : τ → List UInt8} {J : τ → Prop}

/-- A source with the bytes `content` still to come: every read stores some of
the next ones, and none only at their end. -/
def Source.Delivers (k : Source τ) (content : τ → List UInt8) : Prop :=
  ∀ t n, 0 < n → ∃ bytes t', k.read t n = (t', .got bytes) ∧ bytes.length ≤ n ∧ content t = bytes ++ content t' ∧
    (bytes = [] → content t = [])

/-- What a callback's reads of at least two bytes keep; nothing, of a file. -/
structure Source.Keeps (k : Source τ) (file : Bool) (J : τ → Prop) : Prop where
  ofFile : file = true → ∀ t, J t
  ofFd : file = false → ∀ t n, J t → 2 ≤ n → J (k.read t n).1

/-- `read_fd_all` reads all the bytes asked for, or fails after the last one. -/
theorem readFdAll_spec (hk : k.Delivers content) (t : τ) (count : Nat) :
    ∃ c t', (∃ n, ∀ fuel, n ≤ fuel → readFdAll k fuel t count = some (c, (content t).take count, t')) ∧
      (c = 0 ↔ count ≤ (content t).length) ∧ content t' = (content t).drop count := by
  obtain ⟨⟨c, bytes, t'⟩, ⟨n, hn⟩, hb, hc, ht⟩ := Loop.total (readAllStep k count)
    (I := fun s => s.1.length ≤ count)
    (Q := fun s r => r.2.1 = s.1 ++ (content s.2).take (count - s.1.length) ∧
      (r.1 = 0 ↔ count ≤ s.1.length + (content s.2).length) ∧
      content r.2.2 = (content s.2).drop (count - s.1.length))
    (fun s => (content s.2).length)
    (by
      rintro ⟨acc, t⟩ s' hI e
      simp only at hI
      rw [readAllStep] at e
      simp only at e
      by_cases hlt : acc.length < count
      · obtain ⟨bytes, t', hr, hle, hc, -⟩ := hk t (count - acc.length) (by omega)
        rw [if_pos hlt, hr] at e
        by_cases hb : bytes = []
        · simp only [hb, ite_true] at e
          cases e
        · simp only [if_neg hb] at e
          cases e
          have hpos := List.length_pos_iff.mpr hb
          simp only [hc, List.length_append]
          refine ⟨by omega, by omega, ?_⟩
          rintro r ⟨h1, h2, h3⟩
          refine ⟨?_, by rw [h2]; omega, ?_⟩
          · rw [h1, List.append_assoc, List.take_append, List.take_of_length_le hle, Nat.sub_sub]
          · rw [h3, List.drop_append, List.drop_of_length_le hle, List.nil_append, Nat.sub_sub]
      · rw [if_neg hlt] at e
        cases e)
    (by
      rintro ⟨acc, t⟩ r hI e
      simp only at hI
      rw [readAllStep] at e
      simp only at e
      by_cases hlt : acc.length < count
      · obtain ⟨bytes, t', hr, hle, hc, hend⟩ := hk t (count - acc.length) (by omega)
        rw [if_pos hlt, hr] at e
        by_cases hb : bytes = []
        · have h0 := hend hb
          rw [h0, hb, List.nil_append] at hc
          simp only [hb, ite_true] at e
          cases e
          simp only [h0, ← hc, List.take_nil, List.append_nil, List.length_nil, Nat.add_zero, List.drop_nil, and_true,
            true_and]
          exact iff_of_false (by decide) (by omega)
        · simp only [if_neg hb] at e
          cases e
      · rw [if_neg hlt] at e
        cases e
        have h0 : count - acc.length = 0 := by omega
        simp only [h0, List.take_zero, List.append_nil, List.drop_zero, and_true, true_and, true_iff]
        omega)
    (s := ([], t)) (Nat.zero_le count)
  simp only [List.nil_append, List.length_nil, Nat.sub_zero, Nat.zero_add] at hb hc ht
  subst hb
  exact ⟨c, t', ⟨n, fun fuel hf => Loop.run_mono hn hf⟩, hc, ht⟩

/-- `fread` reads the bytes asked for, as far as there are any. -/
theorem fread_spec (hk : k.Delivers content) (t : τ) (count : Nat) :
    ∃ t', (∃ n, ∀ fuel, n ≤ fuel → fread k fuel t count = some ((content t).take count, t')) ∧
      content t' = (content t).drop count := by
  obtain ⟨⟨bytes, t'⟩, ⟨n, hn⟩, hb, ht⟩ := Loop.total (freadStep k count)
    (I := fun s => s.1.length ≤ count)
    (Q := fun s r => r.1 = s.1 ++ (content s.2).take (count - s.1.length) ∧
      content r.2 = (content s.2).drop (count - s.1.length))
    (fun s => (content s.2).length)
    (by
      rintro ⟨acc, t⟩ s' hI e
      simp only at hI
      rw [freadStep] at e
      simp only at e
      by_cases hlt : acc.length < count
      · obtain ⟨bytes, t', hr, hle, hc, -⟩ := hk t (count - acc.length) (by omega)
        rw [if_pos hlt, hr] at e
        cases bytes with
        | nil => cases e
        | cons b bytes =>
          cases e
          simp only [hc, List.length_append]
          refine ⟨by omega, by simp, ?_⟩
          rintro r ⟨h1, h2⟩
          refine ⟨?_, ?_⟩
          · rw [h1, List.append_assoc, List.take_append, List.take_of_length_le hle, Nat.sub_sub]
          · rw [h2, List.drop_append, List.drop_of_length_le hle, List.nil_append, Nat.sub_sub]
      · rw [if_neg hlt] at e
        cases e)
    (by
      rintro ⟨acc, t⟩ r hI e
      simp only at hI
      rw [freadStep] at e
      simp only at e
      by_cases hlt : acc.length < count
      · obtain ⟨bytes, t', hr, hle, hc, hend⟩ := hk t (count - acc.length) (by omega)
        rw [if_pos hlt, hr] at e
        cases bytes with
        | nil =>
          have h0 := hend rfl
          rw [h0, List.nil_append] at hc
          cases e
          simp only [h0, ← hc, List.take_nil, List.append_nil, List.drop_nil, and_true]
        | cons b bytes => cases e
      · rw [if_neg hlt] at e
        cases e
        have h0 : count - acc.length = 0 := by omega
        simp only [h0, List.take_zero, List.append_nil, List.drop_zero, and_true])
    (s := ([], t)) (Nat.zero_le count)
  simp only [List.nil_append, List.length_nil, Nat.sub_zero] at hb ht
  subst hb
  exact ⟨t', ⟨n, fun fuel hf => Loop.run_mono hn hf⟩, ht⟩

/-- What refills the buffer: some of the next bytes, none only at their end. -/
theorem refill_spec (hk : k.Delivers content) {file : Bool} (hJ : k.Keeps file J) (t : τ) {count : Nat}
    (hc : 2 ≤ count) :
    ∃ bytes t', (∃ n, ∀ fuel, n ≤ fuel → refill k file fuel t count = some (bytes, t')) ∧ bytes.length ≤ count ∧
      content t = bytes ++ content t' ∧ (bytes = [] → content t = []) ∧ (J t → J t') := by
  cases file with
  | true =>
    obtain ⟨t', hn, ht⟩ := fread_spec hk t count
    refine ⟨_, t', hn, List.length_take_le _ _, ?_, fun h => ?_, fun _ => hJ.ofFile rfl t'⟩
    · rw [ht, List.take_append_drop]
    · have h0 := congrArg List.length h
      rw [List.length_take, List.length_nil] at h0
      exact List.length_eq_zero_iff.mp (by omega)
  | false =>
    obtain ⟨bytes, t', hr, hle, he, hend⟩ := hk t count (by omega)
    refine ⟨bytes, t', ⟨1, fun fuel hf => ?_⟩, hle, he, hend, fun h => ?_⟩
    · obtain ⟨m, rfl⟩ : ∃ m, fuel = m + 1 := ⟨fuel - 1, by omega⟩
      have hs : retryStep k count t = .done (bytes, t') := by rw [retryStep, hr]
      exact Loop.run_succ_done hs m
    · have h2 := hJ.ofFd rfl t count h hc
      rwa [hr] at h2

/-! More fuel gives the same result. -/

theorem refill_mono {n m : Nat} (hnm : n ≤ m) {file : Bool} {t : τ} {count : Nat} {r : List UInt8 × τ}
    (h : refill k file n t count = some r) : refill k file m t count = some r := by
  cases file with
  | true => exact Loop.run_mono h hnm
  | false => exact Loop.run_mono h hnm

theorem readPackedStep_mono {n m : Nat} (hnm : n ≤ m) {file : Bool} {s : Stream × τ}
    {q : Step (Stream × τ) (Option (Int × Stream × τ))} (h : readPackedStep k file n s = q) (hq : q ≠ .done none) :
    readPackedStep k file m s = q := by
  subst h
  rw [readPackedStep] at hq ⊢
  rw [readPackedStep]
  split
  · rfl
  rename_i h0
  rw [if_neg h0] at hq
  cases hi : Capnproto.inflate n s.1 with
  | none => rw [hi] at hq; exact absurd rfl hq
  | some p =>
    have hi' : Capnproto.inflate m s.1 = some p := Loop.run_mono hi hnm
    rw [hi] at hq
    rw [hi']
    simp only at hq ⊢
    split
    · rfl
    rename_i h1
    rw [if_neg h1] at hq
    split
    · rfl
    rename_i h2
    rw [if_neg h2] at hq
    cases hr : refill k file n s.2 (ZBUF - p.2.nextIn.length) with
    | none => rw [hr] at hq; exact absurd rfl hq
    | some w => rw [refill_mono hnm hr]

theorem readFrom_mono {n m : Nat} (hnm : n ≤ m) {file packed : Bool} {s : Stream × τ} {sz : Nat}
    {r : Int × List UInt8 × Stream × τ} (h : readFrom k file packed n s sz = some r) :
    readFrom k file packed m s sz = some r := by
  rw [readFrom] at h ⊢
  cases packed with
  | true =>
    simp only [ite_true] at h ⊢
    obtain ⟨q, hq, rfl⟩ := Option.map_eq_some_iff.mp h
    rw [Option.join_eq_some_iff] at hq
    rw [Loop.run_some_mono (fun _ _ => readPackedStep_mono hnm) hnm hq, Option.join_some, Option.map_some]
  | false =>
    cases file with
    | true =>
      simp only [Bool.false_eq_true, ite_false, ite_true] at h ⊢
      obtain ⟨q, hq, rfl⟩ := Option.map_eq_some_iff.mp h
      have hq' : fread k m s.2 sz = some q := Loop.run_mono hq hnm
      rw [hq', Option.map_some]
    | false =>
      simp only [Bool.false_eq_true, ite_false] at h ⊢
      obtain ⟨q, hq, rfl⟩ := Option.map_eq_some_iff.mp h
      have hq' : readFdAll k m s.2 sz = some q := Loop.run_mono hq hnm
      rw [hq', Option.map_some]

theorem initFrom_mono {n m : Nat} (hnm : n ≤ m) {file packed : Bool} {calloc : Nat → Option Nat} {t : τ}
    {r : Init × Stream × τ} (h : initFrom k file n calloc t packed = some r) :
    initFrom k file m calloc t packed = some r :=
  initFpLeft_mono (fun _ _ _ => readFrom_mono hnm) h

/-! ## The packed reader -/

/-- The packed reader has `u` still to give of the packed bytes `p`: it has read
some of them into its buffer, and given some of what those stand for. -/
structure Ahead (content : τ → List UInt8) (J : τ → Prop) (p : List UInt8) (s : Stream × τ) (u : List UInt8) :
    Prop where
  counters : s.1.Counters
  buffered : s.1.nextIn.length ≤ ZBUF
  keeps : J s.2
  gives : ∃ q m, p = q ++ content s.2 ∧ (∀ x, m ≤ (unpack (q ++ x)).length) ∧
    (∀ x, (s.1.feed x).avail = (unpack (q ++ x)).drop m) ∧ u = (unpack p).drop m

theorem Ahead.start {t : τ} (hJ : J t) : Ahead content J (content t) ({ nextIn := [], availOut := 0 }, t)
    (unpack (content t)) where
  counters := ⟨Nat.two_pow_pos 32, Nat.two_pow_pos 32⟩
  buffered := Nat.zero_le _
  keeps := hJ
  gives := ⟨[], 0, rfl, fun _ => Nat.zero_le _, fun x => by simp [Stream.avail, Stream.feed, Stream.pre], rfl⟩

/-- What the reader can give from its buffer is what it can give, as far as it goes. -/
theorem Ahead.avail {p : List UInt8} {s : Stream × τ} {u : List UInt8} (h : Ahead content J p s u) :
    (s.1.feed (content s.2)).avail = u := by
  obtain ⟨q, m, hp, -, hav, rfl⟩ := h.gives
  rw [hav, ← hp]

/-- A buffer of at most 4096 bytes does not jam. -/
theorem Ahead.not_jams {p : List UInt8} {s : Stream × τ} {u : List UInt8} (h : Ahead content J p s u) :
    ¬ s.1.Jams := by
  rintro ⟨o, n, ⟨o', -, hp⟩, -, hn⟩
  have hpos := hp.pos
  have hle := hp.le_length Packing.parsePlace_length
  have hb := h.buffered
  simp only [ZBUF] at hb
  omega

/-- After the unpacker gave `m` bytes. -/
theorem Ahead.inflate {p : List UInt8} {z z' : Stream} {t : τ} {u : List UInt8} {m : Nat}
    (h : Ahead content J p (z, t) u) (hg : GivesOn z z' m) (hz : z'.Small) :
    Ahead content J p (z', t) (u.drop m) where
  counters := ⟨hz.zeros, hz.raw⟩
  buffered := Nat.le_trans hg.shrinks h.buffered
  keeps := h.keeps
  gives := by
    obtain ⟨q, n, hp, hle, hav, rfl⟩ := h.gives
    refine ⟨q, n + m, hp, fun x => ?_, fun x => ?_, by rw [List.drop_drop]⟩
    · have hm := (hg.feed x).le_length
      rw [hav, List.length_drop] at hm
      have := hle x
      omega
    · rw [(hg.feed x).todo, hav, List.drop_drop]

/-- After a refill of the buffer. -/
theorem Ahead.refill {p : List UInt8} {z : Stream} {t t' : τ} {u bytes : List UInt8}
    (h : Ahead content J p (z, t) u) (hc : content t = bytes ++ content t') (hJ : J t')
    (hb : z.nextIn.length + bytes.length ≤ ZBUF) : Ahead content J p (z.feed bytes, t') u where
  counters := ⟨h.counters.zeros, h.counters.raw⟩
  buffered := by
    show (z.nextIn ++ bytes).length ≤ ZBUF
    rwa [List.length_append]
  keeps := hJ
  gives := by
    obtain ⟨q, n, hp, hle, hav, rfl⟩ := h.gives
    refine ⟨q ++ bytes, n, ?_, fun x => ?_, fun x => ?_, rfl⟩
    · simp only at hp
      rw [hp, hc, List.append_assoc]
    · rw [List.append_assoc]
      exact hle _
    · rw [Stream.feed_feed, hav, List.append_assoc]

/-- **The packed reader** stores the next of the bytes that it has still to give,
and returns 0 exactly if there are as many as asked for. -/
theorem readPacked_spec (hk : k.Delivers content) {file : Bool} (hJ : k.Keeps file J) {p : List UInt8}
    {s : Stream × τ} {u : List UInt8} (hs : Ahead content J p s u) (ho : s.1.availOut < 2 ^ 32) :
    ∃ n c s', (∀ fuel i, n ≤ fuel → n ≤ i →
        Loop.run (readPackedStep k file fuel) i s = some (some (c, s'))) ∧
      s'.1.out = s.1.out ++ u.take s.1.availOut ∧ (c = 0 ↔ s.1.availOut ≤ u.length) ∧
      Ahead content J p s' (u.drop s.1.availOut) := by
  induction hn : (content s.2).length using Nat.strongRecOn generalizing s u with
  | ind l ih =>
  obtain ⟨z, t⟩ := s
  simp only at ho hn
  by_cases h0 : z.availOut = 0
  · refine ⟨1, 0, (z, t), fun fuel i _ hi => ?_, ?_, ?_, ?_⟩
    · obtain ⟨i, rfl⟩ : ∃ j, i = j + 1 := ⟨i - 1, by omega⟩
      refine Loop.run_succ_done ?_ i
      rw [readPackedStep, if_pos h0]
    · simp only [h0, List.take_zero, List.append_nil]
    · simp only [h0, Nat.zero_le]
    · simpa only [h0, List.drop_zero] using hs
  obtain ⟨c, z', m, ⟨f, hf⟩, hg, hz', hc⟩ := inflate_ok ⟨ho, hs.counters.zeros, hs.counters.raw⟩ hs.not_jams
  have hinf : ∀ fuel, f ≤ fuel → Capnproto.inflate fuel z = some (c, z') := fun fuel hfl => Loop.run_mono hf hfl
  have hs' := hs.inflate hg hz'
  have hav := hs.avail
  have hgf := hg.feed (content t)
  have hm : m ≤ u.length := by rw [← hav]; exact hgf.le_length
  have hout : z'.out = z.out ++ u.take m := by rw [← hav]; exact hgf.out
  have hao : z'.availOut = z.availOut - m := hgf.availOut
  have hmo : m ≤ z.availOut := hgf.le_availOut
  rcases hc with ⟨rfl, hfull⟩ | ⟨rfl, hmore, hst⟩
  · -- the output is full
    have hme : m = z.availOut := by omega
    subst hme
    refine ⟨f + 1, 0, (z', t), fun fuel i hfl hi => ?_, hout, iff_of_true rfl hm, hs'⟩
    obtain ⟨i, rfl⟩ : ∃ j, i = j + 1 := ⟨i - 1, by omega⟩
    refine Loop.run_succ_done ?_ i
    rw [readPackedStep]
    simp only [h0, ite_false, hinf fuel (by omega), hfull, ite_true, ne_eq, not_true, false_and]
  -- the buffer is refilled
  have hcount : 2 ≤ ZBUF - z'.nextIn.length := by
    have := hst.short
    simp only [ZBUF]
    omega
  obtain ⟨bytes, t', ⟨g, hr⟩, hle, hct, hend, hkeep⟩ := refill_spec hk hJ t hcount
  have hb := hs'.buffered
  have hs'' := hs'.refill hct (hkeep hs.keeps) (by simp only at hb; omega)
  have hstep : ∀ fuel, f ≤ fuel → g ≤ fuel → readPackedStep k file fuel (z, t) =
      if bytes = [] then .done (some (-1, z', t')) else .next (z'.feed bytes, t') := by
    intro fuel hfl hgl
    rw [readPackedStep]
    simp only [h0, ite_false, hinf fuel hfl, Nat.ne_of_gt hmore, not_true, and_false, hr fuel hgl, ne_eq]
    rfl
  by_cases hbe : bytes = []
  · -- the input is at its end, and so is what the reader has to give
    have hend' := hend hbe
    have hu : u.drop m = [] := by
      have h1 := hs'.avail
      simp only [hend', Stream.feed_nil, hst.avail] at h1
      exact h1.symm
    have hum : u.length = m := by
      have := List.drop_eq_nil_iff.mp hu
      omega
    refine ⟨f + g + 1, -1, (z', t'), fun fuel i hfl hi => ?_, ?_, iff_of_false (by decide) (by simp only; omega), ?_⟩
    · obtain ⟨i, rfl⟩ : ∃ j, i = j + 1 := ⟨i - 1, by omega⟩
      refine Loop.run_succ_done ?_ i
      rw [hstep fuel (by omega) (by omega), if_pos hbe]
    · rw [hout, List.take_of_length_le hum.le, List.take_of_length_le (by simp only; omega)]
    · rw [hbe] at hs''
      rw [Stream.feed_nil, hu] at hs''
      rwa [List.drop_eq_nil_of_le (by simp only; omega)]
  · have hlt : (content t').length < l := by
      have := List.length_pos_iff.mpr hbe
      rw [← hn, hct, List.length_append]
      omega
    have hao' : (z'.feed bytes).availOut = z.availOut - m := hao
    obtain ⟨n, c, s', hrun, hout', hc, hfin⟩ := ih _ hlt hs'' (by simp only [hao']; omega) rfl
    simp only [hao', List.length_drop, List.drop_drop] at hout' hc hfin
    refine ⟨f + g + n + 1, c, s', fun fuel i hfl hi => ?_, ?_, ?_, ?_⟩
    · obtain ⟨i, rfl⟩ : ∃ j, i = j + 1 := ⟨i - 1, by omega⟩
      rw [Loop.run_succ_next (by rw [hstep fuel (by omega) (by omega), if_neg hbe])]
      exact hrun fuel i (by omega) (by omega)
    · have ht : u.take z.availOut = u.take m ++ (u.drop m).take (z.availOut - m) := by
        rw [← List.take_add, Nat.add_sub_cancel' hmo]
      rw [hout', ht, ← List.append_assoc, ← hout]
      rfl
    · rw [hc]
      simp only
      omega
    · rwa [Nat.add_sub_cancel' hmo] at hfin

/-! ## `init_fp` from a source -/

/-- Reads `sz` of the bytes `u`, storing what there is of them; an item of no
bytes is never read. -/
def readItem (item : Bool) (u : List UInt8) (sz : Nat) : Option (Int × List UInt8 × List UInt8) :=
  if item = true ∧ sz = 0 then some (-1, [], u) else readList true u sz

theorem readItem_false : readItem false = readList true := by
  funext u sz
  rw [readItem, if_neg (by simp)]

/-- What a reader over a source has still to give of the bytes `p`. -/
def LeftOf (content : τ → List UInt8) (J : τ → Prop) (packed : Bool) (p : List UInt8) (s : Stream × τ)
    (u : List UInt8) : Prop :=
  if packed then Ahead content J p s u else content s.2 = u

/-- What `readList` does when it stores what there is. -/
theorem readList_take (u : List UInt8) (sz : Nat) : ∃ c, readList true u sz = some (c, u.take sz, u.drop sz) ∧
    (c = 0 ↔ sz ≤ u.length) := by
  by_cases h : sz ≤ u.length
  · exact ⟨0, readList_ok h, iff_of_true rfl h⟩
  · have hlt := Nat.not_le.mp h
    refine ⟨-1, ?_, iff_of_false (by decide) h⟩
    rw [readList_short hlt, if_pos rfl, List.take_of_length_le hlt.le, List.drop_eq_nil_of_le hlt.le]

theorem readFrom_packed (hk : k.Delivers content) {file : Bool} (hJ : k.Keeps file J) (p : List UInt8) :
    ReadsLike (readFrom k file true) (readList true) (LeftOf content J true p) := by
  rintro ⟨z, t⟩ u sz hs hsz
  have hs' : Ahead content J p ({ z with out := [], availOut := sz }, t) u :=
    ⟨⟨hs.counters.zeros, hs.counters.raw⟩, hs.buffered, hs.keeps, hs.gives⟩
  obtain ⟨n, c, ⟨z', t'⟩, hrun, hout, hc, hfin⟩ := readPacked_spec hk hJ hs' hsz
  obtain ⟨c', hl, hc'⟩ := readList_take u sz
  refine ⟨c, c', u.take sz, (z', t'), u.drop sz, n, hl, by rw [hc, hc'], fun _ => hfin, fun fuel hf => ?_⟩
  have hout' : z'.out = u.take sz := hout
  simp only [readFrom, ite_true, hrun fuel fuel hf hf, Option.join_some, Option.map_some, hout']

theorem readFrom_plain (hk : k.Delivers content) (file : Bool) (p : List UInt8) :
    ReadsLike (readFrom k file false) (readItem file) (LeftOf content J false p) := by
  rintro ⟨z, t⟩ u sz hu -
  have hu : content t = u := hu
  subst hu
  obtain ⟨c', hl, hc'⟩ := readList_take (content t) sz
  cases file with
  | false =>
    obtain ⟨c, t', ⟨n, hn⟩, hc, ht⟩ := readFdAll_spec hk t sz
    refine ⟨c, c', (content t).take sz, (z, t'), (content t).drop sz, n, ?_, by rw [hc, hc'], fun _ => ht,
      fun fuel hf => ?_⟩
    · rw [readItem_false, hl]
    · simp only [readFrom, Bool.false_eq_true, ite_false, hn fuel hf, Option.map_some]
  | true =>
    obtain ⟨t', ⟨n, hn⟩, ht⟩ := fread_spec hk t sz
    have hr : ∀ fuel, n ≤ fuel → readFrom k true false fuel (z, t) sz =
        some (if ((content t).take sz).length / sz ≠ 1 then 1 else 0, (content t).take sz, z, t') := by
      intro fuel hf
      simp only [readFrom, Bool.false_eq_true, ite_false, ite_true, hn fuel hf, Option.map_some]
    by_cases h0 : sz = 0
    · subst h0
      exact ⟨_, -1, [], (z, t'), content t, n, if_pos ⟨rfl, rfl⟩, iff_of_false (by simp) (by decide), fun _ => ht, hr⟩
    · refine ⟨_, c', (content t).take sz, (z, t'), (content t).drop sz, n, ?_, ?_, fun _ => ht, hr⟩
      · rw [readItem, if_neg fun h => h0 h.2, hl]
      · have hone : ((content t).take sz).length / sz = 1 ↔ sz ≤ (content t).length := by
          rw [List.length_take]
          constructor
          · intro h
            by_contra hlt
            rw [Nat.div_eq_of_lt (by omega)] at h
            exact absurd h (by decide)
          · intro h
            rw [Nat.min_eq_left h, Nat.div_self (by omega)]
        rw [hc', ← hone]
        split <;> simp_all

/-- **`init_fp` reads a source like the unpacked bytes** that it delivers. -/
theorem initFrom_spec (hk : k.Delivers content) {file : Bool} (hJ : k.Keeps file J) {t : τ} (ht : J t)
    (calloc : Nat → Option Nat) (packed : Bool) :
    FollowsLeft (LeftOf content J packed (content t)) (fun fuel => initFrom k file fuel calloc t packed)
      (initFpLeft (readItem (file && !packed)) calloc (unpacked (content t) packed)) := by
  cases packed with
  | true =>
    rw [Bool.not_true, Bool.and_false, readItem_false]
    exact initFpLeft_like (readFrom_packed hk hJ (content t)) (Ahead.start ht)
  | false =>
    rw [Bool.not_false, Bool.and_true]
    exact initFpLeft_like (readFrom_plain (J := J) hk file (content t)) rfl

theorem initsFrom_iff {file : Bool} {calloc : Nat → Option Nat} {t : τ} {packed : Bool} {f : Init × τ} :
    InitsFrom k file calloc t packed f ↔ ∃ fuel z, initFrom k file fuel calloc t packed = some (f.1, z, f.2) := by
  have hmap : ∀ fuel, (initFrom k file fuel calloc t packed).map (fun x => (x.1, x.2.2)) = some f ↔
      ∃ z, initFrom k file fuel calloc t packed = some (f.1, z, f.2) := by
    intro fuel
    rw [Option.map_eq_some_iff]
    constructor
    · rintro ⟨⟨r, z, t'⟩, h, rfl⟩
      exact ⟨z, h⟩
    · rintro ⟨z, h⟩
      exact ⟨_, h, rfl⟩
  cases file with
  | true => exact exists_congr hmap
  | false => exact exists_congr hmap

/-- `capn_init_fp` and `capn_init_fd` return, in one way. -/
theorem initsFrom_spec (hk : k.Delivers content) {file : Bool} (hJ : k.Keeps file J) {t : τ} (ht : J t)
    (calloc : Nat → Option Nat) (packed : Bool) : ∃ r z t' u', InitsFrom k file calloc t packed (r, t') ∧
      initFpLeft (readItem (file && !packed)) calloc (unpacked (content t) packed) = some (r, u') ∧
      (r.ret = 0 → LeftOf content J packed (content t) (z, t') u') ∧
      ∀ f, InitsFrom k file calloc t packed f → f = (r, t') := by
  obtain ⟨r, ⟨z, t'⟩, u', n, hl, hleft, hx⟩ := initFrom_spec hk hJ ht calloc packed
  have hn := hx n (Nat.le_refl n)
  refine ⟨r, z, t', u', initsFrom_iff.mpr ⟨n, z, hn⟩, hl, hleft, fun f hf => ?_⟩
  obtain ⟨m, z', hm⟩ := initsFrom_iff.mp hf
  have e := (initFrom_mono (Nat.le_max_left m n) hm).symm.trans (initFrom_mono (Nat.le_max_right m n) hn)
  cases Option.some.inj e
  rfl

end

end Capnproto

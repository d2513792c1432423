import Capnproto.Frame.Format
import Capnproto.Stream.Inflate

/-!
# `capn_init_mem` accepts frames

What `capn_init_mem` does with a buffer, packed or not, is what `init_fp` does
with the unpacked bytes read one after another (`initMem_ok`), unless the
unpacker jams on the way (`initMem_jams`). It returns 0 exactly on the bytes
that begin with a frame (`initList_ret`), and its only store past a buffer is
that of a table for 1024 segments, which is four bytes longer than `hdr`
(`initList_stores`).
-/

namespace Capnproto

open Packing

/-! ## The reader -/

/-- The bytes a stream can still deliver to the reader. -/
def Stream.readable (z : Stream) (packed : Bool) : List UInt8 := if packed then z.avail else z.nextIn

/-- Within `n` more bytes the unpacker jams. -/
def Stream.JamsIn (z : Stream) (packed : Bool) (n : Nat) : Prop :=
  packed = true ∧ ∃ o k, z.AtPos o k ∧ o < n ∧ k % 2 ^ 32 = 0

/-- The unpacker's counters are `unsigned`. -/
structure Stream.Counters (z : Stream) : Prop where
  zeros : z.zeros < 2 ^ 32
  raw : z.raw < 2 ^ 32

theorem Stream.JamsIn.mono {z : Stream} {packed : Bool} {n m : Nat} (h : z.JamsIn packed n) (hnm : n ≤ m) :
    z.JamsIn packed m := by
  obtain ⟨hp, o, k, ha, ho, hk⟩ := h
  exact ⟨hp, o, k, ha, by omega, hk⟩

/-- `read_fp` returns, with `r`. -/
def ReadsFp (packed : Bool) (z : Stream) (sz : Nat) (r : Int × List UInt8 × Stream) : Prop :=
  ∃ fuel, readFp fuel packed z sz = some r

theorem readFp_mono {n m : Nat} {packed : Bool} {z : Stream} {sz : Nat} {r : Int × List UInt8 × Stream}
    (h : readFp n packed z sz = some r) (hnm : n ≤ m) : readFp m packed z sz = some r := by
  cases packed with
  | false => exact h
  | true =>
    simp only [readFp, ite_true] at h ⊢
    cases hi : inflate n { z with out := [], availOut := sz } with
    | none => rw [hi] at h; cases h
    | some s =>
      rw [hi] at h
      have hm : inflate m { z with out := [], availOut := sz } = some s := Loop.run_mono hi hnm
      rw [hm]
      exact h

/-- A read of bytes that are all there. -/
theorem readFp_ok {z : Stream} {packed : Bool} {sz : Nat} (hz : z.Counters) (hsz : sz < 2 ^ 32)
    (hj : ¬ z.JamsIn packed sz) (hle : sz ≤ (z.readable packed).length) :
    ∃ z', ReadsFp packed z sz (0, (z.readable packed).take sz, z') ∧ z'.Counters ∧
      z'.readable packed = (z.readable packed).drop sz ∧
      ∀ n, z'.JamsIn packed n ↔ z.JamsIn packed (sz + n) := by
  cases packed with
  | false =>
    refine ⟨{ z with nextIn := z.nextIn.drop sz }, ⟨0, ?_⟩, ⟨hz.zeros, hz.raw⟩, rfl, fun n => ?_⟩
    · have hle' : ¬ z.nextIn.length < sz := Nat.not_lt.mpr hle
      simp [readFp, hle', Stream.readable]
    · simp [Stream.JamsIn]
  | true =>
    simp only [Stream.readable, ite_true] at hle ⊢
    have hs : ({ z with out := [], availOut := sz } : Stream).Small := ⟨hsz, hz.zeros, hz.raw⟩
    have hj' : ¬ ({ z with out := [], availOut := sz } : Stream).Jams := by
      rintro ⟨o, k, ha, ho, hk⟩
      exact hj ⟨rfl, o, k, ha, ho, hk⟩
    have hav : ({ z with out := [], availOut := sz } : Stream).avail = z.avail := rfl
    rcases inflate_cases hs hj' with ⟨-, t, ⟨fuel, hi⟩, hg, ht⟩ | ⟨hlt, -⟩
    · refine ⟨t, ⟨fuel, ?_⟩, ⟨ht.zeros, ht.raw⟩, ?_, fun n => ?_⟩
      · have h0 : t.availOut = 0 := by rw [hg.availOut]; simp
        have hout : t.out = z.avail.take sz := by rw [hg.out, hav]; simp
        have hi' : inflate fuel { z with out := [], availOut := sz } = some (0, t) := hi
        simp [readFp, hi', h0, hout]
      · rw [hg.todo, hav]
      · simp only [Stream.JamsIn, true_and]
        constructor
        · rintro ⟨o, k, ha, ho, hk⟩
          exact ⟨sz + o, k, (hg.place o k).mp ha, by omega, hk⟩
        · rintro ⟨o, k, ha, ho, hk⟩
          have hso : sz ≤ o := by
            by_contra hlt
            exact hj ⟨rfl, o, k, ha, by omega, hk⟩
          refine ⟨o - sz, k, (hg.place _ _).mpr ?_, by omega, hk⟩
          show Stream.AtPos { z with out := [], availOut := sz } (sz + (o - sz)) k
          rw [Nat.add_sub_cancel' hso]
          exact ha
    · rw [hav] at hlt
      exact absurd hle (Nat.not_le.mpr hlt)

/-- A read of more bytes than there are. -/
theorem readFp_short {z : Stream} {packed : Bool} {sz : Nat} (hz : z.Counters) (hsz : sz < 2 ^ 32)
    (hj : ¬ z.JamsIn packed sz) (hlt : (z.readable packed).length < sz) :
    ∃ c z', ReadsFp packed z sz (c, if packed then z.readable packed else [], z') ∧ c ≠ 0 := by
  cases packed with
  | false =>
    refine ⟨-1, z, ⟨0, ?_⟩, by decide⟩
    have hlt' : z.nextIn.length < sz := hlt
    simp [readFp, hlt']
  | true =>
    simp only [Stream.readable, ite_true] at hlt ⊢
    have hs : ({ z with out := [], availOut := sz } : Stream).Small := ⟨hsz, hz.zeros, hz.raw⟩
    have hj' : ¬ ({ z with out := [], availOut := sz } : Stream).Jams := by
      rintro ⟨o, k, ha, ho, hk⟩
      exact hj ⟨rfl, o, k, ha, ho, hk⟩
    have hav : ({ z with out := [], availOut := sz } : Stream).avail = z.avail := rfl
    rcases inflate_cases hs hj' with ⟨hle, -⟩ | ⟨-, t, ⟨fuel, hi⟩, hg, -⟩
    · rw [hav] at hle
      exact absurd hle (Nat.not_le.mpr hlt)
    · refine ⟨-1, t, ⟨fuel, ?_⟩, by decide⟩
      have hout : t.out = z.avail := by rw [hg.out, hav]; simp
      have hi' : inflate fuel { z with out := [], availOut := sz } = some (CAPN_NEED_MORE, t) := hi
      simp [readFp, hi', hout, CAPN_NEED_MORE]

/-- A read on which the unpacker jams never returns. -/
theorem readFp_jams {z : Stream} {packed : Bool} {sz : Nat} (hz : z.Counters) (hsz : sz < 2 ^ 32)
    (hj : z.JamsIn packed sz) (fuel : Nat) : readFp fuel packed z sz = none := by
  obtain ⟨rfl, o, k, ha, ho, hk⟩ := hj
  have hs : ({ z with out := [], availOut := sz } : Stream).Small := ⟨hsz, hz.zeros, hz.raw⟩
  have hjam : ({ z with out := [], availOut := sz } : Stream).Jams := ⟨o, k, ha, ho, hk⟩
  cases hi : inflate fuel { z with out := [], availOut := sz } with
  | none => simp [readFp, hi]
  | some s => exact absurd ⟨fuel, hi⟩ (inflate_jams hs hjam s)

/-! ## The three reads of `init_fp` -/

section

variable {σ : Type} {read : σ → Nat → Option (Int × List UInt8 × σ)} {calloc : Nat → Option Nat}
  {z z' : σ} {c : Int} {b : List UInt8}

theorem initFp_short (h : read z 4 = some (c, b, z')) (hc : c ≠ 0) :
    initFp read calloc z = some (.err [⟨4, b.length⟩]) := by
  simp only [initFp, h, hc, ne_eq, not_false_eq_true, ite_true]

theorem initFp_count (h : read z 4 = some (0, b, z')) (hn : CAPN_MAX_SEGS - 1 < le b) :
    initFp read calloc z = some (.err [⟨4, b.length⟩]) := by
  simp only [initFp, h, hn, ne_eq, not_true_eq_false, ite_true, ite_false]

theorem initFp_next (h : read z 4 = some (0, b, z')) (hn : ¬ CAPN_MAX_SEGS - 1 < le b) :
    initFp read calloc z = initTable read calloc z' (le b + 1) [⟨4, b.length⟩] := by
  simp only [initFp, h, hn, ne_eq, not_true_eq_false, ite_false]

variable {n : Nat} {stores : List Store}

theorem initTable_short (h : read z (tableSize n) = some (c, b, z')) (hc : c ≠ 0) :
    initTable read calloc z n stores = some (.err (stores ++ [⟨4 * CAPN_MAX_SEGS, b.length⟩])) := by
  simp only [initTable, h, hc, ne_eq, not_false_eq_true, ite_true]

theorem initTable_next (h : read z (tableSize n) = some (0, b, z')) :
    initTable read calloc z n stores =
      initData read calloc z' n b (stores ++ [⟨4 * CAPN_MAX_SEGS, b.length⟩]) := by
  simp only [initTable, h, ne_eq, not_true_eq_false, ite_false]

variable {hdr : List UInt8} {sizes : List Nat} {total block : Nat}

theorem initData_bad (h : checkSizes (tableWords n hdr) 0 = none) :
    initData read calloc z n hdr stores = some (.err stores) := by
  simp only [initData, h]

theorem initData_short (h : checkSizes (tableWords n hdr) 0 = some (sizes, total))
    (hb : calloc (total + sizeofSegment * n) = some block) (hr : read z total = some (c, b, z'))
    (hc : c ≠ 0) : initData read calloc z n hdr stores =
      some (.err (stores ++ [⟨block - sizeofSegment * n, b.length⟩])) := by
  simp only [initData, h, hb, hr, hc, ne_eq, not_false_eq_true, ite_true]

theorem initData_ok (h : checkSizes (tableWords n hdr) 0 = some (sizes, total))
    (hb : calloc (total + sizeofSegment * n) = some block) (hr : read z total = some (0, b, z')) :
    initData read calloc z n hdr stores =
      some ⟨0, (carve sizes b).foldl capnAppendSegment capnInitMalloc,
        stores ++ [⟨block - sizeofSegment * n, b.length⟩]⟩ := by
  simp only [initData, h, hb, hr, ne_eq, not_true_eq_false, ite_false]

end

/-! With a reader that does more, `init_fp` does at least as much. -/

section

variable {σ : Type} {read read' : σ → Nat → Option (Int × List UInt8 × σ)} {calloc : Nat → Option Nat}
  (h : ∀ z n r, read z n = some r → read' z n = some r)

include h

theorem initDataLeft_mono {z : σ} {n : Nat} {hdr : List UInt8} {stores : List Store} {r : Init × σ}
    (hr : initDataLeft read calloc z n hdr stores = some r) :
    initDataLeft read' calloc z n hdr stores = some r := by
  simp only [initDataLeft] at hr ⊢
  cases hs : checkSizes (tableWords n hdr) 0 with
  | none => rwa [hs] at hr
  | some st =>
    rw [hs] at hr
    cases hb : calloc (st.2 + sizeofSegment * n) with
    | none => simpa only [hb] using hr
    | some block =>
      cases hz : read z st.2 with
      | none => simp only [hb, hz] at hr; cases hr
      | some q => simpa only [hb, hz, h z st.2 q hz] using hr

theorem initTableLeft_mono {z : σ} {n : Nat} {stores : List Store} {r : Init × σ}
    (hr : initTableLeft read calloc z n stores = some r) : initTableLeft read' calloc z n stores = some r := by
  simp only [initTableLeft] at hr ⊢
  cases hz : read z (tableSize n) with
  | none => rw [hz] at hr; cases hr
  | some q =>
    rw [hz] at hr
    rw [h z _ q hz]
    by_cases hc : q.1 ≠ 0
    · simpa only [hc, ite_true, not_false_eq_true, ne_eq] using hr
    · simp only [hc, ite_false] at hr ⊢
      exact initDataLeft_mono h hr

theorem initFpLeft_mono {z : σ} {r : Init × σ} (hr : initFpLeft read calloc z = some r) :
    initFpLeft read' calloc z = some r := by
  simp only [initFpLeft] at hr ⊢
  cases hz : read z 4 with
  | none => rw [hz] at hr; cases hr
  | some q =>
    rw [hz] at hr
    rw [h z _ q hz]
    by_cases hc : q.1 ≠ 0
    · simpa only [hc, ite_true, not_false_eq_true, ne_eq] using hr
    · by_cases hn : CAPN_MAX_SEGS - 1 < le q.2.1
      · simpa only [hc, hn, ite_true, ite_false] using hr
      · simp only [hc, hn, ite_false] at hr ⊢
        exact initTableLeft_mono h hr

theorem initFp_mono {z : σ} {r : Init} (hr : initFp read calloc z = some r) :
    initFp read' calloc z = some r := by
  rw [← initFpLeft_fst] at hr ⊢
  obtain ⟨q, hq, rfl⟩ := Option.map_eq_some_iff.mp hr
  rw [initFpLeft_mono h hq, Option.map_some]

end

/-- What the check of the table lets through. -/
theorem checkSizes_eq {ns sizes : List Nat} {t total : Nat} (ht : t ≤ UINT32_MAX) :
    checkSizes ns t = some (sizes, total) ↔
      sizes = ns.map (· * 8) ∧ total = t + (ns.map (· * 8)).sum ∧ (∀ n ∈ ns, n ≤ INT_MAX / 8) ∧
        total ≤ UINT32_MAX := by
  induction ns generalizing t sizes total with
  | nil =>
    simp only [checkSizes, Option.some.injEq, Prod.mk.injEq, List.map_nil, List.sum_nil]
    constructor
    · rintro ⟨rfl, rfl⟩
      exact ⟨rfl, rfl, by simp, ht⟩
    · rintro ⟨rfl, rfl, -⟩
      exact ⟨rfl, rfl⟩
  | cons n ns ih =>
    simp only [checkSizes, List.map_cons, List.sum_cons, List.forall_mem_cons]
    by_cases hn : INT_MAX / 8 < n ∨ UINT32_MAX / 8 < n ∨ UINT32_MAX - t < n * 8
    · rw [if_pos hn]
      refine iff_of_false (by simp) ?_
      rintro ⟨-, rfl, ⟨hle, -⟩, hu⟩
      simp only [INT_MAX, UINT32_MAX] at hn hle hu
      omega
    · rw [if_neg hn]
      simp only [INT_MAX, UINT32_MAX] at hn ht ih ⊢
      have ih' := fun (l : List Nat) (k : Nat) => @ih l (t + n * 8) k (by omega)
      constructor
      · intro h
        obtain ⟨⟨l, k⟩, hl, he⟩ := Option.map_eq_some_iff.mp h
        cases he
        obtain ⟨rfl, rfl, hall, hu⟩ := (ih' l _).mp hl
        exact ⟨rfl, by omega, ⟨by omega, hall⟩, hu⟩
      · rintro ⟨rfl, rfl, ⟨-, hall⟩, hu⟩
        rw [(ih' _ _).mpr ⟨rfl, rfl, hall, by omega⟩]
        simp only [Option.map_some, Option.some.injEq, Prod.mk.injEq, true_and]
        omega

theorem checkSizes_lt {ns sizes : List Nat} {total : Nat} (h : checkSizes ns 0 = some (sizes, total)) :
    total < 2 ^ 32 := by
  have := ((checkSizes_eq (Nat.zero_le _)).mp h).2.2.2
  simp only [UINT32_MAX] at this
  omega

theorem tableSize_lt {n : Nat} (h : n ≤ CAPN_MAX_SEGS) : tableSize n < 2 ^ 32 := by
  simp only [CAPN_MAX_SEGS, tableSize] at *
  omega

theorem readable_mem (p : List UInt8) (packed : Bool) :
    ({ nextIn := p, availOut := 0 } : Stream).readable packed = unpacked p packed := by
  cases packed <;> simp [Stream.readable, unpacked, Stream.avail, Stream.pre]

theorem counters_mem (p : List UInt8) : ({ nextIn := p, availOut := 0 } : Stream).Counters :=
  ⟨Nat.two_pow_pos 32, Nat.two_pow_pos 32⟩

theorem readList_ok {packed : Bool} {u : List UInt8} {sz : Nat} (h : sz ≤ u.length) :
    readList packed u sz = some (0, u.take sz, u.drop sz) := if_pos h

theorem readList_short {packed : Bool} {u : List UInt8} {sz : Nat} (h : u.length < sz) :
    readList packed u sz = some (-1, if packed then u else [], []) := if_neg (Nat.not_le.mpr h)

theorem readFp_none {packed : Bool} {z : Stream} {sz : Nat} {r : Int × List UInt8 × Stream}
    (h : ReadsFp packed z sz r) {fuel : Nat} : readFp fuel packed z sz = none ∨ readFp fuel packed z sz = some r := by
  obtain ⟨n, hn⟩ := h
  cases hf : readFp fuel packed z sz with
  | none => exact .inl rfl
  | some r' =>
    have e := (readFp_mono hf (Nat.le_max_left fuel n)).symm.trans (readFp_mono hn (Nat.le_max_right fuel n))
    exact .inr e

/-- With enough fuel, `x` is what `y` is. -/
def Follows (x : Nat → Option Init) (y : Option Init) : Prop :=
  ∃ r n, y = some r ∧ ∀ fuel, n ≤ fuel → x fuel = some r

theorem Follows.after {x x' : Nat → Option Init} {y : Option Init} (n : Nat) (h : Follows x y)
    (hx : ∀ fuel, n ≤ fuel → x' fuel = x fuel) : Follows x' y := by
  obtain ⟨r, m, hy, hm⟩ := h
  exact ⟨r, max n m, hy, fun fuel hf => (hx fuel (by omega)).trans (hm fuel (by omega))⟩

section

variable {calloc : Nat → Option Nat} {z : Stream} {packed : Bool} {n : Nat} {hdr : List UInt8}
  {stores : List Store}

theorem initData_follows (hcalloc : CallocOk calloc) (hz : z.Counters)
    (hj : ¬ z.JamsIn packed (dataDemand n hdr)) :
    Follows (fun fuel => initData (readFp fuel packed) calloc z n hdr stores)
      (initData (readList packed) calloc (z.readable packed) n hdr stores) := by
  rw [dataDemand] at hj
  cases hs : checkSizes (tableWords n hdr) 0 with
  | none => exact ⟨_, 0, initData_bad hs, fun _ _ => initData_bad hs⟩
  | some st =>
    obtain ⟨sizes, total⟩ := st
    rw [hs] at hj
    have hlt := checkSizes_lt hs
    obtain ⟨block, hb, -⟩ := hcalloc (total + sizeofSegment * n)
    by_cases hl : (z.readable packed).length < total
    · obtain ⟨c, z', ⟨m, hr⟩, hc⟩ := readFp_short hz hlt hj hl
      exact ⟨_, m, initData_short hs hb (readList_short hl) (by decide),
        fun _ hf => initData_short hs hb (readFp_mono hr hf) hc⟩
    · obtain ⟨z', ⟨m, hr⟩, -⟩ := readFp_ok hz hlt hj (Nat.not_lt.mp hl)
      exact ⟨_, m, initData_ok hs hb (readList_ok (Nat.not_lt.mp hl)),
        fun _ hf => initData_ok hs hb (readFp_mono hr hf)⟩

theorem initTable_follows (hcalloc : CallocOk calloc) (hz : z.Counters) (hn : n ≤ CAPN_MAX_SEGS)
    (hj : ¬ z.JamsIn packed (tableDemand n (z.readable packed))) :
    Follows (fun fuel => initTable (readFp fuel packed) calloc z n stores)
      (initTable (readList packed) calloc (z.readable packed) n stores) := by
  have hlt := tableSize_lt hn
  rw [tableDemand] at hj
  by_cases hl : (z.readable packed).length < tableSize n
  · rw [if_pos hl] at hj
    obtain ⟨c, z', ⟨m, hr⟩, hc⟩ := readFp_short hz hlt hj hl
    exact ⟨_, m, initTable_short (readList_short hl) (by decide),
      fun _ hf => initTable_short (readFp_mono hr hf) hc⟩
  · rw [if_neg hl] at hj
    obtain ⟨z', ⟨m, hr⟩, hz', hu, hj'⟩ :=
      readFp_ok hz hlt (fun h => hj (h.mono (Nat.le_add_right _ _))) (Nat.not_lt.mp hl)
    rw [initTable_next (readList_ok (Nat.not_lt.mp hl)), ← hu]
    refine Follows.after m (initData_follows hcalloc hz' ?_) fun _ hf => initTable_next (readFp_mono hr hf)
    rwa [hj']

theorem initFp_follows (hcalloc : CallocOk calloc) (hz : z.Counters)
    (hj : ¬ z.JamsIn packed (demand (z.readable packed))) :
    Follows (fun fuel => initFp (readFp fuel packed) calloc z)
      (initFp (readList packed) calloc (z.readable packed)) := by
  rw [demand] at hj
  by_cases hl : (z.readable packed).length < 4
  · rw [if_pos (.inl hl)] at hj
    obtain ⟨c, z', ⟨m, hr⟩, hc⟩ := readFp_short hz (by decide) hj hl
    exact ⟨_, m, initFp_short (readList_short hl) (by decide),
      fun _ hf => initFp_short (readFp_mono hr hf) hc⟩
  have h4 : ¬ z.JamsIn packed 4 := by
    intro h
    refine hj (h.mono ?_)
    split <;> omega
  obtain ⟨z', ⟨m, hr⟩, hz', hu, hj'⟩ := readFp_ok hz (by decide) h4 (Nat.not_lt.mp hl)
  have hrl := @readList_ok packed _ _ (Nat.not_lt.mp hl)
  by_cases hn : CAPN_MAX_SEGS - 1 < le ((z.readable packed).take 4)
  · exact ⟨_, m, initFp_count hrl hn, fun _ hf => initFp_count (readFp_mono hr hf) hn⟩
  · rw [if_neg (by omega), ← hu] at hj
    rw [initFp_next hrl hn, ← hu]
    refine Follows.after m (initTable_follows hcalloc hz' ?_ ?_) fun _ hf =>
      initFp_next (readFp_mono hr hf) hn
    · simp only [CAPN_MAX_SEGS] at hn ⊢; omega
    · rwa [hj']

/-! A read that jams never returns. -/

theorem initData_jams (hz : z.Counters) (hj : z.JamsIn packed (dataDemand n hdr))
    (hcalloc : CallocOk calloc) (fuel : Nat) :
    initData (readFp fuel packed) calloc z n hdr stores = none := by
  rw [dataDemand] at hj
  cases hs : checkSizes (tableWords n hdr) 0 with
  | none =>
    rw [hs] at hj
    obtain ⟨-, o, k, -, ho, -⟩ := hj
    exact absurd ho (Nat.not_lt_zero _)
  | some st =>
    obtain ⟨sizes, total⟩ := st
    rw [hs] at hj
    obtain ⟨block, hb, -⟩ := hcalloc (total + sizeofSegment * n)
    simp only [initData, hs, hb, readFp_jams hz (checkSizes_lt hs) hj fuel]

theorem initTable_jams (hz : z.Counters) (hn : n ≤ CAPN_MAX_SEGS)
    (hj : z.JamsIn packed (tableDemand n (z.readable packed))) (hcalloc : CallocOk calloc) (fuel : Nat) :
    initTable (readFp fuel packed) calloc z n stores = none := by
  have hlt := tableSize_lt hn
  by_cases hj₁ : z.JamsIn packed (tableSize n)
  · simp only [initTable, readFp_jams hz hlt hj₁ fuel]
  rw [tableDemand] at hj
  by_cases hl : (z.readable packed).length < tableSize n
  · rw [if_pos hl] at hj
    exact absurd hj hj₁
  rw [if_neg hl] at hj
  obtain ⟨z', hr, hz', hu, hj'⟩ := readFp_ok hz hlt hj₁ (Nat.not_lt.mp hl)
  rcases @readFp_none _ _ _ _ hr fuel with h | h
  · simp only [initTable, h]
  · rw [initTable_next h]
    exact initData_jams hz' ((hj' _).mpr hj) hcalloc fuel

theorem initFp_jams (hz : z.Counters) (hj : z.JamsIn packed (demand (z.readable packed)))
    (hcalloc : CallocOk calloc) (fuel : Nat) : initFp (readFp fuel packed) calloc z = none := by
  by_cases hj₁ : z.JamsIn packed 4
  · simp only [initFp, readFp_jams hz (by decide) hj₁ fuel]
  rw [demand] at hj
  by_cases hl : (z.readable packed).length < 4 ∨ CAPN_MAX_SEGS - 1 < le ((z.readable packed).take 4)
  · rw [if_pos hl] at hj
    exact absurd hj hj₁
  rw [if_neg hl] at hj
  rw [not_or, Nat.not_lt] at hl
  obtain ⟨z', hr, hz', hu, hj'⟩ := readFp_ok hz (by decide) hj₁ hl.1
  rcases @readFp_none _ _ _ _ hr fuel with h | h
  · simp only [initFp, h]
  · rw [initFp_next h hl.2]
    refine initTable_jams hz' ?_ ((hj' _).mpr ?_) hcalloc fuel
    · simp only [CAPN_MAX_SEGS] at hl ⊢; omega
    · rwa [hu]

end

/-- **A buffer is read like its unpacked bytes**, unless the unpacker jams
within the bytes asked for. -/
theorem initMem_ok {calloc : Nat → Option Nat} {p : List UInt8} {packed : Bool} (hcalloc : CallocOk calloc)
    (hj : ¬ ({ nextIn := p, availOut := 0 } : Stream).JamsIn packed (demand (unpacked p packed))) :
    ∃ r, InitsMem calloc p packed r ∧ initFp (readList packed) calloc (unpacked p packed) = some r := by
  rw [← readable_mem] at hj ⊢
  obtain ⟨r, n, hy, hx⟩ := initFp_follows hcalloc (counters_mem p) hj
  exact ⟨r, ⟨n, hx n (Nat.le_refl _)⟩, hy⟩

theorem initMem_jams {calloc : Nat → Option Nat} {p : List UInt8} {packed : Bool} (hcalloc : CallocOk calloc)
    (hj : ({ nextIn := p, availOut := 0 } : Stream).JamsIn packed (demand (unpacked p packed))) (r : Init) :
    ¬ InitsMem calloc p packed r := by
  rintro ⟨fuel, h⟩
  rw [← readable_mem] at hj
  rw [capnInitMem, initFp_jams (counters_mem p) hj hcalloc] at h
  cases h

/-! ## Unpacked bytes -/

/-- The bytes `u` make `init_fp` store more than `hdr` holds: they count 1024
segments, so that a table of 4100 bytes is read, and more than 4096 of them are
there (all of them, when nothing is stored of a table cut short). -/
def TableOverflows (packed : Bool) (u : List UInt8) : Prop :=
  le (u.take 4) = CAPN_MAX_SEGS - 1 ∧
    if packed then 4 * CAPN_MAX_SEGS < (u.drop 4).length else tableSize CAPN_MAX_SEGS ≤ (u.drop 4).length

theorem Init.err_ret (stores : List Store) : (Init.err stores).ret ≠ 0 := by
  show (-1 : Int) ≠ 0
  decide

section

variable {calloc : Nat → Option Nat} (packed : Bool) (n : Nat) (hdr u : List UInt8) (stores : List Store)

/-- What `initData` does with the bytes `u`. -/
theorem initData_list (hcalloc : CallocOk calloc) : ∃ r more,
    initData (readList packed) calloc u n hdr stores = some r ∧ r.stores = stores ++ more ∧
      (∀ w ∈ more, w.len ≤ w.size) ∧ (r.ret ≠ 0 → r.capn = Capn.zeroed) ∧
      (r.ret = 0 → ∃ sizes total, checkSizes (tableWords n hdr) 0 = some (sizes, total) ∧
        total ≤ u.length) := by
  cases hs : checkSizes (tableWords n hdr) 0 with
  | none =>
    exact ⟨_, [], initData_bad hs, (List.append_nil _).symm, by simp, fun _ => rfl,
      fun h => absurd h (Init.err_ret _)⟩
  | some st =>
    obtain ⟨sizes, total⟩ := st
    obtain ⟨block, hb, hle⟩ := hcalloc (total + sizeofSegment * n)
    by_cases hl : total ≤ u.length
    · refine ⟨_, _, initData_ok hs hb (readList_ok hl), rfl, ?_, fun h => absurd rfl h,
        fun _ => ⟨sizes, total, rfl, hl⟩⟩
      intro w hw
      rw [List.mem_singleton.mp hw]
      simp only [List.length_take]
      omega
    · refine ⟨_, _, initData_short hs hb (readList_short (Nat.not_le.mp hl)) (by decide), rfl, ?_,
        fun _ => rfl, fun h => absurd h (Init.err_ret _)⟩
      intro w hw
      rw [List.mem_singleton.mp hw]
      cases packed <;> simp only [ite_true, Bool.false_eq_true, ite_false, List.length_nil] <;> omega

/-- What `initTable` does with the bytes `u`: it stores the table, or what
there is of it. -/
theorem initTable_list (hcalloc : CallocOk calloc) : ∃ r more,
    initTable (readList packed) calloc u n stores = some r ∧
      r.stores = stores ++ ⟨4 * CAPN_MAX_SEGS,
        if tableSize n ≤ u.length then tableSize n else if packed then u.length else 0⟩ :: more ∧
      (∀ w ∈ more, w.len ≤ w.size) ∧ (r.ret ≠ 0 → r.capn = Capn.zeroed) ∧
      (r.ret = 0 → tableSize n ≤ u.length ∧ ∃ sizes total,
        checkSizes (tableWords n (u.take (tableSize n))) 0 = some (sizes, total) ∧
          total ≤ (u.drop (tableSize n)).length) := by
  by_cases hl : tableSize n ≤ u.length
  · rw [initTable_next (readList_ok hl), if_pos hl, List.length_take, Nat.min_eq_left hl]
    obtain ⟨r, more, hr, hs, hm, he, ho⟩ := initData_list packed n (u.take (tableSize n))
      (u.drop (tableSize n)) (stores ++ [⟨4 * CAPN_MAX_SEGS, tableSize n⟩]) hcalloc
    refine ⟨r, more, hr, ?_, hm, he, fun h => ⟨hl, ho h⟩⟩
    rw [hs, List.append_assoc]
    rfl
  · rw [initTable_short (readList_short (Nat.not_le.mp hl)) (by decide), if_neg hl]
    refine ⟨_, [], rfl, ?_, by simp, fun _ => rfl, fun h => absurd h (Init.err_ret _)⟩
    cases packed <;> rfl

/-- What `init_fp` does with the bytes `u`. -/
theorem initFp_list (hcalloc : CallocOk calloc) : ∃ r,
    initFp (readList packed) calloc u = some r ∧
      ((∀ w ∈ r.stores, w.len ≤ w.size) ↔ ¬ TableOverflows packed u) ∧
      (r.ret ≠ 0 → r.capn = Capn.zeroed) ∧
      (r.ret = 0 → 4 ≤ u.length ∧ le (u.take 4) ≤ CAPN_MAX_SEGS - 1 ∧
        tableSize (le (u.take 4) + 1) ≤ (u.drop 4).length ∧ ∃ sizes total,
        checkSizes (tableWords (le (u.take 4) + 1) ((u.drop 4).take (tableSize (le (u.take 4) + 1)))) 0 =
          some (sizes, total) ∧ total ≤ ((u.drop 4).drop (tableSize (le (u.take 4) + 1))).length) := by
  have h1024 : tableSize CAPN_MAX_SEGS = 4100 := rfl
  by_cases hl : 4 ≤ u.length
  · have hr := @readList_ok packed _ _ hl
    have h4 : (u.take 4).length = 4 := by rw [List.length_take]; omega
    by_cases hn : CAPN_MAX_SEGS - 1 < le (u.take 4)
    · refine ⟨_, initFp_count hr hn, ?_, fun _ => rfl, fun h => absurd h (Init.err_ret _)⟩
      refine iff_of_true ?_ ?_
      · intro w hw
        rw [List.mem_singleton.mp hw, h4]
      · rintro ⟨h, -⟩
        omega
    · rw [initFp_next hr hn, h4]
      obtain ⟨r, more, hr, hs, hm, he, ho⟩ := initTable_list packed
        (le (u.take 4) + 1) (u.drop 4) [⟨4, 4⟩] hcalloc
      refine ⟨r, hr, ?_, he, fun h => ⟨hl, by omega, ho h⟩⟩
      -- only the store of the table may be too long
      have hst : (∀ w ∈ r.stores, w.len ≤ w.size) ↔
          (if tableSize (le (u.take 4) + 1) ≤ (u.drop 4).length then tableSize (le (u.take 4) + 1)
            else if packed then (u.drop 4).length else 0) ≤ 4 * CAPN_MAX_SEGS := by
        rw [hs]
        simp only [List.cons_append, List.nil_append, List.forall_mem_cons, Nat.le_refl, true_and]
        exact ⟨fun h => h.1, fun h => ⟨h, hm⟩⟩
      rw [hst, TableOverflows]
      by_cases hmax : le (u.take 4) = CAPN_MAX_SEGS - 1
      · rw [hmax, show CAPN_MAX_SEGS - 1 + 1 = CAPN_MAX_SEGS from rfl, h1024]
        cases packed <;> simp only [CAPN_MAX_SEGS, ite_true, Bool.false_eq_true, ite_false, true_and] <;>
          split <;> omega
      · refine iff_of_true ?_ (fun h => hmax h.1)
        have htl : tableSize (le (u.take 4) + 1) ≤ 4 * CAPN_MAX_SEGS := by
          simp only [tableSize, CAPN_MAX_SEGS] at *
          omega
        cases packed <;> simp only [ite_true, Bool.false_eq_true, ite_false] <;> split <;> omega
  · refine ⟨_, initFp_short (readList_short (Nat.not_le.mp hl)) (by decide), ?_, fun _ => rfl,
      fun h => absurd h (Init.err_ret _)⟩
    refine iff_of_true ?_ ?_
    · intro w hw
      rw [List.mem_singleton.mp hw]
      cases packed <;> simp only [ite_true, Bool.false_eq_true, ite_false, List.length_nil] <;> omega
    · rintro ⟨-, h⟩
      rw [h1024, List.length_drop] at h
      cases packed <;> simp only [CAPN_MAX_SEGS, ite_true, Bool.false_eq_true, ite_false] at h <;> omega

end

/-! ## Frames -/

theorem Framable.size_lt {segs : List (List UInt8)} (h : Framable segs) :
    ∀ s ∈ segs, s.length / 8 < 2 ^ 32 := by
  intro s hs
  have := h.size s hs
  simp only [INT_MAX] at this
  omega

/-- The sizes of the segments of a frame, as the reader computes them. -/
theorem Framable.map_words {segs : List (List UInt8)} (h : Framable segs) :
    (segs.map (·.length / 8)).map (· * 8) = segs.map List.length := by
  rw [List.map_map]
  refine List.map_congr_left fun s hs => ?_
  have := h.words s hs
  simp only [Function.comp]
  omega

/-- The sizes of framable segments pass the check. -/
theorem Framable.checkSizes {segs : List (List UInt8)} (h : Framable segs) :
    checkSizes (segs.map (·.length / 8)) 0 = some (segs.map List.length, segs.flatten.length) := by
  refine (checkSizes_eq (Nat.zero_le _)).mpr ⟨h.map_words.symm, ?_, ?_, ?_⟩
  · rw [h.map_words, Nat.zero_add, List.length_flatten]
  · intro n hn
    obtain ⟨s, hs, rfl⟩ := List.mem_map.mp hn
    exact h.size s hs
  · have := h.total
    simp only [UINT32_MAX]
    omega

/-- **Frames are accepted**, and give their segments; what follows them is left. -/
theorem initFpLeft_frame {calloc : Nat → Option Nat} {packed : Bool} {segs : List (List UInt8)}
    {pad tail : List UInt8} (hcalloc : CallocOk calloc) (hf : Framable segs)
    (ht : (sizeTable segs ++ pad).length = tableSize segs.length) :
    ∃ stores, initFpLeft (readList packed) calloc (frame segs pad ++ tail) =
      some (⟨0, { capnInitMalloc with segs := carve (segs.map List.length) segs.flatten }, stores⟩, tail) := by
  have hpos := List.length_pos_iff.mpr hf.ne_nil
  have hcount := hf.count
  have h4 : (toLe 4 (segs.length - 1)).length = 4 := length_toLe 4 _
  have hu : frame segs pad ++ tail =
      toLe 4 (segs.length - 1) ++ ((sizeTable segs ++ pad) ++ (segs.flatten ++ tail)) := by
    simp only [frame, List.append_assoc]
  have hlt : segs.length - 1 < 256 ^ 4 := by
    simp only [CAPN_MAX_SEGS] at hcount
    omega
  have hle : le (toLe 4 (segs.length - 1)) = segs.length - 1 := by
    rw [le_toLe, Nat.mod_eq_of_lt hlt]
  have hr : readList packed (frame segs pad ++ tail) 4 = some (0, toLe 4 (segs.length - 1),
      (sizeTable segs ++ pad) ++ (segs.flatten ++ tail)) := by
    rw [hu, readList_ok (by rw [List.length_append]; omega), List.take_left' h4, List.drop_left' h4]
  have hr₂ : readList packed ((sizeTable segs ++ pad) ++ (segs.flatten ++ tail)) (tableSize segs.length) =
      some (0, sizeTable segs ++ pad, segs.flatten ++ tail) := by
    rw [readList_ok (by rw [List.length_append]; omega), List.take_left' ht, List.drop_left' ht]
  have hr₃ : readList packed (segs.flatten ++ tail) segs.flatten.length = some (0, segs.flatten, tail) := by
    rw [readList_ok (by rw [List.length_append]; omega), List.take_left, List.drop_left]
  obtain ⟨block, hblock, -⟩ := hcalloc (segs.flatten.length + sizeofSegment * segs.length)
  have hsegs : le (toLe 4 (segs.length - 1)) + 1 = segs.length := by omega
  have hn : ¬ CAPN_MAX_SEGS - 1 < le (toLe 4 (segs.length - 1)) := by
    rw [hle]
    simp only [CAPN_MAX_SEGS] at hcount ⊢
    omega
  have hs := hf.checkSizes
  rw [← tableWords_sizeTable hf.size_lt pad] at hs
  simp only [initFpLeft, hr, ne_eq, not_true, ite_false, hn, hsegs, initTableLeft, hr₂, initDataLeft, hs, hblock, hr₃,
    foldl_append]
  exact ⟨_, rfl⟩

/-- Frames are accepted, and give their segments. -/
theorem initFp_frame {calloc : Nat → Option Nat} {packed : Bool} {u : List UInt8}
    {segs : List (List UInt8)} (hcalloc : CallocOk calloc) (hf : Framable segs) (hb : BeginsFrame u segs) :
    ∃ stores, initFp (readList packed) calloc u =
      some ⟨0, { capnInitMalloc with segs := carve (segs.map List.length) segs.flatten }, stores⟩ := by
  obtain ⟨pad, tail, ht, rfl⟩ := hb
  obtain ⟨stores, h⟩ := @initFpLeft_frame _ packed _ _ tail hcalloc hf ht
  refine ⟨stores, ?_⟩
  rw [← initFpLeft_fst, h]
  rfl

/-- The bytes that pass all the checks of `init_fp` begin with a frame. -/
theorem beginsFrame_of_checks {u : List UInt8} {sizes : List Nat} {total : Nat} (h4 : 4 ≤ u.length)
    (hn : le (u.take 4) ≤ CAPN_MAX_SEGS - 1)
    (ht : tableSize (le (u.take 4) + 1) ≤ (u.drop 4).length)
    (hs : checkSizes (tableWords (le (u.take 4) + 1)
      ((u.drop 4).take (tableSize (le (u.take 4) + 1)))) 0 = some (sizes, total))
    (hd : total ≤ ((u.drop 4).drop (tableSize (le (u.take 4) + 1))).length) :
    ∃ segs, Framable segs ∧ BeginsFrame u segs := by
  have hl4 : (u.take 4).length = 4 := by rw [List.length_take]; omega
  have hcount := toLe_le (u.take 4)
  rw [hl4] at hcount
  generalize hn' : le (u.take 4) + 1 = n at *
  obtain ⟨hsz, htot, hall, hmax⟩ := (checkSizes_eq (Nat.zero_le _)).mp hs
  rw [Nat.zero_add, ← hsz] at htot
  have hlen : sizes.length = n := by rw [hsz, List.length_map, length_tableWords]
  -- the segments are the pieces of the data, their table is the table read
  have hml := map_length_pieces (by rw [← htot]; exact hd)
  have hfl := flatten_pieces sizes ((u.drop 4).drop (tableSize n))
  have htable : sizeTable (pieces sizes ((u.drop 4).drop (tableSize n))) =
      ((u.drop 4).take (tableSize n)).take (4 * n) := by
    have hle := four_mul_le_tableSize n
    rw [← flatMap_tableWords (by rw [List.length_take]; omega), sizeTable,
      ← List.flatMap_map List.length (fun k => toLe 4 (k / 8)), hml, hsz, List.flatMap_map]
    simp only [Nat.mul_div_cancel _ (show 0 < 8 by decide)]
  have hpl : (pieces sizes ((u.drop 4).drop (tableSize n))).length = n := by rw [length_pieces, hlen]
  generalize pieces sizes ((u.drop 4).drop (tableSize n)) = segs at hml hfl htable hpl
  have hmem : ∀ s ∈ segs, ∃ k ∈ tableWords n ((u.drop 4).take (tableSize n)), s.length = k * 8 := by
    intro s hs
    have : s.length ∈ sizes := hml ▸ List.mem_map_of_mem hs
    rw [hsz] at this
    obtain ⟨k, hk, e⟩ := List.mem_map.mp this
    exact ⟨k, hk, e.symm⟩
  refine ⟨segs, ⟨?_, ?_, ?_, ?_, ?_⟩, ((u.drop 4).take (tableSize n)).drop (4 * n),
    ((u.drop 4).drop (tableSize n)).drop total, ?_, ?_⟩
  · intro h
    rw [h, List.length_nil] at hpl
    omega
  · rw [hpl]
    simp only [CAPN_MAX_SEGS] at hn ⊢
    omega
  · intro s hs
    obtain ⟨k, -, hk⟩ := hmem s hs
    exact ⟨k, by omega⟩
  · intro s hs
    obtain ⟨k, hk, e⟩ := hmem s hs
    have := hall k hk
    omega
  · have hlf : segs.flatten.length ≤ total := by rw [hfl, ← htot, List.length_take]; omega
    simp only [UINT32_MAX] at hmax
    omega
  · rw [htable, List.take_append_drop, List.length_take, hpl]
    omega
  · rw [frame, htable, List.take_append_drop, hpl, ← hn', Nat.add_sub_cancel, hcount, hn', hfl, ← htot,
      List.append_assoc, List.take_append_drop, List.append_assoc, List.take_append_drop,
      List.take_append_drop]

/-- What is accepted begins with a frame, and the session has its segments. -/
theorem initFp_accepts {calloc : Nat → Option Nat} {packed : Bool} {u : List UInt8} {r : Init}
    (hcalloc : CallocOk calloc) (h : initFp (readList packed) calloc u = some r) (h0 : r.ret = 0) :
    ∃ segs, Framable segs ∧ BeginsFrame u segs ∧
      r.capn = { capnInitMalloc with segs := carve (segs.map List.length) segs.flatten } := by
  obtain ⟨r', h', -, -, hok⟩ := initFp_list packed u hcalloc
  cases h.symm.trans h'
  obtain ⟨h4, hn, ht, sizes, total, hs, hd⟩ := hok h0
  obtain ⟨segs, hf, hb⟩ := beginsFrame_of_checks h4 hn ht hs hd
  obtain ⟨stores, hi⟩ := @initFp_frame _ packed _ _ hcalloc hf hb
  cases h.symm.trans hi
  exact ⟨segs, hf, hb, rfl⟩

/-- The segments of an accepted session hold those of the frame. -/
theorem map_bytes_carve_flatten (segs : List (List UInt8)) :
    (carve (segs.map List.length) segs.flatten).map Segment.bytes = segs := by
  rw [map_bytes_carve (by rw [List.length_flatten]), pieces_flatten]

/-! ## `capn_init_mem` -/

/-- What `capn_init_mem` should do with the bytes `p`: return, with no store past
the end of a buffer, 0 exactly if the bytes begin with a frame, and a zeroed
session otherwise. -/
def InitsSafely (calloc : Nat → Option Nat) (p : List UInt8) (packed : Bool) : Prop :=
  ∃ r, InitsMem calloc p packed r ∧ (∀ w ∈ r.stores, w.len ≤ w.size) ∧
    (r.ret = 0 ↔ ∃ segs, Framable segs ∧ BeginsFrame (unpacked p packed) segs) ∧
    (r.ret ≠ 0 → r.capn = Capn.zeroed)

/-- Within the bytes that `init_fp` asks for, a raw byte of `p` is read with a
multiple of 2³² bytes left. -/
def InitJams (p : List UInt8) (packed : Bool) : Prop :=
  packed = true ∧ ∃ o n, AtRaw parsePlace 0 p o n ∧ o < demand (unpacked p packed) ∧ n % 2 ^ 32 = 0

theorem jamsIn_mem {p : List UInt8} {packed : Bool} :
    ({ nextIn := p, availOut := 0 } : Stream).JamsIn packed (demand (unpacked p packed)) ↔
      InitJams p packed := by
  simp [Stream.JamsIn, InitJams, Stream.AtPos, Stream.pre]

theorem InitsMem.unique {calloc : Nat → Option Nat} {p : List UInt8} {packed : Bool} {r r' : Init}
    (h : InitsMem calloc p packed r) (h' : InitsMem calloc p packed r') : r = r' := by
  obtain ⟨n, hn⟩ := h
  obtain ⟨m, hm⟩ := h'
  have e := (initFp_mono (fun z k q => (readFp_mono · (Nat.le_max_left n m))) hn).symm.trans
    (initFp_mono (fun z k q => (readFp_mono · (Nat.le_max_right n m))) hm)
  exact Option.some.inj e

/-- A buffer that is read is read like its unpacked bytes. -/
theorem InitsMem.list {calloc : Nat → Option Nat} {p : List UInt8} {packed : Bool} {r : Init}
    (hcalloc : CallocOk calloc) (h : InitsMem calloc p packed r) :
    initFp (readList packed) calloc (unpacked p packed) = some r := by
  have hj : ¬ ({ nextIn := p, availOut := 0 } : Stream).JamsIn packed (demand (unpacked p packed)) :=
    fun hj => initMem_jams hcalloc hj r h
  obtain ⟨r', hr', hl⟩ := initMem_ok hcalloc hj
  rwa [h.unique hr']

theorem InitsSafely.not_overflows {calloc : Nat → Option Nat} {p : List UInt8} {packed : Bool}
    (hcalloc : CallocOk calloc) (h : InitsSafely calloc p packed) :
    ¬ TableOverflows packed (unpacked p packed) := by
  obtain ⟨r, hr, hs, -⟩ := h
  obtain ⟨r', hl, hst, -⟩ := initFp_list packed (unpacked p packed) hcalloc
  have e := (hr.list hcalloc).symm.trans hl
  cases e
  exact hst.mp hs

/-- **`capn_init_mem` is safe and exact**, except on bytes that make it read a
table for 1024 segments into `hdr`, and on packed bytes on which the unpacker
jams. -/
theorem initsSafely_iff {calloc : Nat → Option Nat} {p : List UInt8} {packed : Bool}
    (hcalloc : CallocOk calloc) : InitsSafely calloc p packed ↔
      ¬ TableOverflows packed (unpacked p packed) ∧ ¬ InitJams p packed := by
  constructor
  · intro h
    refine ⟨h.not_overflows hcalloc, fun hj => ?_⟩
    obtain ⟨r, hr, -⟩ := h
    exact initMem_jams hcalloc (jamsIn_mem.mpr hj) r hr
  · rintro ⟨ho, hj⟩
    obtain ⟨r, hr, hl⟩ := initMem_ok hcalloc (fun h => hj (jamsIn_mem.mp h))
    obtain ⟨r', hl', hst, he, hok⟩ := initFp_list packed (unpacked p packed) hcalloc
    have e := hl.symm.trans hl'
    cases e
    refine ⟨r, hr, hst.mpr ho, ⟨fun h => ?_, ?_⟩, he⟩
    · obtain ⟨h4, hn, ht, sizes, total, hs, hd⟩ := hok h
      exact beginsFrame_of_checks h4 hn ht hs hd
    · rintro ⟨segs, hf, hb⟩
      obtain ⟨stores, h⟩ := @initFp_frame _ packed _ _ hcalloc hf hb
      rw [hl] at h
      cases h
      rfl

/-- A frame of one word. -/
theorem initsSafely_iff_word :
    InitsSafely some [0, 0, 0, 0, 1, 0, 0, 0, 1, 2, 3, 4, 5, 6, 7, 8] false ↔
      ¬ TableOverflows false (unpacked [0, 0, 0, 0, 1, 0, 0, 0, 1, 2, 3, 4, 5, 6, 7, 8] false) ∧
        ¬ InitJams [0, 0, 0, 0, 1, 0, 0, 0, 1, 2, 3, 4, 5, 6, 7, 8] false :=
  initsSafely_iff fun n => ⟨n, rfl, Nat.le_refl n⟩

/-- A frame of 1024 empty segments: its table is stored past the end of `hdr`. -/
theorem initsSafely_fails : ¬ InitsSafely some (0xFF :: 3 :: 0 :: 0 :: List.replicate 4100 0) false := by
  intro h
  refine h.not_overflows (fun n => ⟨n, rfl, Nat.le_refl n⟩) ⟨by decide, ?_⟩
  show tableSize CAPN_MAX_SEGS ≤ (List.replicate 4100 (0 : UInt8)).length
  rw [List.length_replicate]
  decide

end Capnproto

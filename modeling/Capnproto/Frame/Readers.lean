import Capnproto.Frame.Init

/-!
# Readers

`init_fp` does the same with two readers that read alike (`initFpLeft_like`), and
leaves their sources at the same place.
-/

namespace Capnproto

section

variable {σ σ' : Type} {read : Nat → σ → Nat → Option (Int × List UInt8 × σ)}
  {read' : σ' → Nat → Option (Int × List UInt8 × σ')} {R : σ → σ' → Prop} {calloc : Nat → Option Nat}

/-- With enough fuel, `read` does what `read'` does, from states related by `R`,
and to such states if it returns 0. -/
def ReadsLike (read : Nat → σ → Nat → Option (Int × List UInt8 × σ))
    (read' : σ' → Nat → Option (Int × List UInt8 × σ')) (R : σ → σ' → Prop) : Prop :=
  ∀ z u sz, R z u → sz < 2 ^ 32 → ∃ c c' bytes z' u' n, read' u sz = some (c', bytes, u') ∧
    (c = 0 ↔ c' = 0) ∧ (c = 0 → R z' u') ∧ ∀ fuel, n ≤ fuel → read fuel z sz = some (c, bytes, z')

/-- With enough fuel, `x` is what `y` is, and, with status 0, what is left of the
sources is related by `R`. -/
def FollowsLeft (R : σ → σ' → Prop) (x : Nat → Option (Init × σ)) (y : Option (Init × σ')) : Prop :=
  ∃ r z u n, y = some (r, u) ∧ (r.ret = 0 → R z u) ∧ ∀ fuel, n ≤ fuel → x fuel = some (r, z)

theorem initDataLeft_like (h : ReadsLike read read' R) {z : σ} {u : σ'} (hz : R z u) (n : Nat)
    (hdr : List UInt8) (stores : List Store) :
    FollowsLeft R (fun fuel => initDataLeft (read fuel) calloc z n hdr stores)
      (initDataLeft read' calloc u n hdr stores) := by
  cases hs : checkSizes (tableWords n hdr) 0 with
  | none =>
    exact ⟨.err stores, z, u, 0, by simp only [initDataLeft, hs], fun _ => hz,
      fun _ _ => by simp only [initDataLeft, hs]⟩
  | some st =>
    obtain ⟨sizes, total⟩ := st
    cases hb : calloc (total + sizeofSegment * n) with
    | none =>
      exact ⟨.err stores, z, u, 0, by simp only [initDataLeft, hs, hb], fun _ => hz,
        fun _ _ => by simp only [initDataLeft, hs, hb]⟩
    | some block =>
      obtain ⟨c, c', bytes, z', u', m, hr', hc, hz', hr⟩ := h z u total hz (checkSizes_lt hs)
      by_cases h0 : c = 0
      · refine ⟨_, z', u', m, by simp only [initDataLeft, hs, hb, hr', hc.mp h0]; rfl, fun _ => hz' h0, fun fuel hf => ?_⟩
        simp only [initDataLeft, hs, hb, hr fuel hf, h0]
        rfl
      · have h0' : c' ≠ 0 := fun e => h0 (hc.mpr e)
        refine ⟨.err (stores ++ [⟨block - sizeofSegment * n, bytes.length⟩]), z', u', m, ?_, fun e => absurd e (Init.err_ret _), fun fuel hf => ?_⟩
        · simp only [initDataLeft, hs, hb, hr', h0', ne_eq, not_false_iff, ite_true]
        · simp only [initDataLeft, hs, hb, hr fuel hf, h0, ne_eq, not_false_iff, ite_true]

theorem initTableLeft_like (h : ReadsLike read read' R) {z : σ} {u : σ'} (hz : R z u) {n : Nat}
    (hn : n ≤ CAPN_MAX_SEGS) (stores : List Store) :
    FollowsLeft R (fun fuel => initTableLeft (read fuel) calloc z n stores)
      (initTableLeft read' calloc u n stores) := by
  obtain ⟨c, c', bytes, z', u', m, hr', hc, hz', hr⟩ := h z u (tableSize n) hz (tableSize_lt hn)
  by_cases h0 : c = 0
  · obtain ⟨r, z'', u'', m', hy, hz'', hx⟩ := @initDataLeft_like _ _ _ _ _ calloc h _ _ (hz' h0) n bytes
      (stores ++ [⟨4 * CAPN_MAX_SEGS, bytes.length⟩])
    refine ⟨r, z'', u'', max m m', ?_, hz'', fun fuel hf => ?_⟩
    · simp only [initTableLeft, hr', hc.mp h0, ne_eq, not_true, ite_false]
      exact hy
    · simp only [initTableLeft, hr fuel (by omega), h0, ne_eq, not_true, ite_false]
      exact hx fuel (by omega)
  · have h0' : c' ≠ 0 := fun e => h0 (hc.mpr e)
    refine ⟨.err (stores ++ [⟨4 * CAPN_MAX_SEGS, bytes.length⟩]), z', u', m, ?_, fun e => absurd e (Init.err_ret _), fun fuel hf => ?_⟩
    · simp only [initTableLeft, hr', h0', ne_eq, not_false_iff, ite_true]
    · simp only [initTableLeft, hr fuel hf, h0, ne_eq, not_false_iff, ite_true]

/-- **`init_fp` does with a reader what it does with one that it reads like.** -/
theorem initFpLeft_like (h : ReadsLike read read' R) {z : σ} {u : σ'} (hz : R z u) :
    FollowsLeft R (fun fuel => initFpLeft (read fuel) calloc z) (initFpLeft read' calloc u) := by
  obtain ⟨c, c', bytes, z', u', m, hr', hc, hz', hr⟩ := h z u 4 hz (by decide)
  by_cases h0 : c = 0
  · by_cases hn : CAPN_MAX_SEGS - 1 < le bytes
    · refine ⟨.err [⟨4, bytes.length⟩], z', u', m, ?_, fun e => absurd e (Init.err_ret _), fun fuel hf => ?_⟩
      · simp only [initFpLeft, hr', hc.mp h0, ne_eq, not_true, ite_false, hn, ite_true]
      · simp only [initFpLeft, hr fuel hf, h0, ne_eq, not_true, ite_false, hn, ite_true]
    · have hmax : le bytes + 1 ≤ CAPN_MAX_SEGS := by
        simp only [CAPN_MAX_SEGS] at hn ⊢
        omega
      obtain ⟨r, z'', u'', m', hy, hz'', hx⟩ := @initTableLeft_like _ _ _ _ _ calloc h _ _ (hz' h0) _ hmax
        [⟨4, bytes.length⟩]
      refine ⟨r, z'', u'', max m m', ?_, hz'', fun fuel hf => ?_⟩
      · simp only [initFpLeft, hr', hc.mp h0, ne_eq, not_true, ite_false, hn]
        exact hy
      · simp only [initFpLeft, hr fuel (by omega), h0, ne_eq, not_true, ite_false, hn]
        exact hx fuel (by omega)
  · have h0' : c' ≠ 0 := fun e => h0 (hc.mpr e)
    refine ⟨.err [⟨4, bytes.length⟩], z', u', m, ?_, fun e => absurd e (Init.err_ret _), fun fuel hf => ?_⟩
    · simp only [initFpLeft, hr', h0', ne_eq, not_false_iff, ite_true]
    · simp only [initFpLeft, hr fuel hf, h0, ne_eq, not_false_iff, ite_true]

end

/-- A buffer that is not packed is read like its bytes. -/
theorem readFp_like : ReadsLike (fun fuel => readFp fuel false) (readList false) fun z u => z.nextIn = u := by
  rintro z u sz rfl -
  by_cases hl : sz ≤ z.nextIn.length
  · refine ⟨0, 0, z.nextIn.take sz, { z with nextIn := z.nextIn.drop sz }, z.nextIn.drop sz, 0, readList_ok hl, .rfl,
      fun _ => rfl, fun fuel _ => ?_⟩
    simp only [readFp, Bool.false_eq_true, ite_false, Nat.not_lt.mpr hl]
  · have hlt := Nat.not_le.mp hl
    refine ⟨-1, -1, [], z, [], 0, readList_short hlt, .rfl, fun e => absurd e (by decide), fun fuel _ => ?_⟩
    simp only [readFp, Bool.false_eq_true, ite_false, hlt, ite_true]

end Capnproto

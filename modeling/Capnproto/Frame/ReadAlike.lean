import Capnproto.Frame.Refill

/-!
# The three readers

`capn_init_mem`, `capn_init_fp` and `capn_init_fd` return the same of the same
bytes, in whatever pieces these arrive (`readersAgree_iff`), except that an
unpacked frame of empty segments is refused from a file: `fread` of one item of no
bytes reads none (`readersAgree_fails`).
-/

namespace Capnproto

/-- No store went past the end of its buffer. -/
def Init.Safe (r : Init) : Prop := ∀ w ∈ r.stores, w.len ≤ w.size

/-- The readers of the bytes `p` return, with no store past the end of a buffer:
the same status and the same session, from memory and, in whatever pieces it
delivers them, from a file and from a callback. -/
def ReadersAgree (calloc : Nat → Option Nat) (p : List UInt8) (packed : Bool) : Prop :=
  ∃ r, InitsMem calloc p packed r ∧ r.Safe ∧
    ∀ (τ : Type) (k : Source τ) (content : τ → List UInt8), k.Delivers content → ∀ t, content t = p → ∀ file,
      ∃ f, InitsFrom k file calloc t packed f ∧ f.1.Safe ∧ f.1.ret = r.ret ∧ f.1.capn = r.capn

/-- The bytes `u` hold a whole table, and all the sizes in it are 0. -/
def EmptyTable (u : List UInt8) : Prop :=
  4 ≤ u.length ∧ le (u.take 4) ≤ CAPN_MAX_SEGS - 1 ∧ tableSize (le (u.take 4) + 1) ≤ (u.drop 4).length ∧
    ∀ n ∈ tableWords (le (u.take 4) + 1) ((u.drop 4).take (tableSize (le (u.take 4) + 1))), n = 0

/-! ## The status -/

section

variable {σ : Type} {read : σ → Nat → Option (Int × List UInt8 × σ)} {calloc : Nat → Option Nat} {z : σ}

theorem initData_status {n : Nat} {hdr : List UInt8} {stores : List Store} {r : Init}
    (h : initData read calloc z n hdr stores = some r) : r.ret = 0 ∨ r.ret = -1 ∧ r.capn = Capn.zeroed := by
  rw [initData] at h
  split at h
  · cases h
    exact .inr ⟨rfl, rfl⟩
  split at h
  · cases h
    exact .inr ⟨rfl, rfl⟩
  split at h
  · cases h
  simp only at h
  split at h
  · cases h
    exact .inr ⟨rfl, rfl⟩
  · cases h
    exact .inl rfl

/-- `init_fp` returns 0, or -1 with a zeroed session. -/
theorem initFp_status {r : Init} (h : initFp read calloc z = some r) :
    r.ret = 0 ∨ r.ret = -1 ∧ r.capn = Capn.zeroed := by
  rw [initFp] at h
  split at h
  · cases h
  simp only at h
  split at h
  · cases h
    exact .inr ⟨rfl, rfl⟩
  split at h
  · cases h
    exact .inr ⟨rfl, rfl⟩
  rw [initTable] at h
  split at h
  · cases h
  simp only at h
  split at h
  · cases h
    exact .inr ⟨rfl, rfl⟩
  · exact initData_status h

end

section

variable {calloc : Nat → Option Nat} {u : List UInt8}

/-- What is read of the bytes `u` is the same whether what is short is stored or not. -/
theorem initFp_readList (hcalloc : CallocOk calloc) {a b : Bool} {r r' : Init}
    (h : initFp (readList a) calloc u = some r) (h' : initFp (readList b) calloc u = some r') :
    r'.ret = r.ret ∧ r'.capn = r.capn := by
  have hto : ∀ {a b : Bool} {r r' : Init}, initFp (readList a) calloc u = some r →
      initFp (readList b) calloc u = some r' → r.ret = 0 → r'.ret = r.ret ∧ r'.capn = r.capn := by
    intro a b r r' h h' h0
    obtain ⟨segs, hf, hb, hc⟩ := initFp_accepts hcalloc h h0
    obtain ⟨stores, hfr⟩ := @initFp_frame _ b _ _ hcalloc hf hb
    cases h'.symm.trans hfr
    exact ⟨h0.symm, hc.symm⟩
  rcases initFp_status h with h0 | ⟨h1, hz⟩
  · exact hto h h' h0
  rcases initFp_status h' with h0 | ⟨h1', hz'⟩
  · obtain ⟨e, ec⟩ := hto h' h h0
    exact ⟨e.symm, ec.symm⟩
  · exact ⟨h1'.trans h1.symm, hz'.trans hz.symm⟩

/-! ## Items of no bytes -/

theorem readItem_pos (item : Bool) (u : List UInt8) {sz : Nat} (h : sz ≠ 0) : readItem item u sz = readList true u sz :=
  if_neg fun hi => h hi.2

theorem tableSize_ne (n : Nat) : tableSize n ≠ 0 := Nat.succ_ne_zero _

/-- The sizes of a table add up to 0 if they are all 0. -/
theorem checkSizes_zero {ns : List Nat} : (∃ sizes, checkSizes ns 0 = some (sizes, 0)) ↔ ∀ n ∈ ns, n = 0 := by
  constructor
  · rintro ⟨sizes, h⟩ n hn
    obtain ⟨-, hsum, -⟩ := (checkSizes_eq (Nat.zero_le _)).mp h
    rw [Nat.zero_add] at hsum
    have h8 := List.sum_eq_zero_iff_forall_eq_nat.mp hsum.symm (n * 8) (List.mem_map_of_mem hn)
    omega
  · intro h
    refine ⟨_, (checkSizes_eq (Nat.zero_le _)).mpr ⟨rfl, ?_, fun n hn => by rw [h n hn]; exact Nat.zero_le _,
      Nat.zero_le _⟩⟩
    rw [Nat.zero_add]
    refine (List.sum_eq_zero_iff_forall_eq_nat.mpr fun m hm => ?_).symm
    obtain ⟨n, hn, rfl⟩ := List.mem_map.mp hm
    rw [h n hn]

/-- A file is read like a callback, unless all there is is an empty table. -/
theorem initFpLeft_item (h : ¬ EmptyTable u) (item : Bool) :
    initFpLeft (readItem item) calloc u = initFpLeft (readList true) calloc u := by
  simp only [initFpLeft, initTableLeft, readItem_pos item _ (show 4 ≠ 0 by decide), readItem_pos item _ (tableSize_ne _)]
  by_cases hl : 4 ≤ u.length
  swap
  · rw [readList_short (Nat.not_le.mp hl)]
    rfl
  rw [readList_ok hl]
  simp only [ne_eq, not_true, ite_false]
  by_cases hn : CAPN_MAX_SEGS - 1 < le (u.take 4)
  · rw [if_pos hn, if_pos hn]
  rw [if_neg hn, if_neg hn]
  by_cases ht : tableSize (le (u.take 4) + 1) ≤ (u.drop 4).length
  swap
  · rw [readList_short (Nat.not_le.mp ht)]
    rfl
  rw [readList_ok ht]
  simp only [not_true, ite_false, initDataLeft]
  cases hs : checkSizes (tableWords (le (u.take 4) + 1) ((u.drop 4).take (tableSize (le (u.take 4) + 1)))) 0 with
  | none => rfl
  | some st =>
    obtain ⟨sizes, total⟩ := st
    -- not all the sizes are 0, so some bytes are asked for
    have h0 : total ≠ 0 := by
      rintro rfl
      exact h ⟨hl, by omega, ht, checkSizes_zero.mp ⟨sizes, hs⟩⟩
    simp only [readItem_pos item _ h0]

theorem initFp_item (h : ¬ EmptyTable u) (item : Bool) :
    initFp (readItem item) calloc u = initFp (readList true) calloc u := by
  rw [← initFpLeft_fst, ← initFpLeft_fst, initFpLeft_item h]

/-- A file that holds an empty table is refused, while its bytes are accepted. -/
theorem initFp_emptyTable (hcalloc : CallocOk calloc) (h : EmptyTable u) :
    (∀ r, initFp (readItem true) calloc u = some r → r.ret = -1) ∧
      ∀ packed, ∃ r, initFp (readList packed) calloc u = some r ∧ r.ret = 0 := by
  obtain ⟨hl, hn, ht, hz⟩ := h
  obtain ⟨sizes, hs⟩ := checkSizes_zero.mpr hz
  have hn' : ¬ CAPN_MAX_SEGS - 1 < le (u.take 4) := Nat.not_lt.mpr hn
  obtain ⟨block, hb, -⟩ := hcalloc (0 + sizeofSegment * (le (u.take 4) + 1))
  refine ⟨fun r hr => ?_, fun packed => ?_⟩
  · have h4 : readItem true u 4 = some (0, u.take 4, u.drop 4) := by
      rw [readItem_pos true u (by decide), readList_ok hl]
    have htable := readItem_pos true (u.drop 4) (tableSize_ne (le (u.take 4) + 1))
    rw [readList_ok ht] at htable
    rw [initFp_next h4 hn', initTable_next htable, initData_short hs hb (if_pos ⟨rfl, rfl⟩) (by decide)] at hr
    cases hr
    rfl
  · have h := @initFp_next _ (readList packed) calloc _ _ _ (readList_ok hl) hn'
    rw [initTable_next (readList_ok ht), initData_ok hs hb (readList_ok (Nat.zero_le _))] at h
    exact ⟨_, h, rfl⟩

/-! ## The readers -/

theorem Init.safe_iff (hcalloc : CallocOk calloc) {packed : Bool} {r : Init}
    (h : initFp (readList packed) calloc u = some r) : r.Safe ↔ ¬ TableOverflows packed u := by
  obtain ⟨r', h', hs, -⟩ := initFp_list packed u hcalloc
  cases h.symm.trans h'
  exact hs

/-- A reader that stores what there is stores the most. -/
theorem TableOverflows.stored {packed : Bool} (h : TableOverflows packed u) : TableOverflows true u := by
  obtain ⟨hn, hl⟩ := h
  refine ⟨hn, ?_⟩
  have h1024 : tableSize CAPN_MAX_SEGS = 4100 := rfl
  rw [h1024] at hl
  simp only [CAPN_MAX_SEGS, ite_true] at hl ⊢
  split at hl <;> omega

/-- `capn_init_fp` and `capn_init_fd` return what `init_fp` does with the unpacked bytes. -/
theorem initsFrom_list {τ : Type} {k : Source τ} {content : τ → List UInt8} (hk : k.Delivers content) (t : τ)
    (file packed : Bool) : ∃ f, InitsFrom k file calloc t packed f ∧
      initFp (readItem (file && !packed)) calloc (unpacked (content t) packed) = some f.1 ∧
      ∀ f', InitsFrom k file calloc t packed f' → f' = f := by
  obtain ⟨r, z, t', u', hf, hl, -, huniq⟩ := @initsFrom_spec _ _ _ (fun _ => True) hk file
    ⟨fun _ _ => trivial, fun _ _ _ _ _ => trivial⟩ t trivial calloc packed
  exact ⟨(r, t'), hf, by rw [← initFpLeft_fst, hl]; rfl, huniq⟩

end

/-- A source that delivers all that is asked for. -/
def Source.all : Source (List UInt8) := ⟨fun t n => (t.drop n, .got (t.take n))⟩

theorem Source.all_delivers : Source.all.Delivers id := fun t n hn =>
  ⟨t.take n, t.drop n, rfl, List.length_take_le n t, (List.take_append_drop n t).symm, fun h => by
    have h0 := congrArg List.length h
    rw [List.length_take, List.length_nil] at h0
    exact List.length_eq_zero_iff.mp (show t.length = 0 by omega)⟩

/-- From a file, an empty table is refused. -/
theorem not_readersAgree {calloc : Nat → Option Nat} {p : List UInt8} (hcalloc : CallocOk calloc)
    (h : EmptyTable p) : (∀ f, InitsFp Source.all calloc p false f → f.1.ret = -1) ∧
      ¬ ReadersAgree calloc p false := by
  obtain ⟨hfile, hmem⟩ := initFp_emptyTable hcalloc h
  have hfp : ∀ f, InitsFp Source.all calloc p false f → f.1.ret = -1 := by
    intro f hf
    obtain ⟨f', -, hl, huniq⟩ := @initsFrom_list calloc _ _ _ Source.all_delivers p true false
    rw [huniq f hf]
    exact hfile _ hl
  refine ⟨hfp, ?_⟩
  rintro ⟨r, hr, -, hall⟩
  obtain ⟨f, hf, -, hret, -⟩ := (hall _ _ _ Source.all_delivers p rfl true)
  obtain ⟨r', hr', h0⟩ := hmem false
  cases (hr.list hcalloc).symm.trans hr'
  rw [hfp f hf, h0] at hret
  exact absurd hret (by decide)

/-- **The three readers agree**, except on bytes that make one of them store more
than `hdr` holds, on packed bytes in memory on which the unpacker jams, and on an
unpacked table of empty segments. -/
theorem readersAgree_iff {calloc : Nat → Option Nat} {p : List UInt8} {packed : Bool} (hcalloc : CallocOk calloc) :
    ReadersAgree calloc p packed ↔ ¬ TableOverflows true (unpacked p packed) ∧ ¬ InitJams p packed ∧
      ¬ (packed = false ∧ EmptyTable p) := by
  constructor
  · intro h
    refine ⟨fun ho => ?_, fun hj => ?_, ?_⟩
    · obtain ⟨r, -, -, hall⟩ := h
      obtain ⟨f, hf, hs, -⟩ := hall _ _ _ Source.all_delivers p rfl false
      obtain ⟨f', -, hl, huniq⟩ := @initsFrom_list calloc _ _ _ Source.all_delivers p false packed
      cases huniq f hf
      rw [Bool.false_and, readItem_false] at hl
      exact (Init.safe_iff hcalloc hl).mp hs ho
    · obtain ⟨r, hr, -⟩ := h
      exact initMem_jams hcalloc (jamsIn_mem.mpr hj) r hr
    · rintro ⟨rfl, he⟩
      exact (not_readersAgree hcalloc he).2 h
  · rintro ⟨ho, hj, he⟩
    obtain ⟨r, hr, hl⟩ := initMem_ok hcalloc (fun h => hj (jamsIn_mem.mp h))
    refine ⟨r, hr, (Init.safe_iff hcalloc hl).mpr fun h => ho h.stored, ?_⟩
    rintro τ k content hk t rfl file
    obtain ⟨f, hf, hlf, -⟩ := @initsFrom_list calloc _ _ _ hk t file packed
    have e : initFp (readItem (file && !packed)) calloc (unpacked (content t) packed) =
        initFp (readList true) calloc (unpacked (content t) packed) := by
      cases packed with
      | false => exact initFp_item (fun h => he ⟨rfl, h⟩) _
      | true => rw [Bool.not_true, Bool.and_false, readItem_false]
    rw [e] at hlf
    exact ⟨f, hf, (Init.safe_iff hcalloc hlf).mpr ho, initFp_readList hcalloc hl hlf⟩

theorem readersAgree_iff_word :
    ReadersAgree some [0, 0, 0, 0, 1, 0, 0, 0, 1, 2, 3, 4, 5, 6, 7, 8] false ↔
      ¬ TableOverflows true (unpacked [0, 0, 0, 0, 1, 0, 0, 0, 1, 2, 3, 4, 5, 6, 7, 8] false) ∧
      ¬ InitJams [0, 0, 0, 0, 1, 0, 0, 0, 1, 2, 3, 4, 5, 6, 7, 8] false ∧
      ¬ (false = false ∧ EmptyTable [0, 0, 0, 0, 1, 0, 0, 0, 1, 2, 3, 4, 5, 6, 7, 8]) :=
  readersAgree_iff fun n => ⟨n, rfl, Nat.le_refl n⟩

/-- A frame of one empty segment: `capn_init_mem` accepts it, `capn_init_fp` does not. -/
theorem readersAgree_fails : (∃ r, InitsMem some (List.replicate 8 0) false r ∧ r.ret = 0) ∧
    (∃ f, InitsFp Source.all some (List.replicate 8 0) false f ∧ f.1.ret = -1) ∧
    ¬ ReadersAgree some (List.replicate 8 0) false := by
  have he : EmptyTable (List.replicate 8 0) := by
    refine ⟨by decide, by decide, by decide, by decide⟩
  obtain ⟨hfp, hno⟩ := @not_readersAgree some _ (fun n => ⟨n, rfl, Nat.le_refl n⟩) he
  refine ⟨⟨_, ⟨0, rfl⟩, rfl⟩, ?_, hno⟩
  obtain ⟨f, hf, -⟩ := @initsFrom_list some _ _ _ Source.all_delivers (List.replicate 8 0) true false
  exact ⟨f, hf, hfp f hf⟩

end Capnproto

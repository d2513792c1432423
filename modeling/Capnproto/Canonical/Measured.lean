import Capnproto.Canonical.Canonicalize
import Capnproto.Pointer.Bounds

/-!
# Measuring and writing the canonical form

`canon_measure` and `canon_emit` walk the same objects: at each, the session and the table are the same, and what is in use
of the segment is the total so far (`InStep`). So the writer has room for all of it in a segment with the bytes that were
measured, and uses all of them (`emits_measured`).
-/

namespace Capnproto

/-- The writer is where the measuring pass was. -/
structure InStep (m : Measurement) (e : Emission) : Prop where
  capn : e.capn = m.capn
  vs : e.vs = m.vs
  len : e.ds.len = m.total

/-- Measuring adds to the total. -/
def Enlarges (measure : Measurement → Ptr → Except Capn Measurement) : Prop :=
  ∀ m p m', measure m p = .ok m' → m.total ≤ m'.total

/-- What is measured is written, into a segment with room for it: at a place in the bytes in use, up to the total. -/
def KeepsPace (measure : Measurement → Ptr → Except Capn Measurement)
    (emit : Emission → Int → Ptr → Except Emission Emission) : Prop :=
  ∀ (m : Measurement) (e : Emission) (loc : Int) (p : Ptr) (m' : Measurement), InStep m e → measure m p = .ok m' →
    m'.total ≤ e.ds.cap → m'.total ≤ INT_MAX → 0 ≤ loc → loc + 8 ≤ e.ds.len →
      ∃ e', emit e loc p = .ok e' ∧ InStep m' e' ∧ e'.ds.cap = e.ds.cap

theorem orFail_eq_ok {ε α β : Type} {left : ε} {o : Option α} {f : α → Except ε β} {b : β} :
    (orFail left o >>= f) = .ok b ↔ ∃ a, o = some a ∧ f a = .ok b := by
  cases o with
  | none => exact ⟨nofun, nofun⟩
  | some a => exact ⟨fun h => ⟨a, rfl, h⟩, fun ⟨a', h, h'⟩ => by cases h; exact h'⟩

theorem bind_eq_ok {ε α β : Type} {x : Except ε α} {f : α → Except ε β} {b : β} :
    (x >>= f) = .ok b ↔ ∃ a, x = .ok a ∧ f a = .ok b := by
  cases x with
  | error e => exact ⟨nofun, nofun⟩
  | ok a => exact ⟨fun h => ⟨a, rfl, h⟩, fun ⟨a', h, h'⟩ => by cases h; exact h'⟩

theorem canonAdd_eq {total add limit n : Nat} (h : canonAdd total add limit = some n) : n = total + add := by
  rw [canonAdd] at h
  split at h
  · cases h
  · exact (Option.some.inj h).symm

/-! ## Room in the segment -/

section

variable {ds : Segment} {n : Nat} {loc off : Int} {p : Ptr}

@[simp] theorem Segment.store_len (ds : Segment) (loc : Int) (bs : List UInt8) : (ds.store loc bs).len = ds.len := rfl

@[simp] theorem Segment.store_cap (ds : Segment) (loc : Int) (bs : List UInt8) : (ds.store loc bs).cap = ds.cap := rfl

theorem canonAlloc_room (h : ds.len + n ≤ ds.cap) : canonAlloc ds n = some (ds.len, { ds with len := ds.len + n }) := by
  rw [canonAlloc]
  by_cases hn : n = 0
  · rw [if_pos hn, hn]
    rfl
  · rw [if_neg hn, if_neg (by omega)]

/-- Within 2³¹ bytes every offset fits. -/
theorem writeTag_near (h1 : -8 ≤ off) (h2 : off ≤ INT_MAX) :
    ∃ ds', ds.writeTag loc p off = some ds' ∧ ds'.len = ds.len ∧ ds'.cap = ds.cap := by
  have hfit : ¬ (off.tdiv 8 < CAPN_PTR_OFF_MIN_WORDS ∨ CAPN_PTR_OFF_MAX_WORDS < off.tdiv 8) := by
    simp only [CAPN_PTR_OFF_MIN_WORDS, CAPN_PTR_OFF_MAX_WORDS]
    rw [INT_MAX] at h2
    rcases Int.le_total 0 off with h0 | h0
    · rw [Int.tdiv_eq_ediv_of_nonneg h0]
      omega
    · rw [← Int.neg_neg off, Int.neg_tdiv, Int.tdiv_eq_ediv_of_nonneg (by omega)]
      omega
  rw [Segment.writeTag, ptrTag]
  split
  · exact ⟨_, rfl, rfl, rfl⟩
  · simp only [if_neg hfit]
    exact ⟨_, rfl, rfl, rfl⟩

/-- An object that there is room for is put at the end, in reach of its pointer. -/
theorem alloc_tagged (hroom : ds.len + n ≤ ds.cap) (hmax : ds.len ≤ INT_MAX) (h0 : 0 ≤ loc) (h8 : loc + 8 ≤ ds.len) :
    canonAlloc ds n = some (ds.len, { ds with len := ds.len + n }) ∧
      ∃ ds', { ds with len := ds.len + n }.writeTag loc p (ds.len - loc - 8) = some ds' ∧ ds'.len = ds.len + n ∧
        ds'.cap = ds.cap :=
  ⟨canonAlloc_room hroom, writeTag_near (by omega) (by omega)⟩

end

/-! ## Children -/

theorem measureChildren_adds {measure : Measurement → Ptr → Except Capn Measurement} (hm : Enlarges measure) {rem : Nat}
    {s : Option Nat} {ds : List Addr} {m m' : Measurement} (h : measureChildren measure rem s ds m = .ok m') :
    m.total ≤ m'.total := by
  induction ds generalizing m with
  | nil =>
    cases h
    exact Nat.le_refl _
  | cons d ds ih =>
    rw [measureChildren] at h
    obtain ⟨⟨c, ch⟩, -, h⟩ := bind_eq_ok.mp h
    obtain ⟨m₁, h₁, h⟩ := bind_eq_ok.mp h
    exact Nat.le_trans (hm { m with capn := c } ch m₁ h₁) (ih h)

/-- The children of an object, each at a place of its copy. -/
theorem emitChildren_writes {measure : Measurement → Ptr → Except Capn Measurement}
    {emit : Emission → Int → Ptr → Except Emission Emission} (hm : Enlarges measure) (hw : KeepsPace measure emit) {rem : Nat}
    {s : Option Nat} {ws : List (Addr × Int)} {m m' : Measurement} {e : Emission} (hs : InStep m e)
    (h : measureChildren measure rem s (ws.map Prod.fst) m = .ok m') (hcap : m'.total ≤ e.ds.cap)
    (hmax : m'.total ≤ INT_MAX) (hloc : ∀ w ∈ ws, 0 ≤ w.2 ∧ w.2 + 8 ≤ e.ds.len) :
    ∃ e', emitChildren emit rem s ws e = .ok e' ∧ InStep m' e' ∧ e'.ds.cap = e.ds.cap := by
  induction ws generalizing m e with
  | nil =>
    cases h
    exact ⟨e, rfl, hs, rfl⟩
  | cons w ws ih =>
    obtain ⟨d, loc⟩ := w
    rw [List.map_cons, measureChildren] at h
    obtain ⟨⟨c, ch⟩, hload, h⟩ := bind_eq_ok.mp h
    obtain ⟨m₁, h₁, h⟩ := bind_eq_ok.mp h
    have hle := measureChildren_adds hm h
    obtain ⟨h0, h8⟩ := hloc _ List.mem_cons_self
    obtain ⟨e₁, he₁, hs₁, hc₁⟩ := hw { m with capn := c } { e with capn := c } loc ch m₁ ⟨rfl, hs.vs, hs.len⟩ h₁
      (by show m₁.total ≤ e.ds.cap; omega) (by omega) h0 h8
    have hlen : e.ds.len ≤ e₁.ds.len := by
      have hadd : m.total ≤ m₁.total := hm { m with capn := c } ch m₁ h₁
      rw [hs.len, hs₁.len]
      exact hadd
    have hc₁ : e₁.ds.cap = e.ds.cap := hc₁
    obtain ⟨e', he', hs', hc'⟩ := ih hs₁ h (by omega) fun w hw => by
      have := hloc w (List.mem_cons_of_mem _ hw)
      omega
    refine ⟨e', ?_, hs', hc'.trans hc₁⟩
    rw [emitChildren, hs.capn, hload]
    exact bind_eq_ok.mpr ⟨e₁, he₁, he'⟩

/-! ## Objects -/

section

variable {measure : Measurement → Ptr → Except Capn Measurement} {emit : Emission → Int → Ptr → Except Emission Emission}
  {rem : Nat} {m m' : Measurement} {e : Emission} {loc : Int} {p : Ptr} {data : Addr}

/-- An object of `add` bytes is put at the end, and its children after it. -/
theorem emitChildren_at (hm : Enlarges measure) (hw : KeepsPace measure emit) (hs : InStep m e) {add : Nat}
    {ws : List (Addr × Int)} {ds : Segment} (hlen : ds.len = e.ds.len + add) (hdcap : ds.cap = e.ds.cap)
    (h : measureChildren measure rem p.seg (ws.map Prod.fst) { m with total := m.total + add } = .ok m')
    (hcap : m'.total ≤ e.ds.cap) (hmax : m'.total ≤ INT_MAX) (hloc : ∀ w ∈ ws, 0 ≤ w.2 ∧ w.2 + 8 ≤ ds.len) :
    ∃ e', emitChildren emit rem p.seg ws { e with ds := ds } = .ok e' ∧ InStep m' e' ∧ e'.ds.cap = e.ds.cap := by
  have hs' : InStep { m with total := m.total + add } { e with ds := ds } :=
    ⟨hs.capn, hs.vs, by show ds.len = m.total + add; rw [hlen, hs.len]⟩
  obtain ⟨e', he', hs', hc'⟩ := emitChildren_writes hm hw hs' h (by show m'.total ≤ ds.cap; omega) hmax hloc
  exact ⟨e', he', hs', hc'.trans hdcap⟩

/-- The words of an object are those its children are read from. -/
theorem words_fst {n : Nat} {off : Nat} {place : Nat → Int} :
    ((List.range n).map fun i => (data.add (off + 8 * i : Nat), place i)).map Prod.fst = wordsAt (data.add off) n := by
  rw [List.map_map, wordsAt]
  refine List.map_congr_left fun i _ => ?_
  simp only [Function.comp_apply, Addr.add, Addr.mk.injEq, true_and]
  omega

theorem emitStruct_writes (hm : Enlarges measure) (hw : KeepsPace measure emit) (hs : InStep m e) {add : Nat} {words : List Addr}
    (hp : p.type = .STRUCT) (ho : measureObject m.capn p data = some (add, words))
    (h : measureChildren measure rem p.seg words { m with total := m.total + add } = .ok m')
    (hcap : m'.total ≤ e.ds.cap) (hmax : m'.total ≤ INT_MAX) (h0 : 0 ≤ loc) (h8 : loc + 8 ≤ e.ds.len) :
    ∃ e', emitStruct emit rem e loc p data = .ok e' ∧ InStep m' e' ∧ e'.ds.cap = e.ds.cap := by
  have hle : m.total + add ≤ m'.total := measureChildren_adds hm h
  simp only [measureObject, hp, Option.some.injEq, Prod.mk.injEq] at ho
  obtain ⟨rfl, rfl⟩ := ho
  obtain ⟨c, vs, dst⟩ := e
  obtain ⟨rfl, rfl, hlen⟩ := hs
  simp only at hlen hcap h8
  rw [emitStruct]
  generalize truncDataWords m.capn data p.datasz = dw at h hle ⊢
  generalize truncPtrWords m.capn data p.datasz p.ptrs = pw at h hle ⊢
  by_cases hz : dw = 0 ∧ pw = 0
  · obtain ⟨rfl, rfl⟩ := hz
    cases h
    obtain ⟨ds, ht, hl, hc⟩ := @writeTag_near dst loc (-8) { p with datasz := 0, ptrs := 0 } (by omega)
      (by rw [INT_MAX]; omega)
    simp only [and_self, if_true, ht]
    exact ⟨_, rfl, ⟨rfl, rfl, hl.trans hlen⟩, hc⟩
  · simp only [if_neg hz]
    obtain ⟨ha, ds, ht, hl, hc⟩ := @alloc_tagged dst (dw * 8 + pw * 8) loc { p with datasz := dw * 8, ptrs := pw }
      (by omega) (by omega) h0 h8
    simp only [ha, orFail, Except.bind, bind, ht]
    have hl' : (if dw ≠ 0 then ds.store dst.len (m.capn.read data (dw * 8)) else ds).len
        = dst.len + (dw * 8 + pw * 8) := by
      split
      · exact hl
      · exact hl
    refine @emitChildren_at _ _ _ _ _ ⟨m.capn, m.vs, dst⟩ _ hm hw ⟨rfl, rfl, hlen⟩ _ _ _ hl' ?_ ?_ hcap hmax fun w hmem => ?_
    · split
      · exact hc
      · exact hc
    · rw [words_fst]
      exact h
    · obtain ⟨i, hi, rfl⟩ := List.mem_map.mp hmem
      rw [List.mem_range] at hi
      rw [hl']
      simp only
      omega

theorem emitPtrList_writes (hm : Enlarges measure) (hw : KeepsPace measure emit) (hs : InStep m e) {add : Nat}
    {words : List Addr} (hp : p.type = .PTR_LIST) (ho : measureObject m.capn p data = some (add, words))
    (h : measureChildren measure rem p.seg words { m with total := m.total + add } = .ok m')
    (hcap : m'.total ≤ e.ds.cap) (hmax : m'.total ≤ INT_MAX) (h0 : 0 ≤ loc) (h8 : loc + 8 ≤ e.ds.len) :
    ∃ e', emitPtrList emit rem e loc p data = .ok e' ∧ InStep m' e' ∧ e'.ds.cap = e.ds.cap := by
  have hle : m.total + add ≤ m'.total := measureChildren_adds hm h
  simp only [measureObject, hp] at ho
  obtain ⟨n, hn, ho⟩ := Option.bind_eq_some_iff.mp ho
  cases ho
  have hlen := hs.len
  obtain ⟨ha, ds, ht, hl, hc⟩ := @alloc_tagged e.ds add loc p (by omega) (by omega) h0 h8
  rw [emitPtrList]
  simp only [hn, ha, orFail, Except.bind, bind, ht]
  refine emitChildren_at hm hw hs hl hc ?_ hcap hmax fun w hmem => ?_
  · have hfst := @words_fst data p.len.toNat 0 fun i => ((e.ds.len + 8 * i : Nat) : Int)
    simp only [Nat.zero_add] at hfst
    rw [hfst, show data.add (0 : Nat) = data by simp [Addr.add]]
    exact h
  · obtain ⟨i, hi, rfl⟩ := List.mem_map.mp hmem
    rw [List.mem_range] at hi
    have := mulSize_eq hn
    rw [hl]
    simp only
    omega

theorem emitBitList_writes (hs : InStep m e) {add : Nat} {words : List Addr} (hp : p.type = .BIT_LIST)
    (ho : measureObject m.capn p data = some (add, words))
    (h : measureChildren measure rem p.seg words { m with total := m.total + add } = .ok m')
    (hcap : m'.total ≤ e.ds.cap) (hmax : m'.total ≤ INT_MAX) (h0 : 0 ≤ loc) (h8 : loc + 8 ≤ e.ds.len) :
    ∃ e', emitBitList e loc p data = .ok e' ∧ InStep m' e' ∧ e'.ds.cap = e.ds.cap := by
  simp only [measureObject, hp] at ho
  obtain ⟨n, hn, ho⟩ := Option.bind_eq_some_iff.mp ho
  cases ho
  cases h
  simp only at hcap hmax
  have hlen := hs.len
  obtain ⟨ha, ds, ht, hl, hc⟩ := @alloc_tagged e.ds add loc p (by omega) (by omega) h0 h8
  rw [emitBitList]
  simp only [hn, ha, orFail, Except.bind, bind, ht]
  refine ⟨_, rfl, ⟨hs.capn, hs.vs, ?_⟩, ?_⟩
  · rw [← hlen, ← hl]
    simp only [apply_ite Segment.len, Segment.store_len, ite_self]
  · simp only [apply_ite Segment.cap, Segment.store_cap, ite_self, hc]

theorem emitList_writes (hs : InStep m e) {add : Nat} {words : List Addr} (hp : p.type = .LIST)
    (hcl : p.isCompositeList = false) (ho : measureObject m.capn p data = some (add, words))
    (h : measureChildren measure rem p.seg words { m with total := m.total + add } = .ok m')
    (hcap : m'.total ≤ e.ds.cap) (hmax : m'.total ≤ INT_MAX) (h0 : 0 ≤ loc) (h8 : loc + 8 ≤ e.ds.len) :
    ∃ e', emitList e loc p data = .ok e' ∧ InStep m' e' ∧ e'.ds.cap = e.ds.cap := by
  obtain ⟨nbytes, hnb, hadd, rfl⟩ : ∃ nbytes, (if p.datasz = 0 ∨ p.len ≤ 0 then some 0 else mulSize p.len.toNat p.datasz)
      = some nbytes ∧ pad8 nbytes = some add ∧ words = [] := by
    simp only [measureObject, hp, hcl, Bool.false_eq_true, if_false] at ho
    split at ho
    · next hz =>
      cases ho
      exact ⟨0, if_pos hz, rfl, rfl⟩
    · next hz =>
      obtain ⟨nbytes, hnb, ho⟩ := Option.bind_eq_some_iff.mp ho
      obtain ⟨n, hn, ho⟩ := Option.bind_eq_some_iff.mp ho
      cases ho
      exact ⟨nbytes, by rw [if_neg hz, hnb], hn, rfl⟩
  cases h
  simp only at hcap hmax
  have hlen := hs.len
  obtain ⟨ha, ds, ht, hl, hc⟩ := @alloc_tagged e.ds add loc p (by omega) (by omega) h0 h8
  rw [emitList]
  simp only [hnb, hadd, ha, orFail, Except.bind, bind, ht]
  refine ⟨_, rfl, ⟨hs.capn, hs.vs, ?_⟩, ?_⟩
  · rw [← hlen, ← hl]
    simp only [apply_ite Segment.len, Segment.store_len, ite_self]
  · simp only [apply_ite Segment.cap, Segment.store_cap, ite_self, hc]

/-- The bytes of the elements are stored into what is in use. -/
theorem foldl_store {ι : Type} {f : Segment → ι → Segment} (hf : ∀ ds i, (f ds i).len = ds.len ∧ (f ds i).cap = ds.cap)
    (is : List ι) (ds : Segment) : (is.foldl f ds).len = ds.len ∧ (is.foldl f ds).cap = ds.cap := by
  induction is generalizing ds with
  | nil => exact ⟨rfl, rfl⟩
  | cons i is ih =>
    obtain ⟨hl, hc⟩ := hf ds i
    obtain ⟨hl', hc'⟩ := ih (f ds i)
    exact ⟨hl'.trans hl, hc'.trans hc⟩

/-- The place of a pointer of an element, in a list of elements of `dw` and `pw` words. -/
theorem element_place {n dw pw i j : Nat} (hi : i < n) (hj : j < pw) :
    i * (dw * 8 + pw * 8) + dw * 8 + 8 * j + 8 ≤ n * (dw + pw) * 8 := by
  have := Nat.mul_le_mul_right (dw * 8 + pw * 8) hi
  rw [Nat.mul_assoc, Nat.add_mul dw]
  rw [Nat.succ_mul] at this
  omega

theorem emitComposite_writes (hm : Enlarges measure) (hw : KeepsPace measure emit) (hs : InStep m e) {add : Nat}
    {words : List Addr} (hp : p.type = .LIST) (hcl : p.isCompositeList = true)
    (ho : measureObject m.capn p data = some (add, words))
    (h : measureChildren measure rem p.seg words { m with total := m.total + add } = .ok m')
    (hcap : m'.total ≤ e.ds.cap) (hmax : m'.total ≤ INT_MAX) (h0 : 0 ≤ loc) (h8 : loc + 8 ≤ e.ds.len) :
    ∃ e', emitComposite emit rem e loc p data = .ok e' ∧ InStep m' e' ∧ e'.ds.cap = e.ds.cap := by
  have hle : m.total + add ≤ m'.total := measureChildren_adds hm h
  simp only [measureObject, hp, hcl, if_true] at ho
  obtain ⟨c, vs, dst⟩ := e
  obtain ⟨rfl, rfl, hlen⟩ := hs
  simp only at hlen hcap h8
  rw [emitComposite]
  generalize truncComposite m.capn data p = shape at ho ⊢
  obtain ⟨dw, pw⟩ := shape
  simp only at ho ⊢
  obtain ⟨n, hn, ho⟩ := Option.bind_eq_some_iff.mp ho
  obtain ⟨b, hb, ho⟩ := Option.bind_eq_some_iff.mp ho
  split at ho
  · cases ho
  next hfit =>
  cases ho
  have hsize := mulSize_eq hn
  have hbytes := mulSize_eq hb
  rw [hsize] at hbytes
  obtain ⟨ha, ds, ht, hl, hc⟩ := @alloc_tagged dst (b + 8) loc { p with datasz := dw * 8, ptrs := pw } (by omega)
    (by omega) h0 h8
  simp only [hn, hb, ha, orFail, Except.bind, bind, ht, if_neg hfit]
  have hstore : ∀ (ds : Segment) (i : Nat), (if dw ≠ 0 then
      ds.store (dst.len + 8 + i * (dw * 8 + pw * 8) : Nat) (m.capn.read (data.add (i * p.stride : Nat)) (dw * 8))
      else ds).len = ds.len ∧ (if dw ≠ 0 then
      ds.store (dst.len + 8 + i * (dw * 8 + pw * 8) : Nat) (m.capn.read (data.add (i * p.stride : Nat)) (dw * 8))
      else ds).cap = ds.cap := fun ds i => by
    split
    · exact ⟨rfl, rfl⟩
    · exact ⟨rfl, rfl⟩
  obtain ⟨hfl, hfc⟩ := foldl_store hstore (List.range p.len.toNat)
    (ds.store dst.len (toLe 8 (STRUCT_PTR + p.len.toNat * 4 + dw * 2 ^ 32 + pw * 2 ^ 48)))
  refine @emitChildren_at _ _ _ _ _ ⟨m.capn, m.vs, dst⟩ _ hm hw ⟨rfl, rfl, hlen⟩ _ _ _ (hfl.trans hl) (hfc.trans hc) ?_
    hcap hmax fun w hmem => ?_
  · rw [List.map_flatMap]
    simp only [words_fst]
    exact h
  · obtain ⟨i, hi, hmem⟩ := List.mem_flatMap.mp hmem
    obtain ⟨j, hj, rfl⟩ := List.mem_map.mp hmem
    rw [List.mem_range] at hi hj
    have := @element_place _ dw _ _ _ hi hj
    rw [hfl.trans hl]
    simp only
    omega

theorem emitObject_writes (hm : Enlarges measure) (hw : KeepsPace measure emit) (hs : InStep m e) {add : Nat} {words : List Addr}
    (ho : measureObject m.capn p data = some (add, words))
    (h : measureChildren measure rem p.seg words { m with total := m.total + add } = .ok m')
    (hcap : m'.total ≤ e.ds.cap) (hmax : m'.total ≤ INT_MAX) (h0 : 0 ≤ loc) (h8 : loc + 8 ≤ e.ds.len) :
    ∃ e', emitObject emit rem e loc p data = .ok e' ∧ InStep m' e' ∧ e'.ds.cap = e.ds.cap := by
  rw [emitObject]
  cases hp : p.type with
  | STRUCT => exact emitStruct_writes hm hw hs hp ho h hcap hmax h0 h8
  | PTR_LIST => exact emitPtrList_writes hm hw hs hp ho h hcap hmax h0 h8
  | BIT_LIST => exact emitBitList_writes hs hp ho h hcap hmax h0 h8
  | LIST =>
    cases hcl : p.isCompositeList with
    | true => exact emitComposite_writes hm hw hs hp hcl ho h hcap hmax h0 h8
    | false => exact emitList_writes hs hp hcl ho h hcap hmax h0 h8
  | NULL | INTERFACE | FAR_POINTER => simp [measureObject, hp] at ho

end

/-! ## The passes -/

section

variable {vhash : VKey → Nat} {alloc alloc' : VAlloc} {limit : Nat}

theorem vsetRoom_mem {vs vs' : VSet} (hmem : ∀ n, alloc.slots n = true → alloc'.slots n = true)
    (h : vsetRoom vhash alloc vs = some vs') : vsetRoom vhash alloc' vs = some vs' := by
  rw [vsetRoom, vsetGrow] at h ⊢
  split
  · next hgrow =>
    rw [if_pos hgrow] at h
    split at h
    · next hslots =>
      rw [if_pos (hmem _ hslots), h]
    · cases h
  · next hgrow =>
    rwa [if_neg hgrow] at h

/-- Where there was memory for the table, a pass with no less memory finds the object in the same state. -/
theorem vsetReenter_mem {vs : VSet} {p : Ptr} (hmem : ∀ n, alloc.slots n = true → alloc'.slots n = true)
    (h : 0 ≤ (vsetReenter vhash alloc vs p).1) : vsetReenter vhash alloc' vs p = vsetReenter vhash alloc vs p := by
  rw [vsetReenter] at h
  rw [vsetReenter, vsetReenter]
  by_cases hi : p.type = .INTERFACE
  · rw [if_pos hi, if_pos hi]
  rw [if_neg hi] at h ⊢
  rw [if_neg hi]
  cases hk : vkey p with
  | none => rfl
  | some key =>
    simp only [hk] at h ⊢
    cases hr : vsetRoom vhash alloc vs with
    | none => simp [hr] at h
    | some vs' => rw [vsetRoom_mem hmem hr]

variable {measure : Measurement → Ptr → Except Capn Measurement} {rem : Nat} {m m' : Measurement} {p : Ptr}

/-- What a measured pointer is: none to an object, one to an object that is skipped, or one that adds its bytes and then
its children. -/
theorem canonMeasureWith_ok (h : canonMeasureWith vhash alloc limit measure rem m p = .ok m') :
    ((p.type = .NULL ∨ p.type = .INTERFACE) ∧ m' = m) ∨
    (¬ (p.type = .NULL ∨ p.type = .INTERFACE) ∧ ∃ vs, vsetReenter vhash alloc m.vs p = (2, vs) ∧ m' = { m with vs := vs }) ∨
    (¬ (p.type = .NULL ∨ p.type = .INTERFACE) ∧ ∃ ent vs data add words m₁, vsetReenter vhash alloc m.vs p = (ent, vs) ∧
      0 ≤ ent ∧ ent ≠ 2 ∧ p.data = some data ∧ measureObject m.capn p data = some (add, words) ∧
      measureChildren measure rem p.seg words { m with vs := vs, total := m.total + add } = .ok m₁ ∧
      m' = { m₁ with vs := vsetLeave vhash m₁.vs p }) := by
  rw [canonMeasureWith] at h
  split at h
  · next hp =>
    exact .inl ⟨hp, (Except.ok.inj h).symm⟩
  next hp =>
  refine .inr ?_
  generalize vsetReenter vhash alloc m.vs p = entered at h ⊢
  obtain ⟨ent, vs⟩ := entered
  simp only at h
  split at h
  · cases h
  next hent =>
  split at h
  · next h2 =>
    exact .inl ⟨hp, vs, by rw [h2], (Except.ok.inj h).symm⟩
  next h2 =>
  obtain ⟨data, hd, h⟩ := orFail_eq_ok.mp h
  obtain ⟨⟨add, words⟩, ho, h⟩ := orFail_eq_ok.mp h
  obtain ⟨total, ht, h⟩ := orFail_eq_ok.mp h
  obtain ⟨m₁, hc, h⟩ := bind_eq_ok.mp h
  have htotal : total = m.total + add := by
    split at ht
    · next hz =>
      rw [show add = 0 from hz.2]
      exact (Option.some.inj ht).symm
    · exact canonAdd_eq ht
  rw [htotal] at hc
  exact .inr ⟨hp, ent, vs, data, add, words, m₁, rfl, by omega, h2, hd, ho, hc, (Except.ok.inj h).symm⟩

theorem canonMeasureWith_adds (hm : Enlarges measure) : Enlarges (canonMeasureWith vhash alloc limit measure rem) := by
  intro m p m' h
  obtain ⟨-, rfl⟩ | ⟨-, vs, -, rfl⟩ | ⟨-, ent, vs, data, add, words, m₁, -, -, -, -, -, hc, rfl⟩ := canonMeasureWith_ok h
  · exact Nat.le_refl _
  · exact Nat.le_refl _
  · have hle : m.total + add ≤ m₁.total := measureChildren_adds hm hc
    show m.total ≤ m₁.total
    omega

theorem canonMeasure_adds (rem : Nat) : Enlarges (canonMeasure vhash alloc limit rem) := by
  induction rem with
  | zero =>
    rw [canonMeasure]
    exact canonMeasureWith_adds fun _ _ _ h => nomatch h
  | succ rem ih =>
    rw [canonMeasure]
    exact canonMeasureWith_adds ih

theorem canonEmitWith_writes {emit : Emission → Int → Ptr → Except Emission Emission}
    (hmem : ∀ n, alloc.slots n = true → alloc'.slots n = true) (hm : Enlarges measure) (hw : KeepsPace measure emit) :
    KeepsPace (canonMeasureWith vhash alloc limit measure rem) (canonEmitWith vhash alloc' emit rem) := by
  intro m e loc p m' hs h hcap hmax h0 h8
  rw [canonEmitWith]
  obtain ⟨hp, rfl⟩ | ⟨hp, vs, hent, rfl⟩ | ⟨hp, ent, vs, data, add, words, m₁, hent, hge, hne, hd, ho, hc, rfl⟩ :=
    canonMeasureWith_ok h
  · rcases hp with hp | hp
    · rw [if_pos hp]
      exact ⟨_, rfl, ⟨hs.capn, hs.vs, hs.len⟩, rfl⟩
    · obtain ⟨ds, ht, hl, hdc⟩ := @writeTag_near e.ds loc 0 p (by omega) (by rw [INT_MAX]; omega)
      rw [if_neg (by simp [hp]), if_pos hp, ht]
      exact ⟨_, rfl, ⟨hs.capn, hs.vs, hl.trans hs.len⟩, hdc⟩
  · obtain ⟨hnull, hif⟩ := not_or.mp hp
    rw [if_neg hnull, if_neg hif, hs.vs, vsetReenter_mem hmem (by rw [hent]; omega), hent]
    exact ⟨_, rfl, ⟨hs.capn, rfl, hs.len⟩, rfl⟩
  · obtain ⟨hnull, hif⟩ := not_or.mp hp
    rw [if_neg hnull, if_neg hif, hs.vs, vsetReenter_mem hmem (by rw [hent]; exact hge), hent, hd]
    obtain ⟨e₁, he₁, hs₁, hc₁⟩ := @emitObject_writes measure emit rem { m with vs := vs } m₁ { e with vs := vs } loc p data
      hm hw ⟨hs.capn, rfl, hs.len⟩ add words ho hc hcap hmax h0 h8
    simp only [if_neg (Int.not_lt.mpr hge), if_neg hne, orFail, Except.bind, bind, he₁]
    exact ⟨_, rfl, ⟨hs₁.capn, by rw [hs₁.vs], hs₁.len⟩, hc₁⟩

/-- The two passes, object by object. -/
theorem canonEmit_writes (hmem : ∀ n, alloc.slots n = true → alloc'.slots n = true) (rem : Nat) :
    KeepsPace (canonMeasure vhash alloc limit rem) (canonEmit vhash alloc' rem) := by
  induction rem with
  | zero =>
    rw [canonMeasure, canonEmit]
    exact canonEmitWith_writes hmem (fun _ _ _ h => nomatch h) fun _ _ _ _ _ _ h => nomatch h
  | succ rem ih =>
    rw [canonMeasure, canonEmit]
    exact canonEmitWith_writes hmem (canonMeasure_adds rem) ih

end

/-- A struct of a word, 5, and a pointer to a struct of another, 7. -/
def nestedSession : Capn :=
  { segs := [⟨Mem.ofList [5, 0, 0, 0, 0, 0, 0, 0, 0, 0, 0, 0, 1, 0, 0, 0, 7, 0, 0, 0, 0, 0, 0, 0], 24, 24⟩] }

def nestedRoot : Ptr := { type := .STRUCT, datasz := 8, ptrs := 1, seg := some 0, data := some ⟨0, 0⟩ }

/-- It is measured with 8 bytes in use. -/
def nestedMeasure : Except Capn Measurement :=
  canonMeasure (fun _ => 0) ⟨fun _ => true, fun _ => true⟩ 64 1 ⟨nestedSession, ⟨[none, none], 0⟩, 8⟩ nestedRoot

/-- And written into a segment of 32 bytes. -/
def nestedEmit : Except Emission Emission :=
  canonEmit (fun _ => 0) ⟨fun _ => true, fun _ => true⟩ 1 ⟨nestedSession, ⟨[none, none], 0⟩, ⟨Mem.zero, 8, 32⟩⟩ 0 nestedRoot

end Capnproto

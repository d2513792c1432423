import Capnproto.Object.ReadBack

/-!
# Clones

What `new_clone` allocates for an object: an object of the same type and size, behind what
was in use, zero so far.
-/

namespace Capnproto

/-! ## `new_object` -/

/-- What `new_object` makes of `p`: an object of `n` whole words at `lo` of segment `s`, behind
what was there, with a tag in front of it if it has one. -/
structure Located (c c' : Capn) (p q : Ptr) (n s lo : Nat) : Prop where
  ptr : q = { p with seg := some s, data := some ⟨s, lo⟩, hasPtrTag := q.hasPtrTag }
  lt : s < c'.segs.length
  fresh : (c.seg s).len + (if q.hasPtrTag then 8 else 0) = lo
  len : (c'.seg s).len = lo + n
  aligned : 8 ∣ lo
  zero : ∀ x : Int, lo ≤ x → x < (c'.seg s).len → (c'.seg s).data x = 0
  pad : q.hasPtrTag = true → ptrTag p 0 = some (c'.load64 ⟨s, (lo : Int) - 8⟩)

section

variable {c : Capn} {s₀ : Nat}

theorem ptrTag_congr {p q : Ptr} (off : Int) (ht : q.type = p.type) (hc : q.isCompositeList = p.isCompositeList)
    (hd : q.datasz = p.datasz) (hp : q.ptrs = p.ptrs) (hl : q.len = p.len) : ptrTag q off = ptrTag p off := by
  simp only [ptrTag, ht, hc, hd, hp, hl]

theorem newObject_located (h : Clean c) {p : Ptr} {n : Nat} (hseg : p.seg = some s₀) (hs : s₀ < c.segs.length)
    (htag : p.hasPtrTag = false) (hv : ∀ v, ptrTag p 0 = some v → v < 2 ^ 64) :
    Cleaner c (newObject c p n).1 ∧ ((newObject c p n).2 = {} ∨
      ∃ s lo, Located c (newObject c p n).1 p (newObject c p n).2 ((n + 7) / 8 * 8) s lo) := by
  simp only [newObject, hseg]
  by_cases hb : n = 0
  · subst hb
    rw [if_pos rfl]
    refine ⟨h.cleaner, .inr ⟨s₀, (c.seg s₀).len, rfl, hs, ?_, rfl, h.words s₀, fun x h0 h1 => ?_, ?_⟩⟩
    · simp only [htag, Bool.false_eq_true, if_false, Nat.add_zero]
    · simp only at h1
      omega
    · simp only [htag, Bool.false_eq_true, false_implies]
  rw [if_neg hb]
  by_cases hroom : (c.seg s₀).len + (n + 7) / 8 * 8 ≤ (c.seg s₀).cap
  · rw [if_pos hroom]
    refine ⟨h.cleaner.bump (Nat.dvd_mul_left _ _) hroom, .inr ⟨s₀, (c.seg s₀).len, rfl,
      by simpa [bump] using hs, ?_, bump_len hs _, h.words s₀, fun x => h.bump_zero hs hroom, ?_⟩⟩
    · simp only [htag, Bool.false_eq_true, if_false, Nat.add_zero]
    · simp only [htag, Bool.false_eq_true, false_implies]
  rw [if_neg hroom]
  cases hnew : newData c ((n + 7) / 8 * 8 + 8) with
  | none => exact ⟨h.cleaner, .inl rfl⟩
  | some r =>
    obtain ⟨c', s, a⟩ := r
    have hr := h.newData (by omega) hnew
    have ha := hr.addr
    subst ha
    have hlen := hr.len
    have htagq := ptrTag_congr (p := p) (q := { p with seg := some s, data := some ⟨s, ((c.seg s).len : Int)⟩ }) 0
      rfl rfl rfl rfl rfl
    simp only [writePtrTag, htagq]
    obtain ⟨v, hpv⟩ := ptrTag_zero p
    rw [hpv]
    simp only [Option.map_some]
    have hin : ((c.seg s).len : Int) + 8 ≤ (c'.seg s).len := by
      rw [hlen]
      push_cast
      omega
    refine ⟨hr.cleaner.store64 hin, .inr ⟨s, (c.seg s).len + 8, rfl, ?_, rfl, ?_, ?_, fun x h0 h1 => ?_, fun _ => ?_⟩⟩
    · rw [Capn.store64, Capn.length_write]
      exact hr.lt
    · rw [Capn.store64, Capn.len_write, hlen]
      omega
    · exact Nat.dvd_add (h.words s) (Nat.dvd_refl 8)
    · rw [Capn.store64, Capn.len_write] at h1
      rw [Capn.store64, Capn.write, Capn.seg_setSeg_self _ hr.lt]
      push_cast at h0
      refine (Mem.write_apply_of_ge ?_).trans (hr.zero x (by omega) h1)
      rw [length_toLe]
      exact h0
    · rw [show (((c.seg s).len + 8 : Nat) : Int) - 8 = (c.seg s).len by push_cast; omega]
      exact hpv.trans (congrArg some (load64_store64_self hr.lt (hv v hpv)).symm)

/-! ## `new_clone` -/

/-- Sizes that a clone can have: those of objects that are read, and of members of lists. -/
def Ptr.Sane (f : Ptr) : Prop :=
  0 ≤ f.len ∧
    match f.type with
    | .STRUCT => f.isCompositeList = false ∧ f.datasz ≤ 524280 ∧ f.ptrs < 2 ^ 16 ∧ f.len = 0
    | .LIST =>
      if f.isCompositeList then
        8 ∣ f.datasz ∧ f.datasz < 2 ^ 19 ∧ f.ptrs < 2 ^ 16 ∧ f.len < 2 ^ 30 ∧
          f.len.toNat * (f.datasz + 8 * f.ptrs) < 2 ^ 32
      else f.datasz ∈ [0, 1, 2, 4, 8] ∧ f.ptrs = 0 ∧ f.len < 2 ^ 29
    | .PTR_LIST => f.len < 2 ^ 29
    | .BIT_LIST => (f.len.toNat + 7) / 8 < 2 ^ 19
    | _ => False

/-- The fields of a clone. -/
def Ptr.cloned (f : Ptr) : Ptr :=
  match f.type with
  | .STRUCT => { type := .STRUCT, datasz := (f.datasz + 7) / 8 * 8, ptrs := f.ptrs }
  | .LIST => { type := .LIST, isCompositeList := f.isCompositeList, datasz := f.datasz, ptrs := f.ptrs, len := f.len }
  | .PTR_LIST => { type := .PTR_LIST, len := f.len }
  | .BIT_LIST => { type := .BIT_LIST, datasz := (f.len.toNat + 7) / 8, len := f.len }
  | _ => {}

theorem Ptr.Sane.cloned {f : Ptr} (h : f.Sane) : f.cloned.Shape ∧ f.cloned.IsObject ∧ f.cloned.hasPtrTag = false := by
  obtain ⟨hlen, h⟩ := h
  cases ht : f.type with
  | STRUCT =>
    simp only [ht] at h
    obtain ⟨-, hd, hp, -⟩ := h
    rw [show f.cloned = _ by simp only [Ptr.cloned, ht]; rfl]
    refine ⟨⟨rfl, Int.le_refl 0, rfl, Nat.dvd_mul_left _ _, ?_, hp, rfl⟩, ⟨nofun, nofun, nofun⟩, rfl⟩
    show (f.datasz + 7) / 8 * 8 < 2 ^ 19
    omega
  | LIST =>
    simp only [ht] at h
    rw [show f.cloned = _ by simp only [Ptr.cloned, ht]; rfl]
    exact ⟨⟨rfl, hlen, h⟩, ⟨nofun, nofun, nofun⟩, rfl⟩
  | PTR_LIST =>
    simp only [ht] at h
    rw [show f.cloned = _ by simp only [Ptr.cloned, ht]; rfl]
    exact ⟨⟨rfl, hlen, rfl, rfl, rfl, h⟩, ⟨nofun, nofun, nofun⟩, rfl⟩
  | BIT_LIST =>
    simp only [ht] at h
    rw [show f.cloned = _ by simp only [Ptr.cloned, ht]; rfl]
    exact ⟨⟨rfl, hlen, rfl, rfl, h, rfl⟩, ⟨nofun, nofun, nofun⟩, rfl⟩
  | NULL => simp only [ht] at h
  | FAR_POINTER => simp only [ht] at h
  | INTERFACE => simp only [ht] at h

/-- The object `t` is a clone of `f` at `o` of segment `s`, behind what was in use, and zero. -/
structure Clone (c : Capn) (f : Ptr) (c' : Capn) (t : Ptr) (s : Nat) (o : Int) : Prop where
  stands : Stands c' t s o
  fields : t = { f.cloned with seg := some s, data := some ⟨s, o⟩, hasPtrTag := t.hasPtrTag }
  fresh : ((c.seg s).len : Int) + t.pre ≤ o
  zero : ∀ x : Int, o ≤ x → x < (c'.seg s).len → (c'.seg s).data x = 0

/-- A clone, or none, in a clean session. -/
def Clones (c : Capn) (f : Ptr) (r : Capn × Ptr) : Prop :=
  Cleaner c r.1 ∧ (r.2 = {} ∨ ∃ s o, Clone c f r.1 r.2 s o)

theorem ptrTag_lt {p : Ptr} (hs : p.Shape) (hobj : p.IsObject) {v : Nat} (h : ptrTag p 0 = some v) : v < 2 ^ 64 :=
  (ptrTag_word hs hobj (by decide) h).lt

/-- An object without a tag of its own. -/
theorem clones_object (h : Clean c) (hs : s₀ < c.segs.length) {f : Ptr} (hf : f.Sane) {n : Nat}
    (hc : f.cloned.isCompositeList = false) (hn : f.cloned.extent ≤ n) :
    Clones c f (newObject c { f.cloned with seg := some s₀ } n) := by
  obtain ⟨hsh, hobj, htag⟩ := hf.cloned
  have hlead : f.cloned.lead = 0 := by rw [Ptr.lead, hc]; rfl
  have hv : ∀ v, ptrTag { f.cloned with seg := some s₀ } 0 = some v → v < 2 ^ 64 := fun v hv =>
    ptrTag_lt (p := f.cloned) hsh hobj ((ptrTag_congr 0 rfl rfl rfl rfl rfl).symm.trans hv)
  obtain ⟨hcl, hq⟩ := newObject_located (p := { f.cloned with seg := some s₀ }) (n := n) h rfl hs htag hv
  refine ⟨hcl, hq.imp_right ?_⟩
  rintro ⟨s, lo, hl⟩
  have hptr := hl.ptr
  have hlen := hl.len
  have hfresh := hl.fresh
  have hzero := hl.zero
  have hpad := hl.pad
  have hlt := hl.lt
  have haligned := hl.aligned
  generalize (newObject c { f.cloned with seg := some s₀ } n).2 = t at hptr hfresh hpad ⊢
  generalize (newObject c { f.cloned with seg := some s₀ } n).1 = c' at hcl hlen hzero hpad hlt ⊢
  generalize hb : t.hasPtrTag = b at hptr hfresh hpad
  subst hptr
  have hpre : ({ f.cloned with seg := some s, data := some ⟨s, (lo : Int)⟩, hasPtrTag := b } : Ptr).pre =
      if b then 8 else 0 := by
    show f.cloned.lead + _ = _
    rw [hlead, Nat.zero_add]
  refine ⟨s, lo, ⟨hsh, hobj, rfl, rfl, hlt, ?_, ?_, ?_, ?_, ?_⟩, rfl, ?_, hzero⟩
  · show (f.cloned.lead : Int) ≤ lo
    omega
  · show (lo : Int) + f.cloned.extent ≤ _
    omega
  · omega
  · intro hc'
    rw [show f.cloned.isCompositeList = true from hc'] at hc
    cases hc
  · intro ht
    have ht : b = true := ht
    subst ht
    rw [if_pos rfl] at hfresh
    refine ⟨?_, ?_⟩
    · show ((f.cloned.lead + 8 : Nat) : Int) ≤ lo
      omega
    · have := hpad rfl
      show ptrTag _ 0 = some (c'.load64 ⟨s, (lo : Int) - f.cloned.lead - 8⟩)
      rw [hlead, Nat.cast_zero, Int.sub_zero, ← this]
      exact ptrTag_congr 0 rfl rfl rfl rfl rfl
  · rw [hpre]
    omega

/-- A composite list, behind its tag. -/
theorem clones_composite (h : Clean c) (hs : s₀ < c.segs.length) {f : Ptr} (hf : f.Sane) (ht : f.type = .LIST)
    (hc : f.isCompositeList = true) :
    Clones c f (capnNewStructList c (some s₀) f.len.toNat f.datasz f.ptrs) := by
  obtain ⟨hsh, hobj, htag⟩ := hf.cloned
  have hfc : f.cloned = { type := .LIST, isCompositeList := true, datasz := f.datasz, ptrs := f.ptrs, len := f.len } := by
    simp only [Ptr.cloned, ht, hc]
  obtain ⟨hlen0, hf⟩ := hf
  simp only [ht, if_pos hc] at hf
  obtain ⟨h8, hd, hp, hn, hb⟩ := hf
  have hdm : (f.datasz + 7) / 8 * 8 % 2 ^ 19 = f.datasz := by omega
  have hnat : ((f.len.toNat : Nat) : Int) = f.len := Int.toNat_of_nonneg hlen0
  have hseg : ({ type := .LIST, seg := some s₀, len := ((f.len.toNat : Nat) : Int), isCompositeList := true,
                 datasz := f.datasz, ptrs := f.ptrs } : Ptr) = { f.cloned with seg := some s₀ } := by
    rw [hfc, hnat]
  have hlead : f.cloned.lead = 8 := by rw [hfc]; rfl
  have hext : f.cloned.extent = f.len.toNat * (f.datasz + 8 * f.ptrs) := by rw [hfc]; rfl
  have hword : STRUCT_PTR + f.len.toNat * 4 + f.cloned.datasz / 8 * 2 ^ 32 + f.cloned.ptrs * 2 ^ 48 =
      compositeTag f.cloned := by
    rw [hfc]
    rfl
  have hwlt : compositeTag f.cloned < 2 ^ 64 := by
    rw [hfc]
    simp only [compositeTag, STRUCT_PTR]
    omega
  have hv : ∀ v, ptrTag { f.cloned with seg := some s₀ } 0 = some v → v < 2 ^ 64 := fun v hv =>
    ptrTag_lt (p := f.cloned) hsh hobj ((ptrTag_congr 0 rfl rfl rfl rfl rfl).symm.trans hv)
  obtain ⟨hcl, hq⟩ := newObject_located (p := { f.cloned with seg := some s₀ })
    (n := f.len.toNat * (f.datasz + 8 * f.ptrs) + 8) h rfl hs htag hv
  simp only [capnNewStructList, hdm, Nat.mod_eq_of_lt hp, hseg]
  rcases hq with hnull | ⟨s, lo, hl⟩
  · rw [hnull]
    exact ⟨hcl, .inl rfl⟩
  have hptr := hl.ptr
  have hlen := hl.len
  have hfresh := hl.fresh
  have hzero := hl.zero
  have hpad := hl.pad
  have hlt := hl.lt
  have haligned := hl.aligned
  generalize (newObject c { f.cloned with seg := some s₀ } (f.len.toNat * (f.datasz + 8 * f.ptrs) + 8)).2 = t
    at hptr hfresh hpad ⊢
  generalize (newObject c { f.cloned with seg := some s₀ } (f.len.toNat * (f.datasz + 8 * f.ptrs) + 8)).1 = c'
    at hcl hlen hzero hpad hlt ⊢
  generalize hb' : t.hasPtrTag = b at hptr hfresh hpad
  subst hptr
  have hin : (lo : Int) + 8 ≤ (c'.seg s).len := by omega
  have hpre : ({ f.cloned with seg := some s, data := some ⟨s, (lo : Int) + 8⟩, hasPtrTag := b } : Ptr).pre =
      8 + if b then 8 else 0 := by
    show f.cloned.lead + _ = _
    rw [hlead]
  simp only [Addr.add, hword]
  refine ⟨hcl.store64 hin, .inr ⟨s, lo + 8, ⟨hsh, hobj, rfl, rfl, ?_, ?_, ?_, ?_, ?_, ?_⟩, rfl, ?_, fun x h0 h1 => ?_⟩⟩
  · rw [Capn.store64, Capn.length_write]
    exact hlt
  · show (f.cloned.lead : Int) ≤ lo + 8
    omega
  · show (lo : Int) + 8 + f.cloned.extent ≤ _
    rw [Capn.store64, Capn.len_write]
    omega
  · omega
  · intro _
    rw [Int.add_sub_cancel, load64_store64_self hlt hwlt]
    rfl
  · intro ht
    have ht : b = true := ht
    subst ht
    rw [if_pos rfl] at hfresh
    refine ⟨?_, ?_⟩
    · show ((f.cloned.lead + 8 : Nat) : Int) ≤ lo + 8
      omega
    · have := hpad rfl
      show ptrTag _ 0 = some (Capn.load64 _ ⟨s, (lo : Int) + 8 - f.cloned.lead - 8⟩)
      rw [hlead, show (lo : Int) + 8 - (8 : Nat) - 8 = lo - 8 by omega, load64_store64_ne, ← this]
      · exact ptrTag_congr 0 rfl rfl rfl rfl rfl
      · intro _
        right
        show (lo : Int) - 8 + 8 ≤ lo
        omega
  · rw [hpre]
    push_cast
    split at hfresh <;> rename_i hbt
    · rw [if_pos hbt]
      omega
    · rw [if_neg hbt]
      omega
  · rw [Capn.store64, Capn.len_write] at h1
    rw [Capn.store64, Capn.write, Capn.seg_setSeg_self _ hlt]
    refine (Mem.write_apply_of_ge ?_).trans (hzero x (by omega) h1)
    rw [length_toLe]
    exact h0

/-- **`new_clone`** of an object gives an object of its fields, or none. -/
theorem newClone_clones (h : Clean c) (hs : s₀ < c.segs.length) {f : Ptr} (hf : f.Sane) :
    Clones c f (newClone c s₀ f) := by
  have hlen := hf.1
  have hsize := hf.2
  have hnat : ((f.len.toNat : Nat) : Int) = f.len := Int.toNat_of_nonneg hlen
  cases ht : f.type with
  | STRUCT =>
    simp only [ht] at hsize
    obtain ⟨-, hd, hp, -⟩ := hsize
    have hfc : f.cloned = { type := .STRUCT, datasz := (f.datasz + 7) / 8 * 8, ptrs := f.ptrs } := by
      simp only [Ptr.cloned, ht]
    simp only [newClone, ht, capnNewStruct]
    rw [show (f.datasz + 7) / 8 * 8 % 2 ^ 19 = (f.datasz + 7) / 8 * 8 by omega, Nat.mod_eq_of_lt hp]
    have := clones_object (n := (f.datasz + 7) / 8 * 8 + 8 * f.ptrs) h hs hf (by rw [hfc]) (by
      rw [hfc]
      exact Nat.le_refl _)
    rw [hfc] at this
    exact this
  | PTR_LIST =>
    have hfc : f.cloned = { type := .PTR_LIST, len := f.len } := by simp only [Ptr.cloned, ht]
    simp only [newClone, ht, capnNewPtrList, hnat]
    have := clones_object (n := f.len.toNat * 8) h hs hf (by rw [hfc]) (by
      rw [hfc]
      show 8 * f.len.toNat ≤ _
      omega)
    rw [hfc] at this
    exact this
  | BIT_LIST =>
    simp only [ht] at hsize
    have hfc : f.cloned = { type := .BIT_LIST, datasz := (f.len.toNat + 7) / 8, len := f.len } := by
      simp only [Ptr.cloned, ht]
    simp only [newClone, ht, capnNewList1, hnat, Nat.mod_eq_of_lt hsize]
    have := clones_object (n := (f.len.toNat + 7) / 8) h hs hf (by rw [hfc]) (by
      rw [hfc]
      show (0 + f.len.toNat + 7) / 8 ≤ _
      omega)
    rw [hfc] at this
    exact this
  | LIST =>
    simp only [newClone, ht]
    by_cases hc : f.isCompositeList = true
    · rw [if_pos hc]
      exact clones_composite h hs hf ht hc
    rw [if_neg hc]
    simp only [ht, if_neg hc] at hsize
    obtain ⟨hd, hp, -⟩ := hsize
    have hfc : f.cloned = { type := .LIST, datasz := f.datasz, len := f.len } := by
      simp only [Ptr.cloned, ht, Bool.eq_false_iff.mpr hc, hp]
    have := clones_object (n := f.len.toNat * f.datasz) h hs hf (by rw [hfc]) (by
      rw [hfc]
      exact Nat.le_refl _)
    rw [hfc] at this
    simp only [capnNewList, hp, hnat]
    simp only [List.mem_cons, List.not_mem_nil, or_false] at hd
    rcases hd with hd | hd | hd | hd | hd <;> rw [hd] at this ⊢ <;> exact this
  | NULL => simp only [ht] at hsize
  | FAR_POINTER => simp only [ht] at hsize
  | INTERFACE => simp only [ht] at hsize

end

end Capnproto

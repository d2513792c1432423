import Capnproto.Object.Copying

/-!
# What `capn_setp` stores into

Whatever the source is, of the bytes in use only those of the destination change
(`setp_confined`): a copy is made of words that were not in use, and what the stack of
the loop is still to store into is in the destination or in such words (`Confined`).
-/

namespace Capnproto

/-- The bytes from the data of `t` on. -/
def Onward (t : Ptr) (k : Nat) (x : Int) : Prop := ∃ a, t.data = some a ∧ k = a.seg ∧ a.off ≤ x

/-- An entry of the stack has slots or elements to go through. -/
def Walks (e : Ptr × Ptr) : Prop := (e.1.type = .PTR_LIST ∨ e.1.type = .LIST) ∧ 0 ≤ e.1.len

/-- Only bytes of `R`, of those that were in use in session `i`, were stored into, or are going to be. -/
structure Confined (R : Nat → Int → Prop) (c : Capn) (i : Nat) (s : CopyState) : Prop where
  grows : Grows R c (s.world i)
  walks : ∀ e ∈ s.stack, Walks e
  area : ∀ e ∈ s.stack, ∀ k x, Area e k x → R k x ∨ ((c.seg k).len : Int) ≤ x

section

variable {w : World} {i j : Nat} {R : Nat → Int → Prop} {c : Capn}

theorem Grows.world_write (h : Grows R c (w i)) {a : Addr} {bs : List UInt8}
    (hin : ∀ x : Int, a.off ≤ x → x < a.off + bs.length → ((c.seg a.seg).len : Int) ≤ x ∨ R a.seg x) :
    Grows R c (w.set i ((w i).write a bs) i) := by
  rw [World.set_self]
  exact h.write hin

/-- Bytes copied to where they may be stored. -/
theorem Grows.memcpy (h : Grows R c (w i)) {dst src : Option Addr} {n : Nat}
    (hin : ∀ a, dst = some a → ∀ x : Int, a.off ≤ x → x < a.off + n → ((c.seg a.seg).len : Int) ≤ x ∨ R a.seg x) :
    Grows R c (Capnproto.memcpy w i dst j src n i) := by
  unfold Capnproto.memcpy
  split
  · rename_i a b
    refine h.world_write fun x h0 h1 => hin a rfl x h0 ?_
    rw [length_capn_read] at h1
    exact h1
  · exact h

theorem Grows.memzero (h : Grows R c (w i)) {dst : Option Addr} {n : Nat}
    (hin : ∀ a, dst = some a → ∀ x : Int, a.off ≤ x → x < a.off + n → ((c.seg a.seg).len : Int) ≤ x ∨ R a.seg x) :
    Grows R c (Capnproto.memzero w i dst n i) := by
  unfold Capnproto.memzero
  split
  · rename_i a
    refine h.world_write fun x h0 h1 => hin a rfl x h0 ?_
    rw [List.length_replicate] at h1
    exact h1
  · exact h

/-! ## Copies -/

/-- What `copy_ptr` copies to, if it copies at all: words that were not in use. -/
def Fresh (c : Capn) (t : Ptr) : Prop :=
  t.IsObject → 0 ≤ t.len ∧ ∀ k x, Onward t k x → ((c.seg k).len : Int) ≤ x

theorem Made.fresh {p : Ptr} {r : Capn × Ptr} (h : Made c p r) (hl : 0 ≤ p.len) : Fresh c r.2 := by
  intro hobj
  rcases h.ptr with e | ⟨s, o, b, e, ho⟩
  · rw [e] at hobj
    exact absurd rfl hobj.1
  · rw [e]
    refine ⟨hl, ?_⟩
    rintro k x ⟨a, ha, rfl, hx⟩
    cases ha
    have hx : o ≤ x := hx
    show ((c.seg s).len : Int) ≤ x
    omega

theorem newClone_fresh (c : Capn) (s : Nat) (f : Ptr) : Fresh c (newClone c s f).2 := by
  have hnone : ¬ (newClone c s f).2.IsObject → Fresh c (newClone c s f).2 := fun h hobj => absurd hobj h
  cases ht : f.type with
  | STRUCT =>
    simp only [newClone, ht]
    exact (made_struct c (some s) f.datasz f.ptrs).fresh (Int.le_refl 0)
  | PTR_LIST =>
    simp only [newClone, ht]
    exact (made_object c _ _).fresh (Int.natCast_nonneg _)
  | BIT_LIST =>
    simp only [newClone, ht]
    exact (made_list1 c (some s) f.len.toNat).fresh (Int.natCast_nonneg _)
  | LIST =>
    simp only [newClone, ht]
    split
    · exact (made_structList c (some s) f.len.toNat f.datasz f.ptrs).fresh (Int.natCast_nonneg _)
    · obtain ⟨p, hp, -, hl, -⟩ := made_list c (some s) f.len.toNat f.datasz f.ptrs
      exact hp.fresh (by rw [hl]; exact Int.natCast_nonneg _)
  | INTERFACE =>
    refine hnone fun hobj => hobj.2.2 ?_
    simp only [newClone, ht]
    rfl
  | NULL =>
    refine hnone fun hobj => hobj.1 ?_
    simp only [newClone, ht]
  | FAR_POINTER =>
    refine hnone fun hobj => hobj.2.1 ?_
    simp only [newClone, ht]

theorem onward_advance {t : Ptr} {n : Nat} {e : Ptr} (he : e.data = t.data.map (·.add (n : Int))) {k : Nat} {x : Int}
    (h : ∃ b, e.data = some b ∧ k = b.seg ∧ b.off ≤ x) : Onward t k x := by
  obtain ⟨b, hb, rfl, hx⟩ := h
  rw [he] at hb
  obtain ⟨a, ha, rfl⟩ := Option.map_eq_some_iff.mp hb
  have hx : a.off + n ≤ x := hx
  exact ⟨a, ha, rfl, by omega⟩

/-- The copy of an object stores into the clone, and pushes a part of it. -/
theorem copyBody_onward (h : Grows R c (w i)) {t f : Ptr} (ht : t.IsObject → 0 ≤ t.len)
    (hin : t.IsObject → ∀ k x, Onward t k x → ((c.seg k).len : Int) ≤ x) :
    Grows R c ((copyBody w i j t f).world i) ∧
      ∀ e, (copyBody w i j t f).push = some e → Walks e ∧ ∀ k x, Area e k x → ((c.seg k).len : Int) ≤ x := by
  have hcpy : t.IsObject → ∀ n, Grows R c (memcpy w i t.data j f.data n i) := by
    intro hobj n
    refine h.memcpy fun a ha x h0 _ => .inl (hin hobj a.seg x ⟨a, ha, rfl, h0⟩)
  have hpart : t.IsObject → ∀ (e : Ptr × Ptr) (n : Nat), e.1.data = t.data.map (·.add (n : Int)) → ∀ k x, Area e k x →
      ((c.seg k).len : Int) ≤ x := by
    intro hobj e n he k x hx
    obtain ⟨b, hb, hk, hx, -⟩ := hx
    exact hin hobj k x (onward_advance he ⟨b, hb, hk, hx⟩)
  have hno : ∀ e : Ptr × Ptr, none = some e → Walks e ∧ ∀ k x, Area e k x → ((c.seg k).len : Int) ≤ x := by
    intro e he
    cases he
  cases htt : t.type with
  | STRUCT =>
    have hobj : t.IsObject := by simp [Ptr.IsObject, htt]
    have hw : Grows R c ((if t.datasz ≠ 0 then memcpy w i t.data j f.data t.datasz else w) i) := by
      split
      · exact hcpy hobj _
      · exact h
    simp only [copyBody, htt]
    split
    · refine ⟨hw, ?_⟩
      intro e he
      cases he
      refine ⟨⟨.inl rfl, ?_⟩, ?_⟩
      · show (0 : Int) ≤ t.ptrs
        exact Int.natCast_nonneg _
      · exact hpart hobj _ t.datasz rfl
    · exact ⟨hw, hno⟩
  | PTR_LIST =>
    have hobj : t.IsObject := by simp [Ptr.IsObject, htt]
    simp only [copyBody, htt]
    split
    · refine ⟨h, ?_⟩
      intro e he
      cases he
      exact ⟨⟨.inl htt, ht hobj⟩, hpart hobj _ 0 (advance_zero_data t)⟩
    · exact ⟨h, hno⟩
  | LIST =>
    have hobj : t.IsObject := by simp [Ptr.IsObject, htt]
    simp only [copyBody, htt]
    split
    · exact ⟨h, hno⟩
    split
    · refine ⟨h, ?_⟩
      intro e he
      cases he
      exact ⟨⟨.inr htt, ht hobj⟩, hpart hobj _ 0 (advance_zero_data t)⟩
    split
    · exact ⟨hcpy hobj _, hno⟩
    split
    · refine ⟨h, ?_⟩
      intro e he
      cases he
      exact ⟨⟨.inl rfl, Int.mul_nonneg (ht hobj) (Int.natCast_nonneg _)⟩, hpart hobj _ 0 (advance_zero_data t)⟩
    · exact ⟨h, hno⟩
  | BIT_LIST =>
    have hobj : t.IsObject := by simp [Ptr.IsObject, htt]
    simp only [copyBody, htt]
    split
    · split
      · exact ⟨h, hno⟩
      · rename_i a ha
        exact ⟨h.world_write fun x h0 _ => .inl (hin hobj a.seg x ⟨a, ha, rfl, h0⟩), hno⟩
    · exact ⟨hcpy hobj _, hno⟩
  | NULL =>
    simp only [copyBody, htt]
    exact ⟨h, hno⟩
  | FAR_POINTER =>
    simp only [copyBody, htt]
    exact ⟨h, hno⟩
  | INTERFACE =>
    simp only [copyBody, htt]
    exact ⟨h, hno⟩

/-- What a copy into the slot `d` leaves. -/
structure SlotCopied (R : Nat → Int → Prop) (c : Capn) (i : Nat) (q : Copied) : Prop where
  grows : Grows R c (q.world i)
  push : ∀ e, q.push = some e → Walks e ∧ ∀ k x, Area e k x → ((c.seg k).len : Int) ≤ x

/-- `copy_ptr` stores into the slot, and into words that were not in use. -/
theorem copyPtr_confined (h : Grows R c (w i)) {d : Addr} (hd : ∀ k x, Slot d k x → R k x ∨ ((c.seg k).len : Int) ≤ x)
    (s : Nat) (f : Ptr) : SlotCopied R c i (copyPtr w i j s d f) := by
  have hwrite : ∀ {c₁ : Capn}, Grows R c c₁ → ∀ t, Grows R c (writePtr c₁ s d t false).2 := by
    intro c₁ h₁ t
    have hw := (writes_ptr c₁ s d t false).grows
    refine ⟨fun k => Nat.le_trans (h₁.len k) (hw.len k), fun k x h0 hx hR => ?_⟩
    have hlen := h₁.len k
    rw [hw.data k x h0 (by omega), h₁.data k x h0 hx hR]
    intro hs
    rcases hd k x hs with h | h
    · exact hR h
    · omega
  have hlink : Grows R c (linkClone (w i) s d f).2 :=
    hwrite (h.trans ((keeps_clone _ _ _).mono fun _ _ h => h.elim)) _
  have hself : ∀ {c₁ : Capn}, Grows R c c₁ → Grows R c ((w.set i c₁) i) := by
    intro c₁ h₁
    rw [World.set_self]
    exact h₁
  have hfresh := newClone_fresh (w i) s f
  have hbody : ∀ {c₁ : Capn}, Grows R c c₁ → SlotCopied R c i (copyBody (w.set i c₁) i j (newClone (w i) s f).2 f) := by
    intro c₁ h₁
    obtain ⟨hg, hp⟩ := copyBody_onward (j := j) (f := f) (hself h₁) (fun hobj => (hfresh hobj).1) fun hobj k x hx => by
      have hge := (hfresh hobj).2 k x hx
      have hlen := h.len k
      omega
    exact ⟨hg, hp⟩
  have hno : ∀ e : Ptr × Ptr, none = some e → Walks e ∧ ∀ k x, Area e k x → ((c.seg k).len : Int) ≤ x := by
    intro e he
    cases he
  simp only [copyPtr]
  split
  · exact ⟨h, hno⟩
  · exact ⟨hself (hwrite h _), hno⟩
  · rcases copyFresh_cases w i j s d f with ⟨e, -⟩ | ⟨-, -, e⟩ | ⟨-, -, c₁, hc, e⟩ <;> rw [e]
    · exact ⟨hself hlink, hno⟩
    · exact hbody hlink
    · refine hbody (hlink.of_segs ?_)
      exact (newCopy_copy hc).1

/-- `copy_list_member` stores into the element. -/
theorem copyListMember_confined (h : Grows R c (w i)) {t f : Ptr}
    (hin : ∀ a, t.data = some a → ∀ x : Int, a.off ≤ x → x < a.off + (t.datasz + 8 * t.ptrs : Nat) →
      R a.seg x ∨ ((c.seg a.seg).len : Int) ≤ x) :
    Grows R c ((copyListMember w i j t f).1 i) ∧ ∀ e, (copyListMember w i j t f).2 = some e → Walks e ∧
      ∀ k x, Area e k x → R k x ∨ ((c.seg k).len : Int) ≤ x := by
  have hpart : ∀ (n m : Nat), n + m ≤ t.datasz + 8 * t.ptrs → ∀ a, t.data.map (·.add (n : Int)) = some a → ∀ x : Int,
      a.off ≤ x → x < a.off + m → ((c.seg a.seg).len : Int) ≤ x ∨ R a.seg x := by
    intro n m hle a ha x h0 h1
    obtain ⟨b, hb, rfl⟩ := Option.map_eq_some_iff.mp ha
    have h0 : b.off + n ≤ x := h0
    have h1 : x < b.off + n + m := h1
    exact (hin b hb x (by omega) (by omega)).symm
  have hadd : ∀ (m n : Nat), (t.advance m).data.map (·.add (n : Int)) = t.data.map (·.add ((m + n : Nat) : Int)) := by
    intro m n
    simp only [Ptr.advance, Option.map_map]
    congr 1
    funext a
    simp only [Function.comp_apply, Addr.add_add]
    push_cast
    rfl
  simp only [copyListMember]
  refine ⟨?_, ?_⟩
  · refine ((h.memcpy ?_).memzero ?_).memzero ?_
    · have := hpart 0 (min t.datasz f.datasz) (by omega)
      rwa [← advance_zero_data] at this
    · exact hpart _ _ (by omega)
    · have := hpart (t.datasz + min t.ptrs f.ptrs) (8 * (t.ptrs - min t.ptrs f.ptrs)) (by omega)
      rw [← hadd] at this
      exact this
  · intro e he
    split at he
    · cases he
      refine ⟨⟨.inl rfl, ?_⟩, ?_⟩
      · show (0 : Int) ≤ t.ptrs
        exact Int.natCast_nonneg _
      · rintro k x ⟨b, hb, rfl, h0, h1⟩
        have hext : x < b.off + (8 * t.ptrs : Nat) := by
          have h1 : x < b.off + (8 * ((t.ptrs : Int)).toNat : Nat) := h1
          omega
        exact (hpart t.datasz (8 * t.ptrs) (Nat.le_refl _) b hb x h0 hext).symm
    · cases he

/-! ## The loop -/

theorem area_slot {tc fc : Ptr} {d : Addr} (ht : tc.type = .PTR_LIST) (hl : 0 < tc.len) (hd : tc.data = some d) {k : Nat}
    {x : Int} (h : Slot d k x) : Area (tc, fc) k x := by
  obtain ⟨rfl, h0, h1⟩ := h
  refine ⟨d, hd, rfl, h0, ?_⟩
  simp only [Ptr.extent, ht]
  omega

/-- What is left of an entry after its first slot or element. -/
theorem area_rest {tc fc fc' : Ptr} {n : Nat} (ht : tc.type = .PTR_LIST ∨ tc.type = .LIST) (hl : 0 < tc.len)
    (hn : n = if tc.type = .LIST then tc.datasz + 8 * tc.ptrs else 8) {k : Nat} {x : Int}
    (h : Area ({ tc.advance n with len := tc.len - 1 }, fc') k x) : Area (tc, fc) k x := by
  obtain ⟨b, hb, rfl, h0, h1⟩ := h
  obtain ⟨a, ha, rfl⟩ := Option.map_eq_some_iff.mp hb
  have h0 : a.off + n ≤ x := h0
  have h1 : x < a.off + n + (Ptr.extent { tc.advance n with len := tc.len - 1 } : Nat) := h1
  refine ⟨a, ha, rfl, by omega, ?_⟩
  have hext : (Ptr.extent { tc.advance n with len := tc.len - 1 } + n : Nat) = tc.extent := by
    rcases ht with ht | ht
    · simp only [Ptr.extent, Ptr.advance, ht, hn]
      rw [if_neg (by decide)]
      omega
    · have hnat : tc.len.toNat = (tc.len - 1).toNat + 1 := by omega
      simp only [Ptr.extent, Ptr.advance, ht, hn, hnat, Nat.add_one_mul]
      rfl
  show x < a.off + (tc.extent : Nat)
  omega

theorem Grows.counters (h : Grows R c (w i)) {c₁ : Capn}
    (e : ∃ used err, c₁ = { w j with traversalUsed := used, decodeErr := err }) : Grows R c (w.set j c₁ i) := by
  obtain ⟨u, v, rfl⟩ := e
  simp only [World.set]
  split
  · rename_i hij
    subst hij
    exact h.of_segs rfl
  · exact h

/-- **One iteration** stores into what it may. -/
theorem copyStep_confined {s : CopyState} (h : Confined R c i s) :
    (∀ s', copyStep i j s = .next s' → Confined R c i s') ∧ ∀ r, copyStep i j s = .done r → Grows R c (r.2 i) := by
  obtain ⟨hg, hw, ha⟩ := h
  simp only [copyStep]
  rcases hs : s.stack with _ | ⟨⟨tc, fc⟩, rest⟩
  · exact ⟨by rintro _ ⟨⟩, by rintro r ⟨⟩; exact hg⟩
  rw [hs] at hw ha
  have hmem : (tc, fc) ∈ (tc, fc) :: rest := List.mem_cons_self
  have hrest : ∀ e ∈ rest, e ∈ (tc, fc) :: rest := fun e he => List.mem_cons_of_mem _ he
  simp only
  split
  · exact ⟨by rintro _ ⟨⟩, by rintro r ⟨⟩; exact hg⟩
  split
  · refine ⟨?_, by rintro _ ⟨⟩⟩
    rintro s' ⟨⟩
    exact ⟨hg, fun e he => hw e (hrest e he), fun e he => ha e (hrest e he)⟩
  rename_i h0
  obtain ⟨htype, hlen⟩ := hw _ hmem
  have hpos : 0 < tc.len := by
    have hlen : 0 ≤ tc.len := hlen
    omega
  have hstack : ∀ (n : Nat) (fc' : Ptr) (push : Option (Ptr × Ptr)),
      (n = if tc.type = .LIST then tc.datasz + 8 * tc.ptrs else 8) →
      (∀ e, push = some e → Walks e ∧ ∀ k x, Area e k x → R k x ∨ ((c.seg k).len : Int) ≤ x) →
      ∀ e ∈ push.toList ++ ({ tc.advance n with len := tc.len - 1 }, fc') :: rest,
        Walks e ∧ ∀ k x, Area e k x → R k x ∨ ((c.seg k).len : Int) ≤ x := by
    intro n fc' push hn hpush e he
    rcases List.mem_append.mp he with he | he
    · exact hpush e (Option.mem_toList.mp he)
    rcases List.mem_cons.mp he with rfl | he
    · refine ⟨⟨htype, ?_⟩, fun k x hx => ha _ hmem k x (area_rest htype hpos hn hx)⟩
      show 0 ≤ tc.len - 1
      omega
    · exact ⟨hw e (hrest e he), ha e (hrest e he)⟩
  split
  · rename_i hlist
    refine ⟨?_, by rintro _ ⟨⟩⟩
    rintro s' ⟨⟩
    have hg₁ : Grows R c (s.world.set j (capnGetp (s.world j) fc 0 true).capn i) := hg.counters (capnGetp_capn _ _ _ _)
    generalize s.world.set j (capnGetp (s.world j) fc 0 true).capn = w₁ at hg₁
    generalize (capnGetp (s.world j) fc 0 true).ptr = fn
    have hg₂ : Grows R c (w₁.set i (capnGetp (w₁ i) tc 0 true).capn i) := hg₁.counters (capnGetp_capn _ _ _ _)
    have htn := getp_member (c := w₁ i) hlist hpos
    generalize w₁.set i (capnGetp (w₁ i) tc 0 true).capn = w₂ at hg₂
    obtain ⟨hg₃, hpush⟩ := copyListMember_confined (j := j) (f := fn) hg₂ (t := (capnGetp (w₁ i) tc 0 true).ptr) (by
      rw [htn]
      intro a hd x hx0 hx1
      refine ha _ hmem a.seg x ⟨a, hd, rfl, hx0, ?_⟩
      have hone : tc.datasz + 8 * tc.ptrs ≤ tc.len.toNat * (tc.datasz + 8 * tc.ptrs) :=
        Nat.le_mul_of_pos_left _ (by omega)
      have hx1 : x < a.off + (tc.datasz + 8 * tc.ptrs : Nat) := hx1
      simp only [Ptr.extent, hlist]
      omega)
    have hall := hstack (tc.datasz + 8 * tc.ptrs) (fc.advance (fc.datasz + 8 * fc.ptrs)) _ (if_pos hlist).symm hpush
    exact ⟨hg₃, fun e he => (hall e he).1, fun e he => (hall e he).2⟩
  · rename_i hlist
    have hptr : tc.type = .PTR_LIST := htype.resolve_right hlist
    have hg₁ : Grows R c (s.world.set j (readPtr (s.world j) fc.seg fc.data (-1)).capn i) :=
      hg.counters (readPtr_capn _ _ _ _)
    have hq : SlotCopied R c i (copySlot (s.world.set j (readPtr (s.world j) fc.seg fc.data (-1)).capn) i j tc
        (readPtr (s.world j) fc.seg fc.data (-1)).ptr) := by
      have hno : ∀ e : Ptr × Ptr, none = some e → Walks e ∧ ∀ k x, Area e k x → ((c.seg k).len : Int) ≤ x := by
        intro e he
        cases he
      unfold copySlot
      split
      · exact ⟨hg₁, hno⟩
      · rename_i seg d hseg hd _
        exact copyPtr_confined hg₁ (fun k x hx => ha _ hmem k x (area_slot hptr hpos hd hx)) _ _
      · exact ⟨hg₁, hno⟩
    split
    · exact ⟨by rintro _ ⟨⟩, by rintro r ⟨⟩; exact hq.grows⟩
    · refine ⟨?_, by rintro _ ⟨⟩⟩
      rintro s' ⟨⟩
      have hall := hstack 8 (fc.advance 8) _ (if_neg hlist).symm fun e he =>
        ⟨(hq.push e he).1, fun k x hx => .inr ((hq.push e he).2 k x hx)⟩
      exact ⟨hq.grows, fun e he => (hall e he).1, fun e he => (hall e he).2⟩

/-- The loop stores into what it may. -/
theorem loop_confined {s : CopyState} {r : Int × World} (h : Confined R c i s) (hr : Loop.Ends (copyStep i j) s r) :
    Grows R c (r.2 i) :=
  Loop.ends_inv (I := Confined R c i) (Q := fun r => Grows R c (r.2 i))
    (fun _ s' hs hn => (copyStep_confined hs).1 s' hn) (fun _ r hs hd => (copyStep_confined hs).2 r hd) h hr

/-- The bytes of the place that `capn_setp` sets. -/
def Destination (p : Ptr) (off : Int) (k : Nat) (x : Int) : Prop :=
  ∃ d n, destination p off = some (d, n) ∧ k = d.seg ∧ d.off ≤ x ∧ x < d.off + (n : Nat)

theorem setpSlot_confined {p : Ptr} {off : Int} {d : Addr} (hdest : destination p off = some (d, 8)) (s : Nat) (tgt : Ptr)
    {r : Int × World} (h : Finishes i j r (setpSlot w i s d j tgt)) : Grows (Destination p off) (w i) (r.2 i) := by
  have hslot : ∀ k x, Slot d k x → Destination p off k x := fun k x hx => ⟨d, 8, hdest, hx.1, hx.2.1, hx.2.2⟩
  have hwrite : Grows (Destination p off) (w i) (w.set i (writePtr (w i) s d tgt (i ≠ j)).2 i) := by
    rw [World.set_self]
    exact (writes_ptr _ _ _ _ _).grows.mono hslot
  simp only [setpSlot] at h
  split at h
  · cases h
    exact hwrite
  · change Finishes i j r (afterCopy (copyPtr _ i j s d tgt)) at h
    have hq := copyPtr_confined (j := j) hwrite (fun k x hx => .inl (hslot k x hx)) s tgt
    rw [afterCopy] at h
    split at h
    · cases h
      exact hq.grows
    · refine loop_confined ⟨hq.grows, fun e he => ?_, fun e he k x hx => .inr ?_⟩ h
      · exact (hq.push e (Option.mem_toList.mp he)).1
      · exact (hq.push e (Option.mem_toList.mp he)).2 k x hx

theorem slotAt_confined {p tgt : Ptr} {off n : Int} {r : Int × World}
    (hdest : ∀ d, p.data = some d → destination p off = some (d.add n, 8))
    (h : Finishes i j r (match p.seg, p.data with
      | some seg, some data => setpSlot w i seg (data.add n) j tgt
      | _, _ => .done (-1, w))) : Grows (Destination p off) (w i) (r.2 i) := by
  split at h
  · rename_i s d _ hd
    exact setpSlot_confined (hdest d hd) s tgt h
  · cases h
    exact Grows.refl _ _

/-- **Of the bytes in use** `capn_setp` changes those of its destination only. -/
theorem setpResolved_confined {p tgt : Ptr} {off : Int} {r : Int × World}
    (h : Finishes i j r (setpResolved w i p off j tgt)) : Grows (Destination p off) (w i) (r.2 i) := by
  have hrefl := Grows.refl (Destination p off) (w i)
  simp only [setpResolved] at h
  cases ht : p.type with
  | LIST =>
    simp only [ht] at h
    split at h
    · cases h
      exact hrefl
    · obtain ⟨hg, hp⟩ := copyListMember_confined (j := j) (f := tgt) hrefl
        (t := p.advance (off * (p.datasz + 8 * p.ptrs))) (by
          intro a ha x h0 h1
          refine .inl ⟨a, p.datasz + 8 * p.ptrs, ?_, rfl, h0, h1⟩
          obtain ⟨b, hb, rfl⟩ := Option.map_eq_some_iff.mp ha
          simp only [destination, ht, hb]
          rfl)
      exact loop_confined ⟨hg, fun e he => (hp e (Option.mem_toList.mp he)).1,
        fun e he => (hp e (Option.mem_toList.mp he)).2⟩ h
  | PTR_LIST =>
    simp only [ht] at h
    split at h
    · cases h
      exact hrefl
    · refine slotAt_confined (n := 8 * off) (fun d hd => ?_) h
      simp only [destination, ht, hd]
      rfl
  | STRUCT =>
    simp only [ht] at h
    split at h
    · cases h
      exact hrefl
    · refine slotAt_confined (n := p.datasz + 8 * off) (fun d hd => ?_) h
      simp only [destination, ht, hd]
      rfl
  | BIT_LIST =>
    simp only [ht] at h
    split at h
    · cases h
      exact hrefl
    split at h
    · cases h
      exact hrefl
    split at h
    · cases h
      exact hrefl
    · rename_i val _ hnone
      cases h
      show Grows _ (w i) (w.set i (setBit (w i) p off val) i)
      rw [World.set_self, setBit]
      split
      · exact hrefl
      · rename_i a ha
        refine hrefl.write fun x h0 h1 => .inr ⟨a.add ((off + p.ptrs) / 8), 1, ?_, rfl, h0, h1⟩
        simp only [destination, ht, ha]
        rfl
  | NULL =>
    simp only [ht] at h
    cases h
    exact hrefl
  | FAR_POINTER =>
    simp only [ht] at h
    cases h
    exact hrefl
  | INTERFACE =>
    simp only [ht] at h
    cases h
    exact hrefl

end

end Capnproto

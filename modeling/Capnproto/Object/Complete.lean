import Capnproto.Graph.Walk
import Capnproto.Object.Atomic

/-!
# `capn_setp` that succeeds

A copy walks the source: each slot of each object that it copies gets to the top of its
stack (`entry_top`). A pointer there that cannot be decoded looks like a null one, and
nothing is stored for it. A copy that succeeds is complete exactly when that does not
happen (`setp_complete`).
-/

namespace Capnproto

/-! ## What is read -/

/-- The pointer in the slot `d` can be read: it is in bounds, not broken, and within the
budget. -/
def Decodes (c : Capn) (s : Option Nat) (d : Option Addr) : Prop :=
  ∃ a p cost, s = some a.seg ∧ d = some a ∧ boundsOk c (some a.seg) (some a) 8 ∧ pointee c a = some (p, cost) ∧
    Affords c cost

/-- The pointer in the slot `d` is null. -/
def ReadsNull (c : Capn) (s : Option Nat) (d : Option Addr) : Prop :=
  ∃ a p cost, s = some a.seg ∧ d = some a ∧ boundsOk c (some a.seg) (some a) 8 ∧ pointee c a = some (p, cost) ∧
    p.type = .NULL

/-- `write_ptr` does not store a null for the pointer. -/
def Ptr.Points (t : Ptr) : Prop := t.type ≠ .NULL ∧ (t.type = .INTERFACE ∨ t.data ≠ none)

/-- The copy that a slot of segment `s` gets for the object `f` of session `j`, and the
session with it. -/
def copyFor (c : Capn) (j s : Nat) (f : Ptr) : Option (Capn × Ptr) :=
  match findCopy c j f with
  | .overlap => none
  | .copied t => some (c, t)
  | .free => some (newClone c s f)

/-- The slot `d` gets a pointer to a copy of `f`. -/
def Links (c : Capn) (j : Nat) (s : Option Nat) (d : Option Addr) (f : Ptr) : Prop :=
  ∃ seg a c' t, s = some seg ∧ d = some a ∧ copyFor c j seg f = some (c', t) ∧ t.Points ∧
    (writePtr c' seg a t false).1 = 0

/-- The copies that the index has of `f` are not null. -/
def FoundPoints (c : Capn) (j : Nat) (f : Ptr) : Prop := ∀ t, findCopy c j f = .copied t → t.Points

/-! ## Source objects -/

/-- A pointer that stands for an object. -/
def Ptr.IsObject (f : Ptr) : Prop := f.type ≠ .NULL ∧ f.type ≠ .FAR_POINTER ∧ f.type ≠ .INTERFACE

/-- An object with the fields that readers and constructors give it. -/
structure Ptr.Fine (f : Ptr) : Prop where
  place : ∃ a, f.data = some a ∧ f.seg = some a.seg
  len : 0 ≤ f.len
  plain : f.type = .LIST → f.isCompositeList = false → f.ptrs = 0
  sizes : f.ptrs ≠ 0 → 8 ∣ f.datasz ∧ f.datasz < 2 ^ 19 ∧ f.ptrs < 2 ^ 16

/-- The pointer slots of an object. -/
def SlotOf (f : Ptr) (a : Addr) : Prop :=
  ∃ b, f.data = some b ∧
    match f.type with
    | .STRUCT => ∃ k : Nat, k < f.ptrs ∧ a = b.add (f.datasz + 8 * k)
    | .PTR_LIST => ∃ k : Nat, (k : Int) < f.len ∧ a = b.add (8 * k)
    | .LIST => ∃ m k : Nat, (m : Int) < f.len ∧ k < f.ptrs ∧ a = b.add (m * (f.datasz + 8 * f.ptrs) + (f.datasz + 8 * k))
    | _ => False

/-- The index has a copy of the object. -/
def CopiedBefore (c : Capn) (j : Nat) (f : Ptr) : Prop :=
  ∃ e ∈ c.copy, e.src = j ∧ isPtrEqual f e.fromPtr = true

/-- The slots that pointers lead to from an object `f`, of the objects that the index
`old` does not have. -/
inductive SourceSlot (c old : Capn) (j : Nat) : Ptr → Addr → Prop
  | here {f : Ptr} {a : Addr} (h : SlotOf f a) : SourceSlot c old j f a
  | there {f q : Ptr} {a b : Addr} {cost : Nat} (h : SlotOf f a) (hq : pointee c a = some (q, cost))
    (hnew : ¬ CopiedBefore old j q) (hb : SourceSlot c old j q b) : SourceSlot c old j f b

/-! ## Other sessions -/

section

variable {w : World} {i j k : Nat}

theorem World.set_ne (w : World) {c : Capn} (h : k ≠ i) : w.set i c k = w k := if_neg h

theorem memcpy_ne (h : k ≠ i) (dst src : Option Addr) (n : Nat) : memcpy w i dst j src n k = w k := by
  unfold memcpy
  split
  · exact World.set_ne _ h
  · rfl

theorem memzero_ne (h : k ≠ i) (dst : Option Addr) (n : Nat) : memzero w i dst n k = w k := by
  unfold memzero
  split
  · exact World.set_ne _ h
  · rfl

theorem copyListMember_ne (h : k ≠ i) (t f : Ptr) : (copyListMember w i j t f).1 k = w k :=
  (memzero_ne h _ _).trans ((memzero_ne h _ _).trans (memcpy_ne h _ _ _))

theorem copyBody_ne (h : k ≠ i) (t f : Ptr) : (copyBody w i j t f).world k = w k := by
  simp only [copyBody]
  split
  · have hm : (if t.datasz ≠ 0 then memcpy w i t.data j f.data t.datasz else w) k = w k := by
      split
      · exact memcpy_ne h _ _ _
      · rfl
    split <;> exact hm
  · split
    · split
      · rfl
      · exact World.set_ne _ h
    · exact memcpy_ne h _ _ _
  · split
    · rfl
    split
    · rfl
    split
    · exact memcpy_ne h _ _ _
    split <;> rfl
  · split <;> rfl
  · rfl
  · rfl

theorem copyPtr_ne (h : k ≠ i) (s : Nat) (d : Addr) (f : Ptr) : (copyPtr w i j s d f).world k = w k := by
  simp only [copyPtr]
  split
  · rfl
  · exact World.set_ne _ h
  · rcases copyFresh_cases w i j s d f with ⟨e, -⟩ | ⟨-, -, e⟩ | ⟨-, -, c, -, e⟩ <;> rw [e]
    · exact World.set_ne _ h
    · rw [copyBody_ne h, World.set_ne _ h]
    · rw [copyBody_ne h, World.set_ne _ h]

theorem copySlot_ne (h : k ≠ i) (tc f : Ptr) : (copySlot w i j tc f).world k = w k := by
  unfold copySlot
  split
  · rfl
  · exact copyPtr_ne h _ _ _
  · rfl

/-- A copy does not change the message that it reads. -/
theorem copyStep_source {s s' : CopyState} (hij : i ≠ j) (h : copyStep i j s = .next s') :
    (s'.world j).segs = (s.world j).segs := by
  have hread : ∀ {c : Capn}, (∃ used err, c = { s.world j with traversalUsed := used, decodeErr := err }) →
      (s.world.set j c j).segs = (s.world j).segs := by
    rintro c ⟨u, e, rfl⟩
    rw [World.set_self]
  revert h
  simp only [copyStep]
  rcases s.stack with _ | ⟨⟨tc, fc⟩, rest⟩
  · rintro ⟨⟩
  simp only
  split
  · rintro ⟨⟩
  split
  · rintro ⟨⟩
    rfl
  split
  · rintro ⟨⟩
    show ((copyListMember _ i j _ _).1 j).segs = _
    rw [copyListMember_ne hij.symm, World.set_ne _ hij.symm]
    exact hread (capnGetp_capn _ _ _ _)
  · split
    · rintro ⟨⟩
    · rintro ⟨⟩
      show ((copySlot _ i j _ _).world j).segs = _
      rw [copySlot_ne hij.symm]
      exact hread (readPtr_capn _ _ _ _)

end

/-! ## The walk -/

/-- The loop is about to copy the pointer at `fc` into the slot at `tc`. -/
def Visits (s : CopyState) (tc fc : Ptr) : Prop := ∃ rest, s.stack = (tc, fc) :: rest ∧ tc.type ≠ .LIST ∧ tc.len ≠ 0

/-- What is copied next of an entry of the stack. -/
def nextEntry (e : Ptr × Ptr) : Ptr × Ptr :=
  if e.1.type = .LIST then
    ({ e.1.advance (e.1.datasz + 8 * e.1.ptrs) with len := e.1.len - 1 }, e.2.advance (e.2.datasz + 8 * e.2.ptrs))
  else ({ e.1.advance 8 with len := e.1.len - 1 }, e.2.advance 8)

/-- The pointer that the loop reads at `fc`. -/
def sourceRead (s : CopyState) (j : Nat) (fc : Ptr) : Read := readPtr (s.world j) fc.seg fc.data (-1)

/-- What an entry of the stack adds to it. -/
def pushOf (i j : Nat) (s : CopyState) (tc fc : Ptr) : Option (Ptr × Ptr) :=
  if tc.type = .LIST then
    (copyListMember ((s.world.set j (capnGetp (s.world j) fc 0 true).capn).set i
      (capnGetp ((s.world.set j (capnGetp (s.world j) fc 0 true).capn) i) tc 0 true).capn) i j
      (capnGetp ((s.world.set j (capnGetp (s.world j) fc 0 true).capn) i) tc 0 true).ptr
      (capnGetp (s.world j) fc 0 true).ptr).2
  else (copySlot (s.world.set j (sourceRead s j fc).capn) i j tc (sourceRead s j fc).ptr).push

/-- **One iteration** of a copy that succeeds, on the entry at the top. -/
theorem copyStep_top {i j : Nat} {s : CopyState} {tc fc : Ptr} {rest : List (Ptr × Ptr)} {r : Int × World}
    (hs : s.stack = (tc, fc) :: rest) (hend : Loop.Ends (copyStep i j) s r) (hr : r.1 = 0) :
    (tc.len = 0 ∧ copyStep i j s = .next { s with stack := rest }) ∨
    tc.len ≠ 0 ∧ (tc.type ≠ .LIST →
        (copySlot (s.world.set j (sourceRead s j fc).capn) i j tc (sourceRead s j fc).ptr).ret = 0) ∧
      ∃ w, copyStep i j s = .next ⟨w, (pushOf i j s tc fc).toList ++ nextEntry (tc, fc) :: rest⟩ ∧
        (tc.type ≠ .LIST →
          w = (copySlot (s.world.set j (sourceRead s j fc).capn) i j tc (sourceRead s j fc).ptr).world) := by
  have hfail : ∀ w, copyStep i j s ≠ .done (-1, w) := by
    intro w h
    have := (Loop.ends_done h).mp hend
    rw [← this] at hr
    cases hr
  revert hfail
  simp only [copyStep, hs]
  split
  · exact fun hfail => absurd rfl (hfail _)
  split
  · rename_i h0
    exact fun _ => .inl ⟨h0, rfl⟩
  rename_i h0
  split
  · rename_i ht
    have hpush : pushOf i j s tc fc = _ := if_pos ht
    have hnext : nextEntry (tc, fc) = _ := if_pos ht
    rw [hpush, hnext]
    exact fun _ => .inr ⟨h0, fun hne => absurd ht hne, _, rfl, fun hne => absurd ht hne⟩
  · rename_i ht
    split
    · exact fun hfail => absurd rfl (hfail _)
    · rename_i hret
      have hpush : pushOf i j s tc fc = _ := if_neg ht
      have hnext : nextEntry (tc, fc) = _ := if_neg ht
      rw [hpush, hnext]
      exact fun _ => .inr ⟨h0, fun _ => not_not.mp hret, _, rfl, fun _ => rfl⟩

/-- Each part of an entry gets to the top of the stack. -/
theorem entry_top {i j : Nat} {s : CopyState} {r : Int × World} (hend : Loop.Ends (copyStep i j) s r) (hr : r.1 = 0)
    {e : Ptr × Ptr} (he : e ∈ s.stack) {k : Nat} (hk : (k : Int) < e.1.len) :
    ∃ s' rest, Loop.Path (copyStep i j) s s' ∧ s'.stack = nextEntry^[k] e :: rest := by
  obtain ⟨n, hn⟩ := hend
  induction n generalizing s e k with
  | zero => cases hn
  | succ n ih =>
    obtain ⟨top, rest, hs⟩ := List.exists_cons_of_ne_nil (List.ne_nil_of_mem he)
    obtain ⟨tc, fc⟩ := top
    have hgo : ∀ s', copyStep i j s = .next s' → ∀ e' (k' : Nat), e' ∈ s'.stack → (k' : Int) < e'.1.len →
        ∃ s'' rest, Loop.Path (copyStep i j) s s'' ∧ s''.stack = nextEntry^[k'] e' :: rest := by
      intro s' hstep e' k' he' hk'
      rw [Loop.run_succ_next hstep] at hn
      obtain ⟨s'', rest', hp, hst⟩ := ih he' hk' hn
      exact ⟨s'', rest', .head hstep hp, hst⟩
    have hlen : (nextEntry (tc, fc)).1.len = tc.len - 1 := by
      rw [nextEntry]
      split <;> rfl
    rw [hs] at he
    rcases copyStep_top hs ⟨n + 1, hn⟩ hr with ⟨h0, hstep⟩ | ⟨h0, -, w, hstep, -⟩
    · rcases List.mem_cons.mp he with rfl | he
      · exact absurd hk (by show ¬ (k : Int) < tc.len; omega)
      · exact hgo _ hstep e k he hk
    · rcases List.mem_cons.mp he with rfl | he
      · cases k with
        | zero => exact ⟨s, rest, .refl, hs⟩
        | succ k =>
          rw [Function.iterate_succ_apply]
          refine hgo _ hstep _ k ?_ ?_
          · exact List.mem_append_right _ List.mem_cons_self
          · rw [hlen]
            have : ((k + 1 : Nat) : Int) < tc.len := hk
            omega
      · exact hgo _ hstep e k (List.mem_append_right _ (List.mem_cons_of_mem _ he)) hk

/-- The bytes between the parts of an entry. -/
def stride (tc p : Ptr) : Int := if tc.type = .LIST then p.datasz + 8 * p.ptrs else 8

theorem Ptr.advance_advance (p : Ptr) (m n : Int) : (p.advance m).advance n = p.advance (m + n) := by
  simp only [Ptr.advance, Option.map_map]
  congr 2
  funext a
  simp only [Function.comp_apply, Addr.add, Int.add_assoc]

theorem Ptr.advance_zero (p : Ptr) : p.advance 0 = p := by
  simp only [Ptr.advance, Addr.add, Int.add_zero, Option.map_id']

theorem nextEntry_eq (e : Ptr × Ptr) :
    nextEntry e = ({ e.1.advance (stride e.1 e.1) with len := e.1.len - 1 }, e.2.advance (stride e.1 e.2)) := by
  by_cases ht : e.1.type = .LIST
  · rw [nextEntry, if_pos ht, stride, if_pos ht, stride, if_pos ht]
  · rw [nextEntry, if_neg ht, stride, if_neg ht, stride, if_neg ht]

/-- An entry after `k` parts. -/
theorem nextEntry_iterate (e : Ptr × Ptr) (k : Nat) :
    nextEntry^[k] e =
      ({ e.1.advance (k * stride e.1 e.1) with len := e.1.len - k }, e.2.advance (k * stride e.1 e.2)) := by
  induction k with
  | zero =>
    simp only [Function.iterate_zero, id_eq, Nat.cast_zero, Int.zero_mul, Ptr.advance_zero, Int.sub_zero]
  | succ k ih =>
    rw [Function.iterate_succ_apply', ih, nextEntry_eq]
    have hstride : ∀ (q q' : Ptr) (n n' l : Int), stride { q.advance n with len := l } (q'.advance n') = stride q q' :=
      fun _ _ _ _ _ => rfl
    have hself : ∀ (q : Ptr) (n l : Int), stride { q.advance n with len := l } { q.advance n with len := l } =
        stride q q := fun _ _ _ => rfl
    have hadv : ∀ (q : Ptr) (n l m l' : Int), ({ Ptr.advance { q.advance n with len := l } m with len := l' } : Ptr) =
        { q.advance (n + m) with len := l' } := by
      intro q n l m l'
      rw [← Ptr.advance_advance]
      rfl
    have hk : ∀ n : Int, (k : Int) * n + n = ((k + 1 : Nat) : Int) * n := fun n => by
      rw [Nat.cast_succ, Int.add_mul, Int.one_mul]
    simp only [hself, hstride, hadv, Ptr.advance_advance, hk]
    refine Prod.ext ?_ rfl
    simp only [Ptr.mk.injEq, true_and, and_true]
    push_cast
    omega

section

variable {i j : Nat} {s₀ : CopyState} {r : Int × World}

/-- The loop gets to the slot `a` of the source. -/
def Visited (i j : Nat) (s₀ : CopyState) (a : Addr) : Prop :=
  ∃ s tc fc, Loop.Path (copyStep i j) s₀ s ∧ Visits s tc fc ∧ fc.data = some a ∧ fc.seg = some a.seg

/-- The pointers of an entry are visited. -/
theorem visited_pointers (hend : Loop.Ends (copyStep i j) s₀ r) (hr : r.1 = 0) {s : CopyState}
    (hp : Loop.Path (copyStep i j) s₀ s) {tc fc : Ptr} (he : (tc, fc) ∈ s.stack) (ht : tc.type ≠ .LIST) {b : Addr}
    (hb : fc.data = some b ∧ fc.seg = some b.seg) {k : Nat} (hk : (k : Int) < tc.len) :
    Visited i j s₀ (b.add (8 * k)) := by
  obtain ⟨s', rest, hp', hst⟩ := entry_top (hp.ends hend) hr he hk
  rw [nextEntry_iterate] at hst
  refine ⟨s', _, _, hp.trans hp', ⟨rest, hst, ht, ?_⟩, ?_, hb.2⟩
  · show tc.len - k ≠ 0
    omega
  · simp only [Ptr.advance, hb.1, stride, if_neg ht, Option.map_some, Int.mul_comm]

/-- A member of a list, as `capn_getp` gives it. -/
theorem getp_member {c : Capn} {p : Ptr} (ht : p.type = .LIST) (hlen : 0 < p.len) :
    (capnGetp c p 0 true).ptr = { type := .STRUCT, isListMember := true, seg := p.seg, datasz := p.datasz,
                                  ptrs := p.ptrs, data := p.data, nestingValid := true,
                                  nesting := hopRemaining c p } := by
  have hr : capnResolve c p = ⟨c, p, []⟩ := if_neg (by rw [ht]; decide)
  simp only [capnGetp, hr, getpResolved, ht, if_pos hlen, Int.zero_mul, Addr.add, Int.add_zero, Option.map_id']

/-- The pointers of the elements of an entry are visited. -/
theorem visited_elements (hend : Loop.Ends (copyStep i j) s₀ r) (hr : r.1 = 0) {s : CopyState}
    (hp : Loop.Path (copyStep i j) s₀ s) {tc fc : Ptr} (he : (tc, fc) ∈ s.stack) (ht : tc.type = .LIST)
    (hf : fc.type = .LIST) (hfl : 0 < fc.len) (hps : fc.ptrs = tc.ptrs) {b : Addr}
    (hb : fc.data = some b ∧ fc.seg = some b.seg) {m k : Nat} (hm : (m : Int) < tc.len) (hk : k < fc.ptrs) :
    Visited i j s₀ (b.add (m * (fc.datasz + 8 * fc.ptrs) + (fc.datasz + 8 * k))) := by
  obtain ⟨s', rest, hp', hst⟩ := entry_top (hp.ends hend) hr he hm
  rw [nextEntry_iterate] at hst
  -- the element at the top pushes its pointers
  rcases copyStep_top hst (Loop.Path.ends (hp.trans hp') hend) hr with ⟨h0, -⟩ | ⟨h0, -, w, hstep, -⟩
  · have h0 : tc.len - m = 0 := h0
    omega
  · have hpush : ∃ t f, pushOf i j s' { tc.advance (m * stride tc tc) with len := tc.len - m }
        (fc.advance (m * stride tc fc)) = some (t, f) ∧ t.type = .PTR_LIST ∧ t.len = tc.ptrs ∧
          f.data = some (b.add (m * (fc.datasz + 8 * fc.ptrs) + fc.datasz)) ∧ f.seg = some b.seg := by
      have hf' : (fc.advance (m * stride tc fc)).type = .LIST := hf
      have hl' : 0 < (fc.advance (m * stride tc fc)).len := hfl
      have ht' : ({ tc.advance (m * stride tc tc) with len := tc.len - m } : Ptr).type = .LIST := ht
      have hlt : 0 < ({ tc.advance (m * stride tc tc) with len := tc.len - m } : Ptr).len := by
        show 0 < tc.len - m
        omega
      rw [pushOf, if_pos ht']
      simp only [copyListMember, getp_member hf' hl', getp_member ht' hlt]
      have hne : tc.ptrs ≠ 0 := by omega
      refine ⟨_, _, if_pos hne, rfl, rfl, ?_, hb.2⟩
      simp only [Ptr.advance, hb.1, stride, if_pos ht, Option.map_some, Addr.add, Int.add_assoc]
    obtain ⟨t, f, hpush, htt, htl, hfd, hfs⟩ := hpush
    rw [hpush] at hstep
    have hmem : (t, f) ∈ (⟨w, (some (t, f)).toList ++ nextEntry
        ({ tc.advance (m * stride tc tc) with len := tc.len - m }, fc.advance (m * stride tc fc)) :: rest⟩ :
          CopyState).stack := List.mem_cons_self
    have := visited_pointers (k := k) hend hr ((hp.trans hp').tail hstep) hmem (by rw [htt]; decide) ⟨hfd, hfs⟩
      (by rw [htl]; omega)
    rwa [show (b.add (m * (fc.datasz + 8 * fc.ptrs) + fc.datasz)).add (8 * k) =
      b.add (m * (fc.datasz + 8 * fc.ptrs) + (fc.datasz + 8 * k)) by simp only [Addr.add, Int.add_assoc]] at this

/-- All pointers of an object are visited. -/
def Covered (i j : Nat) (s₀ : CopyState) (f : Ptr) : Prop := ∀ a, SlotOf f a → Visited i j s₀ a

theorem Addr.add_add (a : Addr) (m n : Int) : (a.add m).add n = a.add (m + n) := by
  simp only [Addr.add, Int.add_assoc]

/-- A copy that is begun gets to all pointers of its object. -/
theorem copyBody_covers (hend : Loop.Ends (copyStep i j) s₀ r) (hr : r.1 = 0) {s : CopyState}
    (hp : Loop.Path (copyStep i j) s₀ s) {w : World} {c : Capn} {seg : Nat} {f : Ptr} (hf : f.Fine)
    (hret : (copyBody w i j (newClone c seg f).2 f).ret = 0)
    (hpush : ∀ e, (copyBody w i j (newClone c seg f).2 f).push = some e → e ∈ s.stack) : Covered i j s₀ f := by
  obtain ⟨b, hb⟩ := hf.place
  have hnull : ∀ t : Ptr, t = {} → (copyBody w i j t f).ret ≠ 0 := by
    rintro t rfl
    rintro ⟨⟩
  rintro a ⟨b', hb', hslot⟩
  cases hb.1.symm.trans hb'
  cases ht : f.type with
  | STRUCT =>
    simp only [ht] at hslot
    obtain ⟨k, hk, rfl⟩ := hslot
    obtain ⟨h8, hd, hps⟩ := hf.sizes (by omega)
    simp only [newClone, ht] at hret hpush
    rcases (made_struct c (some seg) f.datasz f.ptrs).fields with e | ⟨e, -, hd', hp'⟩
    · exact absurd hret (hnull _ e)
    · have hd' : (capnNewStruct c (some seg) f.datasz f.ptrs).2.datasz = f.datasz := by
        refine hd'.trans ?_
        show (f.datasz + 7) / 8 * 8 % 2 ^ 19 = f.datasz
        omega
      have hp' : (capnNewStruct c (some seg) f.datasz f.ptrs).2.ptrs = f.ptrs :=
        hp'.trans (Nat.mod_eq_of_lt hps)
      have hmem := hpush _ (by
        simp only [copyBody, e]
        rw [if_pos (by show (capnNewStruct c (some seg) f.datasz f.ptrs).2.ptrs ≠ 0; omega)])
      have := visited_pointers (k := k) (b := b.add f.datasz) hend hr hp hmem (by rintro ⟨⟩)
        ⟨by simp only [Ptr.advance, hb.1, hd', Option.map_some], hb.2⟩ (by
          show (k : Int) < (capnNewStruct c (some seg) f.datasz f.ptrs).2.ptrs
          omega)
      rwa [Addr.add_add] at this
  | PTR_LIST =>
    simp only [ht] at hslot
    obtain ⟨k, hk, rfl⟩ := hslot
    simp only [newClone, ht] at hret hpush
    rcases (made_object c { type := .PTR_LIST, seg := some seg, len := (f.len.toNat : Int) } (f.len.toNat * 8)).fields
      with e | ⟨e, hl, -, -⟩
    · exact absurd hret (hnull _ e)
    · have e : (capnNewPtrList c (some seg) f.len.toNat).2.type = .PTR_LIST := e
      have hl : (capnNewPtrList c (some seg) f.len.toNat).2.len = f.len.toNat := hl
      have hmem := hpush _ (by
        simp only [copyBody, e]
        rw [if_pos (by omega)])
      exact visited_pointers hend hr hp hmem (by rw [e]; decide) hb (by omega)
  | LIST =>
    simp only [ht] at hslot
    obtain ⟨m, k, hm, hk, rfl⟩ := hslot
    obtain ⟨h8, hd, hps⟩ := hf.sizes (by omega)
    have hcomp : f.isCompositeList = true := by
      by_contra hc
      have := hf.plain ht (by simpa using hc)
      omega
    simp only [newClone, ht, if_pos hcomp] at hret hpush
    rcases (made_structList c (some seg) f.len.toNat f.datasz f.ptrs).fields with e | ⟨e, hl, hd', hp'⟩
    · exact absurd hret (hnull _ e)
    · generalize (capnNewStructList c (some seg) f.len.toNat f.datasz f.ptrs).2 = t at e hl hd' hp' hret hpush
      have hl : t.len = f.len.toNat := hl
      have hd' : t.datasz = f.datasz := by
        refine hd'.trans ?_
        show (f.datasz + 7) / 8 * 8 % 2 ^ 19 = f.datasz
        omega
      have hp' : t.ptrs = f.ptrs := hp'.trans (Nat.mod_eq_of_lt hps)
      have e : t.type = .LIST := e
      simp only [copyBody, e] at hpush
      rw [if_neg (by omega)] at hpush
      by_cases hz : f.datasz = 0
      · -- elements of pointers alone are copied as one list of pointers
        rw [if_neg (by omega), if_neg (by omega), if_pos (by omega)] at hpush
        have hlt : ((m * f.ptrs + k : Nat) : Int) < t.len * t.ptrs := by
          have h1 : (m + 1) * f.ptrs ≤ f.len.toNat * f.ptrs := Nat.mul_le_mul_right _ (by omega)
          rw [Nat.add_mul] at h1
          rw [hl, hp']
          exact_mod_cast (by omega : m * f.ptrs + k < f.len.toNat * f.ptrs)
        have := visited_pointers (k := m * f.ptrs + k) hend hr hp (hpush _ rfl) (by rintro ⟨⟩) hb hlt
        rwa [show (8 : Int) * ((m * f.ptrs + k : Nat) : Int) =
          m * (f.datasz + 8 * f.ptrs) + (f.datasz + 8 * k) by rw [hz]; push_cast; ring] at this
      · rw [if_pos (by omega)] at hpush
        exact visited_elements hend hr hp (hpush _ rfl) e ht (by omega) hp'.symm hb (by omega) hk
  | BIT_LIST => simp only [ht] at hslot
  | NULL => simp only [ht] at hslot
  | FAR_POINTER => simp only [ht] at hslot
  | INTERFACE => simp only [ht] at hslot

end

/-! ## What is linked -/

section

variable {w : World} {i j : Nat}

theorem Made.place {c : Capn} {p : Ptr} {r : Capn × Ptr} (h : Made c p r) :
    r.2 = {} ∨ ∃ s a, r.2.seg = some s ∧ r.2.data = some a := by
  rcases h.ptr with e | ⟨s, o, b, e, -⟩
  · exact .inl e
  · rw [e]
    exact .inr ⟨s, ⟨s, o⟩, rfl, rfl⟩

/-- A clone has a place. -/
theorem newClone_place {c : Capn} {s : Nat} {f : Ptr} (hobj : (newClone c s f).2.IsObject) :
    ∃ s' a, (newClone c s f).2.seg = some s' ∧ (newClone c s f).2.data = some a := by
  have hmade : ∀ {p : Ptr} {q : Capn × Ptr}, Made c p q → q.2.IsObject →
      ∃ s' a, q.2.seg = some s' ∧ q.2.data = some a := by
    intro p q hq ho
    refine hq.place.resolve_left fun e => ?_
    rw [e] at ho
    exact ho.1 rfl
  revert hobj
  unfold newClone
  cases ht : f.type with
  | STRUCT => exact hmade (made_struct _ _ _ _)
  | PTR_LIST => exact hmade (made_object _ _ _)
  | BIT_LIST => exact hmade (made_list1 _ _ _)
  | LIST =>
    simp only
    split
    · exact hmade (made_structList _ _ _ _ _)
    · obtain ⟨_, hp, -⟩ := made_list c (some s) f.len.toNat f.datasz f.ptrs
      exact hmade hp
  | INTERFACE => exact fun h => absurd rfl h.2.2
  | NULL => exact fun h => absurd ht h.1
  | FAR_POINTER => exact fun h => absurd ht h.2.1

theorem copyBody_ret {t f : Ptr} (h : (copyBody w i j t f).ret = 0) : t.type ≠ .NULL ∧ t.type ≠ .FAR_POINTER := by
  refine ⟨fun ht => ?_, fun ht => ?_⟩ <;> simp only [copyBody, ht] at h <;> cases h

/-- What is pushed is at a place of the copy. -/
theorem copyBody_push {t f : Ptr} {e : Ptr × Ptr} (h : (copyBody w i j t f).push = some e) :
    t.IsObject ∧ e.1.seg = t.seg ∧ ∃ n, e.1.data = t.data.map (·.add n) := by
  have hzero : t.data = t.data.map (·.add 0) := by
    simp only [Addr.add, Int.add_zero, Option.map_id']
  simp only [copyBody] at h
  split at h
  · rename_i ht
    refine ⟨⟨by rw [ht]; decide, by rw [ht]; decide, by rw [ht]; decide⟩, ?_⟩
    split at h
    · cases h
      exact ⟨rfl, _, rfl⟩
    · cases h
  · split at h
    · split at h <;> cases h
    · cases h
  · rename_i ht
    refine ⟨⟨by rw [ht]; decide, by rw [ht]; decide, by rw [ht]; decide⟩, ?_⟩
    split at h
    · cases h
    split at h
    · cases h
      exact ⟨rfl, 0, hzero⟩
    split at h
    · cases h
    split at h
    · cases h
      exact ⟨rfl, 0, hzero⟩
    · cases h
  · rename_i ht
    refine ⟨⟨by rw [ht]; decide, by rw [ht]; decide, by rw [ht]; decide⟩, ?_⟩
    split at h
    · cases h
      exact ⟨rfl, 0, hzero⟩
    · cases h
  · cases h
  · cases h

/-- A copy that is begun points somewhere. -/
theorem copyBody_points {c : Capn} {s : Nat} {f : Ptr} (h : (copyBody w i j (newClone c s f).2 f).ret = 0) :
    (newClone c s f).2.Points := by
  obtain ⟨hn, hf⟩ := copyBody_ret h
  refine ⟨hn, ?_⟩
  by_cases hi : (newClone c s f).2.type = .INTERFACE
  · exact .inl hi
  · obtain ⟨_, a, -, e⟩ := newClone_place ⟨hn, hf, hi⟩
    exact .inr (by rw [e]; exact nofun)

/-- A pointer of an object that the copy stores into. -/
def Held (e : Ptr × Ptr) : Prop := ∃ s a, e.1.seg = some s ∧ e.1.data = some a

theorem Held.advance {e : Ptr × Ptr} (h : Held e) {t f : Ptr} {n : Int} (hs : t.seg = e.1.seg)
    (hd : t.data = e.1.data.map (·.add n)) : Held (t, f) := by
  obtain ⟨s, a, hes, hea⟩ := h
  refine ⟨s, a.add n, hs.trans hes, ?_⟩
  rw [hd, hea]
  rfl

theorem copyBody_held {c : Capn} {s : Nat} {f : Ptr} {e : Ptr × Ptr}
    (h : (copyBody w i j (newClone c s f).2 f).push = some e) : Held e := by
  obtain ⟨hobj, hs, n, hd⟩ := copyBody_push h
  obtain ⟨s', a, hs', ha⟩ := newClone_place hobj
  exact Held.advance (e := ((newClone c s f).2, f)) ⟨s', a, hs', ha⟩ hs hd

/-- What `copy_ptr` does when it succeeds. -/
theorem copyPtr_cases {s : Nat} {d : Addr} {f : Ptr} (h : (copyPtr w i j s d f).ret = 0) :
    (∃ t, findCopy (w i) j f = .copied t ∧ (writePtr (w i) s d t false).1 = 0 ∧
      copyPtr w i j s d f = ⟨0, w.set i (writePtr (w i) s d t false).2, none⟩) ∨
    findCopy (w i) j f = .free ∧ (linkClone (w i) s d f).1 = 0 ∧ ∃ w' : World,
      copyPtr w i j s d f = copyBody w' i j (newClone (w i) s f).2 f ∧
        (copyBody w' i j (newClone (w i) s f).2 f).ret = 0 ∧
        ((f.zeroSized ∧ (w' i).copy = (w i).copy) ∨
          (w' i).copy = ⟨(newClone (w i) s f).2, f, j, f.fseg, f.fbegin, f.fend⟩ :: (w i).copy) := by
  simp only [copyPtr] at h ⊢
  cases hfind : findCopy (w i) j f with
  | overlap =>
    rw [hfind] at h
    cases h
  | copied t =>
    rw [hfind] at h
    have h : (writePtr (w i) s d t false).1 = 0 := h
    exact .inl ⟨t, rfl, h, by rw [← h]⟩
  | free =>
    rw [hfind] at h
    refine .inr ⟨rfl, ?_⟩
    simp only at h ⊢
    rcases copyFresh_cases w i j s d f with ⟨e, -⟩ | ⟨h0, hz, e⟩ | ⟨h0, -, c, hc, e⟩ <;> rw [e] at h ⊢
    · cases h
    · refine ⟨h0, _, rfl, h, .inl ⟨hz, ?_⟩⟩
      rw [World.set_self, linkClone_copy]
    · refine ⟨h0, _, rfl, h, .inr ?_⟩
      rw [World.set_self, (newCopy_copy hc).2, linkClone_copy]

/-- A slot is linked if what the index has is not null. -/
theorem copyPtr_links {s : Nat} {d : Addr} {f : Ptr} (h : (copyPtr w i j s d f).ret = 0)
    (hfound : FoundPoints (w i) j f) : Links (w i) j (some s) (some d) f := by
  rcases copyPtr_cases h with ⟨t, hf, hw, -⟩ | ⟨hf, hw, w', -, hret, -⟩
  · exact ⟨s, d, w i, t, rfl, rfl, by rw [copyFor, hf], hfound t hf, hw⟩
  · exact ⟨s, d, _, _, rfl, rfl, by rw [copyFor, hf], copyBody_points hret, hw⟩

theorem Links.found {c : Capn} {s : Option Nat} {d : Option Addr} {f : Ptr} (h : Links c j s d f) :
    FoundPoints c j f := by
  obtain ⟨seg, a, c', t, -, -, ht, hp, -⟩ := h
  intro t' ht'
  rw [copyFor, ht'] at ht
  cases ht
  exact hp

theorem Links.notNull {c : Capn} {s : Option Nat} {d : Option Addr} {f : Ptr} (h : Links c j s d f) :
    f.type ≠ .NULL := by
  obtain ⟨seg, a, c', t, -, -, ht, hp, -⟩ := h
  intro hnull
  have hz : f.zeroSized := .inl (by simp only [Ptr.fend, dataSize, hnull, Int.add_zero])
  have hfree : findCopy c j f = .free := if_pos hz
  simp only [copyFor, hfree, newClone, hnull] at ht
  cases ht
  exact hp.1 hnull

end

/-! ## What reading gives -/

section

variable {c : Capn} {s : Option Nat} {d : Option Addr} {rem : Int}

theorem Decodes.read (h : Decodes c s d) (hrem : rem ≠ 0) : ∃ a q cost, s = some a.seg ∧ d = some a ∧
    boundsOk c s d 8 ∧ pointee c a = some (q, cost) ∧ Affords c cost ∧ (readPtr c s d rem).ptr = q.withNesting rem := by
  obtain ⟨a, q, cost, rfl, rfl, hb, hq, ha⟩ := h
  refine ⟨a, q, cost, rfl, rfl, hb, hq, ha, ?_⟩
  have := @readPtr_eq c a.seg a.off rem hrem hb
  simp only [hq, if_pos ha] at this
  rw [this]

/-- A failed read looks like a null pointer. -/
theorem decodes_of_read (h : (readPtr c s d rem).ptr.type ≠ .NULL) : rem ≠ 0 ∧ Decodes c s d := by
  rcases readPtr_cases c s d rem with ⟨_, e, -⟩ | ⟨seg, off, q, cost, hrem, rfl, rfl, hb, hq, ha, -⟩
  · rw [e] at h
    exact absurd rfl h
  · exact ⟨hrem, ⟨seg, off⟩, q, cost, rfl, rfl, hb, hq, ha⟩

theorem withNesting_type (q : Ptr) (rem : Int) : (q.withNesting rem).type = q.type := by
  obtain ⟨n, v, e⟩ := withNesting_eq q rem
  rw [e]

theorem ReadsNull.decodes (h : ReadsNull c s d) : Decodes c s d := by
  obtain ⟨a, q, cost, hs, hd, hb, hq, hnull⟩ := h
  refine ⟨a, q, cost, hs, hd, hb, hq, .inl ?_⟩
  rcases pointee_spec hq with ⟨-, -, hc⟩ | ⟨hsh, -, hc⟩
  · exact hc
  · have hlen : q.len = 0 := by
      have := hsh.2.2
      rw [hnull] at this
      exact this.2.2.2
    have hext : q.extent = 0 := by simp only [Ptr.extent, hnull]
    rw [hc, hext, hlen]
    rfl

theorem ReadsNull.read (h : ReadsNull c s d) : (readPtr c s d rem).ptr.type = .NULL := by
  obtain ⟨a, p, cost, -, hd, -, hp, hnull⟩ := h
  rcases readPtr_cases c s d rem with ⟨_, e, -⟩ | ⟨seg, off, q, cost', -, -, hd', -, hq, -, e⟩ <;> rw [e]
  · rfl
  · cases hd.symm.trans hd'
    cases hp.symm.trans hq
    exact (withNesting_type _ _).trans hnull

theorem isPtrEqual_withNesting (q e : Ptr) (rem : Int) : isPtrEqual (q.withNesting rem) e = isPtrEqual q e := by
  obtain ⟨n, v, h⟩ := withNesting_eq q rem
  rw [h]
  rfl

theorem slotOf_withNesting (q : Ptr) (rem : Int) (a : Addr) : SlotOf (q.withNesting rem) a ↔ SlotOf q a := by
  obtain ⟨n, v, h⟩ := withNesting_eq q rem
  rw [h]
  exact .rfl

theorem slotOf_eq {q e : Ptr} (h : isPtrEqual q e = true) (a : Addr) : SlotOf q a ↔ SlotOf e a := by
  simp only [isPtrEqual, Bool.and_eq_true, decide_eq_true_eq] at h
  obtain ⟨⟨⟨⟨hd, ht⟩, hl⟩, hs⟩, hp⟩ := h
  simp only [SlotOf, hd, ht, hl, hs, hp]

theorem Ptr.Fine.withNesting {q : Ptr} (h : q.Fine) (rem : Int) : (q.withNesting rem).Fine := by
  obtain ⟨n, v, e⟩ := withNesting_eq q rem
  rw [e]
  exact ⟨h.place, h.len, h.plain, h.sizes⟩

/-- What a word points at. -/
theorem pointee_fine {a : Addr} {q : Ptr} {cost : Nat} (h : pointee c a = some (q, cost)) (hobj : q.IsObject) :
    q.Fine := by
  rcases pointee_spec h with ⟨hi, -⟩ | ⟨⟨-, hlen, hsh⟩, ⟨seg, off, hs, hd, -⟩, -⟩
  · exact absurd hi hobj.2.2
  · have hplace : ∃ a, q.data = some a ∧ q.seg = some a.seg := ⟨_, hd, hs⟩
    cases ht : q.type with
    | STRUCT =>
      rw [ht] at hsh
      exact ⟨hplace, hlen, fun e => absurd e (by rw [ht]; decide), fun _ => ⟨hsh.2.1, hsh.2.2.1, hsh.2.2.2.1⟩⟩
    | LIST =>
      rw [ht] at hsh
      simp only at hsh
      by_cases hc : q.isCompositeList = true
      · rw [if_pos hc] at hsh
        exact ⟨hplace, hlen, fun _ hn => absurd hn (by rw [hc]; decide), fun _ => ⟨hsh.1, hsh.2.1, hsh.2.2.1⟩⟩
      · rw [if_neg hc] at hsh
        exact ⟨hplace, hlen, fun _ _ => hsh.2.1, fun hne => absurd hsh.2.1 hne⟩
    | PTR_LIST =>
      rw [ht] at hsh
      exact ⟨hplace, hlen, fun e => absurd e (by rw [ht]; decide), fun hne => absurd hsh.2.2.1 hne⟩
    | BIT_LIST =>
      rw [ht] at hsh
      exact ⟨hplace, hlen, fun e => absurd e (by rw [ht]; decide), fun hne => absurd hsh.2.2.2 hne⟩
    | NULL => exact absurd ht hobj.1
    | FAR_POINTER => exact absurd ht hobj.2.1
    | INTERFACE => exact absurd ht hobj.2.2

theorem slotOf_isObject {f : Ptr} {a : Addr} (h : SlotOf f a) : f.IsObject := by
  obtain ⟨b, -, h⟩ := h
  refine ⟨fun ht => ?_, fun ht => ?_, fun ht => ?_⟩ <;> simp only [ht] at h

end

/-! ## The walk is complete -/

section

variable {i j : Nat} {s₀ : CopyState} {r : Int × World} {old : Capn}

theorem copyBody_covered (hend : Loop.Ends (copyStep i j) s₀ r) (hr : r.1 = 0) {s : CopyState}
    (hp : Loop.Path (copyStep i j) s₀ s) {w : World} {c : Capn} {seg : Nat} {f : Ptr} (hf : f.IsObject → f.Fine)
    (hret : (copyBody w i j (newClone c seg f).2 f).ret = 0)
    (hpush : ∀ e, (copyBody w i j (newClone c seg f).2 f).push = some e → e ∈ s.stack) : Covered i j s₀ f :=
  fun a ha => copyBody_covers hend hr hp (hf (slotOf_isObject ha)) hret hpush a ha

variable (i j s₀ old) in
/-- The loop has places for its entries, and the objects of the index `old` aside, it
gets to the pointers of the objects that it has copies of. -/
structure Copying (s : CopyState) : Prop where
  held : ∀ e ∈ s.stack, Held e
  index : ∀ e ∈ (s.world i).copy, e ∈ old.copy ∨ e.src = j ∧ Covered i j s₀ e.fromPtr

/-- A copy that is begun. -/
theorem copyPtr_copying (hend : Loop.Ends (copyStep i j) s₀ r) (hr : r.1 = 0) {s : CopyState}
    (hp : Loop.Path (copyStep i j) s₀ s) {w : World} {seg : Nat} {d : Addr} {f : Ptr} (hf : f.IsObject → f.Fine)
    (hret : (copyPtr w i j seg d f).ret = 0) (hpush : ∀ e, (copyPtr w i j seg d f).push = some e → e ∈ s.stack)
    (hindex : ∀ e ∈ (w i).copy, e ∈ old.copy ∨ e.src = j ∧ Covered i j s₀ e.fromPtr) :
    (∀ e, (copyPtr w i j seg d f).push = some e → Held e) ∧
    (∀ e ∈ ((copyPtr w i j seg d f).world i).copy, e ∈ old.copy ∨ e.src = j ∧ Covered i j s₀ e.fromPtr) ∧
    (CopiedBefore old j f ∨ Covered i j s₀ f) := by
  rcases copyPtr_cases hret with ⟨t, hfind, -, e⟩ | ⟨-, -, w', e, hret', hw⟩
  · rw [e]
    refine ⟨fun _ h => (Option.some_ne_none _ h.symm).elim, ?_, ?_⟩
    · show ∀ e ∈ (w.set i _ i).copy, _
      rw [World.set_self, (writes_ptr _ _ _ _ _).copy]
      exact hindex
    · -- the index has the object
      obtain ⟨e, he, hsrc, heq⟩ : CopiedBefore (w i) j f := by
        rw [findCopy] at hfind
        split at hfind
        · cases hfind
        split at hfind
        · cases hfind
        rename_i e hmem
        have hp := List.find?_some hmem
        rw [decide_eq_true_eq] at hp
        split at hfind
        · rename_i heq
          exact ⟨e, List.mem_of_find?_eq_some hmem, hp.1, heq⟩
        · cases hfind
      rcases hindex e he with ho | ⟨-, hcov⟩
      · exact .inl ⟨e, ho, hsrc, heq⟩
      · exact .inr fun a ha => hcov a ((slotOf_eq heq a).mp ha)
  · rw [e] at hpush ⊢
    have hcov := copyBody_covered hend hr hp hf hret' hpush
    refine ⟨fun _ he => copyBody_held he, ?_, .inr hcov⟩
    rw [copyBody_copy]
    rcases hw with ⟨-, hw⟩ | hw
    · rw [hw]
      exact hindex
    · rw [hw]
      rintro e (_ | ⟨_, he⟩)
      · exact .inr ⟨rfl, hcov⟩
      · exact hindex e he

theorem readPtr_fine (c : Capn) (s : Option Nat) (d : Option Addr) (rem : Int) :
    (readPtr c s d rem).ptr.IsObject → (readPtr c s d rem).ptr.Fine := by
  rcases readPtr_cases c s d rem with ⟨_, e, -⟩ | ⟨seg, off, q, cost, -, -, -, -, hq, -, e⟩ <;> rw [e]
  · exact fun h => absurd rfl h.1
  · intro hobj
    rw [Ptr.IsObject, withNesting_type] at hobj
    exact (pointee_fine hq hobj).withNesting rem

theorem copySlot_null {w : World} {tc f : Ptr} (h : f.type = .NULL) : copySlot w i j tc f = ⟨0, w, none⟩ := by
  simp only [copySlot, h]

theorem copySlot_copy {w : World} {tc f : Ptr} {seg : Nat} {d : Addr} (h : f.type ≠ .NULL) (hs : tc.seg = some seg)
    (hd : tc.data = some d) : copySlot w i j tc f = copyPtr w i j seg d f := by
  simp only [copySlot, hs, hd]

/-- What is pushed for an element has a place. -/
theorem pushOf_held {s : CopyState} {tc fc : Ptr} {e : Ptr × Ptr} (hheld : Held (tc, fc)) (ht : tc.type = .LIST)
    (h : pushOf i j s tc fc = some e) : Held e := by
  rw [pushOf, if_pos ht] at h
  simp only [copyListMember] at h
  by_cases hlen : 0 < tc.len
  · rw [getp_member ht hlen] at h
    split at h
    · cases h
      exact hheld.advance rfl rfl
    · cases h
  · have hnull : ∀ c, (capnGetp c tc 0 true).ptr = {} := by
      intro c
      have hres : capnResolve c tc = ⟨c, tc, []⟩ := if_neg (by rw [ht]; decide)
      simp only [capnGetp, hres, getpResolved, ht]
      rw [if_neg hlen]
    rw [hnull] at h
    split at h
    · rename_i hne
      exact absurd rfl hne
    · cases h

/-- An element leaves the index as it is. -/
theorem copyStep_index {s s' : CopyState} {tc fc : Ptr} {rest : List (Ptr × Ptr)} (hij : i ≠ j)
    (hs : s.stack = (tc, fc) :: rest) (ht : tc.type = .LIST) (h : copyStep i j s = .next s') :
    (s'.world i).copy = (s.world i).copy := by
  revert h
  simp only [copyStep, hs, ht, if_true]
  split
  · rintro ⟨⟩
  split
  · rintro ⟨⟩
    rfl
  · rintro ⟨⟩
    show ((copyListMember _ i j _ _).1 i).copy = _
    rw [copyListMember_copy, World.set_self]
    obtain ⟨u, v, hc⟩ := capnGetp_capn ((s.world.set j (capnGetp (s.world j) fc 0 true).capn) i) tc 0 true
    rw [hc, World.set_ne _ hij]

/-- **One iteration** keeps the invariant, and copies what it reads. -/
theorem Copying.step (hij : i ≠ j) (hend : Loop.Ends (copyStep i j) s₀ r) (hr : r.1 = 0) {s s' : CopyState}
    (hp : Loop.Path (copyStep i j) s₀ s) (hw : Copying i j s₀ old s) (h : copyStep i j s = .next s') :
    Copying i j s₀ old s' ∧ ∀ tc fc, Visits s tc fc → (sourceRead s j fc).ptr.type = .NULL ∨
      (FoundPoints (s.world i) j (sourceRead s j fc).ptr →
        Links (s.world i) j tc.seg tc.data (sourceRead s j fc).ptr) ∧
      (CopiedBefore old j (sourceRead s j fc).ptr ∨ Covered i j s₀ (sourceRead s j fc).ptr) := by
  have hp' := hp.tail h
  cases hs : s.stack with
  | nil =>
    rw [copyStep, hs] at h
    cases h
  | cons top rest =>
    obtain ⟨tc, fc⟩ := top
    have hheld : Held (tc, fc) := hw.held _ (by rw [hs]; exact List.mem_cons_self)
    have hrest : ∀ e ∈ rest, Held e := fun e he => hw.held e (by rw [hs]; exact List.mem_cons_of_mem _ he)
    have hvisit : ∀ tc' fc', Visits s tc' fc' → tc' = tc ∧ fc' = fc ∧ tc.type ≠ .LIST ∧ tc.len ≠ 0 := by
      rintro tc' fc' ⟨rest', hs', ht, h0⟩
      rw [hs] at hs'
      cases hs'
      exact ⟨rfl, rfl, ht, h0⟩
    rcases copyStep_top hs (hp.ends hend) hr with ⟨h0, e⟩ | ⟨h0, hret, w, e, hworld⟩
    · rw [e] at h
      cases h
      exact ⟨⟨hrest, hw.index⟩, fun _ _ hv => absurd h0 (hvisit _ _ hv).2.2.2⟩
    have hnext : Held (nextEntry (tc, fc)) := by
      rw [nextEntry_eq]
      exact hheld.advance rfl rfl
    have hstack : ∀ {w : World}, (∀ e, pushOf i j s tc fc = some e → Held e) →
        ∀ e ∈ (⟨w, (pushOf i j s tc fc).toList ++ nextEntry (tc, fc) :: rest⟩ : CopyState).stack, Held e := by
      intro w hpush e he
      rcases List.mem_append.mp he with he | he
      · exact hpush e (Option.mem_toList.mp he)
      · rcases List.mem_cons.mp he with rfl | he
        · exact hnext
        · exact hrest e he
    by_cases ht : tc.type = .LIST
    · have hindex := copyStep_index hij hs ht h
      rw [e] at h
      cases h
      refine ⟨⟨hstack fun _ => pushOf_held hheld ht, fun e he => hw.index e ?_⟩,
        fun _ _ hv => absurd ht (hvisit _ _ hv).2.2.1⟩
      rwa [hindex] at he
    · rw [e] at h
      cases h
      have hworld := hworld ht
      have hpushOf : pushOf i j s tc fc = (copySlot (s.world.set j (sourceRead s j fc).capn) i j tc
        (sourceRead s j fc).ptr).push := if_neg ht
      have hw₁ : s.world.set j (sourceRead s j fc).capn i = s.world i := World.set_ne _ hij
      by_cases hnull : (sourceRead s j fc).ptr.type = .NULL
      · rw [copySlot_null hnull] at hworld hpushOf
        refine ⟨⟨hstack fun e he => (Option.some_ne_none _ (he.symm.trans hpushOf)).elim, ?_⟩, fun _ _ hv => ?_⟩
        · rw [hworld]
          show ∀ e ∈ (s.world.set j _ i).copy, _
          rw [hw₁]
          exact hw.index
        · obtain ⟨-, rfl, -⟩ := hvisit _ _ hv
          exact .inl hnull
      · obtain ⟨seg, d, hseg, hd⟩ := hheld
        rw [copySlot_copy hnull hseg hd] at hworld hpushOf
        have hcopy := hret ht
        rw [copySlot_copy hnull hseg hd] at hcopy
        obtain ⟨hpush, hindex, hcov⟩ := copyPtr_copying hend hr hp' (f := (sourceRead s j fc).ptr)
          (readPtr_fine _ _ _ _) hcopy
          (fun e he => by rw [← hpushOf] at he; exact List.mem_append_left _ (Option.mem_toList.mpr he))
          (by rw [hw₁]; exact hw.index)
        refine ⟨⟨hstack fun e he => hpush e (by rw [← hpushOf]; exact he), ?_⟩, fun _ _ hv => .inr ⟨?_, ?_⟩⟩
        · rw [hworld]
          exact hindex
        · obtain ⟨rfl, rfl, -⟩ := hvisit _ _ hv
          have := copyPtr_links hcopy
          rw [hw₁] at this
          rwa [hseg, hd]
        · obtain ⟨-, rfl, -⟩ := hvisit _ _ hv
          exact hcov

theorem Copying.path (hij : i ≠ j) (hend : Loop.Ends (copyStep i j) s₀ r) (hr : r.1 = 0) {s : CopyState}
    (hp : Loop.Path (copyStep i j) s₀ s) (hw : Copying i j s₀ old s₀) : Copying i j s₀ old s := by
  induction hp with
  | refl => exact hw
  | tail hp h ih => exact (ih.step hij hend hr hp h).1

theorem SourceSlot.isObject {c : Capn} {f : Ptr} {a : Addr} (h : SourceSlot c old j f a) : f.IsObject := by
  cases h with
  | here h => exact slotOf_isObject h
  | there h _ _ _ => exact slotOf_isObject h

/-- A visit is followed by another iteration. -/
theorem Visits.next (hend : Loop.Ends (copyStep i j) s₀ r) (hr : r.1 = 0) {s : CopyState}
    (hp : Loop.Path (copyStep i j) s₀ s) {tc fc : Ptr} (hv : Visits s tc fc) : ∃ s', copyStep i j s = .next s' := by
  obtain ⟨rest, hs, -, h0⟩ := hv
  rcases copyStep_top hs (hp.ends hend) hr with ⟨h, -⟩ | ⟨-, -, w, h, -⟩
  · exact absurd h h0
  · exact ⟨_, h⟩

/-- If all that is read decodes, then the loop gets to whatever pointers lead to. -/
theorem visited_all (hij : i ≠ j) (hend : Loop.Ends (copyStep i j) s₀ r) (hr : r.1 = 0) (hstart : Copying i j s₀ old s₀)
    (hdec : ∀ s tc fc, Loop.Path (copyStep i j) s₀ s → Visits s tc fc → Decodes (s.world j) fc.seg fc.data)
    {c : Capn} (hc : (s₀.world j).segs = c.segs) {f : Ptr} {a : Addr} (hslot : SourceSlot c old j f a)
    (hcov : Covered i j s₀ f) : Visited i j s₀ a := by
  induction hslot with
  | here h => exact hcov _ h
  | @there f q a b cost h hq hnew hb ih =>
    apply ih
    obtain ⟨s, tc, fc, hp, hv, hd, hseg⟩ := hcov _ h
    obtain ⟨a', q', cost', -, hd', -, hq', -, hptr⟩ := (hdec s tc fc hp hv).read (show (-1 : Int) ≠ 0 by decide)
    cases hd.symm.trans hd'
    have hsegs : (s.world j).segs = c.segs :=
      hp.inv (I := fun s => (s.world j).segs = c.segs) (fun t t' ht h => (copyStep_source hij h).trans ht) hc
    rw [pointee_congr hsegs, hq] at hq'
    cases hq'
    obtain ⟨s', hnext⟩ := hv.next hend hr hp
    rcases ((hstart.path hij hend hr hp).step hij hend hr hp hnext).2 tc fc hv with hnull | ⟨-, hcopied | hcov'⟩
    · rw [sourceRead, hptr, withNesting_type] at hnull
      exact absurd hnull hb.isObject.1
    · obtain ⟨e, he, hsrc, heq⟩ := hcopied
      rw [sourceRead, hptr, isPtrEqual_withNesting] at heq
      exact absurd ⟨e, he, hsrc, heq⟩ hnew
    · rw [sourceRead, hptr] at hcov'
      exact fun a ha => hcov' a ((slotOf_withNesting q _ a).mpr ha)

end

/-! ## Complete copies -/

/-- A caller's pointer that is null. -/
def TgtNull (c : Capn) (tgt : Ptr) : Prop := tgt.type = .NULL ∨ tgt.type = .FAR_POINTER ∧ ReadsNull c tgt.seg tgt.data

/-- A caller's pointer that can be resolved. -/
def TgtDecodes (c : Capn) (tgt : Ptr) : Prop :=
  tgt.type = .FAR_POINTER →
    ReadsNull c tgt.seg tgt.data ∨ hopRemaining c tgt ≠ 0 ∧ Decodes c tgt.seg tgt.data

/-- Nothing that `tgt` leads to is missing: the destination gets the object (`root`), each
pointer that the loop reads is null or gets one (`visits`), and the loop gets to all
pointers that lead from the object, if there was no copy before (`slots`). -/
structure Complete (w : World) (i : Nat) (p : Ptr) (off : Int) (j : Nat) (tgt : Ptr) : Prop where
  root : TgtNull (w j) tgt ∨ (capnResolve (w j) tgt).ptr.Points ∧
    ∀ s d, (capnResolve (w i) p).ptr.seg = some s → destination (capnResolve (w i) p).ptr off = some (d, 8) →
      (writePtr (capnResolve (w i) p).capn s d (capnResolve (w j) tgt).ptr true).1 = NEED_TO_COPY →
      Links (capnResolve (w i) p).capn j (some s) (some d) (capnResolve (w j) tgt).ptr
  visits : ∀ s₀ s tc fc, setpStart w i p off j tgt = .next s₀ → Loop.Path (copyStep i j) s₀ s → Visits s tc fc →
    ReadsNull (s.world j) fc.seg fc.data ∨ Links (s.world i) j tc.seg tc.data (sourceRead s j fc).ptr
  slots : ¬ CopiedBefore (w i) j (capnResolve (w j) tgt).ptr →
    ∀ a, SourceSlot (w j) (w i) j (capnResolve (w j) tgt).ptr a →
      ∃ s₀, setpStart w i p off j tgt = .next s₀ ∧ Visited i j s₀ a

/-- All that the call reads can be read, and what the index has of it is not null. -/
structure AllDecodes (w : World) (i : Nat) (p : Ptr) (off : Int) (j : Nat) (tgt : Ptr) : Prop where
  root : TgtDecodes (w j) tgt
  found : ∀ s d, (capnResolve (w i) p).ptr.seg = some s → destination (capnResolve (w i) p).ptr off = some (d, 8) →
    (writePtr (capnResolve (w i) p).capn s d (capnResolve (w j) tgt).ptr true).1 = NEED_TO_COPY →
    FoundPoints (capnResolve (w i) p).capn j (capnResolve (w j) tgt).ptr
  visits : ∀ s₀ s tc fc, setpStart w i p off j tgt = .next s₀ → Loop.Path (copyStep i j) s₀ s → Visits s tc fc →
    Decodes (s.world j) fc.seg fc.data ∧ FoundPoints (s.world i) j (sourceRead s j fc).ptr

section

variable {w : World} {i j : Nat} {p tgt : Ptr} {off : Int} {r : Int × World}

theorem Ptr.Fine.points {f : Ptr} (h : f.Fine) (hobj : f.IsObject) : f.Points := by
  obtain ⟨a, ha, -⟩ := h.place
  exact ⟨hobj.1, .inr (by rw [ha]; exact nofun)⟩

/-- An object with pointers of another session is copied. -/
theorem writePtr_slots {c : Capn} {s : Nat} {d : Addr} {f : Ptr} {a : Addr} (hf : f.Fine) (ha : SlotOf f a) :
    (writePtr c s d f true).1 = NEED_TO_COPY := by
  obtain ⟨b, hb, hs⟩ := hf.place
  have hobj := slotOf_isObject ha
  have hne : ¬ (f.type = .STRUCT ∧ f.datasz = 0 ∧ f.ptrs = 0) := by
    rintro ⟨ht, -, h0⟩
    obtain ⟨_, -, ha⟩ := ha
    simp only [ht] at ha
    obtain ⟨k, hk, -⟩ := ha
    omega
  rw [writePtr, if_neg hobj.2.2]
  split
  · exact absurd (by assumption) hobj.1
  · rename_i hnone _
    rw [hb] at hnone
    cases hnone
  · rw [if_neg hne, hs]
    simp only [true_or, if_true]

theorem setpStart_ne (hij : i ≠ j) : setpStart w i p off j tgt =
    setpResolved ((w.set i (capnResolve (w i) p).capn).set j (capnResolve (w j) tgt).capn) i
      (capnResolve (w i) p).ptr off j (capnResolve (w j) tgt).ptr := by
  simp only [setpStart, World.set_ne _ hij.symm, hij, false_and, if_false]
  split
  · rename_i h
    split at h <;> cases h
  · rfl

/-- The destination of a call that succeeds, and what it comes to. -/
theorem setpStart_slot (hij : i ≠ j)
    (hp : (capnResolve (w i) p).ptr.type = .STRUCT ∨ (capnResolve (w i) p).ptr.type = .PTR_LIST)
    (h : Setp w i p off j tgt r) (hr : r.1 = 0) : ∃ s d, (capnResolve (w i) p).ptr.seg = some s ∧
      destination (capnResolve (w i) p).ptr off = some (d, 8) ∧ setpStart w i p off j tgt =
        setpSlot ((w.set i (capnResolve (w i) p).capn).set j (capnResolve (w j) tgt).capn) i s d j
          (capnResolve (w j) tgt).ptr := by
  have hf := h.finishes
  rw [setpStart_ne hij] at hf ⊢
  generalize (capnResolve (w i) p).ptr = q at hp hf ⊢
  have hdone : ∀ {v : World}, ¬ Finishes i j r (.done (-1, v)) := by
    rintro v ⟨⟩
    cases hr
  simp only [setpResolved] at hf ⊢
  rcases hp with ht | ht
  · simp only [ht] at hf ⊢
    split at hf
    · exact absurd hf hdone
    · rename_i hle
      rw [if_neg hle]
      split at hf
      · rename_i s d hs hd
        simp only [hs]
        exact ⟨s, _, rfl, by simp only [destination, ht, hd]; rfl, rfl⟩
      · exact absurd hf hdone
  · simp only [ht] at hf ⊢
    split at hf
    · exact absurd hf hdone
    · rename_i hle
      rw [if_neg hle]
      split at hf
      · rename_i s d hs hd
        simp only [hs]
        exact ⟨s, _, rfl, by simp only [destination, ht, hd]; rfl, rfl⟩
      · exact absurd hf hdone

theorem resolve_fine {c : Capn} (htgt : tgt.IsObject → tgt.Fine) :
    (capnResolve c tgt).ptr.IsObject → (capnResolve c tgt).ptr.Fine := by
  rw [capnResolve]
  split
  · exact readPtr_fine _ _ _ _
  · exact htgt

/-- How the copy of an object that is not copied begins. -/
theorem setpSlot_cases {v : World} {s : Nat} {d : Addr} {f : Ptr} (hij : i ≠ j)
    (h : Finishes i j r (setpSlot v i s d j f)) (hr : r.1 = 0) :
    ((writePtr (v i) s d f true).1 ≠ NEED_TO_COPY ∧ ∃ x, setpSlot v i s d j f = .done x) ∨
    (writePtr (v i) s d f true).1 = NEED_TO_COPY ∧ (copyPtr v i j s d f).ret = 0 ∧ setpSlot v i s d j f =
      .next ⟨(copyPtr v i j s d f).world, (copyPtr v i j s d f).push.toList⟩ := by
  have htrue : decide (i ≠ j) = true := decide_eq_true hij
  simp only [setpSlot, htrue] at h ⊢
  by_cases hneed : (writePtr (v i) s d f true).1 = NEED_TO_COPY
  · rw [(writePtr_need hneed).1, World.set_eq, if_neg (not_not.mpr hneed)] at h ⊢
    refine .inr ⟨hneed, ?_⟩
    by_cases hret : (copyPtr v i j s d f).ret = 0
    · exact ⟨hret, by rw [if_neg (not_not.mpr hret)]⟩
    · rw [if_pos hret] at h
      rw [← (show _ = r from h)] at hr
      cases hr
  · exact .inl ⟨hneed, _, if_pos hneed⟩

/-- The state that a copy begins in. -/
theorem copying_start {v : World} {s : Nat} {d : Addr} {f : Ptr} {s₀ : CopyState}
    (hs₀ : s₀ = ⟨(copyPtr v i j s d f).world, (copyPtr v i j s d f).push.toList⟩)
    (hend : Loop.Ends (copyStep i j) s₀ r) (hr : r.1 = 0) (hf : f.IsObject → f.Fine)
    (hret : (copyPtr v i j s d f).ret = 0) :
    Copying i j s₀ (v i) s₀ ∧ (CopiedBefore (v i) j f ∨ Covered i j s₀ f) := by
  obtain ⟨hpush, hindex, hcov⟩ := @copyPtr_copying i j s₀ r (v i) hend hr s₀ .refl v s d f hf hret
    (fun e he => by rw [hs₀]; exact Option.mem_toList.mpr he) fun e he => .inl he
  refine ⟨⟨fun e he => ?_, fun e he => ?_⟩, hcov⟩
  · rw [hs₀] at he
    exact hpush e (Option.mem_toList.mp he)
  · rw [hs₀] at he
    exact hindex e he

theorem TgtNull.resolve {c : Capn} (h : TgtNull c tgt) : (capnResolve c tgt).ptr.type = .NULL := by
  rcases h with h | ⟨hfar, h⟩
  · rw [capnResolve, if_neg (by rw [h]; decide)]
    exact h
  · rw [capnResolve, if_pos hfar]
    exact h.read

/-- A caller's pointer that can be resolved is null, or points somewhere. -/
theorem TgtDecodes.points {c : Capn} (h : TgtDecodes c tgt) (htgt : tgt.IsObject → tgt.Fine) :
    TgtNull c tgt ∨ (capnResolve c tgt).ptr.Points := by
  by_cases hfar : tgt.type = .FAR_POINTER
  · rcases h hfar with hnull | ⟨hrem, hdec⟩
    · exact .inl (.inr ⟨hfar, hnull⟩)
    · obtain ⟨a, q, cost, hs, hd, hb, hq, ha, hptr⟩ := hdec.read hrem
      by_cases hn : q.type = .NULL
      · refine .inl (.inr ⟨hfar, a, q, cost, hs, hd, ?_, hq, hn⟩)
        rwa [hs, hd] at hb
      · rw [capnResolve, if_pos hfar, hptr]
        obtain ⟨n, v, e⟩ := withNesting_eq q (hopRemaining c tgt)
        rw [e]
        refine .inr ⟨hn, ?_⟩
        by_cases hi : q.type = .INTERFACE
        · exact .inl hi
        · rcases pointee_spec hq with ⟨hi', -⟩ | ⟨-, ⟨seg, off, -, hdata, -⟩, -⟩
          · exact absurd hi' hi
          · exact .inr (by show q.data ≠ none; rw [hdata]; rintro ⟨⟩)
  · rw [capnResolve, if_neg hfar]
    by_cases hn : tgt.type = .NULL
    · exact .inl (.inl hn)
    · by_cases hi : tgt.type = .INTERFACE
      · exact .inr ⟨hn, .inl hi⟩
      · exact .inr ((htgt ⟨hn, hfar, hi⟩).points ⟨hn, hfar, hi⟩)

/-- A struct of one pointer, to a word that is not there. -/
def dangling : Capn :=
  (carve [16] ([0, 0, 0, 0, 0, 0, 1, 0] ++ [144, 1, 0, 0, 1, 0, 0, 0])).foldl capnAppendSegment capnInitMalloc

/-- A blank message, and the source. -/
def danglingWorld : World := fun k => if k = 0 then (capnRoot capnInitMalloc).1 else dangling

def danglingSource : Ptr := (capnGetp dangling (capnRoot dangling).2 0 true).ptr

theorem danglingSource_fine : danglingSource.Fine :=
  ⟨⟨⟨0, 8⟩, by decide +kernel, by decide +kernel⟩, by decide +kernel, by decide +kernel, by decide +kernel⟩

theorem dangling_run : ∃ r, Setp danglingWorld 0 overlapRoot 0 1 danglingSource r ∧ r.1 = 0 := by
  have h : (capnSetp 10 danglingWorld 0 overlapRoot 0 1 danglingSource).map Prod.fst = some 0 := by decide +kernel
  obtain ⟨r, hr, e⟩ := Option.map_eq_some_iff.mp h
  exact ⟨r, ⟨10, hr⟩, e⟩

/-- The first pointer that the copy reads. -/
def firstRead (start : Step CopyState (Int × World)) (j : Nat) : Option (CopyState × Ptr × Ptr × Read) :=
  match start with
  | .done _ => none
  | .next s => s.stack.head?.map fun (tc, fc) => (s, tc, fc, sourceRead s j fc)

end

end Capnproto

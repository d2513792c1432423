import Capnproto.Object.CopyCall
import Capnproto.Object.Bytes
import Capnproto.Object.Errors

/-!
# Copies between sessions

`capn_setp` of an object of another session stores a copy of all that can be reached from it. If it returns zero and
the source has had no decode error, the slot has the same graph: the same objects, and the same sharing between them
(`SameGraph`). It stays so whatever is stored into the rest of the destination later (`setp_transfers`).
-/

namespace Capnproto

/-! ## The same graph -/

/-- The object `t` of `c` holds what `q` of `c'` does, all the way down, and two pointers to one object are two pointers
to one copy of it, and the other way around. What has neither bytes nor pointers is not told apart. -/
def SameGraph (c : Capn) (t : Ptr) (c' : Capn) (q : Ptr) : Prop :=
  ∃ R : Ptr → Ptr → Prop, R t q ∧ (∀ t q, R t q → SameNode R c t c' q) ∧
    ∀ t q t' q', R t q → R t' q' → ¬ q.Bare → ¬ q'.Bare → (t.data = t'.data ↔ q.data = q'.data)

/-- A copy of the object has its fields: it is a capability, or whole words, and no bit of a list. -/
def Ptr.Copiable (f : Ptr) : Prop :=
  (f.Whole ∧ (f.isCompositeList = true → f.type = .LIST) ∧ ¬ (f.type = .BIT_LIST ∧ f.isListMember = true) ∧
      ∃ b, f.data = some b ∧ f.seg = some b.seg) ∨
    f.type = .INTERFACE ∧ f.datasz = 0 ∧ f.ptrs = 0 ∧ toInt32 (f.len % 2 ^ 32).toNat = f.len

/-- Null. -/
def Ptr.Null (f : Ptr) : Prop := f.type = .NULL ∧ f.len = 0 ∧ f.datasz = 0 ∧ f.ptrs = 0

/-- What a caller has of the session `c`: null, a capability, or an object in its segment. -/
def Ptr.Held (c : Capn) (f : Ptr) : Prop := f.Null ∨ f.Copiable ∧ (f.type = .INTERFACE ∨ InSegment c f)

section

variable {c : Capn} {q : Ptr} {cost : Nat} {b : Addr}

theorem Ptr.Shape.composite {f : Ptr} (h : f.Shape) (hc : f.isCompositeList = true) : f.type = .LIST := by
  obtain ⟨-, -, h⟩ := h
  cases ht : f.type <;> simp only [ht] at h
  case LIST => rfl
  all_goals
    rw [hc] at h
    exact absurd h.1 (by decide)

theorem pointee_copiable (hq : pointee c b = some (q, cost)) (h0 : q.type ≠ .NULL) : q.Copiable := by
  by_cases hi : q.type = .INTERFACE
  · exact .inr ⟨hi, pointee_capability hq hi⟩
  · obtain ⟨hwhole, hmem, hplace⟩ := pointee_whole hq h0 hi
    rcases pointee_spec hq with ⟨hi', -⟩ | ⟨hsh, -⟩
    · exact absurd hi' hi
    refine .inl ⟨hwhole, hsh.composite, ?_, hplace⟩
    rw [hmem]
    rintro ⟨-, h⟩
    cases h

/-- The pointers of an object in its segment are in it, too. -/
theorem InSegment.slot (h : InSegment c q) (hb : SlotOf q b) : WordInside c b := by
  obtain ⟨seg, off, -, hd, hlead, hend⟩ := h
  obtain ⟨p, x, hp, hx, rfl⟩ := slotOf_iff.mp hb
  cases hd.symm.trans hp
  obtain ⟨h0, h1⟩ := SlotAt.inside hx
  constructor
  · show 0 ≤ off + x
    omega
  · show off + x + 8 ≤ (c.seg seg).len
    omega

/-- And so are its bytes. -/
theorem InSegment.byte (h : InSegment c q) (hbit : q.type = .BIT_LIST → q.datasz ≤ q.extent) (hb : q.data = some b)
    {x : Int} (hx : q.DataAt x) : 0 ≤ (b.add x).off ∧ (b.add x).off < (c.seg (b.add x).seg).len := by
  obtain ⟨seg, off, -, hd, hlead, hend⟩ := h
  cases hd.symm.trans hb
  obtain ⟨h0, h1⟩ := DataAt.inside hx hbit
  constructor
  · show 0 ≤ off + x
    omega
  · show off + x < (c.seg seg).len
    omega

theorem Ptr.Shape.bits {f : Ptr} (h : f.Shape) (ht : f.type = .BIT_LIST) : f.datasz ≤ f.extent := by
  obtain ⟨-, -, h⟩ := h
  simp only [ht] at h
  obtain ⟨-, hd, -, hp⟩ := h
  simp only [Ptr.extent, ht, hd, hp]
  omega

end

/-! ## The source -/

/-- The pointers and the bytes of `f`, if it has any, are in its segment. -/
def Ptr.Inside (c : Capn) (f : Ptr) : Prop :=
  (∀ x, ¬ f.SlotAt x) ∧ (∀ x, ¬ f.DataAt x) ∨ InSegment c f ∧ (f.type = .BIT_LIST → f.datasz ≤ f.extent)

section

variable {c : Capn} {f q : Ptr}

theorem Ptr.inside_interface (hi : f.type = .INTERFACE) : f.Inside c := by
  refine .inl ⟨fun x hx => ?_, fun x hx => ?_⟩
  · simp only [Ptr.SlotAt, hi] at hx
  · simp only [Ptr.DataAt, hi] at hx

theorem Ptr.Held.inside (h : f.Held c) : f.Inside c := by
  rcases h with ⟨h0, -⟩ | ⟨hcop, hi | hin⟩
  · refine .inl ⟨fun x hx => ?_, fun x hx => ?_⟩
    · simp only [Ptr.SlotAt, h0] at hx
    · simp only [Ptr.DataAt, h0] at hx
  · exact f.inside_interface hi
  · rcases hcop with ⟨⟨hsane, hd, -⟩, -⟩ | ⟨hi, -⟩
    · refine .inr ⟨hin, fun ht => ?_⟩
      have hd : f.cloned.datasz = f.datasz := hd
      simp only [Ptr.cloned, ht] at hd
      simp only [Ptr.extent, ht]
      omega
    · exact f.inside_interface hi

theorem Below.inside (h : Below c f q) : q.Inside c := by
  have hread : ∃ b cost, pointee c b = some (q, cost) := by
    cases h with
    | slot _ hq h0 => exact ⟨_, _, hq⟩
    | next _ _ hq h0 => exact ⟨_, _, hq⟩
  obtain ⟨b, cost, hp⟩ := hread
  rcases pointee_spec hp with ⟨hi, -⟩ | ⟨hsh, hin, -⟩
  · exact q.inside_interface hi
  · exact .inr ⟨hin, hsh.bits⟩

end

/-- **Another session** is a source for a copy of an object that it holds. -/
theorem Job.ok_away {J : Job} (hij : J.i ≠ J.j) (htop : J.top.Inside J.src) (hindex : ∀ q, Below J.src J.top q → J.Lookup q)
    (hkept : ∀ k x, J.kept k x → ¬ J.room k x ∧ 0 ≤ x ∧ x < (J.old.seg k).len) : J.Ok := by
  have hsource : ∀ q, J.Source q → q.Inside J.src := by
    rintro q (rfl | hq)
    · exact htop
    · exact hq.inside
  refine ⟨?_, ?_, fun h => absurd h hij, fun h => absurd h hij, hindex, hkept⟩
  · rintro a ⟨f, hf, ha⟩
    rcases hsource f hf with ⟨hnone, -⟩ | ⟨hin, -⟩
    · obtain ⟨b, x, -, hx, -⟩ := slotOf_iff.mp ha
      exact absurd hx (hnone x)
    · exact .inl (hin.slot ha)
  · rintro a ⟨f, b, x, hf, hb, hx, rfl⟩
    rcases hsource f hf with ⟨-, hnone⟩ | ⟨hin, hbit⟩
    · exact absurd hx (hnone x)
    · exact hin.byte hbit hb hx

/-! ## The entries of the index -/

/-- The copy `e` was made after `e'`, of other bytes, into room behind it. -/
structure Copy.After (e e' : Copy) : Prop where
  source : e.seg ≠ e'.seg ∨ e.fend ≤ e'.fbegin ∨ e'.fend ≤ e.fbegin
  room : ∀ b b', e.toPtr.data = some b → e'.toPtr.data = some b' → b.seg = b'.seg → b'.off + e'.toPtr.extent ≤ b.off

section

variable {J : Job} {w : World} {a b : Addr} {f : Ptr} {new : List Copy} {objs : Set (Ptr × Ptr)}
  {pend : Nat → Int → Prop} {linking storing : Addr → Addr → Prop}

/-- `copy_ptr` adds an entry after those of the copy, or none. -/
theorem copyPtr_after (H : Holds J (w J.i) pend new objs linking storing) (hd : SlotIn (w J.i) a) (hf : f.Whole)
    (hm : ¬ (f.type = .BIT_LIST ∧ f.isListMember = true)) (hb : f.data = some b)
    (hret : (copyPtr w J.i J.j a.seg a f).ret = 0)
    (hids : ((copyPtr w J.i J.j a.seg a f).world J.i).segs.length ≤ 2 ^ 32) :
    ((copyPtr w J.i J.j a.seg a f).world J.i).copy = (w J.i).copy ∨
      ∃ e, ((copyPtr w J.i J.j a.seg a f).world J.i).copy = e :: (w J.i).copy ∧ ∀ e' ∈ new, e.After e' := by
  rcases copyPtr_cases hret with ⟨t, -, -, e⟩ | ⟨hfree, -⟩
  · rw [e]
    show (w.set J.i _ J.i).copy = _ ∨ _
    rw [World.set_self]
    exact .inl (writes_ptr _ _ _ _ _).copy
  have heq : copyPtr w J.i J.j a.seg a f = copyFresh w J.i J.j a.seg a f := by simp only [copyPtr, hfree]
  rw [heq] at hret hids ⊢
  obtain ⟨mid, t, s, o, hB⟩ := copyFresh_begun H.clean hd hf hm hb hret hids
  rcases hB.index with ⟨-, -, e⟩ | ⟨hz, e⟩
  · exact .inl e
  refine .inr ⟨_, e, fun e' he' => ?_⟩
  obtain ⟨hidx, -⟩ := H.copies e' he'
  refine ⟨?_, fun p p' hp hp' hseg => ?_⟩
  · rw [findCopy, if_neg hz] at hfree
    split at hfree
    swap
    · split at hfree <;> cases hfree
    rename_i hnone
    have hmem : e' ∈ (w J.i).copy := by
      rw [H.index]
      exact List.mem_append_left _ he'
    have hno := List.find?_eq_none.mp hnone e' hmem
    simp only [decide_eq_true_eq, not_and, not_not] at hno
    have hno := hno hidx.src
    show f.fseg ≠ e'.seg ∨ f.fend ≤ e'.fbegin ∨ e'.fend ≤ f.fbegin
    by_cases hs : e'.seg = f.fseg
    · by_cases h1 : f.fend ≤ e'.fbegin
      · exact .inr (.inl h1)
      · exact .inr (.inr (hno hs h1))
    · exact .inl fun h => hs h.symm
  · obtain ⟨s', o', hst, -⟩ := hidx.place
    cases hB.stands.data.symm.trans hp
    cases hst.data.symm.trans hp'
    have hseg : s = s' := hseg
    have hin := hst.inside
    have hfresh := hB.fresh
    rw [← hseg] at hin
    show o' + (e'.toPtr.extent : Int) ≤ o
    omega

end

section

variable {J : Job} {s s' : CopyState} {new : List Copy} {objs : Set (Ptr × Ptr)}

/-- **One iteration** adds an entry after those of the copy, or none. -/
theorem Going.after (hJ : J.Ok) (hij : J.i ≠ J.j) (h : Going J s new objs) (hn : copyStep J.i J.j s = .next s')
    (hids : (s'.world J.i).segs.length ≤ 2 ^ 32)
    (hpaid : ∀ tc fc b, Visits s tc fc → fc.data = some b → fc.seg = some b.seg → Paid (s.world J.j) b) :
    (s'.world J.i).copy = (s.world J.i).copy ∨
      ∃ e, (s'.world J.i).copy = e :: (s.world J.i).copy ∧ ∀ e' ∈ new, e.After e' := by
  cases hs : s.stack with
  | nil =>
    rw [copyStep, hs] at hn
    cases hn
  | cons top rest =>
    obtain ⟨tc, fc⟩ := top
    by_cases ht : tc.type = .LIST
    · exact .inl (copyStep_index hij hs ht hn)
    simp only [copyStep, hs, if_neg ht] at hn
    split at hn
    · cases hn
    split at hn
    · cases hn
      exact .inl rfl
    rename_i h0
    split at hn
    · cases hn
    rename_i hret
    cases hn
    have hst := h.stacked
    rw [hs] at hst
    have he := hst.1 _ List.mem_cons_self
    obtain ⟨a, ha, hseg, -⟩ := he.place
    obtain ⟨b, hb, hbs⟩ := he.source
    have ha : tc.data = some a := ha
    have hseg : tc.seg = some a.seg := hseg
    have hb : fc.data = some b := hb
    have hbs : fc.seg = some b.seg := hbs
    have htp : tc.type = .PTR_LIST := he.shape.2.resolve_right fun hl => ht hl.1
    have hlen : 0 < tc.len := by
      have : 0 ≤ tc.len := he.shape.1
      omega
    have hself : SlotPair (tc, fc) a b := (slotPair_next htp).mpr (.inl ⟨hlen, ha, hb⟩)
    have hread := hJ.reading (h.seen hJ) (he.reads a b hself) (hpaid tc fc b ⟨rest, hs, ht, h0⟩ hb hbs)
    have hcounters := counters_at (readPtr_capn (s.world J.j) fc.seg fc.data (-1)) J.i
    have hHolds := h.holds.counters hcounters
    obtain ⟨-, hg, hcopy, -⟩ := h.holds.clean.counters hcounters
    rw [← hbs, ← hb] at hread
    have hret := not_not.mp hret
    rw [← hcopy]
    rcases hread with ⟨hnull, -⟩ | ⟨q, cost, hq, hq0, hptr⟩
    · rw [copySlot_null hnull]
      exact .inl rfl
    rw [hptr, copySlot_copy hq0 hseg ha] at hret hids ⊢
    by_cases hint : q.type = .INTERFACE
    · rw [copyPtr_interface hint]
      show (World.set _ J.i _ J.i).copy = _ ∨ _
      rw [World.set_self]
      exact .inl rfl
    · obtain ⟨hwhole, hmem, d, hd, -⟩ := pointee_whole hq hq0 hint
      refine copyPtr_after hHolds ((he.slot hself).1.grows hg) hwhole ?_ hd hret hids
      rw [hmem]
      rintro ⟨-, h⟩
      cases h

/-- **The loop** orders the entries. -/
theorem Going.ordered {s₀ : CopyState} (hJ : J.Ok) (hij : J.i ≠ J.j) (h : Going J s₀ new objs) (hnew : new.Pairwise Copy.After)
    (hp : Loop.Path (copyStep J.i J.j) s₀ s')
    (hids : ∀ s, Loop.Path (copyStep J.i J.j) s₀ s → (s.world J.i).segs.length ≤ 2 ^ 32)
    (hpaid : ∀ s, Loop.Path (copyStep J.i J.j) s₀ s → ∀ tc fc b, Visits s tc fc → fc.data = some b →
      fc.seg = some b.seg → Paid (s.world J.j) b) :
    ∃ new' objs', (∀ e ∈ new, e ∈ new') ∧ Going J s' new' objs' ∧ new'.Pairwise Copy.After ∧
      Stepped J.Own (s₀.world J.i) (s'.world J.i) (Pending s₀.stack) (Pending s'.stack) := by
  induction hp with
  | refl => exact ⟨new, objs, fun e he => he, h, hnew, h.holds.clean.cleaner, Grows.refl _ _, fun k x hx => .inl hx⟩
  | tail hp hn ih =>
    obtain ⟨new', objs', hsub, hg, hord, hst⟩ := ih
    obtain ⟨more, objs'', -, hwent⟩ := hg.step hJ hn (hids _ (.tail hp hn)) (hpaid _ hp)
    refine ⟨more ++ new', objs'', fun e he => List.mem_append_right _ (hsub e he), hwent.going, ?_, hst.trans hwent.stepped⟩
    have hindex := hwent.going.holds.index
    rcases hg.after hJ hij hn (hids _ (.tail hp hn)) (hpaid _ hp) with e | ⟨e', e, hafter⟩
    all_goals
      rw [hindex, hg.holds.index] at e
    · obtain rfl : more = [] := by
        have := congrArg List.length e
        simp only [List.length_append] at this
        exact List.eq_nil_of_length_eq_zero (by omega)
      exact hord
    · rw [← List.cons_append, List.append_left_inj] at e
      rw [e]
      exact List.pairwise_cons.mpr ⟨hafter, hord⟩

end

/-! ## What the source reports -/

section

variable {i j : Nat} {s : CopyState} {r : Int × World}

/-- A decode error stays. -/
theorem flag_stays (hij : i ≠ j) (hend : Loop.Ends (copyStep i j) s r) (hr : r.1 = 0) (h : (s.world j).decodeErr = true) :
    (r.2 j).decodeErr = true := by
  refine Loop.ends_inv (I := fun t => (t.world j).decodeErr = true)
    (Q := fun r => r.1 = 0 → (r.2 j).decodeErr = true) (fun t t' ht hn => ?_) (fun t r ht hd hr => ?_) h hend hr
  · cases hs : t.stack with
    | nil =>
      rw [copyStep, hs] at hn
      cases hn
    | cons top rest =>
      obtain ⟨tc, fc⟩ := top
      simp only [copyStep, hs] at hn
      split at hn
      · cases hn
      split at hn
      · cases hn
        exact ht
      split at hn
      · cases hn
        show ((copyListMember _ i j _ _).1 j).decodeErr = true
        rw [copyListMember_ne hij.symm, World.set_ne _ hij.symm, World.set_self]
        exact (run_flag (t.world j) (.getp fc 0)).1 ht
      · split at hn
        · cases hn
        · cases hn
          show ((copySlot _ i j _ _).world j).decodeErr = true
          rw [copySlot_ne hij.symm, World.set_self]
          exact readPtr_sticky _ _ _ ht
  · cases hs : t.stack with
    | nil =>
      rw [copyStep, hs] at hd
      cases hd
      exact ht
    | cons top rest =>
      obtain ⟨tc, fc⟩ := top
      simp only [copyStep, hs] at hd
      split at hd
      · cases hd
        cases hr
      split at hd
      · cases hd
      split at hd
      · cases hd
      · split at hd
        · cases hd
          cases hr
        · cases hd

/-- What the loop reads could be paid for, if the source has no decode error at the end. -/
theorem visits_paid (hij : i ≠ j) (hend : Loop.Ends (copyStep i j) s r) (hr : r.1 = 0) (hok : (r.2 j).decodeErr = false)
    {tc fc : Ptr} {b : Addr} (hv : Visits s tc fc) (hb : fc.data = some b) (hs : fc.seg = some b.seg) :
    Paid (s.world j) b := by
  obtain ⟨rest, hstack, ht, h0⟩ := hv
  rcases copyStep_top hstack hend hr with ⟨hz, -⟩ | ⟨-, -, w, hn, hw⟩
  · exact absurd hz h0
  intro q cost hq
  by_contra hafford
  have hflag : (sourceRead s j fc).capn.decodeErr = true := by
    rw [sourceRead, hb, hs]
    rcases readPtr_cases (s.world j) (some b.seg) (some b) (-1) with ⟨_, e, -⟩ | ⟨k, o, q', cost', -, -, hd, -, hq', ha, -⟩
    · rw [e]
      rfl
    · cases hd
      cases hq.symm.trans hq'
      exact absurd ha hafford
  have hend' := (Loop.ends_next hn).mp hend
  have hbad := flag_stays hij hend' hr (by
    show (w j).decodeErr = true
    rw [hw ht, copySlot_ne hij.symm, World.set_self]
    exact hflag)
  rw [hok] at hbad
  cases hbad

end

/-! ## The copies -/

section

variable {f g : Ptr} {b : Addr}

/-- An object with a byte or a pointer lies around its place. -/
theorem Ptr.Whole.around (h : f.Whole) (hc : f.isCompositeList = true → f.type = .LIST)
    (hm : ¬ (f.type = .BIT_LIST ∧ f.isListMember = true)) (hbare : ¬ f.Bare) (hb : f.data = some b) :
    f.fbegin ≤ b.off ∧ b.off < f.fend := by
  have hbegin : f.fbegin = b.off - if f.isCompositeList then 8 else 0 := by
    rw [Ptr.fbegin, hb]
    rfl
  have hlen : 0 ≤ f.len := h.1.1
  by_cases hcomp : f.isCompositeList = true
  · have ht := hc hcomp
    rw [if_pos hcomp] at hbegin
    have hend : f.fend = b.off + f.len * (f.datasz + 8 * f.ptrs) := by
      rw [Ptr.fend, hbegin]
      simp only [dataSize, ht, if_pos hcomp]
      omega
    refine ⟨by omega, ?_⟩
    by_contra hle
    have hzero : f.len * (f.datasz + 8 * f.ptrs) = 0 := by
      have : 0 ≤ f.len * (f.datasz + 8 * f.ptrs : Int) := Int.mul_nonneg hlen (by omega)
      omega
    refine hbare ⟨fun x hx => ?_, fun x hx => ?_, fun hbit => ?_⟩
    · simp only [Ptr.DataAt, ht] at hx
      obtain ⟨m, n, hml, hn, -⟩ := hx
      rcases Int.mul_eq_zero.mp hzero with h0 | h0 <;> omega
    · simp only [Ptr.SlotAt, ht] at hx
      obtain ⟨m, n, hml, hn, -⟩ := hx
      rcases Int.mul_eq_zero.mp hzero with h0 | h0 <;> omega
    · rw [ht] at hbit
      cases hbit
  · rw [if_neg hcomp] at hbegin
    refine ⟨by omega, ?_⟩
    by_contra hle
    have hsize : 0 ≤ dataSize f := by
      simp only [dataSize, if_neg hcomp]
      split
      · omega
      · omega
      · omega
      · exact Int.add_nonneg (Int.mul_nonneg hlen (by omega)) (Int.le_refl 0)
      · exact Int.le_refl 0
    refine hbare (h.bare hm (.inl ?_))
    have : f.fend = f.fbegin + dataSize f := rfl
    omega

end

section

variable {J : Job} {c c' : Capn} {new : List Copy} {objs : Set (Ptr × Ptr)} {t q t' q' : Ptr}

/-- **One copy for one object**, and one object for one copy. -/
theorem Holds.one_to_one (h : Holds J c (Pending []) new objs (Unlinked []) (Unstored [])) (hgood : ∀ d q, ¬ J.good d q)
    (hsource : ∀ q, J.Source q → q.Copiable) (hord : new.Pairwise Copy.After) (ht : IsCopy (J.Known new) t q)
    (ht' : IsCopy (J.Known new) t' q') (hq : ¬ q.Bare) (hq' : ¬ q'.Bare) : t.data = t'.data ↔ q.data = q'.data := by
  have hentry : ∀ {t q}, IsCopy (J.Known new) t q → ¬ q.Bare → ∃ e ∈ new, t.data = e.toPtr.data ∧ q.data = e.fromPtr.data ∧
      (∃ b, e.fromPtr.data = some b ∧ e.seg = b.seg ∧ e.fbegin ≤ b.off ∧ b.off < e.fend) ∧
      ∃ b, e.toPtr.data = some b ∧ 0 < e.toPtr.extent := by
    rintro t q ⟨-, -, -, -, hk⟩ hbare
    obtain ⟨e, he, heq, hdata⟩ := (hk.resolve_left hbare).resolve_left (hgood _ _)
    simp only [isPtrEqual, Bool.and_eq_true, decide_eq_true_eq] at heq
    obtain ⟨⟨⟨⟨g0, g1⟩, g2⟩, g3⟩, g4⟩ := heq
    obtain ⟨hidx, -⟩ := h.copies e he
    obtain ⟨hsrc, b, hb⟩ := hidx.source
    obtain ⟨r1, r2, r3⟩ := hidx.range
    have hbare' : ¬ e.fromPtr.Bare := by
      intro hn
      refine hbare ⟨fun x hx => hn.1 x ((dataAt_congr ⟨g1, g2, g3, g4⟩ x).mp hx),
        fun x hx => hn.2.1 x ((slotAt_congr ⟨g1, g2, g3, g4⟩ x).mp hx), fun hbit => ?_⟩
      rw [g2]
      exact hn.2.2 (g1.symm.trans hbit)
    have hcop : e.fromPtr.Whole ∧ (e.fromPtr.isCompositeList = true → e.fromPtr.type = .LIST) ∧
        ¬ (e.fromPtr.type = .BIT_LIST ∧ e.fromPtr.isListMember = true) := by
      rcases hsource _ hsrc with ⟨h1, h2, h3, -⟩ | ⟨hi, -⟩
      · exact ⟨h1, h2, h3⟩
      · refine absurd (⟨fun x hx => ?_, fun x hx => ?_, fun hbit => ?_⟩ : e.fromPtr.Bare) hbare'
        · simp only [Ptr.DataAt, hi] at hx
        · simp only [Ptr.SlotAt, hi] at hx
        · rw [hi] at hbit
          cases hbit
    obtain ⟨hlo, hhi⟩ := hcop.1.around hcop.2.1 hcop.2.2 hbare' hb
    obtain ⟨s, o, hst, -⟩ := hidx.place
    refine ⟨e, he, hdata, g0, ⟨b, hb, ?_, by omega, by omega⟩, ⟨_, hst.data, ?_⟩⟩
    · rw [r1, Ptr.fseg, hb]
      rfl
    · refine Nat.pos_of_ne_zero fun h0 => hbare' ⟨fun x hx => ?_, fun x hx => ?_, fun hbit => ?_⟩
      · have := DataAt.inside ((dataAt_congr hidx.fields x).mpr hx) hst.shape.bits
        omega
      · have := SlotAt.inside ((slotAt_congr hidx.fields x).mpr hx)
        omega
      · obtain ⟨f1, f2, -⟩ := hidx.fields
        simp only [Ptr.extent, f1.trans hbit] at h0
        omega
  obtain ⟨e, he, h1, h2, ⟨b, hb, hs, hlo, hhi⟩, p, hp, hpos⟩ := hentry ht hq
  obtain ⟨e', he', h1', h2', ⟨b', hb', hs', hlo', hhi'⟩, p', hp', hpos'⟩ := hentry ht' hq'
  by_cases hee : e = e'
  · rw [h1, h1', h2, h2', hee]
    exact iff_of_true rfl rfl
  · have hafter : e.After e' ∨ e'.After e :=
      (List.Pairwise.forall_of_forall_of_flip (R := fun e e' => e = e' ∨ e.After e' ∨ e'.After e) (fun _ _ => .inl rfl)
        (hord.imp fun h => .inr (.inl h)) (hord.imp fun h => .inr (.inr h)) he he').resolve_left hee
    rw [h1, h1', h2, h2', hp, hp', hb, hb']
    refine iff_of_false (fun hpp => ?_) fun hbb => ?_
    · cases hpp
      rcases hafter with ha | ha
      · have := ha.room p p hp hp' rfl
        omega
      · have := ha.room p p hp' hp rfl
        omega
    · cases hbb
      rcases hafter with ha | ha
      · have := ha.source
        rw [hs, hs'] at this
        omega
      · have := ha.source
        rw [hs, hs'] at this
        omega

end

/-! ## The slot -/

/-- The copy is done, and the slot `d` has it. -/
structure Ended (J : Job) (c : Capn) (d : Addr) (new : List Copy) (objs : Set (Ptr × Ptr)) : Prop where
  holds : Holds J c (Pending []) new objs (Unlinked []) (Unstored [])
  ordered : new.Pairwise Copy.After
  joined : Joined J.Has c (Pending []) (J.Known new) d J.top

/-- What the slot has is there later. -/
theorem Ended.graph {J : Job} {c c' : Capn} {d : Addr} {new : List Copy} {objs : Set (Ptr × Ptr)} (h : Ended J c d new objs)
    (hgood : ∀ d q, ¬ J.good d q) (hsource : ∀ q, J.Source q → q.Copiable) (hl : Later J c c') :
    ∃ t cost, pointee c' d = some (t, cost) ∧ SameGraph c' t J.src J.top := by
  obtain ⟨t, cost, ht, hcopy⟩ := hl.joined h.joined
  exact ⟨t, cost, ht, IsCopy (J.Known new), hcopy, fun t q htq => h.holds.node hl htq,
    fun t q t' q' htq htq' => h.holds.one_to_one hgood hsource h.ordered htq htq'⟩

/-- Words without an object are stored at once. -/
theorem writePtr_empty (c : Capn) (d : Addr) {p : Ptr} (foreign : Bool) (hz : p.emptyStruct) (hd : p.data ≠ none) :
    writePtr c d.seg d p foreign = (0, c.store64 d (2 ^ 32 - 4)) := by
  obtain ⟨ht, h0, h1⟩ := hz
  have htag : ptrTag p (-8) = some (2 ^ 32 - 4) := by
    simp only [ptrTag, ht, h0, h1]
    rw [if_neg (by decide), if_neg (by decide)]
    rfl
  rw [writePtr, if_neg (by rw [ht]; decide)]
  split
  · rename_i hn
    rw [ht] at hn
    cases hn
  · rename_i hn _
    exact absurd hn hd
  · rw [if_pos ⟨ht, h0, h1⟩, writePtrTag, htag]
    rfl

theorem writePtr_interface (c : Capn) (d : Addr) {p : Ptr} (foreign : Bool) (hi : p.type = .INTERFACE) :
    writePtr c d.seg d p foreign = (0, c.store64 d (OTHER_PTR + (p.len % 2 ^ 32).toNat * 2 ^ 32)) := by
  simp only [writePtr, if_pos hi, writePtrTag, ptrTag, Option.map_some, tagResult]

/-- An object with bytes of another session is to be copied. -/
theorem writePtr_away {c : Capn} {d b : Addr} {p : Ptr} (hobj : p.IsObject) (hz : ¬ p.emptyStruct) (hb : p.data = some b) :
    (writePtr c d.seg d p true).1 = NEED_TO_COPY := by
  rw [writePtr, if_neg hobj.2.2]
  split
  · exact absurd (by assumption) hobj.1
  · rename_i hnone _
    rw [hb] at hnone
    cases hnone
  · simp only [if_neg (show ¬ (p.type = .STRUCT ∧ p.datasz = 0 ∧ p.ptrs = 0) from hz), true_or, if_true]
    split <;> rfl

section

variable {w w' : World} {d : Addr} {objs : Set (Ptr × Ptr)} {J : Job}

theorem setpSlot_written (hij : J.i ≠ J.j) {v : Nat}
    (hw : writePtr (w J.i) d.seg d J.top true = (0, (w J.i).store64 d v))
    (hend : Finishes J.i J.j (0, w') (setpSlot w J.i d.seg d J.j J.top)) : w' J.i = (w J.i).store64 d v := by
  simp only [setpSlot, decide_eq_true hij, hw] at hend
  rw [if_pos (by decide)] at hend
  cases hend
  exact World.set_self _ _ _

/-- **A slot gets a copy** of an object of another session. -/
theorem setpSlot_ended (hJ : J.Ok) (hij : J.i ≠ J.j)
    (H : Holds J (w J.i) (Around d []) [] objs (fun x y => False ∨ Unlinked [] x y) (Unstored []))
    (hseen : J.Seen (w J.j)) (hd : SlotIn (w J.i) d) (hown : ∀ k x, Slot d k x → J.Own k x) (hf : J.top.Copiable)
    (hlook : J.Lookup J.top) (hend : Finishes J.i J.j (0, w') (setpSlot w J.i d.seg d J.j J.top))
    (hids : (w' J.i).segs.length ≤ 2 ^ 32) (hok : (w' J.j).decodeErr = false) :
    ∃ new objs', Ended J (w' J.i) d new objs' ∧ Stepped J.Own (w J.i) (w' J.i) (Around d []) (Pending []) := by
  have hhole : Hole J (w J.i) d [] := by
    refine ⟨hd, hown, fun k x _ h => ?_, fun e he => absurd he List.not_mem_nil, .nil⟩
    obtain ⟨e, he, -⟩ := h
    exact absurd he List.not_mem_nil
  have hfilled : ∀ {c : Capn}, w' J.i = c → Filled J (w J.i) c d J.top [] [] [] objs →
      ∃ new objs', Ended J (w' J.i) d new objs' ∧ Stepped J.Own (w J.i) (w' J.i) (Around d []) (Pending []) := by
    rintro c rfl hF
    exact ⟨[], objs, ⟨hF.holds, .nil, hF.joined⟩, hF.stepped⟩
  rcases hf with ⟨hwhole, -, hm, b, hb, hs⟩ | ⟨hi, hfields⟩
  swap
  · exact hfilled (setpSlot_written hij (writePtr_interface _ _ _ hi) hend)
      (filled_interface H hhole (fun _ _ h => h.elim) hi hfields)
  by_cases hz : J.top.emptyStruct
  · have hdata : J.top.data ≠ none := by
      rw [hb]
      exact Option.some_ne_none b
    have hlen : J.top.len = 0 := by
      have := hwhole.1.2
      rw [hz.1] at this
      exact this.2.2.2
    have hpt : PointsTo (J.Known []) (w J.i) (writePtr (w J.i) d.seg d J.top false).2 (fun _ _ => False) d J.top :=
      empty_points hd hz hlen hdata ⟨rfl, rfl, rfl, rfl⟩ (hwhole.bare hm (Ptr.zeroSized_of_empty hz))
    rw [writePtr_empty (w J.i) d false hz hdata] at hpt
    exact hfilled (setpSlot_written hij (writePtr_empty _ _ _ hz hdata) hend)
      (filled_link H hhole (fun _ _ h => h.elim) (H.clean.cleaner.store64 hd.inside)
        ((Grows.refl _ _).store64 (.inr slot_self)) rfl (fun _ => Nat.le_refl _) (fun _ _ h => h.elim) hpt)
  · obtain ⟨hne, -⟩ | ⟨-, hret, hnext⟩ := setpSlot_cases hij hend rfl
    · exact absurd (writePtr_away hwhole.1.isObject hz hb) hne
    rw [hnext] at hend
    have hloop : Loop.Ends (copyStep J.i J.j) _ (0, w') := hend
    obtain ⟨last, hpath, hdone⟩ := hloop.path
    have hlen : ∀ s, Loop.Path (copyStep J.i J.j) _ s → (s.world J.i).segs.length ≤ 2 ^ 32 :=
      fun s hs => Nat.le_trans (segs_path hs hloop) hids
    obtain ⟨more, objs', -, hfill⟩ := copyPtr_filled hJ H hhole (fun _ _ h => h.elim) (fun _ => hseen) (.inl rfl) hwhole
      hm hb hs hlook hret (hlen _ .refl)
    rw [List.append_nil] at hfill
    have hgoing : Going J ⟨(copyPtr w J.i J.j d.seg d J.top).world, (copyPtr w J.i J.j d.seg d J.top).push.toList⟩
        (more ++ []) objs' := by
      refine ⟨fun _ => ?_, hfill.stacked, hfill.holds⟩
      show J.Seen ((copyPtr w J.i J.j d.seg d J.top).world J.j)
      rw [copyPtr_ne hij.symm]
      exact hseen
    -- at most one entry so far
    have hone : (more ++ []).Pairwise Copy.After := by
      have hindex := hfill.holds.index
      rcases copyPtr_after H hd hwhole hm hb hret (hlen _ .refl) with e | ⟨e', e, -⟩
      all_goals
        rw [hindex, H.index] at e
      · rw [List.append_left_inj] at e
        rw [e]
        exact .nil
      · rw [← List.cons_append, List.append_left_inj] at e
        rw [e]
        exact List.pairwise_singleton _ _
    have hpaid : ∀ s, Loop.Path (copyStep J.i J.j) _ s → ∀ tc fc b, Visits s tc fc → fc.data = some b →
        fc.seg = some b.seg → Paid (s.world J.j) b :=
      fun s hs tc fc b hv hb hs' => visits_paid hij (hs.ends hloop) rfl hok hv hb hs'
    obtain ⟨new, objs'', hnew, hlast, hord, hstep⟩ := hgoing.ordered hJ hij hone hpath hlen hpaid
    obtain ⟨hstack, hworld⟩ := (hlast.exit hJ (hpaid last hpath) hdone).2 rfl
    have hworld : w' = last.world := hworld
    rw [hworld]
    have hholds := hlast.holds
    rw [hstack] at hholds hstep
    exact ⟨new, objs'', ⟨hholds, hord, hstep.joined (Job.Known.mono hnew) hfill.joined⟩, hfill.stepped.trans hstep⟩

end

/-! ## The call -/

/-- The slot `d` of `c` has got the graph of `f` in `src`, and has it for as long as nothing is stored over it: into `d`, or
behind what was in use in `c₀`, before the call. -/
structure Transferred (c₀ c : Capn) (d : Addr) (src : Capn) (f : Ptr) : Prop where
  clean : Clean c
  grows : Grows (Slot d) c₀ c
  graph : ∀ c', Grows (fun k x => x < ((c₀.seg k).len : Int) ∧ ¬ Slot d k x) c c' → c.segs.length ≤ c'.segs.length →
    ∃ t cost, pointee c' d = some (t, cost) ∧ SameGraph c' t src f

/-- Null holds nothing. -/
theorem sameGraph_null {c c' : Capn} {t f : Ptr} (h : t.Null) (h' : f.Null) : SameGraph c t c' f := by
  obtain ⟨ht, hl, hd, hp⟩ := h
  obtain ⟨ht', hl', hd', hp'⟩ := h'
  have hdata (x : Int) : ¬ t.DataAt x := by
    intro hx
    simp only [Ptr.DataAt, ht] at hx
  have hslot (x : Int) : ¬ t.SlotAt x := by
    intro hx
    simp only [Ptr.SlotAt, ht] at hx
  refine ⟨fun x y => x = t ∧ y = f, ⟨rfl, rfl⟩, fun x y hxy => ?_, fun x y x' y' hxy hxy' _ _ => ?_⟩
  · obtain ⟨rfl, rfl⟩ := hxy
    refine ⟨ht.trans ht'.symm, hl.trans hl'.symm, fun _ => ⟨hd.trans hd'.symm, hp.trans hp'.symm⟩, ?_, fun hb => ?_, ?_⟩
    · rintro - a b ⟨_, _, x, -, -, hx, -⟩
      exact absurd hx (hdata x)
    · rw [ht'] at hb
      cases hb
    · rintro a b ⟨_, _, x, -, -, hx, -⟩
      exact absurd hx (hslot x)
  · obtain ⟨rfl, rfl⟩ := hxy
    obtain ⟨rfl, rfl⟩ := hxy'
    exact iff_of_true rfl rfl

section

variable {w w' : World} {i j : Nat} {d : Addr} {f : Ptr}

/-- The job of a copy into the slot `d`, where the index has nothing of the source. -/
def slotJob (w : World) (i j : Nat) (src : Capn) (d : Addr) (f : Ptr) : Job where
  i := i
  j := j
  src := src
  old := w i
  top := f
  room := Slot d
  kept := fun _ _ => False
  good := fun _ _ => False

theorem Clean.unstarted {J : Job} (hc : Clean J.old) (hgood : ∀ d q, ¬ J.good d q) (pend : Nat → Int → Prop)
    (linking storing : Addr → Addr → Prop) : Holds J J.old pend [] ∅ linking storing :=
  ⟨hc, ⟨Grows.refl _ _, Nat.le_refl _⟩, rfl, fun _ he => absurd he List.not_mem_nil, fun d q h => absurd h (hgood d q),
    fun _ ho => ho.elim, fun _ ho => ho.elim⟩

/-- `capn_setp` of the slot `d`, to what is held of another session. -/
theorem setpSlot_transfers (hij : i ≠ j) (hc : Clean (w i)) (hd : SlotIn (w i) d)
    (hindex : ∀ q, findCopy (w i) j q = .free) {src : Capn} (hsrc : (w j).segs = src.segs) (hf : f.Held src)
    (hend : Finishes i j (0, w') (setpSlot w i d.seg d j f)) (hids : (w' i).segs.length ≤ 2 ^ 32)
    (hok : (w' j).decodeErr = false) : Transferred (w i) (w' i) d src f := by
  rcases hf with hnull | hheld
  · have hw : writePtr (w i) d.seg d f true = (0, (w i).store64 d 0) := by
      have htag : ptrTag f 0 = some 0 := by
        simp only [ptrTag, hnull.1]
        rfl
      rw [writePtr, if_neg (by rw [hnull.1]; decide)]
      simp only [hnull.1, writePtrTag, htag]
      rfl
    have he : w' i = (w i).store64 d 0 := setpSlot_written (J := slotJob w i j src d f) hij hw hend
    have hg : Grows (Slot d) (w i) (w' i) := by
      rw [he]
      exact (Grows.refl _ _).store64 (.inr slot_self)
    refine ⟨by rw [he]; exact hc.store64 hd.inside, hg, fun c' hg' _ => ?_⟩
    have hload : c'.load64 d = 0 := by
      refine (load64_grows hg' (hd.grows hg).wordInside fun x hx hn => hn.2 ⟨rfl, hx.2⟩).trans ?_
      rw [he]
      exact load64_store64_self hd.lt (by decide)
    exact ⟨_, 0, pointee_zero ((hd.grows hg).grows hg') hload, sameGraph_null ⟨rfl, rfl, rfl, rfl⟩ hnull⟩
  have hin : f.Inside src := Ptr.Held.inside (.inr hheld)
  have hJ : (slotJob w i j src d f).Ok := Job.ok_away hij hin (fun q _ => .inl (hindex q)) fun _ _ h => h.elim
  have hseen : (slotJob w i j src d f).Seen (w j) := by
    have hself : (slotJob w i j src d f).Seen src :=
      ⟨Grows.refl _ _, Nat.le_refl _, fun _ => ⟨Grows.refl _ _, Nat.le_refl _⟩⟩
    exact hself.of_segs hsrc
  obtain ⟨new, objs, hended, hstep⟩ := setpSlot_ended hJ hij (Clean.unstarted hc (fun _ _ h => h) _ _ _) hseen hd
    (fun _ _ h => .inl h) hheld.1 (.inl (hindex f)) hend hids hok
  have hsource : ∀ q, (slotJob w i j src d f).Source q → q.Copiable := by
    rintro q (rfl | hq)
    · exact hheld.1
    · cases hq with
      | slot _ hq h0 => exact pointee_copiable hq h0
      | next _ _ hq h0 => exact pointee_copiable hq h0
  have hg : Grows (Slot d) (w i) (w' i) := by
    refine hstep.grows.mono fun k x hx => ?_
    rcases hx.2 with h | ⟨e, he, -⟩
    · exact h
    · exact absurd he List.not_mem_nil
  refine ⟨hstep.cleaner.clean, hg, fun c' hg' hs' => ?_⟩
  refine hended.graph (fun _ _ h => h) hsource ⟨hg'.mono fun k x hx => ?_, hs'⟩
  rintro ((h | h) | h)
  · exact hx.2 h
  · have h : (((w i).seg k).len : Int) ≤ x := h
    have := hx.1
    omega
  · exact h

/-- **`capn_setp`** of an object of another session that the index knows nothing of. If it returns zero, and the source has
no decode error, the slot has the graph that the object had. -/
theorem setp_transfers {p tgt : Ptr} {off : Int} (hij : i ≠ j) (hp : PointerSlot (w i) p off d) (hc : Clean (w i))
    (hindex : ∀ e ∈ (w i).copy, e.src ≠ j) (hf : (capnResolve (w j) tgt).ptr.Held (w j))
    (hs : Setp w i p off j tgt (0, w')) (hids : (w' i).segs.length ≤ 2 ^ 32) (hok : (w' j).decodeErr = false) :
    Transferred (w i) (w' i) d (w j) (capnResolve (w j) tgt).ptr := by
  have hfin := hs.finishes
  rw [setpStart_ne hij, capnResolve_of_ne hp.resolved, World.set_eq] at hfin
  have hslot : setpResolved (w.set j (capnResolve (w j) tgt).capn) i p off j (capnResolve (w j) tgt).ptr =
      setpSlot (w.set j (capnResolve (w j) tgt).capn) i d.seg d j (capnResolve (w j) tgt).ptr := by
    simp only [setpResolved]
    obtain ⟨b, hb, ⟨ht, hin, hd⟩ | ⟨ht, hin, hd⟩⟩ := hp.cases
    · simp only [ht, if_neg hin, hp.seg, hb, hd]
    · simp only [ht, if_neg hin, hp.seg, hb, hd]
  rw [hslot] at hfin
  have hself : w.set j (capnResolve (w j) tgt).capn i = w i := World.set_ne _ hij
  have hsegs : (w.set j (capnResolve (w j) tgt).capn j).segs = (w j).segs := by
    obtain ⟨u, e, hc⟩ := capnResolve_capn (w j) tgt
    rw [World.set_self, hc]
  have hfree : ∀ q, findCopy (w i) j q = .free := by
    intro q
    rw [findCopy]
    split
    · rfl
    · have hnone : (w i).copy.find? (fun e => e.src = j ∧ e.seg = q.fseg ∧ ¬ q.fend ≤ e.fbegin ∧ ¬ e.fend ≤ q.fbegin) =
          none := by
        refine List.find?_eq_none.mpr fun e he => ?_
        simp only [hindex e he, false_and, decide_false, Bool.false_eq_true, not_false_eq_true]
      rw [hnone]
  have := setpSlot_transfers hij (by rw [hself]; exact hc) (by rw [hself]; exact hp.inside) (by rw [hself]; exact hfree)
    hsegs hf hfin hids hok
  rwa [hself] at this

end

/-- A struct whose one pointer points back at it. -/
def ring : Capn :=
  (carve [16] ([0, 0, 0, 0, 0, 0, 1, 0] ++ [252, 255, 255, 255, 0, 0, 1, 0])).foldl capnAppendSegment capnInitMalloc

/-- A blank message, and the ring. -/
def ringWorld : World := fun k => if k = 0 then (capnRoot capnInitMalloc).1 else ring

def ringSource : Ptr := { type := .STRUCT, ptrs := 1, seg := some 0, data := some ⟨0, 8⟩ }

/-- A ring is copied as a ring. -/
theorem setp_transfers_ring : ∃ w', Setp ringWorld 0 overlapRoot 0 1 ringSource (0, w') ∧
    Transferred (ringWorld 0) (w' 0) ⟨0, 0⟩ ring ringSource := by
  have h : (capnSetp 10 ringWorld 0 overlapRoot 0 1 ringSource).map (fun r =>
      (r.1, (r.2 0).segs.length, (r.2 1).decodeErr)) = some (0, 1, false) := by decide +kernel
  obtain ⟨⟨ret, w'⟩, hr, e⟩ := Option.map_eq_some_iff.mp h
  simp only [Prod.mk.injEq] at e
  obtain ⟨rfl, hlen, hok⟩ := e
  have hs : Setp ringWorld 0 overlapRoot 0 1 ringSource (0, w') := ⟨10, hr⟩
  refine ⟨w', hs, ?_⟩
  have hslot : PointerSlot (ringWorld 0) overlapRoot 0 ⟨0, 0⟩ :=
    ⟨.inr (by decide +kernel), ⟨by decide, by decide +kernel⟩, by decide +kernel, by decide +kernel,
      by decide, by decide, by decide +kernel⟩
  have hwhole : ringSource.Whole :=
    ⟨⟨by decide, by decide, by decide, by decide, by decide⟩, by decide, by decide⟩
  have hheld : (capnResolve (ringWorld 1) ringSource).ptr.Held (ringWorld 1) :=
    .inr ⟨.inl ⟨hwhole, by decide, by decide, _, rfl, rfl⟩, .inr ⟨0, 8, rfl, rfl, by decide, by decide +kernel⟩⟩
  exact setp_transfers (by decide) hslot tidy_init.root.clean (by decide) hheld hs (by omega) hok

end Capnproto

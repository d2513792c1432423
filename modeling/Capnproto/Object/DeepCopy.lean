import Capnproto.Object.CopySlot

/-!
# Deep copies

The loop of `capn_setp`: an iteration copies one pointer (`Going.slot`) or one element
(`Going.element`), and when the loop ends well nothing is left (`Going.ends`). What was
copied then holds what the source had, whatever is stored elsewhere later (`Holds.content`).
-/

namespace Capnproto

/-! ## Reading the source -/

/-- What is read can be paid for. -/
def Paid (c : Capn) (b : Addr) : Prop := ∀ q cost, pointee c b = some (q, cost) → Affords c cost

section

variable {J : Job} {c : Capn} {b : Addr}

/-- What the loop reads of the source. -/
theorem Job.Ok.reading (hJ : J.Ok) (hc : J.Seen c) (hb : J.Reads b) (hpaid : Paid c b) :
    ((readPtr c (some b.seg) (some b) (-1)).ptr.type = .NULL ∧ ReadsAsNull J.src b) ∨
      ∃ q cost, pointee J.src b = some (q, cost) ∧ q.type ≠ .NULL ∧
        (readPtr c (some b.seg) (some b) (-1)).ptr = q := by
  by_cases hin : WordInside J.src b
  swap
  · -- out of bounds
    obtain ⟨hij, hnull⟩ := (hJ.slots b hb).resolve_left hin
    have hout : ¬ boundsOk c (some b.seg) (some b) 8 := by
      intro hbounds
      obtain ⟨seg, off, hs, hd, h0, h1⟩ := boundsOk_iff.mp hbounds
      cases hs
      have hlen := (hc.back hij).1.len b.seg
      have hoff : b.off = off := congrArg Addr.off (Option.some.inj hd)
      exact hin ⟨by omega, by omega⟩
    refine .inl ⟨?_, hnull⟩
    rw [readPtr, if_neg (by decide), if_pos hout]
    rfl
  obtain ⟨h0, h1⟩ := hc.inside hin
  have hbounds : boundsOk c (some b.seg) (some ⟨b.seg, b.off⟩) 8 := boundsOk_iff.mpr ⟨b.seg, b.off, rfl, rfl, h0, h1⟩
  have hr := @readPtr_eq c b.seg b.off (-1) (by decide) hbounds
  rw [show (⟨b.seg, b.off⟩ : Addr) = b from rfl, hJ.pointee_eq hc hb hin] at hr
  rw [hr]
  cases hq : pointee J.src b with
  | none => exact .inl ⟨rfl, fun q cost h => by rw [hq] at h; cases h⟩
  | some r =>
    obtain ⟨q, cost⟩ := r
    have ha : Affords c cost := hpaid q cost ((hJ.pointee_eq hc hb hin).trans hq)
    simp only [if_pos ha]
    have hn : q.withNesting (-1) = q := if_neg (by decide)
    rw [hn]
    by_cases h0 : q.type = .NULL
    · refine .inl ⟨h0, fun q' cost' h => ?_⟩
      rw [hq] at h
      cases h
      exact h0
    · exact .inr ⟨q, cost, rfl, h0, rfl⟩

/-- The objects below another one are whole. -/
theorem pointee_whole {q : Ptr} {cost : Nat} (hq : pointee c b = some (q, cost)) (h0 : q.type ≠ .NULL)
    (hi : q.type ≠ .INTERFACE) : q.Whole ∧ q.isListMember = false ∧ ∃ d, q.data = some d ∧ q.seg = some d.seg := by
  rcases pointee_spec hq with ⟨hi', -⟩ | ⟨hsh, -⟩
  · exact absurd hi' hi
  have hobj : q.IsObject := by
    refine ⟨h0, fun hf => ?_, hi⟩
    have := hsh.2.2
    rw [hf] at this
    exact this
  exact ⟨hsh.whole hobj, hsh.1, (pointee_fine hq hobj).place⟩

end

/-! ## One iteration -/

/-- The state of a copy on its way. -/
structure Going (J : Job) (s : CopyState) (new : List Copy) (objs : Set (Ptr × Ptr)) : Prop where
  source : J.i ≠ J.j → J.Seen (s.world J.j)
  stacked : Stacked J (s.world J.i) s.stack
  holds : Holds J (s.world J.i) (Pending s.stack) new objs (Unlinked s.stack) (Unstored s.stack)

/-- What an iteration leaves. -/
structure Went (J : Job) (s s' : CopyState) (new : List Copy) (objs : Set (Ptr × Ptr)) : Prop where
  going : Going J s' new objs
  stepped : Stepped J.Own (s.world J.i) (s'.world J.i) (Pending s.stack) (Pending s'.stack)

section

variable {J : Job} {w : World} {c : Capn}

/-- A read changes counters only. -/
theorem counters_at {j : Nat} (h : ∃ used err, c = { w j with traversalUsed := used, decodeErr := err }) (k : Nat) :
    ∃ used err, w.set j c k = { w k with traversalUsed := used, decodeErr := err } := by
  obtain ⟨u, e, rfl⟩ := h
  by_cases hk : k = j
  · subst hk
    exact ⟨u, e, World.set_self _ _ _⟩
  · exact ⟨(w k).traversalUsed, (w k).decodeErr, World.set_ne _ hk⟩

theorem Clean.counters {c' : Capn} (h : Clean c) (e : ∃ used err, c' = { c with traversalUsed := used, decodeErr := err }) :
    Cleaner c c' ∧ Grows (fun _ _ => False) c c' ∧ c'.copy = c.copy ∧ c'.segs = c.segs := by
  obtain ⟨u, v, rfl⟩ := e
  exact ⟨⟨h.of_segs rfl rfl, Nat.le_refl _⟩, Grows.of_segs (Grows.refl _ _) rfl, rfl, rfl⟩

end

section

variable {J : Job} {s : CopyState} {c : Capn} {tc fc : Ptr} {rest : List (Ptr × Ptr)} {new : List Copy}
  {objs : Set (Ptr × Ptr)}

theorem Holds.counters {c' : Capn} {pend : Nat → Int → Prop} {linking storing : Addr → Addr → Prop}
    (h : Holds J c pend new objs linking storing)
    (e : ∃ used err, c' = { c with traversalUsed := used, decodeErr := err }) :
    Holds J c' pend new objs linking storing := by
  obtain ⟨hcl, hg, hcopy, -⟩ := h.clean.counters e
  have hstep : Stepped J.Own c c' pend pend := ⟨hcl, hg.mono fun _ _ h => h.elim, fun k x hx => .inl hx⟩
  show Holds J c' pend ([] ++ new) objs linking storing
  exact h.step hstep (hcopy.trans h.index) (fun e he => absurd he List.not_mem_nil) (fun o ho => ho)
    (fun x y hxy => .inr hxy) (fun x y hxy => .inr hxy) fun o ho => .inl ho

theorem Hole.counters {c' : Capn} {a : Addr} (h : Hole J c a rest) (hc : Clean c)
    (e : ∃ used err, c' = { c with traversalUsed := used, decodeErr := err }) : Hole J c' a rest := by
  obtain ⟨-, hg, -, -⟩ := hc.counters e
  exact ⟨h.slot.grows hg, h.own, h.apart, h.rest.grows hg fun _ _ _ h => h⟩

/-- Steps compose. -/
theorem Stepped.trans {own p p' p'' : Nat → Int → Prop} {c c' c'' : Capn} (h : Stepped own c c' p p')
    (h' : Stepped own c' c'' p' p'') : Stepped own c c'' p p'' := by
  refine ⟨h.cleaner.trans h'.cleaner, ⟨fun k => Nat.le_trans (h.grows.len k) (h'.grows.len k), fun k x h0 h1 hp => ?_⟩,
    fun k x hx => ?_⟩
  · have := h.grows.len k
    refine (h'.grows.data k x h0 (by omega) fun hs => ?_).trans (h.grows.data k x h0 h1 hp)
    rcases h.less k x hs.2 with h2 | h2
    · exact hp ⟨hs.1, h2⟩
    · omega
  · rcases h'.less k x hx with h2 | h2
    · exact h.less k x h2
    · have := h.grows.len k
      exact .inr (by omega)

/-- An entry that is through is dropped. -/
theorem Going.pop (h : Going J s new objs) (hs : s.stack = (tc, fc) :: rest) (h0 : tc.len = 0) :
    Went J s { s with stack := rest } new objs := by
  have hst := h.stacked
  have hh := h.holds
  rw [hs] at hst hh
  have hpend : ∀ k x, Pending rest k x → Pending s.stack k x := by
    rw [hs]
    exact fun k x ⟨e, he, hx⟩ => ⟨e, List.mem_cons_of_mem _ he, hx⟩
  have hshape : tc.type = .PTR_LIST ∨ tc.type = .LIST := (hst.1 _ List.mem_cons_self).shape.2.imp_right And.left
  have hslot : ∀ x y, ¬ SlotPair (tc, fc) x y := by
    rintro x y ⟨p, q, z, -, -, hz, -⟩
    rcases hshape with ht | ht
    · simp only [Ptr.SlotAt, ht] at hz
      obtain ⟨k, hk, -⟩ := hz
      omega
    · simp only [Ptr.SlotAt, ht] at hz
      obtain ⟨m, k, hm, -⟩ := hz
      omega
  have hdata : ∀ x y, ¬ DataPair (tc, fc) x y := by
    rintro x y ⟨p, q, z, -, -, hz, -⟩
    rcases hshape with ht | ht
    · simp only [Ptr.DataAt, ht] at hz
    · simp only [Ptr.DataAt, ht] at hz
      obtain ⟨m, k, hm, -⟩ := hz
      omega
  refine ⟨⟨h.source, ⟨fun e he => hst.1 e (List.mem_cons_of_mem _ he), (List.pairwise_cons.mp hst.2).2⟩,
    hh.mono (fun k x hx => hs ▸ hpend k x hx) ?_ ?_⟩, ⟨h.holds.clean.cleaner, Grows.refl _ _, fun k x hx => .inl (hpend k x hx)⟩⟩
  · rintro x y ⟨e, he, hxy⟩
    rcases List.mem_cons.mp he with rfl | he
    · exact absurd hxy (hslot x y)
    · exact ⟨e, he, hxy⟩
  · rintro x y ⟨e, he, hxy⟩
    rcases List.mem_cons.mp he with rfl | he
    · exact absurd hxy (hdata x y)
    · exact ⟨e, he, hxy⟩

theorem Going.seen (h : Going J s new objs) (hJ : J.Ok) : J.Seen (s.world J.j) := by
  have hm := hJ.middle h.source h.holds.grown.1 h.holds.grown.2
  rwa [World.set_eq] at hm

theorem Hole.settled {a : Addr} (h : Hole J c a rest) {k : Nat} {x : Int} (hx : Slot a k x) :
    Settled J.Has c (Pending rest) k x := by
  have h0 := h.slot.pos
  have h1 := h.slot.inside
  refine ⟨.inl (h.own k x hx), ?_, ?_, h.apart k x hx⟩
  all_goals
    obtain ⟨rfl, h2, h3⟩ := hx
    omega

/-- A null word is what null is copied as. -/
theorem done_null {own pend : Nat → Int → Prop} {K : Places} {a b : Addr} {src : Capn} (hin : SlotIn c a) (h0 : c.load64 a = 0)
    (hset : ∀ k x, Slot a k x → Settled own c pend k x) (hn : ReadsAsNull src b) : Done own c pend K a src b := by
  cases hq : pointee src b with
  | none => exact .inl ⟨hq, h0, hin, hset⟩
  | some r =>
    obtain ⟨q, cost⟩ := r
    have ht := hn q cost hq
    have hsh : q.Shape := by
      rcases pointee_spec hq with ⟨hi, -⟩ | ⟨hsh, -⟩
      · rw [hi] at ht
        cases ht
      · exact hsh
    have hfields := hsh.2.2
    simp only [ht] at hfields
    obtain ⟨-, hd, hp, hl⟩ := hfields
    refine .inr ⟨q, cost, hq, _, 0, pointee_zero hin h0, ⟨ht.symm, hl.symm, hd.symm, hp.symm, .inl ⟨?_, ?_, ?_⟩⟩, ?_⟩
    · intro x hx
      simp only [Ptr.DataAt, ht] at hx
    · intro x hx
      simp only [Ptr.SlotAt, ht] at hx
    · exact fun _ => Int.le_of_eq hl
    · rintro k x (hx | ⟨p, hpad, -⟩ | ⟨hcm, -⟩)
      · exact hset k x hx
      · rw [landingPads, h0, followFar, if_neg (by decide), if_neg (by decide)] at hpad
        cases hpad
      · cases hcm

/-- **A pointer** is copied. -/
theorem Going.slot (hJ : J.Ok) (h : Going J s new objs) (hs : s.stack = (tc, fc) :: rest) (ht : tc.type ≠ .LIST)
    (h0 : tc.len ≠ 0) (hpaid : ∀ b, fc.data = some b → Paid (s.world J.j) b) {r : Copied}
    (hr : copySlot (s.world.set J.j (sourceRead s J.j fc).capn) J.i J.j tc (sourceRead s J.j fc).ptr = r)
    (hret : r.ret = 0) (hids : (r.world J.i).segs.length ≤ 2 ^ 32) :
    ∃ more objs', (∀ x ∈ objs, x ∈ objs') ∧
      Went J s ⟨r.world, r.push.toList ++ nextEntry (tc, fc) :: rest⟩ (more ++ new) objs' := by
  have hst := h.stacked
  have hh := h.holds
  rw [hs] at hst hh
  have he := hst.1 _ List.mem_cons_self
  obtain ⟨a, ha, hseg, -⟩ := he.place
  obtain ⟨b, hb, hbs⟩ := he.source
  have ha : tc.data = some a := ha
  have hseg : tc.seg = some a.seg := hseg
  have hb : fc.data = some b := hb
  have hbs : fc.seg = some b.seg := hbs
  have htp : tc.type = .PTR_LIST := he.shape.2.resolve_right fun hl => ht hl.1
  have hlen : 0 < tc.len := by
    have : 0 ≤ tc.len := he.shape.1
    omega
  obtain ⟨hhole, hpend, hlink, hstore⟩ := hst.hole htp hlen ha hb
  have hself : SlotPair (tc, fc) a b := (slotPair_next htp).mpr (.inl ⟨hlen, ha, hb⟩)
  have hreads := he.reads a b hself
  have hcnt : ∃ used err, (sourceRead s J.j fc).capn = { s.world J.j with traversalUsed := used, decodeErr := err } :=
    readPtr_capn _ _ _ _
  have hread := hJ.reading (c := s.world J.j) (h.seen hJ) hreads (hpaid b hb)
  rw [← hbs, ← hb] at hread
  have hi := counters_at hcnt J.i
  have hj := counters_at hcnt J.j
  have hclean := hh.clean
  have hnull := he.null a b hself
  have hslotin := hhole.slot
  have H := (hh.mono hpend hlink hstore).counters hi
  have hhole₁ := hhole.counters hclean hi
  have hsrc₁ : J.i ≠ J.j → J.Seen (s.world.set J.j (sourceRead s J.j fc).capn J.j) := fun hij => by
    obtain ⟨u, e, hc⟩ := hj
    rw [hc]
    exact (h.source hij).of_segs rfl
  have hstep₁ : Stepped J.Own (s.world J.i) (s.world.set J.j (sourceRead s J.j fc).capn J.i) (Pending s.stack)
      (Around a (nextEntry (tc, fc) :: rest)) := by
    obtain ⟨hcl, hg, -⟩ := hclean.counters hi
    exact ⟨hcl, hg.mono fun _ _ h => h.elim, fun k x hx => .inl (hs ▸ hpend k x hx)⟩
  have hzero : ReadsAsNull J.src b → (s.world.set J.j (sourceRead s J.j fc).capn J.i).load64 a = 0 := fun hn => by
    obtain ⟨u, e, hc⟩ := hi
    rw [hc]
    exact hnull hn
  have hne : J.i ≠ J.j → ∀ d f, (copyPtr (s.world.set J.j (sourceRead s J.j fc).capn) J.i J.j a.seg d f).world J.j =
      s.world.set J.j (sourceRead s J.j fc).capn J.j := fun hij d f => copyPtr_ne hij.symm _ _ _
  change ((sourceRead s J.j fc).ptr.type = .NULL ∧ _) ∨ ∃ q cost, _ ∧ _ ∧ (sourceRead s J.j fc).ptr = q at hread
  generalize s.world.set J.j (sourceRead s J.j fc).capn = v at *
  rcases hread with ⟨hnt, hasnull⟩ | ⟨q, cost, hq, hq0, hptr⟩
  · -- null, or not readable: nothing is stored
    rw [copySlot_null hnt] at hr
    subst hr
    have hstep₂ : Stepped J.Own (v J.i) (v J.i) (Around a (nextEntry (tc, fc) :: rest))
        (Pending (nextEntry (tc, fc) :: rest)) := ⟨H.clean.cleaner, Grows.refl _ _, fun k x hx => .inl (.inr hx)⟩
    refine ⟨[], objs, fun x hx => hx, ⟨hsrc₁, hhole₁.rest, ?_⟩, hstep₁.trans hstep₂⟩
    refine H.step hstep₂ H.index (fun e he => absurd he List.not_mem_nil) (fun o ho => ho) ?_
      (fun x y hxy => .inr hxy) fun o ho => .inl ho
    rintro x y (⟨rfl, rfl⟩ | hxy)
    · exact .inl (done_null hhole₁.slot (hzero hasnull) (fun k z hz => hhole₁.settled hz) hasnull)
    · exact .inr hxy
  rw [hptr, copySlot_copy hq0 hseg ha] at hr
  have hhole₂ : ∀ x y, (x = a ∧ y = b) → x = a ∧ ∃ cost, pointee J.src y = some (q, cost) :=
    fun x y hxy => ⟨hxy.1, cost, hxy.2 ▸ hq⟩
  by_cases hint : q.type = .INTERFACE
  · have hf := filled_interface H hhole₁ hhole₂ hint (pointee_capability hq hint)
    rw [copyPtr_interface hint] at hr
    subst hr
    refine ⟨[], objs, fun x hx => hx, ⟨fun hij => ?_, ?_, ?_⟩, hstep₁.trans ?_⟩
    · show J.Seen (v.set J.i _ J.j)
      rw [World.set_ne _ hij.symm]
      exact hsrc₁ hij
    · show Stacked J (v.set J.i _ J.i) _
      rw [World.set_self]
      exact hf.stacked
    · show Holds J (v.set J.i _ J.i) _ _ _ _ _
      rw [World.set_self]
      exact hf.holds
    · show Stepped J.Own (v J.i) (v.set J.i _ J.i) _ _
      rw [World.set_self]
      exact hf.stepped
  · obtain ⟨hwhole, hmem, d, hd, hds⟩ := pointee_whole hq hq0 hint
    obtain ⟨f, hf, hfb⟩ := hreads
    have hbelow := hf.below hfb hq hq0
    subst hr
    obtain ⟨more, objs', hobjs, hfill⟩ := copyPtr_filled hJ H hhole₁ hhole₂ hsrc₁ (.inr hbelow) hwhole
      (fun h => by rw [hmem] at h; cases h.2) hd hds (hJ.index q hbelow) hret hids
    refine ⟨more, objs', hobjs, ⟨fun hij => ?_, hfill.stacked, hfill.holds⟩, hstep₁.trans hfill.stepped⟩
    show J.Seen ((copyPtr v J.i J.j a.seg a q).world J.j)
    rw [hne hij]
    exact hsrc₁ hij

/-- A member of a list gets the data of another one of its size; its pointers are left. -/
theorem copyListMember_same {v : World} {i j : Nat} {t f : Ptr} (hd : f.datasz = t.datasz) (hp : f.ptrs = t.ptrs)
    (h0 : t.ptrs ≠ 0) : copyListMember v i j t f = (memcpy v i t.data j f.data t.datasz,
      some ({ t.advance t.datasz with type := .PTR_LIST, len := t.ptrs }, f.advance t.datasz)) := by
  have hp₁ : (f.advance f.datasz).ptrs = (t.advance t.datasz).ptrs := hp
  have h0 : (t.advance t.datasz).ptrs ≠ 0 := h0
  simp only [copyListMember]
  rw [hp₁, if_pos h0, hd]
  simp only [Nat.min_self, Nat.sub_self, Nat.mul_zero, memzero_zero]
  rfl

theorem counters_trans {c c' c'' : Capn} (h : ∃ used err, c' = { c with traversalUsed := used, decodeErr := err })
    (h' : ∃ used err, c'' = { c' with traversalUsed := used, decodeErr := err }) :
    ∃ used err, c'' = { c with traversalUsed := used, decodeErr := err } := by
  obtain ⟨u, e, rfl⟩ := h
  obtain ⟨u', e', rfl⟩ := h'
  exact ⟨u', e', rfl⟩

/-- **An element** is copied: its data now, its pointers next. -/
theorem Going.element (hJ : J.Ok) (h : Going J s new objs) (hs : s.stack = (tc, fc) :: rest) (ht : tc.type = .LIST)
    (h0 : tc.len ≠ 0) {v : World}
    (hv : ∀ k, ∃ used err, v k = { s.world k with traversalUsed := used, decodeErr := err }) {t f : Ptr}
    (htn : t.data = tc.data ∧ t.seg = tc.seg ∧ t.datasz = tc.datasz ∧ t.ptrs = tc.ptrs)
    (hfn : f.data = fc.data ∧ f.seg = fc.seg ∧ f.datasz = fc.datasz ∧ f.ptrs = fc.ptrs) :
    Went J s ⟨(copyListMember v J.i J.j t f).1, (copyListMember v J.i J.j t f).2.toList ++ nextEntry (tc, fc) :: rest⟩
      new objs := by
  have hst := h.stacked
  have hh := h.holds
  rw [hs] at hst hh
  have he := hst.1 _ List.mem_cons_self
  obtain ⟨a, ha, -, hpos, -, hin⟩ := he.place
  obtain ⟨b, hb, -⟩ := he.source
  have ha : tc.data = some a := ha
  have hb : fc.data = some b := hb
  have hne : ¬ tc.type = .PTR_LIST := by rw [ht]; decide
  obtain ⟨-, -, hfd, hfp, -, hp0, -⟩ := he.shape.2.resolve_left hne
  have hfd : fc.datasz = tc.datasz := hfd
  have hfp : fc.ptrs = tc.ptrs := hfp
  have hlen : 0 < tc.len := by
    have : 0 ≤ tc.len := he.shape.1
    omega
  obtain ⟨ht1, ht2, ht3, ht4⟩ := htn
  obtain ⟨hf1, hf2, hf3, hf4⟩ := hfn
  rw [copyListMember_same (hf3.trans (hfd.trans ht3.symm)) (hf4.trans (hfp.trans ht4.symm))
    (fun hz => hp0 (ht4.symm.trans hz)), ht1, hf1, ht3, ha, hb]
  generalize he' : (({ t.advance tc.datasz with type := .PTR_LIST, len := t.ptrs }, f.advance tc.datasz) : Ptr × Ptr) = e
  have helem : IsElement tc fc e := by
    rw [← he']
    exact ⟨rfl, congrArg Nat.cast ht4, ⟨by simp only [Ptr.advance, ht1], ht2⟩, by simp only [Ptr.advance, hf1], hf2⟩
  obtain ⟨hok, hnext, hapart, hsub, hspan⟩ := he.element ht hlen ha helem
  obtain ⟨htop, hrest⟩ := List.pairwise_cons.mp hst.2
  have hclean := hh.clean
  obtain ⟨hcl₁, hg₁, hcopy₁, hsegs₁⟩ := hclean.counters (hv J.i)
  have hin : a.off + tc.extent ≤ (((s.world J.i).seg a.seg).len : Int) := hin
  have hdsz : tc.datasz ≤ tc.extent := by
    have hl : tc.len.toNat = (tc.len - 1).toNat + 1 := by omega
    simp only [Ptr.extent, ht, hl, Nat.add_mul, Nat.one_mul]
    omega
  have hseg : a.seg < (v J.i).segs.length := by
    rw [hsegs₁]
    by_contra hge
    have hlen0 := congrArg Segment.len (Capn.seg_of_ge (Nat.not_lt.mp hge))
    have hlen0 : ((s.world J.i).seg a.seg).len = 0 := hlen0
    have : 0 < tc.extent := by
      have hl : tc.len.toNat = (tc.len - 1).toNat + 1 := by omega
      have hp0 : tc.ptrs ≠ 0 := hp0
      simp only [Ptr.extent, ht, hl, Nat.add_mul, Nat.one_mul]
      omega
    omega
  have hroom : a.off + tc.datasz ≤ (((v J.i).seg a.seg).len : Int) := by
    have := hg₁.len a.seg
    omega
  have hg₂ := memcpy_grows v J.i a J.j b tc.datasz
  have hcl₂ := memcpy_cleaner (j := J.j) (b := b) hcl₁.clean hroom
  have hcopy₂ : (memcpy v J.i (some a) J.j (some b) tc.datasz J.i).copy = (v J.i).copy := memcpy_copy _ _ _
  have hbyte : ∀ z : Int, 0 ≤ z → z < tc.datasz →
      (memcpy v J.i (some a) J.j (some b) tc.datasz J.i).byte (a.add z) = (v J.j).byte (b.add z) :=
    fun z => memcpy_byte hseg
  have hsrc : J.i ≠ J.j → J.Seen (memcpy v J.i (some a) J.j (some b) tc.datasz J.j) := fun hij => by
    obtain ⟨u, d, hc⟩ := hv J.j
    rw [memcpy_ne hij.symm, hc]
    exact (h.source hij).of_segs rfl
  have hseen : J.Seen (v J.j) := by
    obtain ⟨u, d, hc⟩ := hv J.j
    rw [hc]
    exact (h.seen hJ).of_segs rfl
  generalize hw : memcpy v J.i (some a) J.j (some b) tc.datasz = v' at *
  have hg : Grows (Span a tc.datasz) (s.world J.i) (v' J.i) := (hg₁.mono fun _ _ h => h.elim).trans hg₂
  have hpend : ∀ k x, Pending ([e] ++ nextEntry (tc, fc) :: rest) k x →
      Pending s.stack k x ∧ ¬ Span a tc.datasz k x := by
    rintro k x ⟨d, hd, hx⟩
    rw [hs]
    rcases List.mem_cons.mp hd with rfl | hd
    · exact ⟨⟨_, List.mem_cons_self, (hsub k x (.inl hx)).1⟩, (hsub k x (.inl hx)).2⟩
    rcases List.mem_cons.mp hd with rfl | hd
    · exact ⟨⟨_, List.mem_cons_self, (hsub k x (.inr hx)).1⟩, (hsub k x (.inr hx)).2⟩
    · exact ⟨⟨d, List.mem_cons_of_mem _ hd, hx⟩, fun hsp => htop d hd k x (hspan k x hsp) hx⟩
  have hstep : Stepped J.Own (s.world J.i) (v' J.i) (Pending s.stack) (Pending ([e] ++ nextEntry (tc, fc) :: rest)) :=
    ⟨hcl₁.trans hcl₂, hg.mono fun k x hx => ⟨he.own k x (hspan k x hx), hs ▸ ⟨_, List.mem_cons_self, hspan k x hx⟩⟩,
      fun k x hx => .inl (hpend k x hx).1⟩
  refine ⟨⟨hsrc, ⟨fun d hd => ?_, ?_⟩, ?_⟩, hstep⟩
  · refine EntryOk.grows (c := s.world J.i) ?_ hg fun k x hx => (hpend k x ⟨d, hd, hx⟩).2
    rcases List.mem_cons.mp hd with rfl | hd
    · exact hok
    rcases List.mem_cons.mp hd with rfl | hd
    · exact hnext
    · exact hst.1 d (List.mem_cons_of_mem _ hd)
  · refine List.pairwise_cons.mpr ⟨fun d hd => ?_, List.pairwise_cons.mpr ⟨fun d hd k x hx => ?_, hrest⟩⟩
    · rcases List.mem_cons.mp hd with rfl | hd
      · exact hapart
      · exact fun k x hx => htop d hd k x (hsub k x (.inl hx)).1
    · exact htop d hd k x (hsub k x (.inr hx)).1
  · show Holds J (v' J.i) _ ([] ++ new) objs _ _
    refine h.holds.step hstep (hcopy₂.trans (hcopy₁.trans hh.index)) (fun e he => absurd he List.not_mem_nil) (fun o ho => ho)
      (fun x y hxy => .inr ?_) (fun x y hxy => ?_) fun o ho => .inl ho
    · obtain ⟨d, hd, hxy⟩ := hxy
      rw [hs] at hd
      rcases List.mem_cons.mp hd with rfl | hd
      · rcases (slotPair_element helem ht hlen hfd hfp).mp hxy with hxy | hxy
        · exact ⟨_, List.mem_cons_self, hxy⟩
        · exact ⟨_, List.mem_cons_of_mem _ List.mem_cons_self, hxy⟩
      · exact ⟨d, List.mem_cons_of_mem _ (List.mem_cons_of_mem _ hd), hxy⟩
    · obtain ⟨d, hd, hxy⟩ := hxy
      rw [hs] at hd
      rcases List.mem_cons.mp hd with rfl | hd
      · rcases (dataPair_element ht hlen hfd hfp).mp hxy with ⟨p, q, z, hp, hq, ⟨hz0, hz1⟩, rfl, rfl⟩ | hxy'
        · cases ha.symm.trans hp
          cases hb.symm.trans hq
          have hsp : Span a tc.datasz (a.add z).seg (a.add z).off :=
            ⟨rfl, by show a.off ≤ a.off + z; omega, by show a.off + z < a.off + _; omega⟩
          left
          refine ⟨⟨.inl (he.own _ _ (hspan _ _ hsp)), by show 0 ≤ a.off + z; omega, ?_, fun hp => (hpend _ _ hp).2 hsp⟩, ?_⟩
          · have := hg.len a.seg
            show a.off + z < (((v' J.i).seg a.seg).len : Int)
            omega
          · exact (hbyte z hz0 hz1).trans (hJ.byte_eq hseen (he.bytes _ _ hxy))
        · exact .inr ⟨_, List.mem_cons_of_mem _ List.mem_cons_self, hxy'⟩
      · exact .inr ⟨d, List.mem_cons_of_mem _ (List.mem_cons_of_mem _ hd), hxy⟩

/-- **One iteration** that goes on. -/
theorem Going.step {s' : CopyState} (hJ : J.Ok) (h : Going J s new objs) (hn : copyStep J.i J.j s = .next s')
    (hids : (s'.world J.i).segs.length ≤ 2 ^ 32)
    (hpaid : ∀ tc fc b, Visits s tc fc → fc.data = some b → fc.seg = some b.seg → Paid (s.world J.j) b) :
    ∃ more objs', (∀ x ∈ objs, x ∈ objs') ∧ Went J s s' (more ++ new) objs' := by
  cases hs : s.stack with
  | nil =>
    rw [copyStep, hs] at hn
    cases hn
  | cons top rest =>
    obtain ⟨tc, fc⟩ := top
    simp only [copyStep, hs] at hn
    split at hn
    · cases hn
    by_cases h0 : tc.len = 0
    · rw [if_pos h0] at hn
      cases hn
      exact ⟨[], objs, fun x hx => hx, h.pop hs h0⟩
    rw [if_neg h0] at hn
    by_cases ht : tc.type = .LIST
    · -- an element
      have he := (h.stacked.1 (tc, fc) (by rw [hs]; exact List.mem_cons_self)).shape
      have hne : ¬ tc.type = .PTR_LIST := by rw [ht]; decide
      obtain ⟨-, hf, -, -, -, -, hl⟩ := he.2.resolve_left hne
      have hlen : 0 < tc.len := by
        have : 0 ≤ tc.len := he.1
        omega
      rw [if_pos ht] at hn
      cases hn
      refine ⟨[], objs, fun x hx => hx, ?_⟩
      have hnext : nextEntry (tc, fc) = ({ tc.advance (tc.datasz + 8 * tc.ptrs) with len := tc.len - 1 },
          fc.advance (fc.datasz + 8 * fc.ptrs)) := if_pos ht
      rw [← hnext]
      refine h.element hJ hs ht h0 (fun k => ?_) ?_ ?_
      · have h1 := counters_at (capnGetp_capn (s.world J.j) fc 0 true) k
        exact counters_trans h1 (counters_at (capnGetp_capn _ tc 0 true) k)
      · rw [getp_member ht hlen]
        exact ⟨rfl, rfl, rfl, rfl⟩
      · rw [getp_member hf hl]
        exact ⟨rfl, rfl, rfl, rfl⟩
    · -- a pointer
      rw [if_neg ht] at hn
      split at hn
      · cases hn
      rename_i hret
      cases hn
      have hnext : nextEntry (tc, fc) = ({ tc.advance 8 with len := tc.len - 1 }, fc.advance 8) := if_neg ht
      rw [← hnext]
      obtain ⟨b, hb, hbs⟩ := (h.stacked.1 (tc, fc) (by rw [hs]; exact List.mem_cons_self)).source
      have hb : fc.data = some b := hb
      refine h.slot hJ hs ht h0 (fun b' hb' => ?_) rfl (not_not.mp hret) hids
      cases hb.symm.trans hb'
      exact hpaid tc fc b ⟨rest, hs, ht, h0⟩ hb hbs

/-- **The loop**: on its way, what is settled stays. -/
theorem Going.path {s₀ s' : CopyState} (hJ : J.Ok) (h : Going J s₀ new objs) (hp : Loop.Path (copyStep J.i J.j) s₀ s')
    (hids : ∀ s, Loop.Path (copyStep J.i J.j) s₀ s → (s.world J.i).segs.length ≤ 2 ^ 32)
    (hpaid : ∀ s, Loop.Path (copyStep J.i J.j) s₀ s → ∀ tc fc b, Visits s tc fc → fc.data = some b →
      fc.seg = some b.seg → Paid (s.world J.j) b) :
    ∃ new' objs', (∀ e ∈ new, e ∈ new') ∧ (∀ x ∈ objs, x ∈ objs') ∧ Going J s' new' objs' ∧
      Stepped J.Own (s₀.world J.i) (s'.world J.i) (Pending s₀.stack) (Pending s'.stack) := by
  induction hp with
  | refl => exact ⟨new, objs, fun e he => he, fun x hx => hx, h, h.holds.clean.cleaner, Grows.refl _ _, fun k x hx => .inl hx⟩
  | tail hp hn ih =>
    obtain ⟨new', objs', hnew, hobjs, hg, hst⟩ := ih
    obtain ⟨more, objs'', hobjs', hwent⟩ := hg.step hJ hn (hids _ (.tail hp hn)) (hpaid _ hp)
    exact ⟨more ++ new', objs'', fun e he => List.mem_append_right _ (hnew e he), fun x hx => hobjs' x (hobjs x hx),
      hwent.going, hst.trans hwent.stepped⟩

end

/-! ## The copy -/

/-- The session `c'` comes from `c` by changes where the copy has nothing. -/
structure Later (J : Job) (c c' : Capn) : Prop where
  grows : Grows (fun k x => ¬ J.Has k x) c c'
  segs : c.segs.length ≤ c'.segs.length

theorem Later.refl (J : Job) (c : Capn) : Later J c c := ⟨Grows.refl _ _, Nat.le_refl _⟩

section

variable {J : Job} {c c' : Capn} {pend : Nat → Int → Prop} {K : Places} {new : List Copy}
  {objs : Set (Ptr × Ptr)} {a b : Addr} {q : Ptr}

theorem Joined.inside (h : Joined J.Has c pend K a q) : WordInside c a := by
  obtain ⟨t, cost, -, -, hfoot⟩ := h
  obtain ⟨-, h1, -⟩ := hfoot a.seg a.off (.inl ⟨rfl, Int.le_refl _, by omega⟩)
  obtain ⟨-, -, h2, -⟩ := hfoot a.seg (a.off + 7) (.inl ⟨rfl, by omega, by omega⟩)
  exact ⟨h1, by omega⟩

/-- A pointer of the copy is there later. -/
theorem Later.joined (h : Later J c c') (hj : Joined J.Has c pend K a q) :
    ∃ t cost, pointee c' a = some (t, cost) ∧ IsCopy K t q := by
  have hin := hj.inside
  obtain ⟨t, cost, hp, hcopy, hfoot⟩ := hj
  exact ⟨t, cost, (pointee_foot h.grows h.segs hin hp fun k x hx hn => hn (hfoot k x hx).1).1, hcopy⟩

theorem Later.done (h : Later J c c') (hd : Done J.Has c pend K a J.src b) :
    SamePointer (IsCopy K) c' a J.src b := by
  rcases hd with ⟨hq, h0, hin, hset⟩ | ⟨q, cost, hq, hj⟩
  · have hload : c'.load64 a = 0 :=
      (load64_grows h.grows hin.wordInside fun x hx hn => hn (hset _ x hx).1).trans h0
    exact ⟨_, 0, pointee_zero (hin.grows h.grows) hload, by rw [hq]⟩
  · obtain ⟨t, cost', ht, hcopy⟩ := h.joined hj
    refine ⟨t, cost', ht, ?_⟩
    rw [hq]
    exact hcopy

theorem Later.byte (h : Later J c c') (hs : Settled J.Has c pend a.seg a.off) : c'.byte a = c.byte a :=
  h.grows.data a.seg a.off hs.2.1 hs.2.2.1 fun hn => hn hs.1

/-- What a copy is of: an object with nothing to copy, or one that has a copy. -/
theorem Holds.copied {linking storing : Addr → Addr → Prop} (h : Holds J c pend new objs linking storing) {t q : Ptr}
    (ht : IsCopy (J.Known new) t q) : q.Bare ∨ ∃ o ∈ objs, IsOf o t.data q := by
  obtain ⟨h1, h2, h3, h4, hq⟩ := ht
  refine hq.imp_right ?_
  rintro (hgood | ⟨e, he, heq, hdata⟩)
  · exact h.good t.data q hgood
  obtain ⟨hidx, hobj⟩ := h.copies e he
  simp only [isPtrEqual, Bool.and_eq_true, decide_eq_true_eq] at heq
  obtain ⟨⟨⟨⟨g0, g1⟩, g2⟩, g3⟩, g4⟩ := heq
  obtain ⟨f1, f2, f3, f4⟩ := hidx.fields
  obtain ⟨-, b, hb⟩ := hidx.source
  obtain ⟨s, o, hst, -⟩ := hidx.place
  exact ⟨_, hobj, ⟨_, hdata.trans hst.data, hst.data⟩, ⟨b, g0.trans hb, hb⟩, hst.shape,
    f1.trans g1.symm, f2.trans g2.symm, f3.trans g3.symm, f4.trans g4.symm⟩

/-- What an object that is copied holds. -/
theorem Holds.node (h : Holds J c (Pending []) new objs (Unlinked []) (Unstored [])) (hl : Later J c c') {t q : Ptr}
    (ht : IsCopy (J.Known new) t q) : SameNode (IsCopy (J.Known new)) c' t J.src q := by
  have hcopied := h.copied ht
  obtain ⟨h1, h2, h3, h4, -⟩ := ht
  have hfields := And.intro h1 (And.intro h2 (And.intro h3 h4))
  have hbytes : ∀ a b, DataPair (t, q) a b → c'.byte a = J.src.byte b := by
    rintro a b ⟨p, p', x, hp, hp', hx, rfl, rfl⟩
    rcases hcopied with hbare | ⟨o, ho, ⟨r, hr, hd⟩, ⟨r', hr', hd'⟩, -, hf⟩
    · exact absurd ((dataAt_congr hfields x).mp hx) (hbare.1 x)
    cases hr.symm.trans hp
    cases hr'.symm.trans hp'
    have hx := (dataAt_congr hf x).mpr ((dataAt_congr hfields x).mp hx)
    obtain ⟨hset, hb⟩ := (h.data o ho _ _ ⟨p, p', x, hd, hd', hx, rfl, rfl⟩).resolve_right
      fun hq => absurd hq.choose_spec.1 List.not_mem_nil
    exact (hl.byte hset).trans hb
  refine ⟨h1, h2, fun _ => ⟨h3, h4⟩, fun _ => hbytes, fun hbit n hn => ?_, ?_⟩
  · rcases hcopied with hbare | ⟨o, ho, ⟨r, hr, -⟩, ⟨r', hr', -⟩, hsh, g1, g2, g3, g4⟩
    · have := hbare.2.2 hbit
      omega
    have htbit := h1.trans hbit
    have hsize := hsh.2.2
    simp only [g1.trans hbit] at hsize
    obtain ⟨-, hsz, -, hp0⟩ := hsize
    have hat : t.DataAt ((t.ptrs + n) / 8 : Nat) := by
      simp only [Ptr.DataAt, htbit]
      omega
    simp only [Capn.bitOf, hr, hr', ← h4]
    rw [hbytes _ _ ⟨r, r', _, hr, hr', hat, rfl, rfl⟩]
  · rintro a b ⟨p, p', x, hp, hp', hx, rfl, rfl⟩
    rcases hcopied with hbare | ⟨o, ho, ⟨r, hr, hd⟩, ⟨r', hr', hd'⟩, -, hf⟩
    · exact absurd ((slotAt_congr hfields x).mp hx) (hbare.2.1 x)
    cases hr.symm.trans hp
    cases hr'.symm.trans hp'
    have hx := (slotAt_congr hf x).mpr ((slotAt_congr hfields x).mp hx)
    exact hl.done ((h.slots o ho _ _ ⟨p, p', x, hd, hd', hx, rfl, rfl⟩).resolve_right
      fun hq => absurd hq.choose_spec.1 List.not_mem_nil)

/-- **A copy that is done** holds what the source had when it began, for as long as nothing is
stored into what it has. -/
theorem Holds.content (h : Holds J c (Pending []) new objs (Unlinked []) (Unstored [])) (hl : Later J c c') {t q : Ptr}
    (ht : IsCopy (J.Known new) t q) : SameContent c' t J.src q :=
  ⟨IsCopy (J.Known new), ht, fun _ _ ht => h.node hl ht⟩

end

end Capnproto

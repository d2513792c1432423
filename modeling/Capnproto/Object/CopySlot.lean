import Capnproto.Object.Copying

/-!
# One slot

What `copy_ptr` does for a slot, with a stack of places for later: the slot points to a copy
of the object for good, and what is to be stored of a copy that is new is on the stack
(`copyPtr_filled`). The top of a stack is one slot and what follows it (`Stacked.hole`), or
one element and what follows it (`EntryOk.element`).
-/

namespace Capnproto

/-! ## One slot -/

/-- The place of the slot `a`, and those of the stack. -/
def Around (a : Addr) (rest : List (Ptr × Ptr)) (k : Nat) (x : Int) : Prop := Slot a k x ∨ Pending rest k x

/-- The slot `a` of the copy's own is next, and `rest` is for later. -/
structure Hole (J : Job) (c : Capn) (a : Addr) (rest : List (Ptr × Ptr)) : Prop where
  slot : SlotIn c a
  own : ∀ k x, Slot a k x → J.Own k x
  apart : ∀ k x, Slot a k x → ¬ Pending rest k x
  rest : Stacked J c rest

theorem pending_append {push rest : List (Ptr × Ptr)} {k : Nat} {x : Int} :
    Pending (push ++ rest) k x ↔ Pending push k x ∨ Pending rest k x := by
  simp only [Pending, List.mem_append, or_and_right, exists_or]

theorem unlinked_append {push rest : List (Ptr × Ptr)} {a b : Addr} :
    Unlinked (push ++ rest) a b ↔ Unlinked push a b ∨ Unlinked rest a b := by
  simp only [Unlinked, List.mem_append, or_and_right, exists_or]

theorem unstored_append {push rest : List (Ptr × Ptr)} {a b : Addr} :
    Unstored (push ++ rest) a b ↔ Unstored push a b ∨ Unstored rest a b := by
  simp only [Unstored, List.mem_append, or_and_right, exists_or]

section

variable {J : Job} {c c' : Capn} {a : Addr} {f : Ptr} {rest push : List (Ptr × Ptr)} {K : Places}

theorem Hole.stepped (h : Hole J c a rest) (hcl : Cleaner c c') (hg : Grows (Slot a) c c')
    (hpush : ∀ k x, Pending push k x → ((c.seg k).len : Int) ≤ x) :
    Stepped J.Own c c' (Around a rest) (Pending (push ++ rest)) :=
  ⟨hcl, hg.mono fun k x hx => ⟨h.own k x hx, .inl hx⟩, fun k x hx =>
    (pending_append.mp hx).elim (fun hp => .inr (hpush k x hp)) fun hr => .inl (.inr hr)⟩

theorem Hole.stacked (h : Hole J c a rest) (hg : Grows (Slot a) c c') : Stacked J c' rest :=
  h.rest.grows hg fun k x hx hs => h.apart k x hs hx

/-- A slot that points to a copy, through words that stay. -/
theorem Hole.joined (h : Hole J c a rest) (hg : Grows (Slot a) c c') (hold : Grows J.room J.old c)
    (hpush : ∀ k x, Pending push k x → ((c.seg k).len : Int) ≤ x) {c₁ : Capn}
    (hlen : ∀ k, (c.seg k).len ≤ (c₁.seg k).len) (hpush₁ : ∀ k x, Pending push k x → x < (c₁.seg k).len)
    {front : Nat → Int → Prop} (hfront : ∀ k x, front k x → Settled J.Has c' (Pending (push ++ rest)) k x)
    (hp : PointsTo K c₁ c' front a f) : Joined J.Has c' (Pending (push ++ rest)) K a f := by
  obtain ⟨t, cost, hq, hcopy, hfoot⟩ := hp
  refine ⟨t, cost, hq, hcopy, fun k x hx => ?_⟩
  obtain ⟨h0, h1⟩ := foot_inside (h.slot.grows hg).wordInside hq hx
  have hl := hlen k
  have ho := hold.len k
  rcases hfoot k x hx with hs | hf | hb
  · refine ⟨.inl (h.own k x hs), h0, h1, fun hp => ?_⟩
    rcases pending_append.mp hp with hp | hp
    · have := hpush k x hp
      have hin := h.slot.inside
      obtain ⟨rfl, -, h3⟩ := hs
      omega
    · exact h.apart k x hs hp
  · exact hfront k x hf
  · refine ⟨.inl (.inr (by omega)), h0, h1, fun hp => ?_⟩
    rcases pending_append.mp hp with hp | hp
    · have := hpush₁ k x hp
      omega
    · have := (h.rest.inside hp).2
      omega

end

section

variable {J : Job} {w : World} {a : Addr} {f : Ptr} {rest : List (Ptr × Ptr)} {new : List Copy}
  {objs : Set (Ptr × Ptr)} {hole storing : Addr → Addr → Prop}

/-- The session `c` comes from `c₀` by a copy of `f` into the slot `a`; `stack` is left. -/
structure Filled (J : Job) (c₀ c : Capn) (a : Addr) (f : Ptr) (rest stack : List (Ptr × Ptr)) (new : List Copy)
    (objs : Set (Ptr × Ptr)) : Prop where
  stepped : Stepped J.Own c₀ c (Around a rest) (Pending stack)
  stacked : Stacked J c stack
  joined : Joined J.Has c (Pending stack) (J.Known new) a f
  holds : Holds J c (Pending stack) new objs (Unlinked stack) (Unstored stack)

/-- The slot gets a pointer to a copy that is there, or to an object of no bytes. -/
theorem filled_link {c c' : Capn} (H : Holds J c (Around a rest) new objs (fun x y => hole x y ∨ Unlinked rest x y) (Unstored rest))
    (h : Hole J c a rest) (hhole : ∀ x y, hole x y → x = a ∧ ∃ cost, pointee J.src y = some (f, cost))
    (hcl : Cleaner c c') (hg : Grows (Slot a) c c') (hcopy : c'.copy = c.copy) {c₁ : Capn}
    (hlen : ∀ k, (c.seg k).len ≤ (c₁.seg k).len) {P : Nat → Int → Prop}
    (hfront : ∀ k x, P k x → Settled J.Has c' (Pending rest) k x) (hp : PointsTo (J.Known new) c₁ c' P a f) :
    Filled J c c' a f rest rest new objs := by
  have hnone : ∀ k x, ¬ Pending [] k x := fun k x ⟨e, he, _⟩ => absurd he List.not_mem_nil
  have hs : Stepped J.Own c c' (Around a rest) (Pending ([] ++ rest)) := h.stepped hcl hg fun k x hx => absurd hx (hnone k x)
  have hj : Joined J.Has c' (Pending ([] ++ rest)) (J.Known new) a f :=
    h.joined hg H.grown.1 (fun k x hx => absurd hx (hnone k x)) hlen (fun k x hx => absurd hx (hnone k x)) hfront hp
  refine ⟨hs, h.stacked hg, hj, ?_⟩
  show Holds J c' (Pending rest) ([] ++ new) objs (Unlinked rest) (Unstored rest)
  refine H.step hs (hcopy.trans H.index) (fun e he => absurd he List.not_mem_nil) (fun o ho => ho) ?_
    (fun x y hxy => .inr hxy) fun o ho => .inl ho
  rintro x y (hxy | hxy)
  · obtain ⟨rfl, cost, hq⟩ := hhole x y hxy
    exact .inl (.inr ⟨f, cost, hq, hj⟩)
  · exact .inr hxy

theorem isPtrEqual_self (f : Ptr) : isPtrEqual f f = true := by
  simp only [isPtrEqual, decide_true, Bool.and_self]

section

variable {r : Copied} {mid : Capn} {t : Ptr} {s : Nat} {o : Int}

/-- What is pushed for a copy is behind what was in use, and behind the bytes that are copied
at once. -/
theorem Begun.area (hB : Begun w J.i J.j a f r mid t s o) {k : Nat} {x : Int} (hx : Pending r.push.toList k x) :
    k = s ∧ o + t.bodyBytes ≤ x ∧ x < o + t.extent := by
  obtain ⟨e, he, b, hb, rfl, h1, h2⟩ := hx
  obtain ⟨n, hpart, hn⟩ := hB.parts e (by simpa using he)
  have hd := hpart.dst.1
  rw [hB.stands.data] at hd
  cases hd.symm.trans hb
  have hroom := hpart.room
  have h1 : o + n ≤ x := h1
  have h2 : x < o + n + e.1.extent := h2
  exact ⟨rfl, by omega, by omega⟩

theorem Begun.pushed (hB : Begun w J.i J.j a f r mid t s o) {k : Nat} {x : Int} (hx : Pending r.push.toList k x) :
    (((w J.i).seg k).len : Int) ≤ x := by
  obtain ⟨rfl, h1, -⟩ := hB.area hx
  have := hB.fresh
  omega

/-- Bytes of the clone, and in front of it, that are not pushed. -/
theorem Begun.settled (hB : Begun w J.i J.j a f r mid t s o) (hr : Stacked J (w J.i) rest)
    (hold : Grows J.room J.old (w J.i)) {x : Int} (h0 : o - t.pre ≤ x) (h1 : x < o + t.extent)
    (hp : ¬ Pending r.push.toList s x) : Settled J.Has (r.world J.i) (Pending (r.push.toList ++ rest)) s x := by
  have hfresh := hB.fresh
  have hin := hB.stands.inside
  have := hold.len s
  refine ⟨.inl (.inr (by omega)), by omega, by omega, fun hx => ?_⟩
  rcases pending_append.mp hx with hx | hx
  · exact hp hx
  · have := (hr.inside hx).2
    omega

theorem Begun.front (hB : Begun w J.i J.j a f r mid t s o) (hr : Stacked J (w J.i) rest)
    (hold : Grows J.room J.old (w J.i)) (k : Nat) (x : Int) (hx : Front t s o k x) :
    Settled J.Has (r.world J.i) (Pending (r.push.toList ++ rest)) k x := by
  obtain ⟨rfl, h0, h1⟩ := hx
  refine hB.settled hr hold h0 (by omega) fun hp => ?_
  have := (hB.area hp).2.1
  omega

/-- A word of zero bytes. -/
theorem load64_blank {c : Capn} {a : Addr} (h : ∀ x, Slot a a.seg x → c.byte ⟨a.seg, x⟩ = 0) : c.load64 a = 0 := by
  show (c.seg a.seg).data.load64 a.off = Mem.zero.load64 0
  exact Mem.load64_congr fun k hk => h (a.off + k) ⟨rfl, by omega, by omega⟩

/-- Objects with the same fields have their pointers and bytes at the same places. -/
theorem slotAt_congr {p q : Ptr} (h : p.type = q.type ∧ p.len = q.len ∧ p.datasz = q.datasz ∧ p.ptrs = q.ptrs) (x : Int) :
    p.SlotAt x ↔ q.SlotAt x := by
  obtain ⟨h1, h2, h3, h4⟩ := h
  simp only [Ptr.SlotAt, h1, h2, h3, h4]

theorem dataAt_congr {p q : Ptr} (h : p.type = q.type ∧ p.len = q.len ∧ p.datasz = q.datasz ∧ p.ptrs = q.ptrs) (x : Int) :
    p.DataAt x ↔ q.DataAt x := by
  obtain ⟨h1, h2, h3, h4⟩ := h
  simp only [Ptr.DataAt, h1, h2, h3, h4]

/-- What is pushed for a copy is an entry. -/
theorem Begun.entry (hB : Begun w J.i J.j a f r mid t s o) (hold : Grows J.room J.old (w J.i)) (hf : J.Source f)
    {b : Addr} (hb : f.data = some b) (hs : f.seg = some b.seg) {e : Ptr × Ptr} (he : r.push = some e) :
    EntryOk J (r.world J.i) e := by
  obtain ⟨n, hpart, hn⟩ := hB.parts e he
  have hstand := hB.stands
  have hin := hstand.inside
  have hlead := hstand.lead
  have hal := hstand.aligned
  have hroom := hpart.room
  have h8 := hpart.aligned
  have hdst := hpart.dst
  have hsrc := hpart.src
  rw [hstand.data, hstand.seg] at hdst
  rw [hb, hs] at hsrc
  have harea : ∀ k x, Area e k x → k = s ∧ o + t.bodyBytes ≤ x ∧ x < o + t.extent := fun k x hx =>
    hB.area ⟨e, by simp [he], hx⟩
  have hslot : ∀ x y, SlotPair e x y → SlotPair (t, f) x y := fun x y h => (hB.slots x y).mpr ⟨e, he, h⟩
  have hplace : ∃ b, e.1.data = some b ∧ e.1.seg = some b.seg ∧ 0 ≤ b.off ∧ 8 ∣ b.off ∧
      b.off + e.1.extent ≤ ((r.world J.i).seg b.seg).len :=
    ⟨⟨s, o + n⟩, hdst.1, hdst.2, by show 0 ≤ o + n; omega, by show 8 ∣ o + n; omega,
      by show o + n + e.1.extent ≤ ((r.world J.i).seg s).len; omega⟩
  refine ⟨hpart.shape, hplace, fun k x hx => .inr ?_, ⟨b.add n, hsrc.1, hsrc.2⟩, fun x y hxy => ?_, fun x y hxy _ => ?_,
    fun x y hxy => ?_⟩
  · have := hB.fresh
    obtain ⟨rfl, h1, -⟩ := harea k x hx
    have := hold.len k
    omega
  · obtain ⟨p, q, z, -, hq, hz, -, rfl⟩ := hslot x y hxy
    cases hb.symm.trans hq
    exact ⟨f, hf, slotOf_iff.mpr ⟨b, z, hb, (slotAt_congr hB.fields z).mp hz, rfl⟩⟩
  · refine load64_blank fun z hz => ?_
    obtain ⟨p, q, u, hp, -, hu, rfl, -⟩ := hxy
    cases hdst.1.symm.trans hp
    obtain ⟨h1, h2⟩ := SlotAt.inside hu
    obtain ⟨-, h3, h4⟩ := hz
    have h3 : o + n + u ≤ z := h3
    have h4 : z < o + n + u + 8 := h4
    exact hB.zero z (by omega) (by omega)
  · obtain ⟨p, q, z, -, hq, hz, -, rfl⟩ := hpart.data x y hxy
    cases hb.symm.trans hq
    exact ⟨f, b, z, hf, hb, (dataAt_congr hB.fields z).mp hz, rfl⟩

theorem stacked_push {c : Capn} {push : Option (Ptr × Ptr)} (hr : Stacked J c rest) (he : ∀ e, push = some e → EntryOk J c e)
    (hapart : ∀ k x, Pending push.toList k x → ¬ Pending rest k x) : Stacked J c (push.toList ++ rest) := by
  cases push with
  | none => exact hr
  | some e =>
    refine ⟨fun e' he' => ?_, List.pairwise_cons.mpr ⟨fun e' he' k x hx hx' => ?_, hr.2⟩⟩
    · rcases List.mem_cons.mp he' with rfl | he'
      · exact he _ rfl
      · exact hr.1 e' he'
    · exact hapart k x ⟨e, by simp, hx⟩ ⟨e', he', hx'⟩

/-- The source session, with the clone linked. -/
theorem Job.Ok.middle (hJ : J.Ok) (hsrc : J.i ≠ J.j → J.Seen (w J.j)) {c : Capn} (hg : Grows J.room J.old c)
    (hl : J.old.segs.length ≤ c.segs.length) : J.Seen (w.set J.i c J.j) := by
  by_cases hij : J.i = J.j
  · have hsame := hJ.same hij
    rw [← hij, World.set_self]
    refine ⟨⟨fun k => ?_, fun k x h0 h1 hr => ?_⟩, by rw [hsame]; exact hl, fun h => absurd hij h⟩
    · simpa only [Capn.seg, hsame] using hg.len k
    · have := hg.data k x h0 (by simpa only [Capn.seg, hsame] using h1) fun h => hr ⟨hij, h⟩
      simpa only [Capn.seg, hsame] using this
  · rw [World.set_ne _ (Ne.symm hij)]
    exact hsrc hij

/-- The slot gets a pointer to a copy that is begun. -/
theorem filled_begun (hJ : J.Ok)
    (H : Holds J (w J.i) (Around a rest) new objs (fun x y => hole x y ∨ Unlinked rest x y) (Unstored rest))
    (h : Hole J (w J.i) a rest) (hhole : ∀ x y, hole x y → x = a ∧ ∃ cost, pointee J.src y = some (f, cost))
    (hsrc : J.i ≠ J.j → J.Seen (w J.j)) (hB : Begun w J.i J.j a f r mid t s o) (hf : J.Source f)
    (hbare : f.zeroSized → f.Bare) {b : Addr} (hb : f.data = some b) (hs : f.seg = some b.seg) :
    ∃ more objs', (∀ x ∈ objs, x ∈ objs') ∧
      Filled J (w J.i) (r.world J.i) a f rest (r.push.toList ++ rest) (more ++ new) objs' := by
  have hold := H.grown.1
  obtain ⟨c₁, hlen, hroom, hpts⟩ := hB.points
  have hfront := hB.front h.rest hold
  rcases hB.index with ⟨hz, hpush, hcopy⟩ | ⟨hz, hcopy⟩
  · -- nothing of the object is copied
    rw [hpush] at hfront ⊢
    exact ⟨[], objs, fun x hx => hx, filled_link H h hhole hB.cleaner hB.grows hcopy hlen hfront
      (hpts _ (.inl (hbare hz)))⟩
  have harea : ∀ k x, Pending r.push.toList k x → x < (c₁.seg k).len := by
    intro k x hx
    obtain ⟨rfl, -, h2⟩ := hB.area hx
    omega
  have hstep := h.stepped hB.cleaner hB.grows fun k x hx => hB.pushed hx
  have hentry : (⟨t, f, J.j, f.fseg, f.fbegin, f.fend⟩ : Copy) ∈ [(⟨t, f, J.j, f.fseg, f.fbegin, f.fend⟩ : Copy)] ++ new :=
    List.mem_append_left _ (List.mem_singleton.mpr rfl)
  have hj := h.joined hB.grows hold (fun k x hx => hB.pushed hx) hlen harea hfront
    (hpts (J.Known _) (.inr (.inr ⟨_, hentry, isPtrEqual_self f, rfl⟩)))
  refine ⟨[⟨t, f, J.j, f.fseg, f.fbegin, f.fend⟩], insert (t, f) objs, fun x hx => Set.mem_insert_of_mem _ hx, hstep, ?_,
    hj, ?_⟩
  · refine stacked_push (h.stacked hB.grows) (fun e he => hB.entry hold hf hb hs he) fun k x hx hx' => ?_
    have := hB.pushed hx
    have := (h.rest.inside hx').2
    omega
  refine H.step hstep (by rw [hcopy, H.index]; rfl) (fun e he => ?_) (fun x hx => Set.mem_insert_of_mem _ hx) ?_ ?_ ?_
  · rw [List.mem_singleton.mp he]
    have hfresh := hB.fresh
    have := hold.len s
    exact ⟨⟨rfl, ⟨rfl, rfl, rfl⟩, ⟨hf, b, hb⟩, hz, hB.fields, s, o, hB.stands, by show _ + (t.pre : Int) ≤ o; omega, hfront⟩,
      Set.mem_insert _ _⟩
  · rintro x y (hxy | hxy)
    · obtain ⟨rfl, cost, hq⟩ := hhole x y hxy
      exact .inl (.inr ⟨f, cost, hq, hj⟩)
    · exact .inr (unlinked_append.mpr (.inr hxy))
  · exact fun x y hxy => .inr (unstored_append.mpr (.inr hxy))
  · intro p hp
    rcases Set.mem_insert_iff.mp hp with rfl | hp
    swap
    · exact .inl hp
    refine .inr ⟨fun x y hxy => ?_, fun x y hxy => ?_⟩
    · obtain ⟨e, he, hexy⟩ := (hB.slots x y).mp hxy
      exact unlinked_append.mpr (.inl ⟨e, by simp [he], hexy⟩)
    · obtain ⟨p, q, z, hp, hq, hz', rfl, rfl⟩ := id hxy
      cases hB.stands.data.symm.trans hp
      cases hb.symm.trans hq
      rcases hB.covered z hz' with ⟨h0, h1⟩ | he
      · left
        have hext := bodyBytes_le hB.stands.shape
        refine ⟨hB.settled h.rest hold (by show o - _ ≤ o + z; omega) (by show o + z < o + _; omega) fun hx => ?_, ?_⟩
        · have := (hB.area hx).2.1
          have : o + t.bodyBytes ≤ o + z := this
          omega
        · have hmid := hB.middle
          have hseen := hJ.middle hsrc (Job.grown hold (hmid.1.mono h.own)) (Nat.le_trans H.grown.2 hmid.2)
          exact (hB.bytes b z hb h0 h1).trans
            (hJ.byte_eq hseen ⟨f, b, z, hf, hb, (dataAt_congr hB.fields z).mp hz', rfl⟩)
      · exact .inr (unstored_append.mpr (.inl ⟨(t, f), by simp [he], hxy⟩))

end

theorem copyPtr_copied {s : Nat} {t : Ptr} (h : findCopy (w J.i) J.j f = .copied t) :
    copyPtr w J.i J.j s a f = ⟨(writePtr (w J.i) s a t false).1, w.set J.i (writePtr (w J.i) s a t false).2, none⟩ := by
  simp only [copyPtr, h]

/-- What is pending is no part of an earlier copy. -/
theorem Hole.kept {c : Capn} (h : Hole J c a rest) (hJ : J.Ok) {k : Nat} {x : Int} (hk : J.kept k x) : ¬ Around a rest k x := by
  obtain ⟨hroom, -, hlt⟩ := hJ.kept k x hk
  have hown : ¬ J.Own k x := by
    rintro (h | h)
    · exact hroom h
    · omega
  rintro (hs | ⟨e, he, hx⟩)
  · exact hown (h.own k x hs)
  · exact hown ((h.rest.1 e he).own k x hx)

/-- The slot gets a pointer to the copy in the index. -/
theorem filled_found {c : Capn} {t : Ptr} (hJ : J.Ok)
    (H : Holds J c (Around a rest) new objs (fun x y => hole x y ∨ Unlinked rest x y) (Unstored rest))
    (h : Hole J c a rest) (hhole : ∀ x y, hole x y → x = a ∧ ∃ cost, pointee J.src y = some (f, cost))
    (hfound : findCopy c J.j f = .copied t) (hlook : J.Lookup f)
    (hw : (writePtr c a.seg a t false).1 = 0) (hids : (writePtr c a.seg a t false).2.segs.length ≤ 2 ^ 32) :
    Filled J c (writePtr c a.seg a t false).2 a f rest rest new objs := by
  obtain ⟨hz, hwhere⟩ := findCopy_split H.index hfound
  -- the copy is a new one, or one that can be used again
  obtain ⟨hfields, hknown, s, o, hst, hfront⟩ : (t.type = f.type ∧ t.len = f.len ∧ t.datasz = f.datasz ∧ t.ptrs = f.ptrs) ∧
      J.Known new t.data f ∧ ∃ s o, Stands c t s o ∧ ∀ k x, Front t s o k x → Settled J.Has c (Around a rest) k x := by
    rcases hwhere with ⟨e, he, rfl, heq⟩ | hold
    · obtain ⟨hidx, -⟩ := H.copies e he
      obtain ⟨s, o, hst, -, hfront⟩ := hidx.place
      obtain ⟨h1, h2, h3, h4⟩ := hidx.fields
      have hsame := heq
      simp only [isPtrEqual, Bool.and_eq_true, decide_eq_true_eq] at hsame
      obtain ⟨⟨⟨⟨-, g1⟩, g2⟩, g3⟩, g4⟩ := hsame
      exact ⟨⟨h1.trans g1.symm, h2.trans g2.symm, h3.trans g3.symm, h4.trans g4.symm⟩, .inr ⟨e, he, heq, rfl⟩, s, o, hst, hfront⟩
    · rcases hlook with hfree | ⟨t', hold', hagain⟩
      · rw [hold] at hfree
        cases hfree
      · cases hold.symm.trans hold'
        obtain ⟨s, o, hst, hfront⟩ := hagain.place
        refine ⟨hagain.fields, .inl hagain.good, s, o, hst.grows H.grown.1 H.grown.2 fun k x hx => (hJ.kept k x (hfront k x hx)).1,
          fun k x hx => ?_⟩
        obtain ⟨-, h0, h1⟩ := hJ.kept k x (hfront k x hx)
        have := H.grown.1.len k
        exact ⟨.inr (hfront k x hx), h0, by omega, h.kept hJ (hfront k x hx)⟩
  obtain ⟨h1, h2, h3, h4⟩ := hfields
  have hne : ¬ t.emptyStruct := by
    rintro ⟨e1, e2, e3⟩
    exact hz (Ptr.zeroSized_of_empty ⟨h1.symm.trans e1, h3.symm.trans e2, h4.symm.trans e3⟩)
  have hgrows := (writes_ptr c a.seg a t false).grows
  have hcl := cleaner_ptr H.clean h.slot.inside a.seg t false
  have hstep : Stepped J.Own c (writePtr c a.seg a t false).2 (Around a rest) (Pending ([] ++ rest)) :=
    h.stepped hcl hgrows fun k x hq => absurd hq.choose_spec.1 List.not_mem_nil
  obtain ⟨hpt, -⟩ := link_points (q := f) H.clean hst hne h.slot ⟨h1, h2, h3, h4⟩ (.inr hknown)
    (fun x hx hs => (hfront _ x hx).2.2.2 (.inl hs)) hids hw
  exact filled_link H h hhole hcl hgrows (writes_ptr _ _ _ _ _).copy (fun k => Nat.le_refl _)
    (fun k x hx => hstep.settled (hfront k x hx)) hpt

/-- What is known of a capability that is read. -/
theorem pointee_capability {c : Capn} {b : Addr} {q : Ptr} {cost : Nat} (h : pointee c b = some (q, cost))
    (hi : q.type = .INTERFACE) : q.datasz = 0 ∧ q.ptrs = 0 ∧ toInt32 (q.len % 2 ^ 32).toNat = q.len := by
  simp only [pointee] at h
  split at h
  · cases h
  rename_i seg d val hit
  split at h
  · split at h
    · cases h
    · cases h
      refine ⟨rfl, rfl, ?_⟩
      simp only [toInt32]
      split <;> split <;> omega
  · obtain ⟨⟨q', n⟩, hobj, e⟩ := Option.map_eq_some_iff.mp h
    cases e
    obtain ⟨⟨-, -, hsh⟩, -⟩ := decodeObject_spec (followFar_lt (load64_lt c b) hit) hobj
    rw [show q'.type = .INTERFACE from hi] at hsh
    exact hsh.elim

/-- A capability is stored as a word. -/
theorem copyPtr_interface (hi : f.type = .INTERFACE) : copyPtr w J.i J.j a.seg a f =
    ⟨0, w.set J.i ((w J.i).store64 a (OTHER_PTR + (f.len % 2 ^ 32).toNat * 2 ^ 32)), none⟩ := by
  have hz : f.zeroSized := by
    left
    simp only [Ptr.fend, dataSize, hi, Int.add_zero]
  have hfree : findCopy (w J.i) J.j f = .free := by rw [findCopy, if_pos hz]
  have hclone : newClone (w J.i) a.seg f = (w J.i, { type := .INTERFACE, seg := some a.seg, len := f.len }) := by
    simp only [newClone, hi, capnNewInterface, Option.isSome_some, if_true]
  simp only [copyPtr, hfree, copyFresh, hclone, writePtr, if_true, writePtrTag, ptrTag, Option.map_some, tagResult, if_pos hz,
    ne_eq, not_true_eq_false, if_false, copyBody]

theorem filled_interface {c : Capn}
    (H : Holds J c (Around a rest) new objs (fun x y => hole x y ∨ Unlinked rest x y) (Unstored rest))
    (h : Hole J c a rest) (hhole : ∀ x y, hole x y → x = a ∧ ∃ cost, pointee J.src y = some (f, cost))
    (hi : f.type = .INTERFACE) (hf : f.datasz = 0 ∧ f.ptrs = 0 ∧ toInt32 (f.len % 2 ^ 32).toNat = f.len) :
    Filled J c (c.store64 a (OTHER_PTR + (f.len % 2 ^ 32).toNat * 2 ^ 32)) a f rest rest new objs := by
  obtain ⟨hd, hp, hlen⟩ := hf
  have hlt : OTHER_PTR + (f.len % 2 ^ 32).toNat * 2 ^ 32 < 2 ^ 64 := by
    simp only [OTHER_PTR]
    omega
  have hload := load64_store64_self h.slot.lt hlt
  have hgrows : Grows (Slot a) c (c.store64 a (OTHER_PTR + (f.len % 2 ^ 32).toNat * 2 ^ 32)) :=
    (Grows.refl _ _).store64 (.inr slot_self)
  have hcl : Cleaner c (c.store64 a (OTHER_PTR + (f.len % 2 ^ 32).toNat * 2 ^ 32)) :=
    H.clean.cleaner.store64 h.slot.inside
  generalize hc' : c.store64 a (OTHER_PTR + (f.len % 2 ^ 32).toNat * 2 ^ 32) = c' at hload hgrows hcl ⊢
  have hcopy : c'.copy = c.copy := by
    rw [← hc']
    rfl
  obtain ⟨q, hq, hqt, hql, hqd, hqp⟩ := pointee_interface (c := c') (d := a) (by
    rw [hload]
    simp only [OTHER_PTR]
    omega)
  have hhigh : (OTHER_PTR + (f.len % 2 ^ 32).toNat * 2 ^ 32) / 2 ^ 32 = (f.len % 2 ^ 32).toNat := by
    simp only [OTHER_PTR]
    omega
  rw [hload, hhigh, hlen] at hql
  refine filled_link (P := fun _ _ => False) H h hhole hcl hgrows hcopy (fun k => Nat.le_refl _)
    (fun k x hx => hx.elim) ⟨q, 0, hq, ⟨hqt.trans hi.symm, hql, hqd.trans hd.symm, hqp.trans hp.symm, .inl ⟨?_, ?_, ?_⟩⟩, ?_⟩
  · intro x hx
    simp only [Ptr.DataAt, hi] at hx
  · intro x hx
    simp only [Ptr.SlotAt, hi] at hx
  · intro ht
    rw [hi] at ht
    cases ht
  · rintro k x (hx | ⟨p, hpad, -⟩ | ⟨hcm, -⟩)
    · exact .inl hx
    · rw [landingPads, hload, followFar, if_neg (by simp only [OTHER_PTR, FAR_PTR]; omega),
        if_neg (by simp only [OTHER_PTR, DOUBLE_PTR]; omega)] at hpad
      cases hpad
    · rw [pointee_plain hq hqt] at hcm
      cases hcm

/-- **One slot**: `copy_ptr` that succeeds leaves it with a pointer to a copy of the object. -/
theorem copyPtr_filled (hJ : J.Ok)
    (H : Holds J (w J.i) (Around a rest) new objs (fun x y => hole x y ∨ Unlinked rest x y) (Unstored rest))
    (h : Hole J (w J.i) a rest) (hhole : ∀ x y, hole x y → x = a ∧ ∃ cost, pointee J.src y = some (f, cost))
    (hsrc : J.i ≠ J.j → J.Seen (w J.j)) (hf : J.Source f) (hwhole : f.Whole)
    (hm : ¬ (f.type = .BIT_LIST ∧ f.isListMember = true)) {b : Addr} (hb : f.data = some b) (hs : f.seg = some b.seg)
    (hlook : J.Lookup f) (hret : (copyPtr w J.i J.j a.seg a f).ret = 0)
    (hids : ((copyPtr w J.i J.j a.seg a f).world J.i).segs.length ≤ 2 ^ 32) :
    ∃ more objs', (∀ x ∈ objs, x ∈ objs') ∧
      Filled J (w J.i) ((copyPtr w J.i J.j a.seg a f).world J.i) a f rest
        ((copyPtr w J.i J.j a.seg a f).push.toList ++ rest) (more ++ new) objs' := by
  cases hfound : findCopy (w J.i) J.j f with
  | overlap =>
    simp only [copyPtr, hfound] at hret
    cases hret
  | copied t =>
    rw [copyPtr_copied hfound] at hret hids ⊢
    simp only [World.set_self] at hids ⊢
    exact ⟨[], objs, fun x hx => hx, filled_found hJ H h hhole hfound hlook hret hids⟩
  | free =>
    have heq : copyPtr w J.i J.j a.seg a f = copyFresh w J.i J.j a.seg a f := by simp only [copyPtr, hfound]
    rw [heq] at hret hids ⊢
    obtain ⟨mid, t, s, o, hB⟩ := copyFresh_begun H.clean h.slot hwhole hm hb hret hids
    exact filled_begun hJ H h hhole hsrc hB hf (hwhole.bare hm) hb hs

end

/-! ## The stack -/

section

variable {J : Job} {c : Capn} {tc fc : Ptr} {a b : Addr} {rest : List (Ptr × Ptr)}

theorem Holds.mono {pend pend' : Nat → Int → Prop} {new : List Copy} {objs : Set (Ptr × Ptr)}
    {linking linking' storing storing' : Addr → Addr → Prop} (h : Holds J c pend new objs linking storing)
    (hp : ∀ k x, pend' k x → pend k x) (hl : ∀ x y, linking x y → linking' x y) (hs : ∀ x y, storing x y → storing' x y) :
    Holds J c pend' new objs linking' storing' := by
  have hstep : Stepped J.Own c c pend pend' := ⟨h.clean.cleaner, Grows.refl _ _, fun k x hx => .inl (hp k x hx)⟩
  show Holds J c pend' ([] ++ new) objs linking' storing'
  exact h.step hstep h.index (fun e he => absurd he List.not_mem_nil) (fun o ho => ho)
    (fun x y hxy => .inr (hl x y hxy)) (fun x y hxy => .inr (hs x y hxy)) fun o ho => .inl ho

/-- The pointers of an entry, but for the one that it is at, are an entry. -/
theorem EntryOk.next (h : EntryOk J c (tc, fc)) (ht : tc.type = .PTR_LIST) (h0 : 0 < tc.len) (ha : tc.data = some a)
    (hb : fc.data = some b) :
    EntryOk J c (nextEntry (tc, fc)) ∧ SlotPair (tc, fc) a b ∧
      ∀ k x, Area (nextEntry (tc, fc)) k x → Area (tc, fc) k x ∧ ¬ Slot a k x := by
  have hnext : nextEntry (tc, fc) = ({ tc.advance 8 with len := tc.len - 1 }, fc.advance 8) :=
    if_neg (by rw [ht]; decide)
  have hself : SlotPair (tc, fc) a b := (slotPair_next ht).mpr (.inl ⟨h0, ha, hb⟩)
  have hpair : ∀ x y, SlotPair (nextEntry (tc, fc)) x y → SlotPair (tc, fc) x y :=
    fun x y hxy => (slotPair_next ht).mpr (.inr hxy)
  have hext : tc.extent = 8 * tc.len.toNat := by simp only [Ptr.extent, ht]
  have hext' : ({ tc.advance 8 with len := tc.len - 1 } : Ptr).extent = 8 * (tc.len - 1).toNat := by
    simp only [Ptr.extent, Ptr.advance, ht]
  obtain ⟨p, hp, hseg, hp0, h8, hin⟩ := h.place
  cases ha.symm.trans hp
  obtain ⟨q, hq, hqs⟩ := h.source
  cases hb.symm.trans hq
  have harea : ∀ k x, Area (nextEntry (tc, fc)) k x → Area (tc, fc) k x ∧ ¬ Slot a k x := by
    rintro k x ⟨p, hp, rfl, h1, h2⟩
    rw [hnext] at hp h2
    simp only [Ptr.advance, ha, Option.map_some] at hp
    cases hp
    rw [hext'] at h2
    simp only [Addr.add] at h1 h2 ⊢
    refine ⟨⟨a, ha, rfl, by omega, ?_⟩, fun hs => ?_⟩
    · rw [hext]
      omega
    · have := hs.2.2
      omega
  refine ⟨⟨?_, ?_, fun k x hx => h.own k x (harea k x hx).1, ?_, fun x y hxy => h.reads x y (hpair x y hxy),
    fun x y hxy => h.null x y (hpair x y hxy), fun x y hxy => ?_⟩, hself, harea⟩
  · rw [hnext]
    exact ⟨by show 0 ≤ tc.len - 1; omega, .inl ht⟩
  · rw [hnext]
    refine ⟨a.add 8, by simp only [Ptr.advance, ha, Option.map_some], hseg, ?_, ?_, ?_⟩
    · show 0 ≤ a.off + 8
      omega
    · show 8 ∣ a.off + 8
      omega
    · rw [hext']
      rw [hext] at hin
      show a.off + 8 + _ ≤ ((c.seg a.seg).len : Int)
      omega
  · rw [hnext]
    exact ⟨b.add 8, by simp only [Ptr.advance, hb, Option.map_some], hqs⟩
  · refine absurd hxy (dataPair_ptrs ?_)
    rw [hnext]
    exact ht

/-- The slot that the top of the stack is at, and what is left then. -/
theorem Stacked.hole (h : Stacked J c ((tc, fc) :: rest)) (ht : tc.type = .PTR_LIST) (h0 : 0 < tc.len)
    (ha : tc.data = some a) (hb : fc.data = some b) :
    Hole J c a (nextEntry (tc, fc) :: rest) ∧
      (∀ k x, Around a (nextEntry (tc, fc) :: rest) k x → Pending ((tc, fc) :: rest) k x) ∧
      (∀ x y, Unlinked ((tc, fc) :: rest) x y → (x = a ∧ y = b) ∨ Unlinked (nextEntry (tc, fc) :: rest) x y) ∧
      ∀ x y, Unstored ((tc, fc) :: rest) x y → Unstored (nextEntry (tc, fc) :: rest) x y := by
  have he := h.1 _ List.mem_cons_self
  obtain ⟨hnext, hself, harea⟩ := he.next ht h0 ha hb
  obtain ⟨hin, hslot⟩ := he.slot hself
  obtain ⟨htop, hrest⟩ := List.pairwise_cons.mp h.2
  refine ⟨⟨hin, fun k x hx => he.own k x (hslot k x hx), fun k x hx hp => ?_, ⟨fun e hm => ?_, ?_⟩⟩, fun k x hx => ?_,
    fun x y hxy => ?_, fun x y hxy => ?_⟩
  · obtain ⟨e, hm, hex⟩ := hp
    rcases List.mem_cons.mp hm with rfl | hm
    · exact (harea k x hex).2 hx
    · exact htop e hm k x (hslot k x hx) hex
  · rcases List.mem_cons.mp hm with rfl | hm
    · exact hnext
    · exact h.1 e (List.mem_cons_of_mem _ hm)
  · exact List.pairwise_cons.mpr ⟨fun e hm k x hx => htop e hm k x (harea k x hx).1, hrest⟩
  · rcases hx with hx | ⟨e, hm, hx⟩
    · exact ⟨_, List.mem_cons_self, hslot k x hx⟩
    · rcases List.mem_cons.mp hm with rfl | hm
      · exact ⟨_, List.mem_cons_self, (harea k x hx).1⟩
      · exact ⟨e, List.mem_cons_of_mem _ hm, hx⟩
  · obtain ⟨e, hm, hxy⟩ := hxy
    rcases List.mem_cons.mp hm with rfl | hm
    · rcases (slotPair_next ht).mp hxy with ⟨-, h1, h2⟩ | hxy
      · exact .inl ⟨Option.some.inj (h1.symm.trans ha), Option.some.inj (h2.symm.trans hb)⟩
      · exact .inr ⟨_, List.mem_cons_self, hxy⟩
    · exact .inr ⟨e, List.mem_cons_of_mem _ hm, hxy⟩
  · obtain ⟨e, hm, hxy⟩ := hxy
    rcases List.mem_cons.mp hm with rfl | hm
    · exact absurd hxy (dataPair_ptrs ht)
    · exact ⟨e, List.mem_cons_of_mem _ hm, hxy⟩

/-- The element that an entry is at, and the next ones, are entries. -/
theorem EntryOk.element (h : EntryOk J c (tc, fc)) (ht : tc.type = .LIST) (h0 : 0 < tc.len) (ha : tc.data = some a)
    {e : Ptr × Ptr} (he : IsElement tc fc e) :
    EntryOk J c e ∧ EntryOk J c (nextEntry (tc, fc)) ∧ Apart e (nextEntry (tc, fc)) ∧
      (∀ k x, Area e k x ∨ Area (nextEntry (tc, fc)) k x → Area (tc, fc) k x ∧ ¬ Span a tc.datasz k x) ∧
      ∀ k x, Span a tc.datasz k x → Area (tc, fc) k x := by
  obtain ⟨hlen, hshape⟩ := h.shape
  have hne : tc.type ≠ .PTR_LIST := by rw [ht]; decide
  obtain ⟨-, hft, hfd, hfp, hd8, hp0, hfl⟩ := hshape.resolve_left hne
  have hfd : fc.datasz = tc.datasz := hfd
  have hfp : fc.ptrs = tc.ptrs := hfp
  have hd8 : 8 ∣ tc.datasz := hd8
  have hnext := @nextEntry_list tc fc ht hfd hfp
  have hpair := fun x y => @slotPair_element tc fc x y e he ht h0 hfd hfp
  have hdata := fun x y => @dataPair_element tc fc x y ht h0 hfd hfp
  obtain ⟨p, hp, hseg, hp0, h8, hin⟩ := h.place
  cases ha.symm.trans hp
  obtain ⟨q, hq, hqs⟩ := h.source
  have hq : fc.data = some q := hq
  have hext : (tc.extent : Int) = tc.datasz + 8 * tc.ptrs + ((tc.len - 1).toNat * (tc.datasz + 8 * tc.ptrs) : Nat) := by
    have hl : tc.len.toNat = (tc.len - 1).toNat + 1 := by omega
    simp only [Ptr.extent, ht, hl, Nat.add_mul, Nat.one_mul]
    push_cast
    omega
  have hexte : e.1.extent = 8 * tc.ptrs := by simp only [Ptr.extent, he.type, he.len, Int.toNat_natCast]
  have hextn : (nextEntry (tc, fc)).1.extent = (tc.len - 1).toNat * (tc.datasz + 8 * tc.ptrs) := by
    rw [hnext]
    simp only [Ptr.extent, Ptr.advance, ht]
  have hde : e.1.data = some (a.add tc.datasz) := by rw [he.dst.1, ha]; rfl
  have hdn : (nextEntry (tc, fc)).1.data = some (a.add (tc.datasz + 8 * tc.ptrs)) := by
    rw [hnext]
    simp only [Ptr.advance, ha, Option.map_some]
  have harea : ∀ k x, Area e k x → k = a.seg ∧ a.off + tc.datasz ≤ x ∧ x < a.off + tc.datasz + 8 * tc.ptrs := by
    rintro k x ⟨b, hb, rfl, h1, h2⟩
    cases hde.symm.trans hb
    rw [hexte] at h2
    simp only [Addr.add] at h1 h2 ⊢
    exact ⟨trivial, h1, by omega⟩
  have harean : ∀ k x, Area (nextEntry (tc, fc)) k x → k = a.seg ∧ a.off + (tc.datasz + 8 * tc.ptrs) ≤ x ∧
      x < a.off + tc.extent := by
    rintro k x ⟨b, hb, rfl, h1, h2⟩
    cases hdn.symm.trans hb
    rw [hextn] at h2
    simp only [Addr.add] at h1 h2 ⊢
    exact ⟨trivial, h1, by omega⟩
  have hin : a.off + tc.extent ≤ ((c.seg a.seg).len : Int) := hin
  have hpos : (0 : Int) ≤ ((tc.len - 1).toNat * (tc.datasz + 8 * tc.ptrs) : Nat) := Int.natCast_nonneg _
  have hsub : ∀ k x, Area e k x ∨ Area (nextEntry (tc, fc)) k x → Area (tc, fc) k x ∧ ¬ Span a tc.datasz k x := by
    rintro k x (hx | hx)
    · obtain ⟨rfl, h1, h2⟩ := harea k x hx
      exact ⟨⟨a, ha, rfl, by omega, by show x < a.off + tc.extent; omega⟩, fun hs => by have := hs.2.2; omega⟩
    · obtain ⟨rfl, h1, h2⟩ := harean k x hx
      exact ⟨⟨a, ha, rfl, by omega, h2⟩, fun hs => by have := hs.2.2; omega⟩
  refine ⟨⟨⟨by rw [he.len]; exact Int.natCast_nonneg _, .inl he.type⟩, ⟨_, hde, he.dst.2.trans hseg, ?_, ?_, ?_⟩,
      fun k x hx => h.own k x (hsub k x (.inl hx)).1, ⟨q.add tc.datasz, by rw [he.src.1, hq]; rfl, he.src.2.trans hqs⟩,
      fun x y hxy => h.reads x y ((hpair x y).mpr (.inl hxy)),
      fun x y hxy => h.null x y ((hpair x y).mpr (.inl hxy)), fun x y hxy => absurd hxy (dataPair_ptrs he.type)⟩,
    ⟨?_, ⟨_, hdn, by rw [hnext]; exact hseg, ?_, ?_, ?_⟩, fun k x hx => h.own k x (hsub k x (.inr hx)).1,
      ⟨q.add (tc.datasz + 8 * tc.ptrs), by rw [hnext]; simp only [Ptr.advance, hq, Option.map_some], by rw [hnext]; exact hqs⟩,
      fun x y hxy => h.reads x y ((hpair x y).mpr (.inr hxy)),
      fun x y hxy => h.null x y ((hpair x y).mpr (.inr hxy)), fun x y hxy => h.bytes x y ((hdata x y).mpr (.inr hxy))⟩,
    fun k x hx hx' => ?_, hsub, fun k x hx => ?_⟩
  · show 0 ≤ a.off + tc.datasz
    omega
  · show 8 ∣ a.off + tc.datasz
    omega
  · rw [hexte]
    show a.off + tc.datasz + (8 * tc.ptrs : Nat) ≤ ((c.seg a.seg).len : Int)
    omega
  · rw [hnext]
    refine ⟨by show 0 ≤ tc.len - 1; omega, .inr ⟨ht, hft, hfd, hfp, hd8, ?_, hfl⟩⟩
    exact hshape.elim (fun h => absurd h hne) fun h => h.2.2.2.2.2.1
  · show 0 ≤ a.off + (tc.datasz + 8 * tc.ptrs)
    omega
  · show 8 ∣ a.off + (tc.datasz + 8 * tc.ptrs)
    omega
  · rw [hextn]
    show a.off + (tc.datasz + 8 * tc.ptrs) + _ ≤ ((c.seg a.seg).len : Int)
    omega
  · have h1 := (harea k x hx).2.2
    have h2 := (harean k x hx').2.1
    omega
  · obtain ⟨rfl, h1, h2⟩ := hx
    exact ⟨a, ha, rfl, h1, by show x < a.off + tc.extent; omega⟩

end

end Capnproto

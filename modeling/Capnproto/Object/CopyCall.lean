import Capnproto.Object.DeepCopy

/-!
# Calls that copy
-/

namespace Capnproto

/-! ## Exits -/

section

variable {J : Job} {s : CopyState} {new : List Copy} {objs : Set (Ptr × Ptr)} {w : World}

/-- A copy that fails leaves a clean session. -/
theorem clean_copy {i j : Nat} {a : Addr} {f : Ptr} (hc : Clean (w i)) (ha : SlotIn (w i) a) (hf : f.Sane)
    (hret : (copyPtr w i j a.seg a f).ret ≠ 0) : Clean ((copyPtr w i j a.seg a f).world i) := by
  have hlink : Clean (linkClone (w i) a.seg a f).2 := by
    obtain ⟨hcl, -⟩ := newClone_clones hc ha.lt hf
    exact (cleaner_ptr hcl.clean (ha.grows (keeps_clone _ _ _)).inside _ _ _).clean
  cases hfound : findCopy (w i) j f with
  | overlap =>
    simp only [copyPtr, hfound]
    exact hc
  | copied t =>
    simp only [copyPtr, hfound, World.set_self]
    exact (cleaner_ptr hc ha.inside _ _ _).clean
  | free =>
    have heq : copyPtr w i j a.seg a f = copyFresh w i j a.seg a f := by simp only [copyPtr, hfound]
    rw [heq] at hret ⊢
    have hbody : ∀ {v : World}, (copyBody v i j (newClone (w i) a.seg f).2 f).ret ≠ 0 →
        (copyBody v i j (newClone (w i) a.seg f).2 f).world = v := by
      intro v h
      simp only [copyBody] at h ⊢
      split at h
      · split at h <;> exact absurd rfl h
      · split at h
        · split at h <;> exact absurd rfl h
        · exact absurd rfl h
      · split at h
        · exact absurd rfl h
        split at h
        · exact absurd rfl h
        split at h
        · exact absurd rfl h
        split at h <;> exact absurd rfl h
      · split at h <;> exact absurd rfl h
      · exact absurd rfl h
      · rfl
    rcases copyFresh_cases w i j a.seg a f with ⟨e, -⟩ | ⟨-, -, e⟩ | ⟨-, -, c, hnew, e⟩
    · rw [e]
      show Clean (w.set i _ i)
      rw [World.set_self]
      exact hlink
    · rw [e] at hret ⊢
      rw [hbody hret, World.set_self]
      exact hlink
    · rw [e] at hret ⊢
      rw [hbody hret, World.set_self]
      have hc := hlink.of_segs (newCopy_copy hnew).1 (newCopy_create hnew)
      exact hc.of_segs rfl rfl

/-- **An exit**: at the bottom of the stack, or in failure, and the session is clean. -/
theorem Going.exit {q : Int × World} (hJ : J.Ok) (h : Going J s new objs)
    (hpaid : ∀ tc fc b, Visits s tc fc → fc.data = some b → fc.seg = some b.seg → Paid (s.world J.j) b)
    (hd : copyStep J.i J.j s = .done q) :
    Clean (q.2 J.i) ∧ (q.1 = 0 → s.stack = [] ∧ q.2 = s.world) := by
  have hclean := h.holds.clean
  cases hs : s.stack with
  | nil =>
    rw [copyStep, hs] at hd
    cases hd
    exact ⟨hclean, fun _ => ⟨rfl, rfl⟩⟩
  | cons top rest =>
    obtain ⟨tc, fc⟩ := top
    simp only [copyStep, hs] at hd
    split at hd
    · cases hd
      exact ⟨hclean, fun h0 => by cases h0⟩
    split at hd
    · cases hd
    rename_i h0
    split at hd
    · cases hd
    rename_i ht
    split at hd
    swap
    · cases hd
    rename_i hret
    cases hd
    refine ⟨?_, fun h0 => by cases h0⟩
    have hst := h.stacked
    rw [hs] at hst
    have he := hst.1 _ List.mem_cons_self
    obtain ⟨a, ha, hseg, -⟩ := he.place
    obtain ⟨b, hb, hbs⟩ := he.source
    have ha : tc.data = some a := ha
    have hseg : tc.seg = some a.seg := hseg
    have hb : fc.data = some b := hb
    have hbs : fc.seg = some b.seg := hbs
    have htp : tc.type = .PTR_LIST := he.shape.2.resolve_right fun hl => ht hl.1
    have hlen : 0 < tc.len := by
      have : 0 ≤ tc.len := he.shape.1
      omega
    have hself : SlotPair (tc, fc) a b := (slotPair_next htp).mpr (.inl ⟨hlen, ha, hb⟩)
    have hread := hJ.reading (h.seen hJ) (he.reads a b hself) (hpaid tc fc b ⟨rest, hs, ht, h0⟩ hb hbs)
    rw [← hbs, ← hb] at hread
    obtain ⟨hcl, hg, -, -⟩ := hclean.counters (counters_at (readPtr_capn (s.world J.j) fc.seg fc.data (-1)) J.i)
    rcases hread with ⟨hnt, -⟩ | ⟨q, cost, hq, hq0, hptr⟩
    · rw [copySlot_null hnt] at hret
      exact absurd rfl hret
    rw [hptr, copySlot_copy hq0 hseg ha] at hret ⊢
    by_cases hint : q.type = .INTERFACE
    · rw [copyPtr_interface hint] at hret
      exact absurd rfl hret
    · exact clean_copy hcl.clean ((he.slot hself).1.grows hg) (pointee_whole hq hq0 hint).1.1 hret

end

end Capnproto

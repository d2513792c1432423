import Capnproto.Object.CopyPtr

/-!
# What a copy knows on its way

A copy has stored some pointers and bytes for good (`Settled`), and the entries of its
stack stand for the rest (`Pending`). `Holds` says that every pointer and every byte of an
object that is copied is one or the other; a step that stores where something was pending
keeps that (`Holds.step`).
-/

namespace Capnproto

/-! ## The source -/

/-- A copy of the object `top` of session `j` into session `i`: the sessions as they were when
it began, the bytes in use that it is to replace, and those of earlier copies that it may use
again, where `good` says that they are. -/
structure Job where
  i : Nat
  j : Nat
  src : Capn
  old : Capn
  top : Ptr
  room : Nat → Int → Prop
  kept : Nat → Int → Prop
  good : Places

/-- The objects that pointers lead to from `f`. -/
inductive Below (c : Capn) (f : Ptr) : Ptr → Prop
  | slot {a : Addr} {q : Ptr} {cost : Nat} (h : SlotOf f a) (hq : pointee c a = some (q, cost)) (h0 : q.type ≠ .NULL) :
    Below c f q
  | next {p : Ptr} {a : Addr} {q : Ptr} {cost : Nat} (hp : Below c f p) (h : SlotOf p a)
    (hq : pointee c a = some (q, cost)) (h0 : q.type ≠ .NULL) : Below c f q

/-- The objects that are copied. -/
def Job.Source (J : Job) (f : Ptr) : Prop := f = J.top ∨ Below J.src J.top f

/-- The pointers that are copied. -/
def Job.Reads (J : Job) (b : Addr) : Prop := ∃ f, J.Source f ∧ SlotOf f b

/-- The bytes that are copied. -/
def Job.Bytes (J : Job) (b : Addr) : Prop := ∃ f a x, J.Source f ∧ f.data = some a ∧ f.DataAt x ∧ b = a.add x

/-- The bytes that the copy may store into. -/
def Job.Own (J : Job) (k : Nat) (x : Int) : Prop := J.room k x ∨ ((J.old.seg k).len : Int) ≤ x

/-- The bytes that the copy has in the end. -/
def Job.Has (J : Job) (k : Nat) (x : Int) : Prop := J.Own k x ∨ J.kept k x

/-- The slot reads as null. -/
def ReadsAsNull (c : Capn) (b : Addr) : Prop := ∀ q cost, pointee c b = some (q, cost) → q.type = .NULL

/-- The source session still has what it had when the copy began, outside of what the copy
replaces in its own session. -/
structure Job.Seen (J : Job) (c : Capn) : Prop where
  grows : Grows (fun k x => J.i = J.j ∧ J.room k x) J.src c
  segs : J.src.segs.length ≤ c.segs.length
  back : J.i ≠ J.j → Keeps c J.src ∧ c.segs.length ≤ J.src.segs.length

/-- The earlier copy `t` of `q` can be used again. -/
structure Job.Again (J : Job) (t q : Ptr) : Prop where
  good : J.good t.data q
  fields : t.type = q.type ∧ t.len = q.len ∧ t.datasz = q.datasz ∧ t.ptrs = q.ptrs
  place : ∃ s o, Stands J.old t s o ∧ ∀ k x, Front t s o k x → J.kept k x

/-- The index has no copy of `q`, or one that can be used again. -/
def Job.Lookup (J : Job) (q : Ptr) : Prop :=
  findCopy J.old J.j q = .free ∨ ∃ t, findCopy J.old J.j q = .copied t ∧ J.Again t q

/-- The source is in bounds, or reads as null, the copy does not store into it, and it has no
copies but those that can be used again. -/
structure Job.Ok (J : Job) : Prop where
  slots : ∀ b, J.Reads b → WordInside J.src b ∨ (J.i ≠ J.j ∧ ReadsAsNull J.src b)
  bytes : ∀ b, J.Bytes b → 0 ≤ b.off ∧ b.off < (J.src.seg b.seg).len
  same : J.i = J.j → J.src.segs = J.old.segs
  apart : J.i = J.j →
    (∀ b, J.Reads b → ∃ q cost, pointee J.src b = some (q, cost) ∧ ∀ k x, Foot J.src b q k x → ¬ J.room k x) ∧
      ∀ b, J.Bytes b → ¬ J.room b.seg b.off
  index : ∀ q, Below J.src J.top q → J.Lookup q
  kept : ∀ k x, J.kept k x → ¬ J.room k x ∧ 0 ≤ x ∧ x < (J.old.seg k).len

section

variable {J : Job}

theorem Job.Source.below {f q : Ptr} {a : Addr} {cost : Nat} (h : J.Source f) (ha : SlotOf f a)
    (hq : pointee J.src a = some (q, cost)) (h0 : q.type ≠ .NULL) : Below J.src J.top q := by
  rcases h with rfl | h
  · exact .slot ha hq h0
  · exact .next h ha hq h0

theorem Job.Seen.inside {c : Capn} (hc : J.Seen c) {b : Addr} (hb : WordInside J.src b) : WordInside c b := by
  have := hc.grows.len b.seg
  obtain ⟨h0, h1⟩ := hb
  exact ⟨h0, by omega⟩

/-- What the pointers of the source point to is still there. -/
theorem Job.Ok.pointee_eq (hJ : J.Ok) {c : Capn} (hc : J.Seen c) {b : Addr} (hb : J.Reads b)
    (hin : WordInside J.src b) : pointee c b = pointee J.src b := by
  have hsome : ∀ q cost, pointee J.src b = some (q, cost) → pointee c b = some (q, cost) := by
    intro q cost hq
    refine (pointee_foot hc.grows hc.segs hin hq ?_).1
    rintro k x hx ⟨hij, hroom⟩
    obtain ⟨q', cost', hq', hfoot⟩ := (hJ.apart hij).1 b hb
    cases hq.symm.trans hq'
    exact hfoot k x hx hroom
  cases hq : pointee J.src b with
  | some r => exact hsome r.1 r.2 hq
  | none =>
    cases hq' : pointee c b with
    | none => rfl
    | some r =>
      by_cases hij : J.i = J.j
      · obtain ⟨q', cost', hs, -⟩ := (hJ.apart hij).1 b hb
        rw [hq] at hs
        cases hs
      · obtain ⟨hg, hs⟩ := hc.back hij
        have := (pointee_foot hg hs (hc.inside hin) hq' fun _ _ _ h => h).1
        rw [hq] at this
        cases this

theorem Job.Ok.byte_eq (hJ : J.Ok) {c : Capn} (hc : J.Seen c) {b : Addr} (hb : J.Bytes b) : c.byte b = J.src.byte b := by
  obtain ⟨h0, h1⟩ := hJ.bytes b hb
  exact hc.grows.data b.seg b.off h0 h1 fun ⟨hij, hroom⟩ => (hJ.apart hij).2 b hb hroom

theorem Job.Seen.of_segs {c c' : Capn} (h : J.Seen c) (hs : c'.segs = c.segs) : J.Seen c' := by
  refine ⟨h.grows.of_segs hs, by rw [hs]; exact h.segs, fun hij => ?_⟩
  obtain ⟨hg, hl⟩ := h.back hij
  exact ⟨((Grows.refl _ c').of_segs hs.symm).trans hg, by rw [hs]; exact hl⟩

end

/-! ## What is done, and what is left -/

/-- The bytes of the destination of an entry. -/
def Area (e : Ptr × Ptr) (k : Nat) (x : Int) : Prop :=
  ∃ b, e.1.data = some b ∧ k = b.seg ∧ b.off ≤ x ∧ x < b.off + e.1.extent

/-- The bytes that entries of the stack are still to store into. -/
def Pending (stack : List (Ptr × Ptr)) (k : Nat) (x : Int) : Prop := ∃ e ∈ stack, Area e k x

/-- The byte is the copy's own, and will not be stored into again. -/
def Settled (own : Nat → Int → Prop) (c : Capn) (pend : Nat → Int → Prop) (k : Nat) (x : Int) : Prop :=
  own k x ∧ 0 ≤ x ∧ x < (c.seg k).len ∧ ¬ pend k x

/-- The slot `a` points to a copy of `q`, for good. -/
def Joined (own : Nat → Int → Prop) (c : Capn) (pend : Nat → Int → Prop) (K : Places) (a : Addr) (q : Ptr) : Prop :=
  ∃ t cost, pointee c a = some (t, cost) ∧ IsCopy K t q ∧ ∀ k x, Foot c a t k x → Settled own c pend k x

/-- The slot `a` has for good what the slot `b` of `c'` has. -/
def Done (own : Nat → Int → Prop) (c : Capn) (pend : Nat → Int → Prop) (K : Places) (a : Addr) (c' : Capn)
    (b : Addr) : Prop :=
  (pointee c' b = none ∧ c.load64 a = 0 ∧ SlotIn c a ∧ ∀ k x, Slot a k x → Settled own c pend k x) ∨
    ∃ q cost, pointee c' b = some (q, cost) ∧ Joined own c pend K a q

/-- The earlier copies that can be used again, and those in `new`. -/
def Job.Known (J : Job) (new : List Copy) : Places := fun d q =>
  J.good d q ∨ ∃ e ∈ new, isPtrEqual q e.fromPtr = true ∧ d = e.toPtr.data

theorem Job.Known.mono {J : Job} {new more : List Copy} (hs : ∀ e ∈ new, e ∈ more) (d : Option Addr) (q : Ptr)
    (h : J.Known new d q) : J.Known more d q := h.imp_right fun ⟨e, he, h⟩ => ⟨e, hs e he, h⟩

/-- The object at `d` is the copy of `q` that the pair `o` is of. -/
structure IsOf (o : Ptr × Ptr) (d : Option Addr) (q : Ptr) : Prop where
  dst : ∃ p, d = some p ∧ o.1.data = some p
  src : ∃ p, q.data = some p ∧ o.2.data = some p
  shape : o.1.Shape
  fields : o.1.type = q.type ∧ o.1.len = q.len ∧ o.1.datasz = q.datasz ∧ o.1.ptrs = q.ptrs

/-- An entry of the index that was made by the copy. -/
structure Indexed (J : Job) (c : Capn) (pend : Nat → Int → Prop) (e : Copy) : Prop where
  src : e.src = J.j
  range : e.seg = e.fromPtr.fseg ∧ e.fbegin = e.fromPtr.fbegin ∧ e.fend = e.fromPtr.fend
  source : J.Source e.fromPtr ∧ ∃ b, e.fromPtr.data = some b
  bytes : ¬ e.fromPtr.zeroSized
  fields : e.toPtr.type = e.fromPtr.type ∧ e.toPtr.len = e.fromPtr.len ∧ e.toPtr.datasz = e.fromPtr.datasz ∧
    e.toPtr.ptrs = e.fromPtr.ptrs
  place : ∃ s o, Stands c e.toPtr s o ∧ ((J.old.seg s).len : Int) + e.toPtr.pre ≤ o ∧
    ∀ k x, Front e.toPtr s o k x → Settled J.Has c pend k x

/-- What a copy knows: `c` is its session, `new` what it added to the index, `objs` are the
objects that are copied, or have a copy that can be used again, with their copies; of their pointers and bytes, `linking` and
`storing` are left, and all others are done. -/
structure Holds (J : Job) (c : Capn) (pend : Nat → Int → Prop) (new : List Copy) (objs : Set (Ptr × Ptr))
    (linking storing : Addr → Addr → Prop) : Prop where
  clean : Clean c
  grown : Grows J.room J.old c ∧ J.old.segs.length ≤ c.segs.length
  index : c.copy = new ++ J.old.copy
  copies : ∀ e ∈ new, Indexed J c pend e ∧ (e.toPtr, e.fromPtr) ∈ objs
  good : ∀ d q, J.good d q → ∃ o ∈ objs, IsOf o d q
  slots : ∀ o ∈ objs, ∀ a b, SlotPair o a b → Done J.Has c pend (J.Known new) a J.src b ∨ linking a b
  data : ∀ o ∈ objs, ∀ a b, DataPair o a b →
    (Settled J.Has c pend a.seg a.off ∧ c.byte a = J.src.byte b) ∨ storing a b

/-! ## A step -/

section

variable {own has pend pend' : Nat → Int → Prop} {c c' : Capn} {K K' : Places}

/-- The session `c'` comes from `c`, by stores where something was pending. -/
structure Stepped (own : Nat → Int → Prop) (c c' : Capn) (pend pend' : Nat → Int → Prop) : Prop where
  cleaner : Cleaner c c'
  grows : Grows (fun k x => own k x ∧ pend k x) c c'
  less : ∀ k x, pend' k x → pend k x ∨ ((c.seg k).len : Int) ≤ x

theorem Stepped.settled (h : Stepped own c c' pend pend') {k : Nat} {x : Int} (hs : Settled has c pend k x) :
    Settled has c' pend' k x := by
  obtain ⟨h1, h2, h3, h4⟩ := hs
  have := h.grows.len k
  refine ⟨h1, h2, by omega, fun hp => ?_⟩
  rcases h.less k x hp with hp | hp
  · exact h4 hp
  · omega

theorem Stepped.byte (h : Stepped own c c' pend pend') {a : Addr} (hs : Settled has c pend a.seg a.off) :
    c'.byte a = c.byte a := by
  obtain ⟨-, h2, h3, h4⟩ := hs
  exact h.grows.data a.seg a.off h2 h3 fun hp => h4 hp.2

theorem Stepped.joined (h : Stepped own c c' pend pend') (hn : ∀ d q, K d q → K' d q) {a : Addr} {q : Ptr}
    (hj : Joined has c pend K a q) : Joined has c' pend' K' a q := by
  obtain ⟨t, cost, hp, hcopy, hfoot⟩ := hj
  have hin : WordInside c a := by
    obtain ⟨-, h1, -⟩ := hfoot a.seg a.off (.inl ⟨rfl, Int.le_refl _, by omega⟩)
    obtain ⟨-, -, h2, -⟩ := hfoot a.seg (a.off + 7) (.inl ⟨rfl, by omega, by omega⟩)
    exact ⟨h1, by omega⟩
  obtain ⟨hp', hf⟩ := pointee_foot h.grows h.cleaner.segs hin hp fun k x hx hs => (hfoot k x hx).2.2.2 hs.2
  exact ⟨t, cost, hp', hcopy.mono hn, fun k x hx => h.settled (hfoot k x ((hf k x).mp hx))⟩

theorem Stepped.done (h : Stepped own c c' pend pend') (hn : ∀ d q, K d q → K' d q) {a : Addr} {s : Capn}
    {b : Addr} (hj : Done has c pend K a s b) : Done has c' pend' K' a s b := by
  rcases hj with ⟨hq, h0, hin, hset⟩ | ⟨q, cost, hq, hj⟩
  · refine .inl ⟨hq, ?_, hin.grows h.grows, fun k x hx => h.settled (hset k x hx)⟩
    rw [← h0]
    exact load64_grows h.grows hin.wordInside fun x hx hs => (hset a.seg x hx).2.2.2 hs.2
  · exact .inr ⟨q, cost, hq, h.joined hn hj⟩

end

section

variable {J : Job} {c c' : Capn} {pend pend' : Nat → Int → Prop}

/-- What is in use stays, but for `room`. -/
theorem Job.grown (hg : Grows J.room J.old c) (h : Grows J.Own c c') : Grows J.room J.old c' := by
  refine ⟨fun k => Nat.le_trans (hg.len k) (h.len k), fun k x h0 h1 hr => ?_⟩
  have := hg.len k
  refine (h.data k x h0 (by omega) ?_).trans (hg.data k x h0 h1 hr)
  rintro (ho | ho)
  · exact hr ho
  · omega

theorem Stepped.indexed (h : Stepped J.Own c c' pend pend') {e : Copy} (he : Indexed J c pend e) :
    Indexed J c' pend' e := by
  obtain ⟨s, o, hst, hlo, hfront⟩ := he.place
  refine { he with place := ⟨s, o, ?_, hlo, fun k x hx => h.settled (hfront k x hx)⟩ }
  exact hst.grows h.grows h.cleaner.segs fun k x hx hs => (hfront k x hx).2.2.2 hs.2

/-- **A step** of the copy: what was to be stored and is not any more is done, and so are the
objects that are new, or left to do. -/
theorem Holds.step {new more : List Copy} {objs objs' : Set (Ptr × Ptr)}
    {linking linking' storing storing' : Addr → Addr → Prop}
    (h : Holds J c pend new objs linking storing) (hs : Stepped J.Own c c' pend pend')
    (hindex : c'.copy = (more ++ new) ++ J.old.copy)
    (hmore : ∀ e ∈ more, Indexed J c' pend' e ∧ (e.toPtr, e.fromPtr) ∈ objs') (hobjs : ∀ o ∈ objs, o ∈ objs')
    (hlink : ∀ a b, linking a b → Done J.Has c' pend' (J.Known (more ++ new)) a J.src b ∨ linking' a b)
    (hstore : ∀ a b, storing a b → (Settled J.Has c' pend' a.seg a.off ∧ c'.byte a = J.src.byte b) ∨ storing' a b)
    (hnew : ∀ o ∈ objs', o ∈ objs ∨ (∀ a b, SlotPair o a b → linking' a b) ∧
      ∀ a b, DataPair o a b → (Settled J.Has c' pend' a.seg a.off ∧ c'.byte a = J.src.byte b) ∨ storing' a b) :
    Holds J c' pend' (more ++ new) objs' linking' storing' := by
  obtain ⟨hg, hl⟩ := h.grown
  have hkeep : ∀ e ∈ new, e ∈ more ++ new := fun e he => List.mem_append_right _ he
  refine ⟨hs.cleaner.clean, ⟨Job.grown hg (hs.grows.mono fun _ _ h => h.1), Nat.le_trans hl hs.cleaner.segs⟩, hindex,
    fun e he => ?_, fun d q hd => ?_, fun o ho a b hab => ?_, fun o ho a b hab => ?_⟩
  · rcases List.mem_append.mp he with he | he
    · exact hmore e he
    · exact ⟨hs.indexed (h.copies e he).1, hobjs _ (h.copies e he).2⟩
  · obtain ⟨o, ho, hof⟩ := h.good d q hd
    exact ⟨o, hobjs o ho, hof⟩
  · rcases hnew o ho with ho | ho
    · rcases h.slots o ho a b hab with hd | hsl
      · exact .inl (hs.done (Job.Known.mono hkeep) hd)
      · exact hlink a b hsl
    · exact .inr (ho.1 a b hab)
  · rcases hnew o ho with ho | ho
    · rcases h.data o ho a b hab with ⟨hset, hb⟩ | hda
      · exact .inl ⟨hs.settled hset, (hs.byte hset).trans hb⟩
      · exact hstore a b hda
    · exact ho.2 a b hab

end

/-! ## The stack -/

/-- An entry of the stack: places of the copy's own in use, zero where null is to be copied,
for pointers and bytes of the source. -/
structure EntryOk (J : Job) (c : Capn) (e : Ptr × Ptr) : Prop where
  shape : EntryShape e
  place : ∃ b, e.1.data = some b ∧ e.1.seg = some b.seg ∧ 0 ≤ b.off ∧ 8 ∣ b.off ∧
    b.off + e.1.extent ≤ (c.seg b.seg).len
  own : ∀ k x, Area e k x → J.Own k x
  source : ∃ b, e.2.data = some b ∧ e.2.seg = some b.seg
  reads : ∀ a b, SlotPair e a b → J.Reads b
  null : ∀ a b, SlotPair e a b → ReadsAsNull J.src b → c.load64 a = 0
  bytes : ∀ a b, DataPair e a b → J.Bytes b

/-- No byte is in the places of both. -/
def Apart (e e' : Ptr × Ptr) : Prop := ∀ k x, Area e k x → ¬ Area e' k x

/-- The entries of a stack have places of their own. -/
def Stacked (J : Job) (c : Capn) (stack : List (Ptr × Ptr)) : Prop :=
  (∀ e ∈ stack, EntryOk J c e) ∧ stack.Pairwise Apart

/-- The pointers that are left on a stack. -/
def Unlinked (stack : List (Ptr × Ptr)) (a b : Addr) : Prop := ∃ e ∈ stack, SlotPair e a b

/-- The bytes that are left on a stack. -/
def Unstored (stack : List (Ptr × Ptr)) (a b : Addr) : Prop := ∃ e ∈ stack, DataPair e a b

section

variable {J : Job} {c c' : Capn} {e : Ptr × Ptr} {stack : List (Ptr × Ptr)}

theorem EntryOk.inside (h : EntryOk J c e) {k : Nat} {x : Int} (hx : Area e k x) : 0 ≤ x ∧ x < (c.seg k).len := by
  obtain ⟨b, hb, -, h0, -, h1⟩ := h.place
  obtain ⟨b', hb', rfl, h2, h3⟩ := hx
  cases hb.symm.trans hb'
  omega

/-- A pointer of an entry is a word of its place. -/
theorem EntryOk.slot (h : EntryOk J c e) {a b : Addr} (hab : SlotPair e a b) :
    SlotIn c a ∧ ∀ k x, Slot a k x → Area e k x := by
  obtain ⟨p, hp, -, h0, h8, h1⟩ := h.place
  obtain ⟨p', q, x, hp', -, hx, rfl, -⟩ := hab
  cases hp.symm.trans hp'
  obtain ⟨hx0, hx1⟩ := SlotAt.inside hx
  have hx8 : 8 ∣ x := by
    obtain ⟨-, ht | ⟨ht, -, -, -, hd, -⟩⟩ := h.shape
    · simp only [Ptr.SlotAt, ht] at hx
      omega
    · simp only [Ptr.SlotAt, ht] at hx
      obtain ⟨m, k, -, -, rfl⟩ := hx
      have hd : (8 : Int) ∣ e.1.datasz := by omega
      exact Int.dvd_add (Dvd.dvd.mul_left (Int.dvd_add hd (Int.dvd_mul_right 8 _)) _)
        (Int.dvd_add hd (Int.dvd_mul_right 8 _))
  refine ⟨⟨?_, ?_, ?_⟩, ?_⟩
  · show 8 ∣ p.off + x
    omega
  · show 0 ≤ p.off + x
    omega
  · show p.off + x + 8 ≤ ((c.seg p.seg).len : Int)
    omega
  · rintro k y ⟨rfl, h2, h3⟩
    have h2 : p.off + x ≤ y := h2
    have h3 : y < p.off + x + 8 := h3
    exact ⟨p, hp, rfl, by omega, by omega⟩

/-- An entry stays one as long as its place is not stored into. -/
theorem EntryOk.grows (h : EntryOk J c e) {W : Nat → Int → Prop} (hg : Grows W c c')
    (hw : ∀ k x, Area e k x → ¬ W k x) : EntryOk J c' e := by
  obtain ⟨b, hb, hs, h0, h8, h1⟩ := h.place
  refine { h with place := ⟨b, hb, hs, h0, h8, ?_⟩, null := fun a b hab hn => ?_ }
  · have := hg.len b.seg
    omega
  · obtain ⟨hin, hsl⟩ := h.slot hab
    rw [← h.null a b hab hn]
    exact load64_grows hg hin.wordInside fun x hx => hw _ _ (hsl _ _ hx)

theorem Stacked.grows (h : Stacked J c stack) {W : Nat → Int → Prop} (hg : Grows W c c')
    (hw : ∀ k x, Pending stack k x → ¬ W k x) : Stacked J c' stack :=
  ⟨fun e he => (h.1 e he).grows hg fun k x hx => hw k x ⟨e, he, hx⟩, h.2⟩

theorem Stacked.inside (h : Stacked J c stack) {k : Nat} {x : Int} (hx : Pending stack k x) :
    0 ≤ x ∧ x < (c.seg k).len := by
  obtain ⟨e, he, hx⟩ := hx
  exact (h.1 e he).inside hx

end

/-! ## The index -/

section

variable {c : Capn} {j : Nat} {f t : Ptr}

/-- What is found is a new entry, or was found before. -/
theorem findCopy_split {c₀ : Capn} {new : List Copy} (hc : c.copy = new ++ c₀.copy) (h : findCopy c j f = .copied t) :
    ¬ f.zeroSized ∧ ((∃ e ∈ new, e.toPtr = t ∧ isPtrEqual f e.fromPtr = true) ∨ findCopy c₀ j f = .copied t) := by
  simp only [findCopy, hc, List.find?_append] at h ⊢
  split at h
  · cases h
  rename_i hz
  refine ⟨hz, ?_⟩
  rw [if_neg hz]
  split at h
  · cases h
  rename_i e he
  rcases Option.or_eq_some_iff.mp he with hnew | ⟨-, hold⟩
  · split at h
    · rename_i heq
      cases h
      exact .inl ⟨e, List.mem_of_find?_eq_some hnew, rfl, heq⟩
    · cases h
  · right
    rw [hold]
    exact h

end

end Capnproto

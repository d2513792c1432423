import Capnproto.Object.Draft

/-!
# Reading messages

A reader who starts at the root of a message and follows pointers with `capn_getp`, in any order and as often as it
likes, finds the objects that the message was built of (`Reader.right_run`), as long as no read reports an error:
objects that the limits on depth and on bytes put out of reach are reported, and never show as null or as something
else.
-/

namespace Capnproto

/-! ## Finding objects -/

/-- The pointer leads to what is `x` bytes into object `k`. -/
def PointsInto (hs : List Ptr) (q : Ptr) (k : Nat) (x : Int) : Prop :=
  ∃ p p', hs[k]? = some p ∧ p.Part p' x ∧ IsCopy (fun d q => d = q.data) q p' ∧ ∃ a, q.data = some a ∧ q.seg = some a.seg

/-- The struct that `capn_getp` gives for an element of a list. -/
def Ptr.member (q : Ptr) (off rem : Int) : Ptr :=
  { type := .STRUCT, isListMember := true, seg := q.seg, datasz := q.datasz, ptrs := q.ptrs,
    data := q.data.map (·.add (off * (q.datasz + 8 * q.ptrs))), nestingValid := true, nesting := rem }

/-- Where `capn_getp` of index `off` leads to in the store, from a pointer `q` to what is `x` bytes into object `k`. -/
def Objects.next (m : Objects) (q : Ptr) (k : Nat) (x off : Int) : Option (Nat × Int) :=
  if off < q.places then
    if q.type = .LIST then some (k, x + q.element off) else (m.link k (x + q.pointerAt off)).map (·, 0)
  else none

/-- The pointer is null, or leads to what is there in the store, and the session has its bytes. -/
def Shown (c : Capn) (hs : List Ptr) (m : Objects) (q : Ptr) : Option (Nat × Int) → Prop
  | none => q.type = .NULL
  | some (k, x) => PointsInto hs q k x ∧ ∀ a y, q.data = some a → q.DataAt y → c.byte (a.add y) = m.byte k (x + y)

section

variable {c c' : Capn} {hs : List Ptr} {m : Objects} {p p' q : Ptr} {k : Nat} {x y off : Int} {a : Addr}

theorem Ptr.Part.slotAt_part (h : p.Part p' x) (hy : p'.SlotAt y) : p.SlotAt (x + y) := by
  cases h with
  | self => rwa [Int.zero_add]
  | element q i hlist hi hq _ =>
    obtain ⟨ht, hd, hp, -⟩ := hq
    simp only [Ptr.SlotAt, ht, hd, hp] at hy
    simp only [Ptr.SlotAt, hlist]
    obtain ⟨n, hn, rfl⟩ := hy
    exact ⟨i, n, hi, hn, rfl⟩

theorem Ptr.Part.object (h : p.Part p' x) (hp : p.IsObject) : p'.IsObject := by
  cases h with
  | self => exact hp
  | element q i _ _ hq _ => exact ⟨by rw [hq.1]; decide, by rw [hq.1]; decide, by rw [hq.1]; decide⟩

/-- The bytes that a reader finds. -/
theorem Delivered.shown (h : Delivered c hs m) (hq : PointsInto hs q k x) : Shown c hs m q (some (k, x)) := by
  refine ⟨hq, fun a y ha hy => ?_⟩
  obtain ⟨p, p', hp, hpart, ⟨h1, h2, h3, h4, hdata⟩, -⟩ := hq
  obtain ⟨s, o, hst⟩ := h.stands p (List.mem_of_getElem? hp)
  have hy := (dataAt_congr ⟨h1, h2, h3, h4⟩ y).mp hy
  rcases hdata with hbare | hdata
  · exact absurd hy (hbare.1 y)
  · have hd := hpart.data hst.data
    rw [← hdata, ha] at hd
    cases hd
    rw [← h.shows.byte k p _ (x + y) hp hst.data (hpart.dataAt hy)]
    exact congrArg c.byte (congrArg (Addr.mk s) (Int.add_assoc _ _ _))

theorem places_congr (ht : q.type = p.type) (hl : q.len = p.len) (hp : q.ptrs = p.ptrs) : q.places = p.places := by
  simp only [Ptr.places, ht, hl, hp]

/-- A place that an object has for a pointer. -/
theorem Within.slotAt (hw : Within p off) (hk : p.type = .STRUCT ∨ p.type = .PTR_LIST) : ∃ y, p.SlotAt y := by
  obtain ⟨h0, h1⟩ := hw
  rcases hk with ht | ht
  · rw [Ptr.places, if_pos ht] at h1
    exact ⟨p.datasz + 8 * off, by simp only [Ptr.SlotAt, ht]; exact ⟨off.toNat, by omega, by omega⟩⟩
  · rw [Ptr.places, if_neg (by rw [ht]; decide)] at h1
    exact ⟨8 * off, by simp only [Ptr.SlotAt, ht]; exact ⟨off.toNat, by omega, by omega⟩⟩

/-- A slot of an object that is found. -/
theorem Delivered.pointerSlot (h : Delivered c hs m) (hp : hs[k]? = some p) (hpart : p.Part p' x)
    (hcopy : IsCopy (fun d q => d = q.data) q p') (hd : q.data = some a) (hseg : q.seg = some a.seg)
    (hkind : q.type = .STRUCT ∨ q.type = .PTR_LIST) (hw : Within q off) :
    ∃ b, PointerSlot c q off b ∧ Leading c hs b (m.link k (x + q.pointerAt off)) := by
  obtain ⟨h1, h2, h3, h4, hdata⟩ := hcopy
  obtain ⟨s, o, hst⟩ := h.stands p (List.mem_of_getElem? hp)
  have hw' : Within p' off := by
    rw [Within, ← places_congr h1 h2 h4]
    exact hw
  have hslot := hst.pointerSlot hpart (h1 ▸ hkind) hw'
  have hat := hpart.slotAt hst.shape (h1 ▸ hkind) hw'
  have hq : q.data = p'.data := hdata.resolve_left fun hbare => by
    obtain ⟨y, hy⟩ := hw'.slotAt (h1 ▸ hkind)
    exact hbare.2.1 y hy
  have ha : a = Addr.add ⟨s, o⟩ x := by
    have hp' := hpart.data hst.data
    rw [← hq, hd] at hp'
    exact Option.some.inj hp'
  refine ⟨⟨s, o + (x + p'.pointerAt off)⟩, ⟨hkind, hw, ?_, ?_, hslot.inside⟩, ?_⟩
  · rw [hseg, ha]
    rfl
  · have hdest := hslot.place
    simp only [destination] at hdest ⊢
    rwa [h1, h3, h4, hq]
  · have hlink := h.shows.link k p ⟨s, o⟩ (x + p'.pointerAt off) hp hst.data hat
    rw [Ptr.pointerAt, ← h3] at hlink
    rw [Ptr.pointerAt, Ptr.pointerAt, ← h3]
    exact hlink

/-- What is read without an error. -/
theorem readPtr_ok {d : Addr} {rem : Int} (hok : (readPtr c (some d.seg) (some d) rem).capn.decodeErr = false) :
    ∃ t cost, pointee c d = some (t, cost) ∧ (readPtr c (some d.seg) (some d) rem).ptr = t.withNesting rem := by
  rcases readPtr_cases c (some d.seg) (some d) rem with ⟨reads, e, -⟩ | ⟨s, o, t, cost, -, -, hd, -, ht, -, e⟩
  · rw [e] at hok
    cases hok
  · cases hd
    exact ⟨t, cost, ht, by rw [e]⟩

theorem type_withNesting_null {t : Ptr} (rem : Int) (h : t.type = .NULL) : (t.withNesting rem).type = .NULL := by
  rw [type_withNesting]
  exact h

/-- The element of a list that is found. -/
theorem Ptr.Part.member {rem : Int} (hpart : p.Part p' x) (hp : hs[k]? = some p) (hcopy : IsCopy (fun d q => d = q.data) q p')
    (hd : q.data = some a) (hseg : q.seg = some a.seg) (hlist : q.type = .LIST) (h0 : 0 ≤ off) (hw : off < q.len) :
    PointsInto hs (q.member off rem) k (x + q.element off) := by
  obtain ⟨h1, h2, h3, h4, hdata⟩ := hcopy
  cases hpart with
  | element t i _ _ hq _ =>
    rw [hq.1, hlist] at h1
    cases h1
  | self =>
    have hoff : (off.toNat : Int) = off := Int.toNat_of_nonneg h0
    have hmember : p.Part (p.member off.toNat rem) (off.toNat * (p.datasz + 8 * p.ptrs)) :=
      .element _ off.toNat (h1 ▸ hlist) (by rw [hoff, ← h2]; exact hw) ⟨rfl, rfl, rfl, rfl⟩ rfl
    have hx : 0 + q.element off = off.toNat * (p.datasz + 8 * p.ptrs) := by
      rw [Int.zero_add, Ptr.element, h3, h4, hoff]
    rw [hx]
    refine ⟨p, _, hp, hmember, ⟨rfl, rfl, h3, h4, ?_⟩, a.add (off * (q.datasz + 8 * q.ptrs)), ?_, hseg⟩
    · rcases hdata with hbare | hdata
      · exact .inl ⟨fun y hy => hbare.1 _ (hmember.dataAt hy), fun y hy => hbare.2.1 _ (hmember.slotAt_part hy), by rintro ⟨⟩⟩
      · right
        show q.data.map _ = p.data.map _
        rw [show q.data = p.data from hdata, hoff, h3, h4]
    · rw [Ptr.member, hd]
      rfl

/-- **`capn_getp`** of a pointer that leads into the store leads on as the store does. -/
theorem Delivered.getp (h : Delivered c hs m) (hq : PointsInto hs q k x) (h0 : 0 ≤ off) (hbits : q.type ≠ .BIT_LIST)
    (hok : (capnGetp c q off true).capn.decodeErr = false) :
    match m.next q k x off with
    | none => (capnGetp c q off true).ptr.type = .NULL
    | some (j, y) => PointsInto hs (capnGetp c q off true).ptr j y := by
  obtain ⟨p, p', hp, hpart, hcopy, a, hd, hseg⟩ := hq
  obtain ⟨s, o, hst⟩ := h.stands p (List.mem_of_getElem? hp)
  have hobj := hpart.object hst.obj
  rw [Ptr.IsObject, ← hcopy.1] at hobj
  obtain ⟨hnull, hfar, hcap⟩ := hobj
  by_cases hw : off < q.places
  swap
  · -- out of range
    rw [Objects.next, if_neg hw]
    simp only [capnGetp, capnResolve_of_ne hfar, getpResolved]
    have hle := Int.not_lt.mp hw
    cases ht : q.type with
    | STRUCT =>
      rw [Ptr.places, if_pos ht] at hle
      simp only [if_pos hle]
    | PTR_LIST =>
      rw [Ptr.places, if_neg (by rw [ht]; decide)] at hle
      simp only [if_pos hle]
    | LIST =>
      rw [Ptr.places, if_neg (by rw [ht]; decide)] at hle
      simp only [if_neg (Int.not_lt.mpr hle)]
    | BIT_LIST => exact absurd ht hbits
    | NULL | FAR_POINTER | INTERFACE => rfl
  rw [Objects.next, if_pos hw]
  by_cases hlist : q.type = .LIST
  · rw [if_pos hlist]
    rw [Ptr.places, if_neg (by rw [hlist]; decide)] at hw
    simp only [capnGetp, capnResolve_of_ne hfar, getpResolved, hlist, if_pos hw]
    exact hpart.member hp hcopy hd hseg hlist h0 hw
  · rw [if_neg hlist]
    have hkind : q.type = .STRUCT ∨ q.type = .PTR_LIST := by
      cases ht : q.type with
      | STRUCT => exact .inl rfl
      | PTR_LIST => exact .inr rfl
      | LIST => exact absurd ht hlist
      | BIT_LIST => exact absurd ht hbits
      | NULL => exact absurd ht hnull
      | FAR_POINTER => exact absurd ht hfar
      | INTERFACE => exact absurd ht hcap
    obtain ⟨b, hslot, hlead⟩ := h.pointerSlot hp hpart hcopy hd hseg hkind ⟨h0, hw⟩
    rw [hslot.getp] at hok ⊢
    obtain ⟨t, cost, ht, e⟩ := readPtr_ok hok
    rw [e]
    cases hlink : m.link k (x + q.pointerAt off) with
    | none =>
      rw [hlink] at hlead
      rw [pointee_zero hslot.inside hlead] at ht
      cases ht
      exact type_withNesting_null _ rfl
    | some j =>
      rw [hlink] at hlead
      obtain ⟨tgt, htgt, t', cost', ht', hcopy', -⟩ := hlead
      cases ht.symm.trans ht'
      obtain ⟨s', o', hst'⟩ := h.stands tgt (List.mem_of_getElem? htgt)
      obtain ⟨hnull', -, hcap'⟩ := hst'.obj
      rw [← hcopy'.1] at hnull' hcap'
      obtain ⟨-, -, d, hd', hseg'⟩ := pointee_whole ht hnull' hcap'
      obtain ⟨n, v, hn⟩ := withNesting_eq t (hopRemaining c q)
      show PointsInto hs _ j 0
      rw [hn]
      exact ⟨tgt, tgt, htgt, .self, hcopy', d, hd', hseg'⟩

end

/-! ## Readers -/

/-- A session, and the pointers that its reader has, each with what it should lead to. -/
structure Reader where
  capn : Capn
  found : List (Ptr × Option (Nat × Int))

namespace Reader

/-- A call: `capn_getp` of a pointer that was found, other than a list of bits, or a read of anything. -/
inductive Next (m : Objects) (v : Reader) : Reader → Prop
  | getp (q : Ptr) (k : Nat) (x off : Int) (hq : (q, some (k, x)) ∈ v.found) (hoff : 0 ≤ off) (hbits : q.type ≠ .BIT_LIST) :
    Next m v ⟨(capnGetp v.capn q off true).capn, ((capnGetp v.capn q off true).ptr, m.next q k x off) :: v.found⟩
  | read (call : ReadCall) : Next m v { v with capn := (call.run v.capn).capn }

/-- The session has the store, and the pointers lead where they should. -/
structure Right (hs : List Ptr) (m : Objects) (v : Reader) : Prop where
  delivered : Delivered v.capn hs m
  found : ∀ e ∈ v.found, Shown v.capn hs m e.1 e.2

variable {m : Objects} {v v' : Reader} {hs : List Ptr}

theorem Next.call (h : v.Next m v') : ∃ call : ReadCall, v'.capn = (call.run v.capn).capn := by
  cases h with
  | getp q k x off => exact ⟨.getp q off, rfl⟩
  | read call => exact ⟨call, rfl⟩

/-- An error that is reported stays reported. -/
theorem Next.ok (h : v.Next m v') (hok : v'.capn.decodeErr = false) : v.capn.decodeErr = false := by
  obtain ⟨call, e⟩ := h.call
  by_contra hne
  rw [e, (run_flag v.capn call).1 (Bool.not_eq_false _ ▸ hne)] at hok
  cases hok

theorem Right.next (h : v.Right hs m) (hn : v.Next m v') (hok : v'.capn.decodeErr = false) : v'.Right hs m := by
  obtain ⟨call, e⟩ := hn.call
  obtain ⟨u, err, hcount⟩ := readCall_counters v.capn call
  have hdel : Delivered v'.capn hs m := by
    rw [e, hcount]
    exact h.delivered.keeps ((Grows.refl _ _).of_segs rfl) (Nat.le_refl _)
  have hold : ∀ e ∈ v.found, Shown v'.capn hs m e.1 e.2 := by
    rintro ⟨q, t⟩ hq
    cases t with
    | none => exact h.found _ hq
    | some t => exact hdel.shown (h.found _ hq).1
  cases hn with
  | read => exact ⟨hdel, hold⟩
  | getp q k x off hq hoff hbits =>
    refine ⟨hdel, List.forall_mem_cons.mpr ⟨?_, hold⟩⟩
    have hgot := h.delivered.getp (h.found _ hq).1 hoff hbits hok
    revert hgot
    cases m.next q k x off with
    | none => exact id
    | some t => exact fun hgot => hdel.shown hgot

/-- **Every reader** finds what is there, as long as no error is reported. -/
theorem right_run (h : v.Right hs m) (hrun : Relation.ReflTransGen (Next m) v v') (hok : v'.capn.decodeErr = false) :
    v'.Right hs m := by
  induction hrun with
  | refl => exact h
  | tail _ hn ih => exact (ih (hn.ok hok)).next hn hok

end Reader

/-! ## Reading drafts -/

/-- A handle of a constructor leads to its object. -/
theorem Pictures.pointsInto {c : Capn} {hs : List Ptr} {m : Objects} {p : Ptr} {k : Nat} (h : Pictures c hs m)
    (hp : hs[k]? = some p) : PointsInto hs p k 0 := by
  obtain ⟨s, o, hst⟩ := h.stands p (List.mem_of_getElem? hp)
  exact ⟨p, p, hp, .self, ⟨rfl, rfl, rfl, rfl, .inr rfl⟩, _, hst.data, hst.seg⟩

/-- A struct with a number, -/
def letterStruct : Draft := Draft.start.made ((NewCall.struct 8 0).run Draft.start.capn (some 0)) []

def letterPtr : Ptr := { type := .STRUCT, datasz := 8, seg := some 0, data := some ⟨0, 8⟩ }

/-- which is 42, -/
def letterNumber : Draft :=
  ⟨capnWrite64 letterStruct.capn letterPtr 0 42, letterStruct.ptrs, letterStruct.objects.stored 1 0 (some (0, toLe 8 42))⟩

def letterRoot : Int × World :=
  (capnSetp 1 (fun _ => letterNumber.capn) 0 (capnRoot capnInitMalloc).2 0 0 letterPtr).getD (-1, fun _ => letterNumber.capn)

/-- as the root of a message. -/
def letter : Draft := ⟨letterRoot.2 0, letterNumber.ptrs, letterNumber.objects.point 0 0 (some 1)⟩

theorem letter_run : Relation.ReflTransGen Draft.Next Draft.start letter := by
  have h1 : Draft.start.Next letterStruct :=
    .new 0 (.struct 8 0) (by decide) ⟨by decide, rfl, by decide, by decide, rfl⟩ (by decide)
  have h2 : letterStruct.Next letterNumber :=
    .set 1 letterPtr letterPtr 0 (.write .b64 0 42) rfl .self rfl
  have h3 : letterNumber.Next letter :=
    .setp 0 (capnRoot capnInitMalloc).2 (capnRoot capnInitMalloc).2 0 0 (some 1) letterPtr letterRoot rfl .self (.inr rfl)
      ⟨by decide, by decide⟩ rfl ⟨1, rfl⟩
  exact ((Relation.ReflTransGen.single h1).tail h2).tail h3

end Capnproto

import Capnproto.Framework.Objects
import Capnproto.Object.Transfer

/-!
# The objects of a message

What a session holds of a store of objects (`Pictures`): each object in room of its own, its bytes, and in each of its
pointers a word that leads to the object that the store has there, by words that no object's data or pointers cover.
What is stored into an object then changes nothing else of the picture (`Pictures.frame`).
-/

namespace Capnproto

/-! ## Places -/

section

variable {p : Ptr} {x y : Int}

/-- The pointers of an object are at whole words. -/
theorem SlotAt.dvd (hs : p.Shape) (h : p.SlotAt x) : 8 ∣ x := by
  obtain ⟨-, -, hsh⟩ := hs
  cases ht : p.type <;> simp only [Ptr.SlotAt, ht] at h <;> simp only [ht] at hsh
  · obtain ⟨k, -, rfl⟩ := h
    obtain ⟨-, hd, -⟩ := hsh
    omega
  · obtain ⟨m, k, -, hk, rfl⟩ := h
    split at hsh
    · have hw : (8 : Int) ∣ (p.datasz + 8 * p.ptrs : Int) := by omega
      exact Int.dvd_add (Int.dvd_mul_of_dvd_right hw) (by omega)
    · omega
  · obtain ⟨k, -, rfl⟩ := h
    exact Int.dvd_mul_right 8 k

/-- A byte of data is in no pointer. -/
theorem DataAt.apart (hx : p.SlotAt x) (hy : p.DataAt y) : y < x ∨ x + 8 ≤ y := by
  cases ht : p.type <;> simp only [Ptr.SlotAt, ht] at hx <;> simp only [Ptr.DataAt, ht] at hy
  · obtain ⟨k, -, rfl⟩ := hx
    omega
  · obtain ⟨m, k, -, hk, rfl⟩ := hx
    obtain ⟨m', n, -, hn, rfl⟩ := hy
    generalize hw : (p.datasz + 8 * p.ptrs : Int) = w
    rcases Nat.lt_trichotomy m m' with hlt | rfl | hlt
    · have : ((m : Int) + 1) * w ≤ m' * w := Int.mul_le_mul_of_nonneg_right (by omega) (by omega)
      rw [Int.add_mul, Int.one_mul] at this
      omega
    · omega
    · have : ((m' : Int) + 1) * w ≤ m * w := Int.mul_le_mul_of_nonneg_right (by omega) (by omega)
      rw [Int.add_mul, Int.one_mul] at this
      omega

end

/-! ## Objects -/

/-- The bytes of an object from `data` on. -/
def Ptr.Body (p : Ptr) (k : Nat) (x : Int) : Prop := ∃ a, p.data = some a ∧ k = a.seg ∧ a.off ≤ x ∧ x < a.off + p.extent

/-- The bytes of an object, with the words in front of it. -/
def Ptr.Room (p : Ptr) (k : Nat) (x : Int) : Prop :=
  ∃ a, p.data = some a ∧ k = a.seg ∧ a.off - p.pre ≤ x ∧ x < a.off + p.extent

theorem Ptr.Body.room {p : Ptr} {k : Nat} {x : Int} (h : p.Body k x) : p.Room k x := by
  obtain ⟨a, ha, hk, h0, h1⟩ := h
  exact ⟨a, ha, hk, by omega, h1⟩

/-- The word at `a` leads to the object that is said to be there, by words apart from the objects. -/
def Leading (c : Capn) (hs : List Ptr) (a : Addr) : Option Nat → Prop
  | none => c.load64 a = 0
  | some j => ∃ q, hs[j]? = some q ∧ ∃ t cost, pointee c a = some (t, cost) ∧ IsCopy (fun d q => d = q.data) t q ∧
      ∀ k x, Foot c a t k x → Slot a k x ∨ ∀ p ∈ hs, ¬ p.Body k x

/-- What a reader of the session `c` finds of the store `m`, of objects at `hs`. -/
structure Shows (c : Capn) (hs : List Ptr) (m : Objects) : Prop where
  byte : ∀ i p a x, hs[i]? = some p → p.data = some a → p.DataAt x → c.byte (a.add x) = m.byte i x
  link : ∀ i p a x, hs[i]? = some p → p.data = some a → p.SlotAt x → Leading c hs (a.add x) (m.link i x)

/-- The session `c` has the store `m` for a reader. -/
structure Delivered (c : Capn) (hs : List Ptr) (m : Objects) : Prop where
  stands : ∀ p ∈ hs, ∃ s o, Stands c p s o
  shows : Shows c hs m

/-- The session `c` holds the store `m`, of objects at `hs`, and can be built further. -/
structure Pictures (c : Capn) (hs : List Ptr) (m : Objects) : Prop where
  clean : Clean c
  count : hs.length = m.count
  stands : ∀ p ∈ hs, ∃ s o, Stands c p s o
  apart : hs.Pairwise fun p q => ∀ k x, p.Room k x → ¬ q.Room k x
  shows : Shows c hs m

section

variable {c c' : Capn} {hs : List Ptr} {m : Objects} {W : Nat → Int → Prop} {p q : Ptr} {i j : Nat} {a : Addr} {x y : Int}

theorem Stands.room {s : Nat} {o : Int} (h : Stands c p s o) {k : Nat} (hx : p.Room k x) :
    k = s ∧ o - p.pre ≤ x ∧ x < o + p.extent := by
  obtain ⟨a, ha, hk, h0, h1⟩ := hx
  cases h.data.symm.trans ha
  exact ⟨hk, h0, h1⟩

theorem Stands.body {s : Nat} {o : Int} (h : Stands c p s o) {k : Nat} (hx : p.Body k x) :
    k = s ∧ o ≤ x ∧ x < o + p.extent := by
  obtain ⟨a, ha, hk, h0, h1⟩ := hx
  cases h.data.symm.trans ha
  exact ⟨hk, h0, h1⟩

/-- What is in front of an object is in front of the others, or apart from them. -/
theorem Pictures.front (h : Pictures c hs m) (hp : p ∈ hs) {s : Nat} {o : Int} (hst : Stands c p s o) {k : Nat}
    (hx : Front p s o k x) : ∀ q ∈ hs, ¬ q.Body k x := by
  obtain ⟨hk, h0, h1⟩ := hx
  have hroom : p.Room k x := ⟨_, hst.data, hk, h0, by show x < o + _; omega⟩
  intro q hq hbody
  by_cases hpq : p = q
  · subst hpq
    obtain ⟨-, h2, -⟩ := hst.body hbody
    omega
  · have hall := List.Pairwise.forall_of_forall_of_flip
      (R := fun p q => p = q ∨ ∀ k x, p.Room k x → ¬ q.Room k x) (fun _ _ => .inl rfl) (h.apart.imp .inr)
      (h.apart.imp fun hr => .inr fun k x h1 h2 => hr k x h2 h1) hp hq
    exact hall.resolve_left hpq k x hroom hbody.room

/-- A pointer of an object is a slot. -/
theorem Stands.slotAt {s : Nat} {o : Int} (h : Stands c p s o) (hx : p.SlotAt x) : SlotIn c ⟨s, o + x⟩ := by
  obtain ⟨h0, h1⟩ := SlotAt.inside hx
  have hin := h.inside
  have hlead := h.lead
  refine ⟨Int.dvd_add h.aligned (SlotAt.dvd h.shape hx), ?_, ?_⟩
  · show 0 ≤ o + x
    omega
  · show o + x + 8 ≤ (c.seg s).len
    omega

/-- A byte of data is in the body. -/
theorem Stands.dataAt {s : Nat} {o : Int} (h : Stands c p s o) (hx : p.DataAt x) : p.Body s (o + x) := by
  obtain ⟨h0, h1⟩ := DataAt.inside hx h.shape.bits
  exact ⟨_, h.data, rfl, by show o ≤ _; omega, by show _ < o + _; omega⟩

theorem Stands.slot_body {s : Nat} {o : Int} (h : Stands c p s o) (hx : p.SlotAt x) {k : Nat}
    (hy : Slot ⟨s, o + x⟩ k y) : p.Body k y := by
  obtain ⟨h0, h1⟩ := SlotAt.inside hx
  obtain ⟨rfl, h2, h3⟩ := hy
  have h2 : o + x ≤ y := h2
  have h3 : y < o + x + 8 := h3
  exact ⟨_, h.data, rfl, by show o ≤ _; omega, by show _ < o + _; omega⟩

/-- A pointer leads where it did, as long as nothing is stored over it, and over no words apart from the objects. -/
theorem Leading.frame {t : Option Nat} (h : Leading c hs a t) (hin : SlotIn c a) (hs' : c.segs.length ≤ c'.segs.length)
    (hg : Grows W c c') (hW : ∀ k x, W k x → ∃ p ∈ hs, p.Body k x) (ha : ∀ k x, Slot a k x → ¬ W k x) : Leading c' hs a t := by
  cases t with
  | none => exact (load64_grows hg hin.wordInside fun x hx => ha _ x hx).trans h
  | some j =>
    obtain ⟨q, hq, t, cost, hp, hcopy, hfoot⟩ := h
    obtain ⟨hp', hfoot'⟩ := pointee_foot hg hs' hin.wordInside hp fun k x hx hw => by
      rcases hfoot k x hx with hslot | hnone
      · exact ha k x hslot hw
      · obtain ⟨p, hp, hbody⟩ := hW k x hw
        exact hnone p hp hbody
    exact ⟨q, hq, t, cost, hp', hcopy, fun k x hx => hfoot k x ((hfoot' k x).mp hx)⟩

/-- And a new object behind what is in use is apart from the words that lead there. -/
theorem Leading.more {t : Option Nat} (h : Leading c hs a t) (hin : SlotIn c a) (hs' : c.segs.length ≤ c'.segs.length)
    (hk : Keeps c c') (hp : ∀ k x, p.Body k x → ((c.seg k).len : Int) ≤ x) : Leading c' (hs ++ [p]) a t := by
  cases t with
  | none => exact (load64_grows hk hin.wordInside fun _ _ hn => hn).trans h
  | some j =>
    obtain ⟨q, hq, t, cost, ht, hcopy, hfoot⟩ := h
    obtain ⟨ht', hfoot'⟩ := pointee_foot hk hs' hin.wordInside ht fun _ _ _ hn => hn
    obtain ⟨hlt, -⟩ := List.getElem?_eq_some_iff.mp hq
    refine ⟨q, by rw [List.getElem?_append_left hlt]; exact hq, t, cost, ht', hcopy, fun k x hx => ?_⟩
    have hx := (hfoot' k x).mp hx
    refine (hfoot k x hx).imp_right fun hnone r hr hbody => ?_
    rcases List.mem_append.mp hr with hr | hr
    · exact hnone r hr hbody
    · cases List.mem_singleton.mp hr
      have := foot_inside hin.wordInside ht hx
      have := hp k x hbody
      omega

/-- **The frame**: what is stored into bodies of objects leaves the objects where they are. -/
theorem Pictures.stands_frame (h : Pictures c hs m) (hcl : Cleaner c c') (hg : Grows W c c')
    (hW : ∀ k x, W k x → ∃ p ∈ hs, p.Body k x) : ∀ p ∈ hs, ∃ s o, Stands c' p s o := by
  intro p hp
  obtain ⟨s, o, hst⟩ := h.stands p hp
  refine ⟨s, o, hst.grows hg hcl.segs fun k x hx hw => ?_⟩
  obtain ⟨q, hq, hbody⟩ := hW k x hw
  exact h.front hp hst hx q hq hbody

end

/-! ## What a step does -/

/-- The byte at an address after a store. -/
theorem byte_write {c : Capn} {a b : Addr} {bs : List UInt8} (ha : a.seg < c.segs.length) :
    (c.write a bs).byte b =
      if b.seg = a.seg ∧ a.off ≤ b.off ∧ b.off < a.off + bs.length then bs.getD (b.off - a.off).toNat 0 else c.byte b := by
  by_cases hs : b.seg = a.seg
  · have hseg : (c.write a bs).seg b.seg = { c.seg b.seg with data := (c.seg b.seg).data.write a.off bs } := by
      rw [hs, Capn.write, Capn.seg_setSeg_self _ ha]
    rw [Capn.byte, hseg]
    show Mem.write _ _ _ _ = _
    rw [Mem.write, Capn.byte]
    simp only [hs, true_and]
  · rw [if_neg fun h => hs h.1, Capn.byte, Capn.write, Capn.seg_setSeg_ne _ fun e => hs e.symm]
    rfl

section

variable {c c' : Capn} {hs : List Ptr} {m : Objects} {p : Ptr} {k : Nat} {a : Addr} {x : Int} {bs : List UInt8}

/-- Two objects have no byte in common. -/
theorem Pictures.same_body (h : Pictures c hs m) {i : Nat} {q : Ptr} (hp : hs[k]? = some p) (hq : hs[i]? = some q)
    {s : Nat} {y : Int} (hy : p.Body s y) (hy' : q.Body s y) : k = i ∧ p = q := by
  obtain ⟨hk, rfl⟩ := List.getElem?_eq_some_iff.mp hp
  obtain ⟨hi, rfl⟩ := List.getElem?_eq_some_iff.mp hq
  have hall := List.pairwise_iff_getElem.mp h.apart
  rcases Nat.lt_trichotomy k i with hlt | rfl | hlt
  · exact absurd hy'.room (hall k i hk hi hlt s y hy.room)
  · exact ⟨rfl, rfl⟩
  · exact absurd hy.room (hall i k hi hk hlt s y hy'.room)

/-- **A store** into the data of an object. -/
theorem Pictures.put (h : Pictures c hs m) (hp : hs[k]? = some p) (ha : p.data = some a) (hne : bs ≠ [])
    (hx : ∀ y, x ≤ y → y < x + bs.length → p.DataAt y) : Pictures (c.write (a.add x) bs) hs (m.put k x bs) := by
  have hmem := List.mem_of_getElem? hp
  obtain ⟨s, o, hst⟩ := h.stands p hmem
  cases hst.data.symm.trans ha
  have hlen : 0 < bs.length := List.length_pos_iff.mpr hne
  have hin : o + x + bs.length ≤ (c.seg s).len := by
    obtain ⟨-, h1⟩ := DataAt.inside (hx (x + bs.length - 1) (by omega) (by omega)) hst.shape.bits
    have := hst.inside
    omega
  have hspan : ∀ k y, Span (Addr.add ⟨s, o⟩ x) bs.length k y → p.Body k y ∧ k = s ∧ p.DataAt (y - o) := by
    rintro k y ⟨rfl, h1, h2⟩
    have h1 : o + x ≤ y := h1
    have h2 : y < o + x + bs.length := h2
    have hd := hx (y - o) (by omega) (by omega)
    have hbody := hst.dataAt hd
    rw [show o + (y - o) = y by omega] at hbody
    exact ⟨hbody, rfl, hd⟩
  have hcl : Cleaner c (c.write (Addr.add ⟨s, o⟩ x) bs) := ⟨h.clean.write hin, by rw [Capn.length_write]⟩
  have hg : Grows (Span (Addr.add ⟨s, o⟩ x) bs.length) c (c.write (Addr.add ⟨s, o⟩ x) bs) :=
    (Grows.refl _ _).write fun y h1 h2 => .inr ⟨rfl, h1, h2⟩
  have hW : ∀ k y, Span (Addr.add ⟨s, o⟩ x) bs.length k y → ∃ p ∈ hs, p.Body k y :=
    fun k y hy => ⟨p, hmem, (hspan k y hy).1⟩
  refine ⟨hcl.clean, h.count, h.stands_frame hcl hg hW, h.apart, fun i q b y hq hb hy => ?_, fun i q b y hq hb hy => ?_⟩
  · obtain ⟨s', o', hst'⟩ := h.stands q (List.mem_of_getElem? hq)
    cases hst'.data.symm.trans hb
    have hbody := hst'.dataAt hy
    rw [byte_write (show (Addr.add ⟨s, o⟩ x).seg < _ from hst.lt), Objects.byte_put]
    by_cases hc : i = k ∧ x ≤ y ∧ y < x + bs.length
    · obtain ⟨rfl, h1, h2⟩ := hc
      cases hp.symm.trans hq
      cases hst.data.symm.trans hst'.data
      have h3 : o + x ≤ o + y ∧ o + y < o + x + bs.length := by omega
      rw [if_pos ⟨rfl, h3⟩, if_pos ⟨rfl, h1, h2⟩]
      show bs.getD (o + y - (o + x)).toNat 0 = _
      rw [show o + y - (o + x) = y - x by omega]
    · rw [if_neg hc, if_neg]
      · exact h.shows.byte i q _ y hq hb hy
      · rintro ⟨hseg, h1, h2⟩
        obtain ⟨hpb, -⟩ := hspan s' (o' + y) ⟨hseg, h1, h2⟩
        obtain ⟨rfl, rfl⟩ := h.same_body hp hq hpb hbody
        cases hst.data.symm.trans hst'.data
        have h1 : o + x ≤ o + y := h1
        have h2 : o + y < o + x + bs.length := h2
        exact hc ⟨rfl, by omega, by omega⟩
  · obtain ⟨s', o', hst'⟩ := h.stands q (List.mem_of_getElem? hq)
    cases hst'.data.symm.trans hb
    refine (h.shows.link i q _ y hq hb hy).frame (hst'.slotAt hy) hcl.segs hg hW fun k z hz hw => ?_
    obtain ⟨hpb, rfl, hd⟩ := hspan k z hw
    obtain ⟨-, rfl⟩ := h.same_body hp hq hpb (hst'.slot_body hy hz)
    cases hst.data.symm.trans hst'.data
    obtain ⟨-, h1, h2⟩ := hz
    have h1 : o + y ≤ z := h1
    have h2 : z < o + y + 8 := h2
    have := DataAt.apart hy hd
    omega

/-- **A pointer** of an object is set. -/
theorem Pictures.point {t : Option Nat} (h : Pictures c hs m) (hp : hs[k]? = some p) (ha : p.data = some a) (hx : p.SlotAt x)
    (hcl : Cleaner c c') (hg : Grows (Slot (a.add x)) c c') (hl : Leading c' hs (a.add x) t) :
    Pictures c' hs (m.point k x t) := by
  have hmem := List.mem_of_getElem? hp
  obtain ⟨s, o, hst⟩ := h.stands p hmem
  cases hst.data.symm.trans ha
  have hbody : ∀ k y, Slot (Addr.add ⟨s, o⟩ x) k y → p.Body k y := fun k y hy => hst.slot_body hx hy
  have hW : ∀ k y, Slot (Addr.add ⟨s, o⟩ x) k y → ∃ p ∈ hs, p.Body k y := fun k y hy => ⟨p, hmem, hbody k y hy⟩
  refine ⟨hcl.clean, h.count, h.stands_frame hcl hg hW, h.apart, fun i q b y hq hb hy => ?_, fun i q b y hq hb hy => ?_⟩
  · obtain ⟨s', o', hst'⟩ := h.stands q (List.mem_of_getElem? hq)
    cases hst'.data.symm.trans hb
    have hqb := hst'.dataAt hy
    have hlead := hst'.lead
    have hin := hst'.inside
    obtain ⟨h0, h1⟩ := DataAt.inside hy hst'.shape.bits
    refine (hg.data _ _ ?_ ?_ fun hw => ?_).trans (h.shows.byte i q _ y hq hb hy)
    · show 0 ≤ o' + y
      omega
    · show o' + y < (c.seg s').len
      omega
    · obtain ⟨-, rfl⟩ := h.same_body hp hq (hbody _ _ hw) hqb
      cases hst.data.symm.trans hst'.data
      obtain ⟨-, h1, h2⟩ := hw
      have h1 : o + x ≤ o + y := h1
      have h2 : o + y < o + x + 8 := h2
      have := DataAt.apart hx hy
      omega
  · rw [Objects.link_point]
    by_cases hc : i = k ∧ y = x
    · obtain ⟨rfl, rfl⟩ := hc
      cases hp.symm.trans hq
      cases hst.data.symm.trans hb
      rw [if_pos ⟨rfl, rfl⟩]
      exact hl
    · rw [if_neg hc]
      obtain ⟨s', o', hst'⟩ := h.stands q (List.mem_of_getElem? hq)
      cases hst'.data.symm.trans hb
      refine (h.shows.link i q _ y hq hb hy).frame (hst'.slotAt hy) hcl.segs hg hW fun k z hz hw => ?_
      obtain ⟨rfl, rfl⟩ := h.same_body hp hq (hbody _ _ hw) (hst'.slot_body hy hz)
      cases hst.data.symm.trans hst'.data
      obtain ⟨-, h1, h2⟩ := hz
      obtain ⟨-, h3, h4⟩ := hw
      have h1 : o + y ≤ z := h1
      have h2 : z < o + y + 8 := h2
      have h3 : o + x ≤ z := h3
      have h4 : z < o + x + 8 := h4
      have hdvd := SlotAt.dvd hst.shape hx
      have hdvd' := SlotAt.dvd hst.shape hy
      exact hc ⟨rfl, by omega⟩

theorem Pictures.delivered (h : Pictures c hs m) : Delivered c hs m := ⟨h.stands, h.shows⟩

/-- What is in use stays. -/
theorem Delivered.keeps (h : Delivered c hs m) (hkeep : Keeps c c') (hs' : c.segs.length ≤ c'.segs.length) :
    Delivered c' hs m := by
  refine ⟨fun q hq => ?_, fun i q b x hq hb hx => ?_, fun i q b x hq hb hx => ?_⟩
  · obtain ⟨s', o', hst'⟩ := h.stands q hq
    exact ⟨s', o', hst'.grows hkeep hs' fun _ _ _ hn => hn⟩
  · obtain ⟨s', o', hst'⟩ := h.stands q (List.mem_of_getElem? hq)
    cases hst'.data.symm.trans hb
    obtain ⟨h0, h1⟩ := DataAt.inside hx hst'.shape.bits
    have hlead := hst'.lead
    have hin := hst'.inside
    rw [← h.shows.byte i q _ x hq hb hx]
    refine hkeep.data _ _ ?_ ?_ fun hn => hn
    · show 0 ≤ o' + x
      omega
    · show o' + x < (c.seg s').len
      omega
  · obtain ⟨s', o', hst'⟩ := h.stands q (List.mem_of_getElem? hq)
    cases hst'.data.symm.trans hb
    exact (h.shows.link i q _ x hq hb hx).frame (hst'.slotAt hx) hs' hkeep (by rintro _ _ ⟨⟩) fun _ _ _ hn => hn

/-- **A new object**, behind what is in use. -/
theorem Pictures.make {s : Nat} {o : Int} {bytes : Int → UInt8} (h : Pictures c hs m) (hcl : Cleaner c c') (hkeep : Keeps c c')
    (hst : Stands c' p s o) (hfresh : ((c.seg s).len : Int) + p.pre ≤ o)
    (hbytes : ∀ x, p.DataAt x → c'.byte ⟨s, o + x⟩ = bytes x) (hnull : ∀ x, p.SlotAt x → c'.load64 ⟨s, o + x⟩ = 0) :
    Pictures c' (hs ++ [p]) (m.make bytes) := by
  have hroom : ∀ k x, p.Room k x → ((c.seg k).len : Int) ≤ x := by
    intro k x hx
    obtain ⟨rfl, h1, -⟩ := hst.room hx
    omega
  have hold := h.delivered.keeps hkeep hcl.segs
  have hget : ∀ {i q}, (hs ++ [p])[i]? = some q → (i < m.count ∧ hs[i]? = some q) ∨ (i = m.count ∧ q = p) := by
    intro i q hq
    rw [← h.count]
    by_cases hi : i < hs.length
    · exact .inl ⟨hi, by rwa [List.getElem?_append_left hi] at hq⟩
    · obtain ⟨hlt, -⟩ := List.getElem?_eq_some_iff.mp hq
      rw [List.length_append, List.length_singleton] at hlt
      obtain rfl : i = hs.length := by omega
      rw [List.getElem?_append_right (Nat.le_refl _), Nat.sub_self] at hq
      exact .inr ⟨rfl, (Option.some.inj hq).symm⟩
  refine ⟨hcl.clean, ?_, fun q hq => ?_, List.pairwise_append.mpr ⟨h.apart, List.pairwise_singleton _ _, ?_⟩, ?_, ?_⟩
  · rw [List.length_append, h.count]
    rfl
  · rcases List.mem_append.mp hq with hq | hq
    · exact hold.stands q hq
    · rw [List.mem_singleton.mp hq]
      exact ⟨s, o, hst⟩
  · intro q hq r hr k x hx hx'
    rw [List.mem_singleton.mp hr] at hx'
    obtain ⟨s', o', hst'⟩ := h.stands q hq
    obtain ⟨rfl, -, h2⟩ := hst'.room hx
    have := hst'.inside
    have := hroom _ x hx'
    omega
  · intro i q b x hq hb hx
    rcases hget hq with ⟨hi, hq⟩ | ⟨rfl, rfl⟩
    · rw [Objects.byte_make hi]
      exact hold.shows.byte i q b x hq hb hx
    · cases hst.data.symm.trans hb
      rw [Objects.byte_make_self]
      exact hbytes x hx
  · intro i q b x hq hb hx
    rcases hget hq with ⟨hi, hq⟩ | ⟨rfl, rfl⟩
    · obtain ⟨s', o', hst'⟩ := h.stands q (List.mem_of_getElem? hq)
      cases hst'.data.symm.trans hb
      rw [Objects.link_make hi]
      exact (h.shows.link i q _ x hq hb hx).more (hst'.slotAt hx) hcl.segs hkeep fun k y hy => hroom k y hy.room
    · cases hst.data.symm.trans hb
      rw [Objects.link_make_self]
      exact hnull x hx

end

end Capnproto

import Capnproto.Object.Confined
import Capnproto.Object.Lazy

/-!
# Far pointers that are stored as they are

`capn_setp` stores a far pointer that is not resolved by copying its word, before it looks at
where the pointer is to go: to the data of the destination, whatever the offset is. It does
what it does with the resolved pointer (`StoresAlike`) when the word is no far pointer, or when the
place is the first word of the destination (`setp_unresolved`).
-/

namespace Capnproto

/-! ## The property -/

/-- The slots or elements of `p`. -/
def Ptr.places (p : Ptr) : Int := if p.type = .STRUCT then p.ptrs else p.len

/-- The offset is one of a slot or an element. -/
def Within (p : Ptr) (off : Int) : Prop := 0 ≤ off ∧ off < p.places

/-- A struct, a list of pointers or a composite list. -/
def Ptr.TakesPointers (p : Ptr) : Prop :=
  p.type = .STRUCT ∨ p.type = .PTR_LIST ∨ p.type = .LIST ∧ p.isCompositeList = true

/-- The object that the slot `d` points to; null also if it cannot be read. -/
def seen (c : Capn) (d : Addr) : Ptr :=
  match pointee c d with
  | some (q, _) => if q.type = .NULL then {} else q.bare
  | none => {}

/-- The objects `t` of `c` and `q` of `c'` hold the same, up to `R` for what their pointers lead to. -/
structure AlikeNode (R : Ptr → Ptr → Prop) (c : Capn) (t : Ptr) (c' : Capn) (q : Ptr) : Prop where
  fields : t.type = q.type ∧ t.len = q.len ∧ t.datasz = q.datasz ∧ t.ptrs = q.ptrs
  data : ∀ a b, DataPair (t, q) a b → c.byte a = c'.byte b
  slots : ∀ a b, SlotPair (t, q) a b → R (seen c a) (seen c' b)

/-- The objects hold the same, all the way down. -/
def LooksAlike (c : Capn) (t : Ptr) (c' : Capn) (q : Ptr) : Prop :=
  ∃ R : Ptr → Ptr → Prop, R t q ∧ ∀ t q, R t q → AlikeNode R c t c' q

/-- The place `off` of `p` reads as the same object in `c` and in `c'`. -/
def ReadsAlike (p : Ptr) (off : Int) (c c' : Capn) : Prop :=
  if p.type = .LIST then
    let m : Ptr := { type := .STRUCT, isListMember := true, seg := p.seg, datasz := p.datasz, ptrs := p.ptrs,
                     data := (destination p off).map Prod.fst }
    LooksAlike c m c' m
  else ∀ d n, destination p off = some (d, n) → seen c d = seen c' d

/-- Storing `t` does what storing its target does: with the same status the place reads as the same
object, nothing else changes, and a place that `p` does not have is refused. -/
def StoresAlike (w : World) (i : Nat) (p : Ptr) (off : Int) (t : Ptr) : Prop :=
  ∀ r', Setp (w.set i (capnResolve (w i) t).capn) i p off i (capnResolve (w i) t).ptr r' →
    ∃ r, Setp w i p off i t r ∧ r.1 = r'.1 ∧ (¬ Within p off → r.1 ≠ 0) ∧ ReadsAlike p off (r.2 i) (r'.2 i) ∧
      Grows (fun k x => Within p off ∧ Destination p off k x) (w i) (r.2 i)

/-! ## The condition -/

/-- The word that `t` stands for is itself a far pointer. -/
def Far (c : Capn) (t : Ptr) : Prop := ∃ b, t.data = some b ∧ c.load64 b % 4 = FAR_PTR

/-- There is room for the words that a pointer from segment `s` to `r` takes. -/
def Linkable (c : Capn) (s : Nat) (r : Ptr) : Prop :=
  r.seg = some s ∨ r.hasPtrTag = true ∨ (∃ k, r.seg = some k ∧ (c.seg k).len + 8 ≤ (c.seg k).cap) ∨
    (c.seg s).len + 16 ≤ (c.seg s).cap ∨ (newData c 16).isSome = true

/-- The slot `a` of a session, and the object `r` that the far pointer at `b` leads to by words other than the slot. -/
structure Leads (c : Capn) (a b : Addr) (r : Ptr) : Prop where
  clean : Clean c
  ids : c.segs.length < 2 ^ 32
  slot : SlotIn c a
  source : SlotIn c b
  stands : ∃ s o, Stands c r s o ∧ ∀ x, Front r s o a.seg x → ¬ Slot a a.seg x
  full : ¬ r.emptyStruct
  pads : ∀ d ∈ landingPads c b, ∀ x, Slot d d.seg x → ¬ Slot a d.seg x

/-- When storing `t` does what storing its target `r` does: its word is no far pointer, or the slot is the first
word of `p`, and a pointer to the target fits. -/
def StoresFine (c : Capn) (p : Ptr) (off : Int) (t r : Ptr) : Prop :=
  (¬ Far c t ∧ (0 ≤ off ∨ p.type = .LIST ∧ r.type ≠ .STRUCT)) ∨
    ∃ a b, p.data = some a ∧ t.data = some b ∧ c.load64 b % 4 = FAR_PTR ∧ off = 0 ∧ 0 < p.places ∧
      (p.type = .PTR_LIST ∨ p.type = .STRUCT ∧ p.datasz = 0) ∧ r.type ≠ .NULL ∧ Leads c a b r ∧ Linkable c a.seg r

/-! ## Pointers that are no far pointers -/

theorem pairAt_self {S : Int → Prop} {d : Option Addr} {a b : Addr} (h : PairAt S d d a b) : a = b := by
  obtain ⟨p, q, x, hp, hq, -, rfl, rfl⟩ := h
  cases hp.symm.trans hq
  rfl

theorem LooksAlike.refl (c : Capn) (t : Ptr) : LooksAlike c t c t := by
  refine ⟨Eq, rfl, ?_⟩
  rintro t _ rfl
  refine ⟨⟨rfl, rfl, rfl, rfl⟩, fun a b h => ?_, fun a b h => ?_⟩
  · rw [pairAt_self h]
  · rw [pairAt_self h]

theorem ReadsAlike.refl (p : Ptr) (off : Int) (c : Capn) : ReadsAlike p off c c := by
  rw [ReadsAlike]
  split
  · exact LooksAlike.refl _ _
  · exact fun _ _ _ => rfl

section

variable {w : World} {i : Nat} {p t : Ptr} {off : Int}

/-- Nothing is left to resolve. -/
theorem setpStart_target {j : Nat} {r : Ptr} (hp : p.type ≠ .FAR_POINTER) (hr : r.type ≠ .FAR_POINTER) :
    setpStart w i p off j r = setpResolved w i p off j r := by
  simp only [setpStart, capnResolve_of_ne hp, World.set_eq, capnResolve_of_ne hr]
  split
  · rename_i heq
    split at heq
    · exact absurd (by assumption) hr
    · cases heq
  · rfl

/-- A pointer whose word is no far pointer is resolved first. -/
theorem setpStart_plain (hp : p.type ≠ .FAR_POINTER) (ht : ¬ Far (w i) t) : setpStart w i p off i t =
    setpResolved (w.set i (capnResolve (w i) t).capn) i p off i (capnResolve (w i) t).ptr := by
  simp only [setpStart, capnResolve_of_ne hp, World.set_eq]
  split
  · rename_i heq
    split at heq
    · rename_i src dst _ hsrc _
      split at heq
      · rename_i hfar
        exact absurd ⟨src, hsrc, hfar.2⟩ ht
      · cases heq
    · cases heq
  · rfl

/-- A pointer whose word is a far pointer is stored as it is. -/
theorem setpStart_far {a b : Addr} (hp : p.type ≠ .FAR_POINTER) (ht : t.type = .FAR_POINTER) (ha : p.data = some a)
    (hb : t.data = some b) (hfar : (w i).load64 b % 4 = FAR_PTR) :
    setpStart w i p off i t = .done (0, w.set i ((w i).store64 a ((w i).load64 b))) := by
  simp only [setpStart, capnResolve_of_ne hp, World.set_eq, ht, ha, hb, hfar, and_self, if_true]

theorem setp_done {j : Nat} {r r' : Int × World} (h : setpStart w i p off j t = .done r) : Setp w i p off j t r' ↔ r = r' := by
  constructor
  · intro hs
    have := hs.finishes
    rw [h] at this
    exact this
  · rintro rfl
    exact ⟨0, by rw [capnSetp, h]⟩

/-- Places that `p` does not have. -/
theorem setpResolved_outside {r : Ptr} {q : Int × World} (hp : p.TakesPointers) (hout : ¬ Within p off)
    (hneg : 0 ≤ off ∨ p.type = .LIST ∧ r.type ≠ .STRUCT) (h : Finishes i i q (setpResolved w i p off i r)) :
    q = (-1, w) := by
  have hge : 0 ≤ off → p.places ≤ off := fun h0 => Int.not_lt.mp fun hlt => hout ⟨h0, hlt⟩
  simp only [setpResolved] at h
  rcases hp with ht | ht | ⟨ht, -⟩ <;> simp only [ht] at h
  · have h0 := hneg.resolve_right fun h => by rw [ht] at h; cases h.1
    have hle := hge h0
    rw [Ptr.places, if_pos ht] at hle
    rw [if_pos hle] at h
    exact h.symm
  · have h0 := hneg.resolve_right fun h => by rw [ht] at h; cases h.1
    have hle := hge h0
    rw [Ptr.places, if_neg (by rw [ht]; decide)] at hle
    rw [if_pos hle] at h
    exact h.symm
  · rw [if_pos] at h
    · exact h.symm
    · refine hneg.imp (fun h0 => ?_) And.right
      have hle := hge h0
      rwa [Ptr.places, if_neg (by rw [ht]; decide)] at hle

/-- Both calls are the same. -/
theorem storesAlike_plain (hp : p.TakesPointers) (ht : ¬ Far (w i) t)
    (hneg : 0 ≤ off ∨ p.type = .LIST ∧ (capnResolve (w i) t).ptr.type ≠ .STRUCT) : StoresAlike w i p off t := by
  have hpf : p.type ≠ .FAR_POINTER := by
    rcases hp with h | h | ⟨h, -⟩ <;> rw [h] <;> decide
  have hsame : ∀ r, Setp (w.set i (capnResolve (w i) t).capn) i p off i (capnResolve (w i) t).ptr r ↔
      Setp w i p off i t r := by
    intro r
    simp only [Setp, capnSetp]
    rw [setpStart_target hpf (capnResolve_type _ _), setpStart_plain hpf ht]
  intro r hr
  have hfin := hr.finishes
  rw [setpStart_target hpf (capnResolve_type _ _)] at hfin
  refine ⟨r, (hsame r).mp hr, rfl, fun hout => ?_, ReadsAlike.refl _ _ _, ?_⟩
  · rw [setpResolved_outside hp hout hneg hfin]
    exact (by decide : (-1 : Int) ≠ 0)
  · have hbase : ∀ P, Grows P (w i) (w.set i (capnResolve (w i) t).capn i) := by
      intro P
      rw [World.set_self]
      exact (Grows.refl P (w i)).of_segs (capnResolve_segs _ _)
    by_cases hin : Within p off
    · exact (hbase _).trans ((setpResolved_confined hfin).mono fun k x hx => ⟨hin, hx⟩)
    · rw [setpResolved_outside hp hin hneg hfin]
      exact hbase _

/-! ## Far pointers into the first word -/

/-- A far pointer word leads to the same object from wherever it is. -/
theorem pointee_moved {c : Capn} {a b : Addr} (h : c.load64 a = c.load64 b) (hf : c.load64 b % 4 = FAR_PTR) :
    pointee c a = pointee c b := by
  have hfar : followFar c a.seg a (c.load64 a) = followFar c b.seg b (c.load64 b) := by
    rw [h, followFar, followFar]
    split
    · rfl
    split
    · rfl
    · simp only [FAR_PTR, DOUBLE_PTR] at *
      omega
  rw [h] at hfar
  rw [pointee, pointee, h, hfar]

theorem ptrTag_fits {p : Ptr} (off : Int) (hobj : p.IsObject) (h8 : 8 ∣ off) (h0 : -2 ^ 32 ≤ off) (h1 : off < 2 ^ 32) :
    ∃ v, ptrTag p off = some v := by
  obtain ⟨k, rfl⟩ := h8
  simp only [ptrTag, if_neg hobj.2.2, Int.mul_tdiv_cancel_left _ (show (8 : Int) ≠ 0 by decide)]
  rw [if_neg]
  · exact ⟨_, rfl⟩
  · simp only [CAPN_PTR_OFF_MIN_WORDS, CAPN_PTR_OFF_MAX_WORDS]
    omega

theorem pads_length {c c' : Capn} {s t : Nat} {a : Addr}
    (e : (if (c.seg s).len + 16 ≤ (c.seg s).cap then some (bump c s 16, s, (⟨s, (c.seg s).len⟩ : Addr))
      else newData c 16) = some (c', t, a)) : c'.segs.length ≤ c.segs.length + 1 := by
  split at e
  · cases e
    rw [bump, Capn.length_setSeg]
    exact Nat.le_succ _
  · rcases newData_cases e with ⟨-, -, rfl, -⟩ | ⟨create, t, -, -, -, rfl, -⟩
    · rw [bump, Capn.length_setSeg]
      exact Nat.le_succ _
    · simp [bump, capnAppendSegment]

/-- With room, a pointer to an object of the session is written. -/
theorem writePtr_fits {c : Capn} {r : Ptr} {s : Nat} {o : Int} {a : Addr} (hc : Clean c) (hr : Stands c r s o)
    (hz : ¬ r.emptyStruct) (ha : SlotIn c a) (hroom : Linkable c a.seg r) :
    (writePtr c a.seg a r false).1 = 0 ∧ (writePtr c a.seg a r false).2.segs.length ≤ c.segs.length + 1 := by
  have hlead := hr.lead
  have hin := hr.inside
  have hldvd := lead_dvd r
  have hodvd := hr.aligned
  rw [writePtr_pick hr hz]
  by_cases hs : s = a.seg
  · rw [if_pos hs]
    obtain ⟨v, hv⟩ := ptrTag_fits (o - r.lead - a.off - 8) hr.obj (by have := ha.aligned; omega) (by
      have := ha.pos
      have := ha.inside
      have := hc.room a.seg
      have := hc.cap a.seg
      omega) (by
      have := ha.pos
      have := hc.room s
      have := hc.cap s
      omega)
    rw [writePtrTag, hv]
    refine ⟨rfl, ?_⟩
    show (c.store64 a v).segs.length ≤ _
    rw [Capn.store64, Capn.length_write]
    exact Nat.le_succ _
  · rw [if_neg hs, writePtrFar]
    split
    · refine ⟨rfl, ?_⟩
      show (c.store64 a _).segs.length ≤ _
      rw [Capn.store64, Capn.length_write]
      exact Nat.le_succ _
    split
    · rename_i hroom8
      obtain ⟨v, hv⟩ := ptrTag_fits (o - r.lead - ((c.seg s).len : Int) - 8) hr.obj (by
        have := hc.words s
        omega) (by
        have := hc.room s
        have := hc.cap s
        omega) (by
        have := hc.room s
        have := hc.cap s
        omega)
      simp only [writePtrTag, hv, Option.map_some]
      refine ⟨trivial, ?_⟩
      show (bump ((c.store64 _ v).store64 a _) s 8).segs.length ≤ _
      rw [bump, Capn.length_setSeg, Capn.store64, Capn.length_write, Capn.store64, Capn.length_write]
      exact Nat.le_succ _
    · rename_i htag hfull
      have hsome : ∃ q, (if (c.seg a.seg).len + 16 ≤ (c.seg a.seg).cap then
          some (bump c a.seg 16, a.seg, (⟨a.seg, (c.seg a.seg).len⟩ : Addr)) else newData c 16) = some q := by
        split
        · exact ⟨_, rfl⟩
        · rename_i hno
          rcases hroom with h | h | ⟨k, hk, h⟩ | h | h
          · rw [hr.seg] at h
            exact absurd (Option.some.inj h) hs
          · exact absurd h htag
          · rw [hr.seg] at hk
            cases hk
            exact absurd h hfull
          · exact absurd h hno
          · exact Option.isSome_iff_exists.mp h
      obtain ⟨⟨c', t, d⟩, hq⟩ := hsome
      have hlen := pads_length hq
      obtain ⟨v, hv⟩ := ptrTag_fits 0 hr.obj (by decide) (by decide) (by decide)
      simp only [hq, writePtrTag, hv, Option.map_some]
      refine ⟨trivial, ?_⟩
      simp only [writeDoubleFar, writeFarPtr, Capn.store64, Capn.length_write]
      exact hlen

end

theorem SlotIn.of_segs {c c' : Capn} {d : Addr} (h : SlotIn c d) (hs : c'.segs = c.segs) : SlotIn c' d := by
  refine ⟨h.aligned, h.pos, ?_⟩
  rw [Capn.seg, hs]
  exact h.inside

theorem Stands.of_segs {c c' : Capn} {r : Ptr} {s : Nat} {o : Int} (h : Stands c r s o) (hs : c'.segs = c.segs) :
    Stands c' r s o :=
  h.grows (P := fun _ _ => False) ((Grows.refl _ _).of_segs hs) (Nat.le_of_eq (congrArg List.length hs.symm))
    fun _ _ _ h => h

theorem Linkable.counters {c : Capn} {s used : Nat} {err : Bool} {r : Ptr} (h : Linkable c s r) :
    Linkable { c with traversalUsed := used, decodeErr := err } s r := by
  have hnew : (newData { c with traversalUsed := used, decodeErr := err } 16).isSome = (newData c 16).isSome := by
    simp only [newData]
    split
    · rfl
    · split
      · rfl
      · rename_i create _
        simp only [Capn.segnum]
        cases create c.segs.length 16 <;> rfl
  rw [Linkable, hnew]
  exact h

/-- The word of a far pointer leads to the same object when it is stored over a slot. -/
theorem seen_moved {c : Capn} {a b : Addr} {q : Ptr} {cost : Nat} (ha : SlotIn c a) (hb : SlotIn c b)
    (hf : c.load64 b % 4 = FAR_PTR) (hq : pointee c b = some (q, cost)) (hnull : q.type ≠ .NULL)
    (hpads : ∀ d ∈ landingPads c b, ∀ x, Slot d d.seg x → ¬ Slot a d.seg x)
    (htag : ∀ d, q.isCompositeList = true → q.data = some d → ∀ x, d.off - 8 ≤ x → x < d.off → ¬ Slot a d.seg x) :
    seen (c.store64 a (c.load64 b)) a = q.bare := by
  have hself : (c.store64 a (c.load64 b)).load64 a = c.load64 b := load64_store64_self ha.lt (Mem.load64_lt _ _)
  have hgrows : Grows (Slot a) c (c.store64 a (c.load64 b)) :=
    (Grows.refl _ _).store64 (.inr fun x h0 h1 => ⟨rfl, h0, h1⟩)
  have hsegs : c.segs.length ≤ (c.store64 a (c.load64 b)).segs.length :=
    Nat.le_of_eq (Capn.length_write _ _ _).symm
  have hword : WordInside c b := ⟨hb.pos, hb.inside⟩
  have hsrc : (c.store64 a (c.load64 b)).load64 b = c.load64 b ∧
      pointee (c.store64 a (c.load64 b)) b = some (q, cost) := by
    by_cases hab : a = b
    · subst hab
      have hread : (c.store64 a (c.load64 a)).read a 8 = c.read a 8 :=
        le_inj (by rw [Capn.read, Capn.read, Mem.length_read, Mem.length_read]) hself
      refine ⟨hself, (pointee_grows (hgrows.keeps hread) hsegs hword hq ?_ ?_ ?_).1⟩
      · exact fun _ _ h => h
      · exact fun _ _ _ _ h => h
      · exact fun _ _ _ _ _ _ h => h
    · -- words are aligned: other words do not meet the slot
      have hfree : ∀ x, Slot b b.seg x → ¬ Slot a b.seg x := by
        rintro x ⟨-, h1, h2⟩ ⟨hs, h3, h4⟩
        have := ha.aligned
        have := hb.aligned
        apply hab
        obtain ⟨s, o⟩ := a
        obtain ⟨s', o'⟩ := b
        simp only at *
        rw [hs, show o = o' by omega]
      exact ⟨load64_grows hgrows hword hfree, (pointee_grows hgrows hsegs hword hq hfree hpads htag).1⟩
  obtain ⟨hload, hsrc⟩ := hsrc
  have hp : pointee (c.store64 a (c.load64 b)) a = some (q, cost) := by
    rw [← hsrc]
    exact pointee_moved (hself.trans hload.symm) (by rw [hload]; exact hf)
  rw [seen, hp]
  exact if_neg hnull

/-- A pointer that is written leads to its object. -/
theorem seen_written {c : Capn} {r : Ptr} {s : Nat} {o : Int} {a : Addr} (hc : Clean c) (hids : c.segs.length < 2 ^ 32)
    (hr : Stands c r s o) (hz : ¬ r.emptyStruct) (ha : SlotIn c a) (hfront : ∀ x, Front r s o a.seg x → ¬ Slot a a.seg x)
    (hroom : Linkable c a.seg r) :
    (writePtr c a.seg a r false).1 = 0 ∧ seen (writePtr c a.seg a r false).2 a = r.bare := by
  obtain ⟨hok, hlen⟩ := writePtr_fits hc hr hz ha hroom
  obtain ⟨⟨⟨b, hb⟩, -⟩, -⟩ := writePtr_linked hc hr hz ha hfront (Nat.le_trans hlen hids) hok
  refine ⟨hok, ?_⟩
  rw [seen, hb]
  exact if_neg hr.obj.1

section

variable {w : World} {i : Nat} {p t : Ptr} {off : Int}

/-- The object that a far pointer is resolved to. -/
theorem resolved_pointee {c : Capn} {b : Addr} (ht : t.type = .FAR_POINTER) (hb : t.data = some b)
    (hnull : (capnResolve c t).ptr.type ≠ .NULL) :
    ∃ q cost, pointee c b = some (q, cost) ∧ (capnResolve c t).ptr.bare = q.bare ∧ q.type ≠ .NULL ∧
      (capnResolve c t).ptr.type = q.type ∧ (capnResolve c t).ptr.isCompositeList = q.isCompositeList ∧
      (capnResolve c t).ptr.data = q.data := by
  rw [capnResolve, if_pos ht] at hnull ⊢
  rcases readPtr_cases c t.seg t.data (hopRemaining c t) with ⟨reads, e, -⟩ | ⟨s, o, q, cost, -, -, hd, -, hq, -, e⟩
  · rw [e] at hnull
    exact absurd rfl hnull
  · rw [e] at hnull ⊢
    rw [hb] at hd
    cases hd
    obtain ⟨n, v, hn⟩ := withNesting_eq q (hopRemaining c t)
    change (q.withNesting _).type ≠ _ at hnull
    rw [hn] at hnull
    refine ⟨q, cost, hq, ?_, hnull, ?_⟩
    · show (q.withNesting _).bare = _
      rw [hn]
      rfl
    · show (q.withNesting _).type = _ ∧ (q.withNesting _).isCompositeList = _ ∧ (q.withNesting _).data = _
      rw [hn]
      exact ⟨rfl, rfl, rfl⟩

/-- What `capn_setp` does with a resolved pointer for the first word of `p`. -/
theorem setpResolved_first {a : Addr} {r : Ptr} (hpos : 0 < p.places)
    (hkind : p.type = .PTR_LIST ∨ p.type = .STRUCT ∧ p.datasz = 0) (hs : p.seg = some a.seg) (ha : p.data = some a) :
    setpResolved w i p 0 i r = setpSlot w i a.seg a i r := by
  have hzero : a.add 0 = a := by rw [Addr.add, Int.add_zero]
  rcases hkind with ht | ⟨ht, h0⟩
  · rw [Ptr.places, if_neg (by rw [ht]; decide)] at hpos
    simp only [setpResolved, ht, hs, ha]
    rw [if_neg (Int.not_le.mpr hpos), Int.mul_zero, hzero]
  · rw [Ptr.places, if_pos ht] at hpos
    simp only [setpResolved, ht, hs, ha, h0]
    rw [if_neg (Int.not_le.mpr hpos), Int.mul_zero, Nat.cast_zero, Int.add_zero, hzero]

theorem setp_first {a : Addr} {r : Ptr} {r' : Int × World} (hpos : 0 < p.places)
    (hkind : p.type = .PTR_LIST ∨ p.type = .STRUCT ∧ p.datasz = 0) (hs : p.seg = some a.seg) (ha : p.data = some a)
    (hr : r.type ≠ .FAR_POINTER) (hok : (writePtr (w i) a.seg a r false).1 = 0) (h : Setp w i p 0 i r r') :
    r' = (0, w.set i (writePtr (w i) a.seg a r false).2) := by
  have hpf : p.type ≠ .FAR_POINTER := by
    rcases hkind with h | ⟨h, -⟩ <;> rw [h] <;> decide
  have hfin := h.finishes
  rw [setpStart_target hpf hr, setpResolved_first hpos hkind hs ha] at hfin
  simp only [setpSlot, ne_eq, not_true_eq_false, decide_false, hok] at hfin
  rw [if_pos (by decide)] at hfin
  exact hfin.symm

/-- The first word of `p` is the place. -/
theorem destination_first {a : Addr} (hkind : p.type = .PTR_LIST ∨ p.type = .STRUCT ∧ p.datasz = 0)
    (ha : p.data = some a) : destination p 0 = some (a, 8) := by
  have hzero : a.add 0 = a := by rw [Addr.add, Int.add_zero]
  rcases hkind with ht | ⟨ht, h0⟩
  · simp only [destination, ht, ha, Option.map_some, Int.mul_zero, hzero]
  · simp only [destination, ht, ha, Option.map_some, h0, Int.mul_zero, Nat.cast_zero, Int.add_zero, hzero]

/-- The stored word and what is done with the target read alike. -/
theorem storesAlike_seen {a b : Addr} (hpf : p.type ≠ .FAR_POINTER) (hplist : p.type ≠ .LIST)
    (hdest : destination p 0 = some (a, 8)) (hin : Within p 0) (ht : t.type = .FAR_POINTER) (ha : p.data = some a)
    (hb : t.data = some b) (hfar : (w i).load64 b % 4 = FAR_PTR)
    (h : ∀ r', Setp (w.set i (capnResolve (w i) t).capn) i p 0 i (capnResolve (w i) t).ptr r' →
      r'.1 = 0 ∧ seen (r'.2 i) a = seen ((w i).store64 a ((w i).load64 b)) a) : StoresAlike w i p 0 t := by
  intro r' hr'
  obtain ⟨hok, hseen⟩ := h r' hr'
  refine ⟨_, (setp_done (setpStart_far hpf ht ha hb hfar)).mpr rfl, hok.symm, fun h => absurd hin h, ?_, ?_⟩
  · rw [ReadsAlike, if_neg hplist, hdest]
    rintro d n ⟨⟩
    dsimp only
    rw [World.set_self, hseen]
  · dsimp only
    rw [World.set_self]
    exact (Grows.refl _ _).store64 (.inr fun x h0 h1 => ⟨hin, a, 8, hdest, rfl, h0, h1⟩)

/-- Both calls leave a pointer to the object in the first word. -/
theorem storesAlike_far {a b : Addr} (hs : p.seg = some a.seg) (ht : t.type = .FAR_POINTER) (ha : p.data = some a)
    (hb : t.data = some b) (hfar : (w i).load64 b % 4 = FAR_PTR) (hpos : 0 < p.places)
    (hkind : p.type = .PTR_LIST ∨ p.type = .STRUCT ∧ p.datasz = 0) (hnull : (capnResolve (w i) t).ptr.type ≠ .NULL)
    (hl : Leads (w i) a b (capnResolve (w i) t).ptr) (hroom : Linkable (w i) a.seg (capnResolve (w i) t).ptr) :
    StoresAlike w i p 0 t := by
  have hpf : p.type ≠ .FAR_POINTER := by
    rcases hkind with h | ⟨h, -⟩ <;> rw [h] <;> decide
  have hplist : p.type ≠ .LIST := by
    rcases hkind with h | ⟨h, -⟩ <;> rw [h] <;> decide
  have hdest := destination_first hkind ha
  obtain ⟨q, cost, hq, hbare, hqnull, -, hcomp, hdata⟩ := resolved_pointee ht hb hnull
  obtain ⟨s, o, hstands, hfront⟩ := hl.stands
  -- the words of the target are not in the slot
  have htag : ∀ d, q.isCompositeList = true → q.data = some d → ∀ x, d.off - 8 ≤ x → x < d.off → ¬ Slot a d.seg x := by
    intro d hc hd x h0 h1 hx
    rw [← hdata, hstands.data] at hd
    cases hd
    have h0 : o - 8 ≤ x := h0
    refine hfront x ⟨hx.1.symm, ?_, h1⟩ ⟨rfl, hx.2⟩
    have hlead : (capnResolve (w i) t).ptr.lead = 8 := if_pos (hcomp.trans hc)
    rw [Ptr.pre, hlead]
    push_cast
    split <;> omega
  have hA := seen_moved hl.slot hl.source hfar hq hqnull hl.pads htag
  have hsegs := capnResolve_segs (w i) t
  have hrfar := capnResolve_type (w i) t
  obtain ⟨used, err, hcapn⟩ := capnResolve_capn (w i) t
  have hB := seen_written (hl.clean.of_segs hsegs (by rw [hcapn])) (by rw [hsegs]; exact hl.ids)
    (hstands.of_segs hsegs) hl.full (hl.slot.of_segs hsegs) hfront (by rw [hcapn]; exact hroom.counters)
  refine storesAlike_seen hpf hplist hdest ⟨Int.le_refl 0, hpos⟩ ht ha hb hfar fun r' hr' => ?_
  rw [setp_first hpos hkind hs ha hrfar (by rw [World.set_self]; exact hB.1) hr']
  refine ⟨rfl, ?_⟩
  dsimp only
  rw [World.set_self, World.set_self, hA, hB.2, hbare]

/-- A far pointer is accepted for a place that `p` does not have, and its target is not. -/
theorem not_storesAlike {a b : Addr} (hp : p.TakesPointers) (ha : p.data = some a) (ht : t.type = .FAR_POINTER)
    (hb : t.data = some b) (hfar : (w i).load64 b % 4 = FAR_PTR) (h0 : 0 ≤ off) (hout : ¬ Within p off) :
    ¬ StoresAlike w i p off t := by
  intro h
  have hpf : p.type ≠ .FAR_POINTER := by
    rcases hp with h | h | ⟨h, -⟩ <;> rw [h] <;> decide
  have hge : p.places ≤ off := Int.not_lt.mp fun hlt => hout ⟨h0, hlt⟩
  have hrefused : ∀ (w : World) (r : Ptr), r.type ≠ .FAR_POINTER → Setp w i p off i r (-1, w) := by
    intro w r hr
    refine ⟨0, ?_⟩
    rw [capnSetp, setpStart_target hpf hr, setpResolved]
    rcases hp with ht | ht | ⟨ht, -⟩ <;> rw [Ptr.places] at hge <;> simp only [ht]
    · rw [if_pos ht] at hge
      rw [if_pos hge]
    · rw [if_neg (by rw [ht]; decide)] at hge
      rw [if_pos hge]
    · rw [if_neg (by rw [ht]; decide)] at hge
      rw [if_pos (.inl hge)]
  obtain ⟨r, hr, -, hret, -⟩ := h _ (hrefused _ _ (capnResolve_type _ _))
  rw [setp_done (setpStart_far hpf ht ha hb hfar)] at hr
  rw [← hr] at hret
  exact hret hout rfl

/-- **When a far pointer is stored as its target**: `capn_setp` of a pointer that is not resolved does what it
does of the resolved pointer, when the word is no far pointer, or goes into the first word of the destination. -/
theorem setp_unresolved (hp : p.TakesPointers) (hin : InSegment (w i) p) (ht : Unresolved t)
    (h : StoresFine (w i) p off t (capnResolve (w i) t).ptr) : StoresAlike w i p off t := by
  rcases h with ⟨hfar, hneg⟩ | ⟨a, b, ha, hb, hfar, rfl, hpos, hkind, hnull, hl, hroom⟩
  · exact storesAlike_plain hp hfar hneg
  · obtain ⟨s, o, hs, hd, -, -⟩ := hin
    cases hd.symm.trans ha
    exact storesAlike_far hs ht.1 ha hb hfar hpos hkind hnull hl hroom

end

/-- A message whose root struct has two pointers: none, and a far pointer to a struct of the other segment. -/
def relay : Capn :=
  (carve [24, 16] ([0, 0, 0, 0, 0, 0, 2, 0] ++ [0, 0, 0, 0, 0, 0, 0, 0] ++ [2, 0, 0, 0, 1, 0, 0, 0] ++
    [0, 0, 0, 0, 1, 0, 0, 0] ++ [5, 0, 0, 0, 0, 0, 0, 0])).foldl capnAppendSegment capnInitMalloc

/-- Its root. -/
def relayRoot : Ptr := (capnGetp relay (capnRoot relay).2 0 true).ptr

/-- The far pointer, not resolved. -/
def relayFar : Ptr := (capnGetp relay relayRoot 1 false).ptr

theorem relayFar_unresolved : Unresolved relayFar := ⟨by decide +kernel, _, _, _, rfl⟩

theorem relayRoot_eq : relayRoot.type = .STRUCT ∧ relayRoot.datasz = 0 ∧ relayRoot.ptrs = 2 ∧
    relayRoot.seg = some 0 ∧ relayRoot.data = some ⟨0, 8⟩ := by decide +kernel

theorem relayFar_eq : relayFar.data = some ⟨0, 16⟩ ∧ relay.load64 ⟨0, 16⟩ % 4 = FAR_PTR := by decide +kernel

/-- The struct that the far pointer leads to. -/
theorem relay_target : (capnResolve relay relayFar).ptr =
    { type := .STRUCT, hasPtrTag := true, datasz := 8, data := some ⟨1, 8⟩, seg := some 1, nesting := 62,
      nestingValid := true } := by decide +kernel

theorem relay_clean : Clean relay := by
  have h2 : ∀ k, 2 ≤ k → relay.seg k = ⟨Mem.zero, 0, 0⟩ := fun k hk => Capn.seg_of_ge hk
  have hlen : ∀ k, 8 ∣ (relay.seg k).len ∧ (relay.seg k).len = (relay.seg k).cap ∧ (relay.seg k).cap < 2 ^ 32 := by
    intro k
    rcases Nat.lt_or_ge k 2 with hk | hk
    · interval_cases k <;> decide +kernel
    · rw [h2 k hk]
      decide
  refine ⟨create_blank rfl, fun k => (hlen k).1, fun k => Nat.le_of_eq (hlen k).2.1, fun k => (hlen k).2.2, fun k x h0 h1 => ?_⟩
  have := (hlen k).2.1
  omega

theorem relay_leads : Leads relay ⟨0, 8⟩ ⟨0, 16⟩ (capnResolve relay relayFar).ptr := by
  have hpads : landingPads relay ⟨0, 16⟩ = [⟨1, 0⟩] := by decide +kernel
  rw [relay_target]
  refine ⟨relay_clean, by decide, ⟨by decide, by decide, by decide +kernel⟩, ⟨by decide, by decide, by decide +kernel⟩,
    ⟨1, 8, ⟨?_, ?_, rfl, rfl, by decide +kernel, by decide, by decide +kernel, by decide, nofun, fun _ => ?_⟩, ?_⟩, ?_, ?_⟩
  · exact ⟨rfl, by decide, rfl, by decide, by decide, by decide, rfl⟩
  · exact ⟨nofun, nofun, nofun⟩
  · exact ⟨by decide, by decide +kernel⟩
  · rintro x ⟨h, -⟩
    cases h
  · exact fun h => absurd h.2.1 (by decide)
  · intro d hd x hx hs
    rw [hpads] at hd
    rw [List.mem_singleton.mp hd] at hs
    exact absurd hs.1 (by decide)

/-- The far pointer, stored into the first slot of the root. -/
theorem setp_unresolved_relay : StoresAlike (fun _ => relay) 0 relayRoot 0 relayFar := by
  obtain ⟨ht, hsz, hptrs, hs, hd⟩ := relayRoot_eq
  obtain ⟨hfd, hfar⟩ := relayFar_eq
  refine setp_unresolved (.inl ht) ⟨0, 8, hs, hd, ?_, ?_⟩ relayFar_unresolved
    (.inr ⟨⟨0, 8⟩, ⟨0, 16⟩, hd, hfd, hfar, rfl, ?_, .inr ⟨ht, hsz⟩, ?_, relay_leads, .inr (.inl ?_)⟩)
  · decide +kernel
  · decide +kernel
  · rw [Ptr.places, if_pos ht, hptrs]
    decide
  · show (capnResolve relay relayFar).ptr.type ≠ _
    rw [relay_target]
    decide
  · show (capnResolve relay relayFar).ptr.hasPtrTag = true
    rw [relay_target]

/-- The far pointer is stored into the third slot of the root, which has two. -/
theorem setp_unresolved_outside : ¬ ∀ (w : World) (i : Nat) (p : Ptr) (off : Int) (t : Ptr), p.TakesPointers →
    InSegment (w i) p → Unresolved t → StoresAlike w i p off t := by
  intro h
  obtain ⟨ht, hsz, hptrs, hs, hd⟩ := relayRoot_eq
  obtain ⟨hfd, hfar⟩ := relayFar_eq
  have hin : InSegment relay relayRoot := ⟨0, 8, hs, hd, by decide +kernel, by decide +kernel⟩
  have hall := h (fun _ => relay) 0 relayRoot 2 relayFar (.inl ht) hin relayFar_unresolved
  have hout : ¬ Within relayRoot 2 := by
    rw [Within, Ptr.places, if_pos ht, hptrs]
    decide
  exact not_storesAlike (w := fun _ => relay) (i := 0) (.inl ht) hd relayFar_unresolved.1 hfd hfar (by decide) hout hall

end Capnproto

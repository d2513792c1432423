import Capnproto.Object.Access
import Capnproto.Object.Build
import Capnproto.Pointer.Chain

/-!
# Lazy far pointers

A far pointer that `capn_getp` has not resolved stands for the object it leads to.
`Transparent` says that an accessor does the same with it as with what
`capn_resolve` makes of it; `Looks` is exactly when. Accessors that resolve
their argument are transparent; `capn_getN`, `capn_setN`, `capn_setvN` and
`capn_setv1` take a lazy pointer for an empty list, and `capn_getp` looks for the
slots of an object in the segment of the far pointer.
-/

namespace Capnproto

/-- A call of an accessor on a pointer. -/
inductive Access where
  | getp (off : Int) (resolve : Bool)
  | get1 (off : Int)
  | get (sz : SZ) (off : Int)
  | getv1 (off n : Int)
  | getv (sz : SZ) (off n : Int)
  | getText (off : Int) (default : Text)
  | getData (off : Int)
  | len
  | set1 (off val : Int)
  | set (sz : SZ) (off : Int) (v : Nat)
  | setv1 (off : Int) (data : Nat → UInt8) (n : Int)
  | setv (sz : SZ) (off : Int) (vals : Nat → Nat) (n : Int)
  | setp (fuel : Nat) (off : Int) (j : Nat) (tgt : Ptr)

/-- What an accessor returns. -/
inductive Value where
  | int (n : Int)
  | bytes (n : Int) (bs : List UInt8)
  | ptr (p : Ptr)
  | text (t : Text)
deriving DecidableEq

/-- The result of an accessor, the sessions after it, and what it stored itself. -/
structure Outcome where
  value : Value
  world : World
  stores : List (Addr × List UInt8) := []

def Stored.outcome (w : World) (i : Nat) (s : Stored) : Outcome := ⟨.int s.ret, w.set i s.capn, s.stores⟩

/-- The accessor on a pointer `p` of session `i`; `capn_getp` is followed by
`capn_resolve`. `none` if the fuel of `capn_setp` runs out. -/
def Access.run (w : World) (i : Nat) (p : Ptr) : Access → Option Outcome
  | .getp off resolve =>
    let g := capnGetp (w i) p off resolve
    let r := capnResolve g.capn g.ptr
    some ⟨.ptr r.ptr, w.set i r.capn, []⟩
  | .get1 off => some ⟨.int (capnGet1 (w i) p off).2, w.set i (capnGet1 (w i) p off).1, []⟩
  | .get sz off => some ⟨.int (capnGet sz (w i) p off).2, w.set i (capnGet sz (w i) p off).1, []⟩
  | .getv1 off n =>
    let (c, r, bs) := capnGetv1 (w i) p off n
    some ⟨.bytes r bs, w.set i c, []⟩
  | .getv sz off n =>
    let (c, r, bs) := capnGetv sz (w i) p off n
    some ⟨.bytes r bs, w.set i c, []⟩
  | .getText off default => some ⟨.text (capnGetText (w i) p off default).2, w.set i (capnGetText (w i) p off default).1, []⟩
  | .getData off => some ⟨.ptr (capnGetData (w i) p off).2, w.set i (capnGetData (w i) p off).1, []⟩
  | .len => some ⟨.int (capnLen (w i) p).2, w.set i (capnLen (w i) p).1, []⟩
  | .set1 off val => some ((capnSet1 (w i) p off val).outcome w i)
  | .set sz off v => some ((capnSet sz (w i) p off v).outcome w i)
  | .setv1 off data n => some ((capnSetv1 (w i) p off data n).outcome w i)
  | .setv sz off vals n => some ((capnSetv sz (w i) p off vals n).outcome w i)
  | .setp fuel off j tgt => (capnSetp fuel w i p off j tgt).map fun (ret, w) => ⟨.int ret, w, []⟩

/-- Whether an accessor writes. -/
def Access.writes : Access → Bool
  | .set1 .. | .set .. | .setv1 .. | .setv .. | .setp .. => true
  | _ => false

/-- The same result and, of an accessor that writes, the same effect: what is stored, and
the bytes of all segments. -/
def Access.Same (a : Access) : Option Outcome → Option Outcome → Prop
  | none, none => True
  | some o, some o' =>
    o.value = o'.value ∧ (a.writes = true → o.stores = o'.stores ∧ ∀ k, (o.world k).segs = (o'.world k).segs)
  | _, _ => False

/-- An accessor does the same with `p` as with what `capn_resolve` makes of it. -/
def Transparent (w : World) (i : Nat) (p : Ptr) (a : Access) : Prop :=
  a.Same (a.run w i p) (a.run (w.set i (capnResolve (w i) p).capn) i (capnResolve (w i) p).ptr)

/-- A far pointer that `capn_getp` gives when it is not to resolve. -/
def Unresolved (p : Ptr) : Prop := p.type = .FAR_POINTER ∧ ∃ c q off, (capnGetp c q off false).ptr = p

/-- The slot that `capn_getp` follows from an object, if it follows one. -/
def slotOf (r : Ptr) (off : Int) (resolve : Bool) : Option (Option Addr) :=
  match r.type with
  | .STRUCT => if (r.ptrs : Int) ≤ off then none else some (r.data.map (·.add (r.datasz + 8 * off)))
  | .PTR_LIST => if r.len ≤ off ∨ ¬ resolve then none else some (r.data.map (·.add (8 * off)))
  | _ => none

/-- What the slot of a resolved pointer points at. -/
def inSlot (c : Capn) (r : Ptr) (slot : Option Addr) : Read := readPtr c r.seg slot (hopRemaining c r)

/-- The slot `off` of the object, if it is followed, is looked up in the object's own
segment, or what is there gives the same as nothing, by `view`. -/
def SlotLooks {α : Type} (c : Capn) (p r : Ptr) (off : Int) (resolve : Bool) (view : Capn → Ptr → α) : Prop :=
  p.seg = r.seg ∨ ∀ slot, slotOf r off resolve = some slot →
    view (inSlot c r slot).capn (inSlot c r slot).ptr = view (inSlot c r slot).capn {}

/-- When an accessor does the same with the unresolved pointer `p` and with `r`, which it
resolves to in session `c`. -/
def Looks (c : Capn) (p r : Ptr) : Access → Prop
  | .getp off resolve => SlotLooks c p r off resolve fun _ m => m
  | .getText off default => SlotLooks c p r off true fun c m => textOf c m default
  | .getData off => SlotLooks c p r off true fun _ m => dataOf m
  | .get sz off => ∀ a, (elementAt c r off sz.bytes).2 = some a → c.load a sz.bytes = 0
  | .set sz off _ => (elementAt c r off sz.bytes).2 = none
  | .setv1 off _ _ => refusesBits r off
  | .setv sz off _ n =>
    match r.type with
    | .LIST => r.datasz < sz.bytes
    | .PTR_LIST => 0 < clip r off n ∧ (structPtr c r.seg (r.data.map (·.add (8 * off))) sz.bytes).2 = none
    | _ => True
  | _ => True

/-- The counts of a call are in range for the object: a count below zero is not defined
for `memcpy`. -/
def Access.InRange (r : Ptr) : Access → Prop
  | .setv _ off _ n => 0 ≤ off ∧ off ≤ r.len ∧ 0 ≤ n
  | .setv1 off _ n => 0 ≤ off ∧ off ≤ r.len ∧ 0 ≤ n
  | _ => True

/-! ## Resolved pointers -/

theorem readPtr_type (c : Capn) (s : Option Nat) (d : Option Addr) (rem : Int) :
    (readPtr c s d rem).ptr.type ≠ .FAR_POINTER := by
  rcases readPtr_cases c s d rem with ⟨reads, e, -⟩ | ⟨seg, off, p, cost, -, -, -, -, hp, -, e⟩
  · rw [e]
    exact nofun
  · rw [e]
    obtain ⟨n, v, hn⟩ := withNesting_eq p rem
    show (p.withNesting rem).type ≠ _
    rw [hn]
    rcases pointee_spec hp with ⟨ht, -⟩ | ⟨hs, -⟩
    · show p.type ≠ _
      rw [ht]
      decide
    · intro ht
      have := hs.2.2
      rw [show p.type = .FAR_POINTER from ht] at this
      exact this

theorem capnResolve_type (c : Capn) (p : Ptr) : (capnResolve c p).ptr.type ≠ .FAR_POINTER := by
  rw [capnResolve]
  split
  · exact readPtr_type _ _ _ _
  · assumption

theorem capnResolve_of_ne {c : Capn} {p : Ptr} (h : p.type ≠ .FAR_POINTER) : capnResolve c p = ⟨c, p, []⟩ :=
  if_neg h

theorem capnResolve_segs (c : Capn) (p : Ptr) : (capnResolve c p).capn.segs = c.segs := by
  obtain ⟨u, e, h⟩ := capnResolve_capn c p
  rw [h]

theorem readPtr_segs (c : Capn) (s : Option Nat) (d : Option Addr) (rem : Int) :
    (readPtr c s d rem).capn.segs = c.segs := by
  obtain ⟨u, e, h⟩ := readPtr_capn c s d rem
  rw [h]

/-- An address in another segment than the pointer's is out of bounds. -/
theorem readPtr_other {c : Capn} {s : Option Nat} {a : Addr} (rem : Int) (h : s ≠ some a.seg) :
    (readPtr c s (some a) rem).ptr = {} := by
  rcases readPtr_cases c s (some a) rem with ⟨reads, e, -⟩ | ⟨seg, off, _, _, -, hs, hd, -⟩
  · rw [e]
    rfl
  · cases hd
    exact absurd hs h

/-- The slots of an object are in its segment. -/
theorem slotOf_seg {c : Capn} {p : Ptr} (hp : p.type = .FAR_POINTER) {off : Int} {resolve : Bool}
    {slot : Option Addr} (h : slotOf (capnResolve c p).ptr off resolve = some slot) :
    ∃ a, slot = some a ∧ (capnResolve c p).ptr.seg = some a.seg := by
  have hin := (reads_resolve (c := c) (p := p) fun _ hf => absurd hp hf).ptr
  generalize (capnResolve c p).ptr = r at h hin
  simp only [slotOf] at h
  split at h
  · rename_i ht
    obtain ⟨s, o, hs, hd, -⟩ := hin (by rw [ht]; decide) (by rw [ht]; decide) (by rw [ht]; decide)
    split at h
    · cases h
    · cases h
      exact ⟨_, by rw [hd]; rfl, hs⟩
  · rename_i ht
    obtain ⟨s, o, hs, hd, -⟩ := hin (by rw [ht]; decide) (by rw [ht]; decide) (by rw [ht]; decide)
    split at h
    · cases h
    · cases h
      exact ⟨_, by rw [hd]; rfl, hs⟩
  · cases h

/-! ## Slots -/

/-- A slot, read or left to be resolved. -/
theorem resolve_getpSlot (c : Capn) (seg : Option Nat) (d : Option Addr) (rem : Int) (resolve : Bool) :
    (capnResolve (getpSlot c seg d rem resolve).capn (getpSlot c seg d rem resolve).ptr).capn =
        (readPtr c seg d rem).capn ∧
      (capnResolve (getpSlot c seg d rem resolve).capn (getpSlot c seg d rem resolve).ptr).ptr =
        (readPtr c seg d rem).ptr := by
  cases resolve with
  | true =>
    simp only [getpSlot, if_true]
    rw [capnResolve_of_ne (readPtr_type _ _ _ _)]
    exact ⟨rfl, rfl⟩
  | false => simp [getpSlot, capnResolve, hopRemaining]

/-- `capn_getp` on a resolved pointer, then `capn_resolve`. -/
def slotRead (c : Capn) (seg : Option Nat) (r : Ptr) (off : Int) (resolve : Bool) : Capn × Ptr :=
  let g := getpResolved c seg r off resolve
  ((capnResolve g.capn g.ptr).capn, (capnResolve g.capn g.ptr).ptr)

/-- A slot that is followed is looked up in `seg`. -/
theorem slotRead_some {c : Capn} {seg : Option Nat} {r : Ptr} {off : Int} {resolve : Bool} {slot : Option Addr}
    (h : slotOf r off resolve = some slot) :
    slotRead c seg r off resolve =
      ((readPtr c seg slot (hopRemaining c r)).capn, (readPtr c seg slot (hopRemaining c r)).ptr) := by
  have hslot : ∀ {g : Read}, g = getpSlot c seg slot (hopRemaining c r) resolve →
      ((capnResolve g.capn g.ptr).capn, (capnResolve g.capn g.ptr).ptr) =
        ((readPtr c seg slot (hopRemaining c r)).capn, (readPtr c seg slot (hopRemaining c r)).ptr) := by
    rintro g rfl
    obtain ⟨h₁, h₂⟩ := resolve_getpSlot c seg slot (hopRemaining c r) resolve
    rw [h₁, h₂]
  refine hslot ?_
  simp only [slotOf] at h
  split at h
  · rename_i ht
    split at h
    · cases h
    · rename_i hlt
      simp only [getpResolved, ht, if_neg hlt, Option.some.inj h]
  · rename_i ht
    split at h
    · cases h
    · rename_i hlt
      rw [not_or, not_not] at hlt
      simp only [getpResolved, ht, if_neg hlt.1, hlt.2, not_true_eq_false, if_false, Option.some.inj h]
  · cases h

/-- If no slot is followed, the segment does not matter. -/
theorem getpResolved_none {c : Capn} {r : Ptr} {off : Int} {resolve : Bool}
    (h : slotOf r off resolve = none) (seg seg' : Option Nat) :
    getpResolved c seg r off resolve = getpResolved c seg' r off resolve := by
  simp only [slotOf] at h
  simp only [getpResolved]
  split at h
  · rename_i ht
    split at h
    · rename_i hle
      simp only [ht, if_pos hle]
    · cases h
  · rename_i ht
    split at h
    · rename_i hle
      rcases hle with hle | hle
      · simp only [ht, if_pos hle]
      · simp only [ht, if_pos hle]
    · cases h
  · rename_i hs hl
    split
    · rfl
    · rfl
    · exact absurd (by assumption) hs
    · exact absurd (by assumption) hl
    · rfl

/-- What `view` makes of a slot of the object that `p` leads to is the same for `p`
as for the object, exactly when `SlotLooks`. -/
theorem slotLooks_iff {α : Type} {c : Capn} {p : Ptr} (hp : p.type = .FAR_POINTER) (off : Int) (resolve : Bool)
    (view : Capn → Ptr → α) (hview : ∀ {c c' : Capn} (m : Ptr), c.segs = c'.segs → view c m = view c' m)
    (d : Capn) {r : Ptr} (hr : r = (capnResolve c p).ptr) :
    view (slotRead d p.seg r off resolve).1 (slotRead d p.seg r off resolve).2 =
      view (slotRead d r.seg r off resolve).1 (slotRead d r.seg r off resolve).2 ↔
    SlotLooks d p r off resolve view := by
  by_cases hseg : p.seg = r.seg
  · rw [hseg]
    exact iff_of_true rfl (.inl hseg)
  cases hs : slotOf r off resolve with
  | none =>
    rw [show slotRead d p.seg r off resolve = slotRead d r.seg r off resolve by
      unfold slotRead; rw [getpResolved_none hs p.seg r.seg]]
    refine iff_of_true rfl (.inr fun slot h => ?_)
    rw [hs] at h
    cases h
  | some slot =>
    have hplace : ∃ a, slot = some a ∧ r.seg = some a.seg := by
      subst hr
      exact slotOf_seg hp hs
    obtain ⟨a, rfl, ha⟩ := hplace
    have hnone : (readPtr d p.seg (some a) (hopRemaining d r)).ptr = {} :=
      readPtr_other _ (by rw [← ha]; exact hseg)
    have hsegs : (readPtr d p.seg (some a) (hopRemaining d r)).capn.segs = (inSlot d r (some a)).capn.segs :=
      (readPtr_segs _ _ _ _).trans (readPtr_segs _ _ _ _).symm
    rw [slotRead_some hs, slotRead_some hs]
    simp only [hnone]
    rw [hview {} hsegs]
    constructor
    · intro h
      refine .inr fun slot hslot => ?_
      rw [hs] at hslot
      cases hslot
      exact h.symm
    · rintro (h | h)
      · exact absurd h hseg
      · exact (h _ hs).symm

/-! ## Elements -/

theorem elementAt_far {p : Ptr} (c : Capn) (h : p.type = .FAR_POINTER) (off : Int) (n : Nat) :
    elementAt c p off n = (c, none) := by
  simp only [elementAt, h]
  split <;> rfl

theorem structPtr_segs (c : Capn) (s : Option Nat) (d : Option Addr) (n : Nat) :
    (structPtr c s d n).1.segs = c.segs := by
  simp only [structPtr]
  split
  · rfl
  · exact readPtr_segs _ _ _ _

theorem elementAt_segs (c : Capn) (p : Ptr) (off : Int) (n : Nat) : (elementAt c p off n).1.segs = c.segs := by
  simp only [elementAt]
  split
  · rfl
  split
  · rfl
  · exact structPtr_segs _ _ _ _
  · rfl

theorem load_congr {c c' : Capn} (h : c.segs = c'.segs) (a : Addr) (n : Nat) : c.load a n = c'.load a n := by
  simp only [Capn.load, Capn.read, Capn.seg, h]

/-- `capn_setN` fails exactly when it finds no element. -/
theorem set_fails {sz : SZ} {c : Capn} {r : Ptr} {off : Int} {v : Nat} :
    ((capnSet sz c r off v).ret = -1 ∧ (capnSet sz c r off v).stores = [] ∧
      (capnSet sz c r off v).capn.segs = c.segs) ↔ (elementAt c r off sz.bytes).2 = none := by
  simp only [capnSet]
  cases h : (elementAt c r off sz.bytes).2 with
  | none => exact iff_of_true ⟨rfl, rfl, elementAt_segs c r off sz.bytes⟩ rfl
  | some d => exact iff_of_false (fun h => absurd (show (0 : Int) = -1 from h.1) (by decide)) nofun

/-- `capn_setvN` keeps what it stored. -/
theorem setvStructs_stores (sz : SZ) (p : Ptr) (off : Int) (vals : Nat → Nat) (k i : Nat) (s : Stored) :
    s.stores.length ≤ (setvStructs sz p off vals k i s).stores.length := by
  induction k generalizing i s with
  | zero => exact Nat.le_refl _
  | succ k ih =>
    simp only [setvStructs]
    split
    · exact Nat.le_refl _
    · refine Nat.le_trans ?_ (ih _ _)
      simp [Stored.store]

theorem setvList_ret (sz : SZ) (p : Ptr) (off : Int) (vals : Nat → Nat) (k i : Nat) (s : Stored) :
    (setvList sz p off vals k i s).ret = s.ret := by
  induction k generalizing i s with
  | zero => rfl
  | succ k ih =>
    simp only [setvList]
    split
    · rfl
    · exact ih _ _

/-- `capn_setvN` of numbers in range fails, and stores nothing, exactly when `Looks`. -/
theorem setv_fails {sz : SZ} {c : Capn} {r : Ptr} {off n : Int} {vals : Nat → Nat}
    (h : 0 ≤ off ∧ off ≤ r.len ∧ 0 ≤ n) :
    ((capnSetv sz c r off vals n).ret = -1 ∧ (capnSetv sz c r off vals n).stores = [] ∧
      (capnSetv sz c r off vals n).capn.segs = c.segs) ↔ Looks c r r (.setv sz off vals n) := by
  have hclip : 0 ≤ clip r off n := by
    rw [clip]
    split <;> omega
  simp only [capnSetv]
  split
  · rename_i ht
    simp only [Looks, ht]
    split
    · rename_i he
      have hn : ¬ r.datasz < sz.bytes := by omega
      refine iff_of_false (fun h => ?_) hn
      have h := h.1
      split at h
      · exact absurd h (by show clip r off n ≠ -1; omega)
      · exact absurd h (by show clip r off n ≠ -1; omega)
    · split
      · rename_i hlt
        exact iff_of_true ⟨rfl, rfl, rfl⟩ hlt
      · rename_i hlt
        refine iff_of_false (fun h => ?_) hlt
        have h := h.1
        rw [setvList_ret] at h
        exact absurd h (by show clip r off n ≠ -1; omega)
  · rename_i ht
    simp only [Looks, ht]
    rcases Nat.eq_zero_or_pos (clip r off n).toNat with hz | hz
    · rw [hz]
      refine iff_of_false (fun h => ?_) (fun h => by omega)
      exact absurd h.1 (by show clip r off n ≠ -1; omega)
    · obtain ⟨k, hk⟩ := Nat.exists_eq_succ_of_ne_zero (Nat.pos_iff_ne_zero.mp hz)
      rw [hk]
      simp only [setvStructs, Nat.cast_zero, Int.zero_add]
      cases hd : (structPtr c r.seg (r.data.map (·.add (8 * off))) sz.bytes).2 with
      | none => exact iff_of_true ⟨rfl, rfl, structPtr_segs _ _ _ _⟩ ⟨by omega, rfl⟩
      | some d =>
        refine iff_of_false (fun h => ?_) (fun h => nomatch h.2)
        have hle := setvStructs_stores sz r off vals k (0 + 1)
          (({ ret := clip r off n, capn := (structPtr c r.seg (r.data.map (·.add (8 * off))) sz.bytes).1,
              stores := [] } : Stored).store d (toLe sz.bytes (vals 0)))
        rw [h.2.1] at hle
        exact absurd hle (by simp [Stored.store])
  · rename_i hl hp
    refine iff_of_true ⟨rfl, rfl, rfl⟩ ?_
    simp only [Looks]

/-- `capn_setv1` of bits in range fails exactly when it refuses the list. -/
theorem setv1_fails {c : Capn} {r : Ptr} {off n : Int} {data : Nat → UInt8}
    (h : 0 ≤ off ∧ off ≤ r.len ∧ 0 ≤ n) :
    ((capnSetv1 c r off data n).ret = -1 ∧ (capnSetv1 c r off data n).stores = [] ∧
      (capnSetv1 c r off data n).capn.segs = c.segs) ↔ refusesBits r off := by
  simp only [capnSetv1]
  by_cases hr : refusesBits r off
  · rw [if_pos hr]
    exact iff_of_true ⟨rfl, rfl, rfl⟩ hr
  · rw [if_neg hr]
    refine iff_of_false (fun hf => ?_) hr
    have hpos : 0 ≤ (bitBytes r off n).1 := by
      have h8 : off % 8 = 0 := by
        by_contra hne
        exact hr (.inr (.inl hne))
      simp only [bitBytes]
      split
      · show 0 ≤ r.len - off.tdiv 8 * 8
        rw [Int.tdiv_eq_ediv_of_nonneg h.1]
        omega
      · exact h.2.2
    have hf := hf.1
    split at hf
    · exact absurd hf (by show (bitBytes r off n).1 ≠ -1; omega)
    · exact absurd hf (by show (bitBytes r off n).1 ≠ -1; omega)

/-! ## Transparency -/

theorem Access.Same.refl (a : Access) (o : Option Outcome) : a.Same o o := by
  cases o with
  | none => trivial
  | some o => exact ⟨rfl, fun _ => ⟨rfl, fun _ => rfl⟩⟩

theorem World.set_set (w : World) (i : Nat) (c d : Capn) : (w.set i c).set i d = w.set i d := by
  funext k
  simp only [World.set]
  split <;> rfl

/-- The bytes of all segments, after a change of one session. -/
theorem set_segs_iff {w : World} {i : Nat} {c d d' : Capn} :
    (∀ k, (w.set i d k).segs = ((w.set i c).set i d' k).segs) ↔ d.segs = d'.segs := by
  rw [World.set_set]
  constructor
  · intro h
    have := h i
    rwa [World.set_self, World.set_self] at this
  · intro h k
    simp only [World.set]
    split
    · exact h
    · rfl

section

variable {w : World} {i : Nat} {p : Ptr}

/-- Accessors that resolve their argument. -/
theorem transparent_of_resolves {a : Access}
    (h : a.run w i p = a.run (w.set i (capnResolve (w i) p).capn) i (capnResolve (w i) p).ptr) :
    Transparent w i p a := by
  rw [Transparent, h]
  exact .refl a _

theorem same_read {a : Access} (h : a.writes = false) (o o' : Outcome) :
    a.Same (some o) (some o') ↔ o.value = o'.value :=
  ⟨And.left, fun hv => ⟨hv, fun hw => by rw [h] at hw; cases hw⟩⟩

/-- A setter that fails for the unresolved pointer. -/
theorem same_write {a : Access} (h : a.writes = true) {s s' : Stored} {c : Capn}
    (hs : s.ret = -1 ∧ s.stores = [] ∧ s.capn.segs = c.segs) :
    a.Same (some (s.outcome w i)) (some (s'.outcome (w.set i c) i)) ↔
      s'.ret = -1 ∧ s'.stores = [] ∧ s'.capn.segs = c.segs := by
  simp only [Access.Same, Stored.outcome, h, forall_const, set_segs_iff, Value.int.injEq, hs]
  constructor
  · rintro ⟨h1, h2, h3⟩
    exact ⟨h1.symm, h2.symm, h3.symm⟩
  · rintro ⟨h1, h2, h3⟩
    exact ⟨h1.symm, h2.symm, h3.symm⟩

/-- The session after `capn_resolve`, and what it makes of the pointer. -/
theorem resolved_again (w : World) (i : Nat) (p : Ptr) :
    capnResolve ((w.set i (capnResolve (w i) p).capn) i) (capnResolve (w i) p).ptr =
      ⟨(capnResolve (w i) p).capn, (capnResolve (w i) p).ptr, []⟩ := by
  rw [World.set_self, capnResolve_of_ne (capnResolve_type _ _)]

theorem textOf_congr (default : Text) {c c' : Capn} (m : Ptr) (h : c.segs = c'.segs) :
    textOf c m default = textOf c' m default := by
  have hs : c.seg = c'.seg := by
    funext k
    rw [Capn.seg, Capn.seg, h]
  rw [textOf, hs]
  rfl

/-- `capn_getp`, to resolve what it finds. -/
theorem getpResolved_true (c : Capn) (seg : Option Nat) (r : Ptr) (off : Int) :
    slotRead c seg r off true = ((getpResolved c seg r off true).capn, (getpResolved c seg r off true).ptr) := by
  have hne : (getpResolved c seg r off true).ptr.type ≠ .FAR_POINTER := by
    simp only [getpResolved]
    split
    · split <;> rintro ⟨⟩
    · split <;> rintro ⟨⟩
    · split
      · rintro ⟨⟩
      · exact readPtr_type _ _ _ _
    · split
      · rintro ⟨⟩
      · exact readPtr_type _ _ _ _
    · rintro ⟨⟩
  simp only [slotRead, capnResolve_of_ne hne]

/-- **Resolution** does not show in an accessor exactly when `Looks`: in each accessor that
resolves its argument and, of `capn_getp` and what is built on it, for an object in the
segment of the far pointer. -/
theorem resolution_transparent (hp : Unresolved p) (a : Access) (hin : a.InRange (capnResolve (w i) p).ptr) :
    Transparent w i p a ↔ Looks (capnResolve (w i) p).capn p (capnResolve (w i) p).ptr a := by
  have ht := hp.1
  have hsegs := capnResolve_segs (w i) p
  have hagain := resolved_again w i p
  cases a with
  | getp off resolve =>
    refine (same_read rfl _ _).trans ?_
    simp only [capnGetp, hagain, Value.ptr.injEq]
    exact slotLooks_iff (c := w i) ht off resolve (fun _ m => m) (fun _ _ => rfl) _ rfl
  | get1 off =>
    refine iff_of_true (transparent_of_resolves ?_) trivial
    simp only [Access.run, capnGet1, hagain, World.set_set]
  | get sz off =>
    refine (same_read rfl _ _).trans ?_
    simp only [capnGet, elementAt_far _ ht, World.set_self, Value.int.injEq, Looks]
    generalize (capnResolve (w i) p).capn = c
    have hload := load_congr (elementAt_segs c (capnResolve (w i) p).ptr off sz.bytes)
    cases he : (elementAt c (capnResolve (w i) p).ptr off sz.bytes).2 with
    | none => exact iff_of_true rfl (by rintro _ ⟨⟩)
    | some d =>
      simp only [hload]
      constructor
      · rintro h _ ⟨⟩
        exact_mod_cast h.symm
      · intro h
        exact_mod_cast (h d rfl).symm
  | getv1 off n =>
    refine iff_of_true (transparent_of_resolves ?_) trivial
    simp only [Access.run, capnGetv1, hagain, World.set_set]
  | getv sz off n =>
    refine iff_of_true (transparent_of_resolves ?_) trivial
    simp only [Access.run, capnGetv, hagain, World.set_set]
  | getText off default =>
    refine (same_read rfl _ _).trans ?_
    simp only [capnGetText, capnGetp, hagain, Value.text.injEq]
    have h := slotLooks_iff (c := w i) ht off true (fun c m => textOf c m default) (textOf_congr default)
      (capnResolve (w i) p).capn rfl
    simp only [getpResolved_true] at h
    exact h
  | getData off =>
    refine (same_read rfl _ _).trans ?_
    simp only [capnGetData, capnGetp, hagain, Value.ptr.injEq]
    have h := slotLooks_iff (c := w i) ht off true (fun _ m => dataOf m) (fun _ _ => rfl)
      (capnResolve (w i) p).capn rfl
    simp only [getpResolved_true] at h
    exact h
  | len =>
    refine iff_of_true (transparent_of_resolves ?_) trivial
    simp only [Access.run, capnLen, hagain, World.set_set]
  | set1 off val =>
    refine iff_of_true (transparent_of_resolves ?_) trivial
    simp only [Access.run, capnSet1, Stored.outcome, Stored.store, hagain, World.set_set]
  | set sz off v =>
    refine (same_write rfl ?_).trans ?_
    · rw [capnSet, elementAt_far _ ht]
      exact ⟨rfl, rfl, hsegs.symm⟩
    · rw [World.set_self]
      exact set_fails
  | setv1 off data n =>
    refine (same_write rfl ?_).trans ?_
    · rw [capnSetv1, if_pos (.inl (by rw [ht]; decide))]
      exact ⟨rfl, rfl, hsegs.symm⟩
    · rw [World.set_self]
      exact setv1_fails hin
  | setv sz off vals n =>
    refine (same_write rfl ?_).trans ?_
    · simp only [capnSetv, ht]
      exact ⟨trivial, trivial, hsegs.symm⟩
    · rw [World.set_self]
      exact setv_fails hin
  | setp fuel off j tgt =>
    refine iff_of_true (transparent_of_resolves ?_) trivial
    simp only [Access.run, capnSetp, setpStart, hagain, World.set_set]

end

/-- A root whose pointer is a far pointer, to a struct of another segment that has a
pointer too. -/
def twoSegments : Capn :=
  (carve [16, 24] ([0, 0, 0, 0, 0, 0, 1, 0] ++ [2, 0, 0, 0, 1, 0, 0, 0] ++ [0, 0, 0, 0, 0, 0, 1, 0] ++
    [0, 0, 0, 0, 1, 0, 0, 0] ++ [5, 0, 0, 0, 0, 0, 0, 0])).foldl capnAppendSegment capnInitMalloc

/-- The far pointer, not resolved. -/
def farPtr : Ptr := (capnGetp twoSegments (capnGetp twoSegments (capnRoot twoSegments).2 0 true).ptr 0 false).ptr

theorem farPtr_unresolved : Unresolved farPtr := ⟨by decide +kernel, _, _, _, rfl⟩

/-- No numbers are stored into the struct through the far pointer, or directly. -/
theorem resolution_transparent_setv :
    Transparent (fun _ => twoSegments) 0 farPtr (.setv .b8 0 (fun _ => 0) 0) ↔
      Looks (capnResolve twoSegments farPtr).capn farPtr (capnResolve twoSegments farPtr).ptr
        (.setv .b8 0 (fun _ => 0) 0) :=
  resolution_transparent farPtr_unresolved _ (by
    show (0 : Int) ≤ 0 ∧ 0 ≤ (capnResolve twoSegments farPtr).ptr.len ∧ (0 : Int) ≤ 0
    decide +kernel)

/-- The pointer of the struct is null when read through the far pointer. -/
theorem resolution_transparent_fails : ¬ ∀ (w : World) (i : Nat) (p : Ptr) (a : Access), Unresolved p →
    a.InRange (capnResolve (w i) p).ptr → Transparent w i p a := by
  intro h
  have h := (h (fun _ => twoSegments) 0 farPtr (.getp 0 true) farPtr_unresolved trivial).1
  exact absurd h (by decide +kernel)

end Capnproto

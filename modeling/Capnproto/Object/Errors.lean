import Capnproto.Framework.Run
import Capnproto.Graph.Sound
import Capnproto.Object.Lazy

/-!
# Decode errors

`capn_ok` tells a null pointer from a pointer that is broken. `Reported` is what a
read that yields nothing is to do to the flag; `Classified` is when it does. The
exits of `read_ptr` set the flag, but the one for a word that is zero behind a far
pointer; and the checks that come before the word is looked at set it for a null
pointer too.
-/

namespace Capnproto

/-- The pointer word that the slot at `a` stands for, once far pointers are followed. -/
def landed (c : Capn) (a : Addr) : Option Nat := (followFar c a.seg a (c.load64 a)).hit.map (·.2.2)

/-- What a read of a slot with the word `word` does to the error flag of `c`: an object
leaves it, nothing sets it unless the word is null. -/
def Reported (c : Capn) (word : Nat) (r : Read) : Prop :=
  r.capn.decodeErr = if r.ptr.type = .NULL ∧ word ≠ 0 then true else c.decodeErr

/-- A read of the slot at `a`, in segment `s`, with `rem` hops: unless the flag is set, a
null word is looked at, and no other word leads to one. -/
def Classified (c : Capn) (s : Option Nat) (a : Addr) (rem : Int) : Prop :=
  c.decodeErr = true ∨
    if c.load64 a = 0 then rem ≠ 0 ∧ s = some a.seg else rem ≠ 0 → s = some a.seg → landed c a ≠ some 0

/-! ## One word -/

/-- A word that is followed lands before the end of a segment. -/
theorem followFar_room {c : Capn} {s seg : Nat} {d a : Addr} {word val : Nat} (hd : d.seg = s)
    (hb : boundsOk c (some s) (some d) 8) (h : (followFar c s d word).hit = some (seg, a, val)) :
    a.seg = seg ∧ -8 ≤ a.off ∧ a.off + 8 ≤ (c.seg seg).len := by
  rw [followFar] at h
  split at h
  · simp only [lookupFar] at h
    split at h
    · cases h
    split at h
    · cases h
    · rename_i hroom
      cases h
      refine ⟨rfl, ?_, ?_⟩
      · show (-8 : Int) ≤ ((word % 2 ^ 32 / 8 * 8 : Nat) : Int)
        omega
      · show ((word % 2 ^ 32 / 8 * 8 : Nat) : Int) + 8 ≤ _
        omega
  split at h
  · simp only [lookupDouble] at h
    split at h
    · cases h
    split at h
    · cases h
    split at h
    · cases h
    split at h
    · cases h
    · cases h
      exact ⟨rfl, Int.le_refl _, by show (-8 : Int) + 8 ≤ _; omega⟩
  · cases h
    obtain ⟨_, off, e, e', hoff, hend⟩ := boundsOk_iff.mp hb
    cases e
    cases e'
    push_cast at hend
    exact ⟨rfl, by show (-8 : Int) ≤ off; omega, hend⟩

/-- A slot that lands on a null word reads as nothing, at no cost. -/
theorem pointee_landed {c : Capn} {a : Addr} (hb : boundsOk c (some a.seg) (some a) 8) (h : landed c a = some 0) :
    ∃ p, pointee c a = some (p, 0) ∧ p.type = .NULL := by
  obtain ⟨⟨seg, d, val⟩, hhit, hval⟩ := Option.map_eq_some_iff.mp h
  replace hval : val = 0 := hval
  rw [hval] at hhit
  obtain ⟨hseg, hlo, hhi⟩ := followFar_room rfl hb hhit
  have hnext : applyOffset c seg d 0 = some ⟨seg, d.off + 8⟩ := by
    have hz : toInt32 0 / 4 = 0 := by decide
    simp only [applyOffset, hz]
    rw [if_neg (by omega)]
    congr 1
  have hb' : boundsOk c (some seg) (some ⟨seg, d.off + 8⟩) 0 :=
    boundsOk_iff.mpr ⟨seg, d.off + 8, rfl, rfl, by omega, by push_cast; omega⟩
  have hdec : decodeObject c seg d 0 = some ({ seg := some seg, data := some ⟨seg, d.off + 8⟩ }, 0) := by
    rw [decodeObject, hnext]
    show (if boundsOk c (some seg) (some ⟨seg, d.off + 8⟩) 0 then _ else _) = _
    rw [if_pos hb']
    rfl
  rw [pointee, hhit]
  simp only [hdec]
  exact ⟨_, rfl, rfl⟩

/-- A slot reads as nothing only if it lands on a null word. -/
theorem landed_of_null {c : Capn} {a : Addr} {p : Ptr} {cost : Nat} (h : pointee c a = some (p, cost))
    (hp : p.type = .NULL) : landed c a = some 0 := by
  rw [pointee] at h
  rw [landed]
  cases hhit : (followFar c a.seg a (c.load64 a)).hit with
  | none =>
    rw [hhit] at h
    cases h
  | some t =>
    obtain ⟨seg, d, val⟩ := t
    simp only [hhit] at h
    have hval : val < 2 ^ 64 := followFar_lt (load64_lt c a) hhit
    split at h
    · split at h
      · cases h
      · cases h
        cases hp
    · obtain ⟨⟨q, n⟩, hq, he⟩ := Option.map_eq_some_iff.mp h
      cases he
      obtain ⟨-, -, -, -, hnull⟩ := decodeObject_spec hval hq
      show some val = some 0
      rw [hnull hp]

/-- A refusal sets the flag, which is right for a word that is not null. -/
theorem reported_err (c : Capn) (k word : Nat) (reads : List Addr) :
    Reported c word (.err c (some k) reads) ↔ c.decodeErr = true ∨ word ≠ 0 := by
  show (true = if CapnType.NULL = .NULL ∧ word ≠ 0 then true else c.decodeErr) ↔ _
  by_cases h0 : word = 0
  · rw [if_neg fun h => h.2 h0]
    exact ⟨fun h => .inl h.symm, fun h => (h.resolve_right fun hn => hn h0).symm⟩
  · rw [if_pos ⟨rfl, h0⟩]
    exact iff_of_true rfl (.inr h0)

/-- **`read_ptr`** of a slot of its segment, with hops left. -/
theorem readPtr_landed {c : Capn} {a : Addr} {rem : Int} (hrem : rem ≠ 0)
    (hb : boundsOk c (some a.seg) (some a) 8) :
    Reported c (c.load64 a) (readPtr c (some a.seg) (some a) rem) ↔
      c.decodeErr = true ∨ (c.load64 a ≠ 0 → landed c a ≠ some 0) := by
  have hland : c.load64 a = 0 → landed c a = some 0 := by
    intro h0
    obtain ⟨q, hq, hqt⟩ := pointee_null hb h0
    exact landed_of_null hq hqt
  obtain ⟨seg, off⟩ := a
  rw [readPtr_eq hrem hb]
  by_cases hl : landed c ⟨seg, off⟩ = some 0
  · -- nothing is found, and nothing is said about it
    obtain ⟨p, hp, ht⟩ := pointee_landed hb hl
    have hn : (p.withNesting rem).type = .NULL := by rw [type_withNesting, ht]
    simp only [hp]
    have ha : Affords c 0 := .inl rfl
    rw [if_pos ha, Reported]
    simp only [hn, true_and]
    by_cases h0 : c.load64 ⟨seg, off⟩ = 0
    · rw [if_neg (not_not.mpr h0)]
      exact iff_of_true rfl (.inr fun hn => absurd h0 hn)
    · rw [if_pos h0]
      exact ⟨.inl, fun h => h.resolve_right fun hn => hn h0 hl⟩
  · have h0 : c.load64 ⟨seg, off⟩ ≠ 0 := fun h0 => hl (hland h0)
    refine iff_of_true ?_ (.inr fun _ => hl)
    cases hp : pointee c ⟨seg, off⟩ with
    | none => exact (reported_err _ _ _ _).mpr (.inr h0)
    | some t =>
      obtain ⟨p, cost⟩ := t
      simp only
      split
      · rw [Reported, if_neg]
        rw [type_withNesting]
        exact fun h => hl (landed_of_null hp h.1)
      · exact (reported_err _ _ _ _).mpr (.inr h0)

/-- **`read_ptr`** reports exactly the words that are classified. -/
theorem readPtr_reported {c : Capn} {k : Nat} {a : Addr} (rem : Int) (hb : boundsOk c (some a.seg) (some a) 8) :
    Reported c (c.load64 a) (readPtr c (some k) (some a) rem) ↔ Classified c (some k) a rem := by
  rw [Classified]
  by_cases hrem : rem = 0
  · rw [readPtr, if_pos hrem, reported_err]
    by_cases h0 : c.load64 a = 0
    · rw [if_pos h0]
      exact or_congr_right (iff_of_false (fun h => h h0) fun h => h.1 hrem)
    · rw [if_neg h0]
      exact or_congr_right (iff_of_true h0 fun h => absurd hrem h)
  by_cases hk : k = a.seg
  · subst hk
    rw [readPtr_landed hrem hb]
    by_cases h0 : c.load64 a = 0
    · rw [if_pos h0]
      exact or_congr_right (iff_of_true (fun h => absurd h0 h) ⟨hrem, rfl⟩)
    · rw [if_neg h0]
      exact or_congr_right ⟨fun h _ _ => h h0, fun h _ => h hrem rfl⟩
  · have hs : some k ≠ some a.seg := fun h => hk (Option.some.inj h)
    have hb' : ¬ boundsOk c (some k) (some a) 8 := by
      intro hb'
      obtain ⟨_, _, e, e', -⟩ := boundsOk_iff.mp hb'
      cases e
      cases e'
      exact hk rfl
    rw [readPtr, if_neg hrem, if_pos hb', reported_err]
    by_cases h0 : c.load64 a = 0
    · rw [if_pos h0]
      exact or_congr_right (iff_of_false (fun h => h h0) fun h => hs h.2)
    · rw [if_neg h0]
      exact or_congr_right (iff_of_true h0 fun _ h => absurd h hs)

/-! ## The flag over reads -/

/-- An object is found without a word about errors. -/
theorem readPtr_object {c : Capn} {s : Option Nat} {d : Option Addr} {rem : Int}
    (h : (readPtr c s d rem).ptr.type ≠ .NULL) : (readPtr c s d rem).capn.decodeErr = c.decodeErr := by
  rcases readPtr_cases c s d rem with ⟨reads, e, -⟩ | ⟨seg, off, p, cost, -, -, -, -, -, -, e⟩
  · rw [e] at h
    exact absurd rfl h
  · rw [e]

/-- The flag is never cleared. -/
theorem readPtr_sticky {c : Capn} (s : Option Nat) (d : Option Addr) (rem : Int) (h : c.decodeErr = true) :
    (readPtr c s d rem).capn.decodeErr = true := by
  rcases readPtr_cases c s d rem with ⟨reads, e, -⟩ | ⟨seg, off, p, cost, -, -, -, -, -, -, e⟩
  · rw [e, Read.err]
    split
    · rfl
    · exact h
  · rw [e]
    exact h

theorem capnResolve_object {c : Capn} {p : Ptr} (h : (capnResolve c p).ptr.type ≠ .NULL) :
    (capnResolve c p).capn.decodeErr = c.decodeErr := by
  rw [capnResolve] at h ⊢
  split
  · rename_i ht
    rw [if_pos ht] at h
    exact readPtr_object h
  · rfl

theorem capnResolve_sticky {c : Capn} (p : Ptr) (h : c.decodeErr = true) : (capnResolve c p).capn.decodeErr = true := by
  rw [capnResolve]
  split
  · exact readPtr_sticky _ _ _ h
  · exact h

/-- `capn_getp` reads the slot that it follows. -/
theorem getpResolved_slot {c : Capn} {seg : Option Nat} {r : Ptr} {off : Int} {slot : Option Addr}
    (h : slotOf r off true = some slot) :
    getpResolved c seg r off true = readPtr c seg slot (hopRemaining c r) := by
  simp only [slotOf] at h
  split at h
  · rename_i ht
    split at h
    · cases h
    · rename_i hlt
      cases h
      simp only [getpResolved, ht, if_neg hlt]
      rfl
  · rename_i ht
    split at h
    · cases h
    · rename_i hlt
      cases h
      simp only [getpResolved, ht, if_neg fun hle => hlt (.inl hle), not_true_eq_false, if_false]
      rfl
  · cases h

/-- Else it leaves the session alone, and gives an object for an object only. -/
theorem getpResolved_noSlot {c : Capn} {seg : Option Nat} {r : Ptr} {off : Int} (h : slotOf r off true = none) :
    (getpResolved c seg r off true).capn = c ∧ ((getpResolved c seg r off true).ptr.type ≠ .NULL → r.type ≠ .NULL) := by
  cases ht : r.type with
  | STRUCT =>
    have hlt : (r.ptrs : Int) ≤ off := by
      by_contra hlt
      simp only [slotOf, ht, if_neg hlt] at h
      cases h
    simp only [getpResolved, ht, if_pos hlt]
    exact ⟨trivial, by rintro _ ⟨⟩⟩
  | PTR_LIST =>
    have hlt : r.len ≤ off := by
      by_contra hlt
      simp only [slotOf, ht, hlt, not_true_eq_false, or_self, if_false] at h
      cases h
    simp only [getpResolved, ht, if_pos hlt]
    exact ⟨trivial, by rintro _ ⟨⟩⟩
  | LIST =>
    simp only [getpResolved, ht]
    split <;> exact ⟨rfl, by rintro _ ⟨⟩⟩
  | BIT_LIST =>
    simp only [getpResolved, ht]
    split <;> exact ⟨rfl, by rintro _ ⟨⟩⟩
  | NULL =>
    simp only [getpResolved, ht]
    exact ⟨trivial, fun h => absurd rfl h⟩
  | FAR_POINTER =>
    simp only [getpResolved, ht]
    exact ⟨trivial, by rintro _ ⟨⟩⟩
  | INTERFACE =>
    simp only [getpResolved, ht]
    exact ⟨trivial, by rintro _ ⟨⟩⟩

theorem capnGetp_read {c : Capn} {p : Ptr} {off : Int} {slot : Option Addr}
    (h : slotOf (capnResolve c p).ptr off true = some slot) :
    (capnGetp c p off true).capn =
        (readPtr (capnResolve c p).capn p.seg slot (hopRemaining (capnResolve c p).capn (capnResolve c p).ptr)).capn ∧
      (capnGetp c p off true).ptr =
        (readPtr (capnResolve c p).capn p.seg slot (hopRemaining (capnResolve c p).capn (capnResolve c p).ptr)).ptr := by
  have hread := @getpResolved_slot (capnResolve c p).capn p.seg _ _ _ h
  have hcapn := congrArg Read.capn hread
  have hptr := congrArg Read.ptr hread
  exact ⟨hcapn, hptr⟩

/-- The object of a slot. -/
theorem slotOf_object {r : Ptr} {off : Int} {resolve : Bool} {slot : Option Addr} (h : slotOf r off resolve = some slot) :
    r.type ≠ .NULL := by
  intro h0
  simp only [slotOf, h0] at h
  cases h

/-- A call that reads: `capn_getp(p, off, 1)`, or `capn_resolve`. -/
inductive ReadCall where
  | getp (p : Ptr) (off : Int)
  | resolve (p : Ptr)

def ReadCall.run (c : Capn) : ReadCall → Read
  | .getp p off => capnGetp c p off true
  | .resolve p => capnResolve c p

/-- The session after a call. -/
def ReadCall.step (c : Capn) (call : ReadCall) : Capn := (call.run c).capn

/-- The call reads the slot at `a`, which is in range. -/
def ReadCall.SlotAt (c : Capn) (a : Addr) : ReadCall → Prop
  | .getp p off => slotOf (capnResolve c p).ptr off true = some (some a) ∧
    boundsOk c (capnResolve c p).ptr.seg (some a) 8
  | .resolve p => p.type = .FAR_POINTER ∧ p.data = some a ∧ boundsOk c p.seg (some a) 8

/-- When the call reports what it finds in the slot at `a`: `capn_getp` looks for it in the
segment of the pointer it was given. -/
def ReadCall.Classified (c : Capn) (a : Addr) : ReadCall → Prop
  | .getp p _ => Capnproto.Classified c p.seg a (hopRemaining c (capnResolve c p).ptr)
  | .resolve p => Capnproto.Classified c p.seg a (hopRemaining c p)

/-- The flag stays, and an object does not set it. -/
theorem run_flag (c : Capn) (call : ReadCall) :
    (c.decodeErr = true → (call.run c).capn.decodeErr = true) ∧
      ((call.run c).ptr.type ≠ .NULL → (call.run c).capn.decodeErr = c.decodeErr) := by
  cases call with
  | resolve p => exact ⟨capnResolve_sticky p, capnResolve_object⟩
  | getp p off =>
    show (_ → (getpResolved (capnResolve c p).capn p.seg (capnResolve c p).ptr off true).capn.decodeErr = true) ∧
      ((getpResolved (capnResolve c p).capn p.seg (capnResolve c p).ptr off true).ptr.type ≠ .NULL →
        (getpResolved (capnResolve c p).capn p.seg (capnResolve c p).ptr off true).capn.decodeErr = c.decodeErr)
    cases hs : slotOf (capnResolve c p).ptr off true with
    | none =>
      obtain ⟨hcapn, hobj⟩ := @getpResolved_noSlot (capnResolve c p).capn p.seg _ _ hs
      rw [hcapn]
      exact ⟨capnResolve_sticky p, fun h => capnResolve_object (hobj h)⟩
    | some slot =>
      obtain ⟨hcapn, hptr⟩ := capnGetp_read hs
      show (_ → (capnGetp c p off true).capn.decodeErr = true) ∧
        ((capnGetp c p off true).ptr.type ≠ .NULL → (capnGetp c p off true).capn.decodeErr = c.decodeErr)
      rw [hcapn, hptr]
      exact ⟨fun h => readPtr_sticky _ _ _ (capnResolve_sticky p h),
        fun h => (readPtr_object h).trans (capnResolve_object (slotOf_object hs))⟩

/-- **A call** reports what is in the slot exactly when it is classified. -/
theorem run_reported {c : Capn} {call : ReadCall} {a : Addr} (ha : call.SlotAt c a) :
    Reported c (c.load64 a) (call.run c) ↔ call.Classified c a := by
  cases call with
  | resolve p =>
    obtain ⟨ht, hd, hb⟩ := ha
    obtain ⟨k, off, hk, hoff, -⟩ := boundsOk_iff.mp hb
    cases hoff
    show Reported c _ (capnResolve c p) ↔ Capnproto.Classified c p.seg _ _
    rw [capnResolve, if_pos ht, hd, hk]
    exact readPtr_reported _ (hk ▸ hb)
  | getp p off =>
    obtain ⟨hs, hb⟩ := ha
    have hne := slotOf_object hs
    have herr := capnResolve_object hne
    -- the pointer that was given has a segment
    have hseg : ∃ k, p.seg = some k := by
      by_cases ht : p.type = .FAR_POINTER
      · rw [capnResolve, if_pos ht] at hne
        rcases readPtr_cases c p.seg p.data (hopRemaining c p) with ⟨reads, e, -⟩ | ⟨k, _, _, _, -, hk, -⟩
        · rw [e] at hne
          exact absurd rfl hne
        · exact ⟨k, hk⟩
      · rw [capnResolve_of_ne ht] at hb
        obtain ⟨k, _, hk, -⟩ := boundsOk_iff.mp hb
        exact ⟨k, hk⟩
    obtain ⟨k, hk⟩ := hseg
    obtain ⟨r, _, hr, hoff, -⟩ := boundsOk_iff.mp hb
    cases hoff
    obtain ⟨hcapn, hptr⟩ := capnGetp_read hs
    obtain ⟨u, e, hc⟩ := capnResolve_capn c p
    rw [hc] at herr
    replace herr : e = c.decodeErr := herr
    subst herr
    show Reported c _ (capnGetp c p off true) ↔ Capnproto.Classified c p.seg _ _
    rw [Reported, hcapn, hptr, hk, hc]
    exact @readPtr_reported { c with traversalUsed := u } k _ _ (hr ▸ hb)

/-- **Decode errors** over every history of reads: the flag stays once it is set, an object
does not set it, and a slot is reported as claimed exactly when it is classified. -/
theorem decode_errors_reported {c c' : Capn} (hrun : Runs ReadCall.step (fun _ _ => True) c c') (call : ReadCall)
    {a : Addr} (ha : call.SlotAt c' a) :
    (c.decodeErr = true → c'.decodeErr = true ∧ (call.run c').capn.decodeErr = true) ∧
      ((call.run c').ptr.type ≠ .NULL → (call.run c').capn.decodeErr = c'.decodeErr) ∧
      (Reported c' (c'.load64 a) (call.run c') ↔ call.Classified c' a) := by
  have hsticky : c.decodeErr = true → c'.decodeErr = true := fun h =>
    hrun.inv (I := fun c => c.decodeErr = true) (fun c call hc _ => (run_flag c call).1 hc) h
  exact ⟨fun h => ⟨hsticky h, (run_flag c' call).1 (hsticky h)⟩, (run_flag c' call).2, run_reported ha⟩

/-! ## Two messages -/

/-- A session with one hop, whose root is a struct with a null pointer. -/
def oneHop : Capn :=
  { capnInitMalloc with nestingLimit := 1
                        segs := [⟨Mem.zero.write 0 [0, 0, 0, 0, 0, 0, 1, 0], 16, 16⟩] }

/-- The root of `oneHop`, and the session after it was read. -/
def oneHopRoot : Read := capnGetp oneHop (capnRoot oneHop).2 0 true

/-- A session whose root is a far pointer to a word that is zero. -/
def farNull : Capn :=
  { capnInitMalloc with segs := [⟨Mem.zero.write 0 [2, 0, 0, 0, 1, 0, 0, 0], 8, 8⟩, ⟨Mem.zero, 8, 8⟩] }

/-- After the root of `oneHop` was read, its flag is not as claimed. -/
theorem decode_errors_reported_hop :
    (oneHop.decodeErr = true → oneHopRoot.capn.decodeErr = true ∧
        ((ReadCall.getp oneHopRoot.ptr 0).run oneHopRoot.capn).capn.decodeErr = true) ∧
      (((ReadCall.getp oneHopRoot.ptr 0).run oneHopRoot.capn).ptr.type ≠ .NULL →
        ((ReadCall.getp oneHopRoot.ptr 0).run oneHopRoot.capn).capn.decodeErr = oneHopRoot.capn.decodeErr) ∧
      (Reported oneHopRoot.capn (oneHopRoot.capn.load64 ⟨0, 8⟩) ((ReadCall.getp oneHopRoot.ptr 0).run oneHopRoot.capn) ↔
        (ReadCall.getp oneHopRoot.ptr 0).Classified oneHopRoot.capn ⟨0, 8⟩) :=
  decode_errors_reported (Runs.tail .refl (e := .getp (capnRoot oneHop).2 0) trivial) (.getp oneHopRoot.ptr 0)
    ⟨by decide +kernel, by decide +kernel⟩

/-- A null pointer with no hop left sets the flag, and a far pointer to a null word does
not. -/
theorem decode_errors_fails :
    ((ReadCall.getp oneHopRoot.ptr 0).SlotAt oneHopRoot.capn ⟨0, 8⟩ ∧ oneHopRoot.capn.load64 ⟨0, 8⟩ = 0 ∧
        ((ReadCall.getp oneHopRoot.ptr 0).run oneHopRoot.capn).ptr.type = .NULL ∧
        oneHopRoot.capn.decodeErr = false ∧
        ((ReadCall.getp oneHopRoot.ptr 0).run oneHopRoot.capn).capn.decodeErr = true) ∧
      (ReadCall.getp (capnRoot farNull).2 0).SlotAt farNull ⟨0, 0⟩ ∧ farNull.load64 ⟨0, 0⟩ ≠ 0 ∧
        ((ReadCall.getp (capnRoot farNull).2 0).run farNull).ptr.type = .NULL ∧
        ((ReadCall.getp (capnRoot farNull).2 0).run farNull).capn.decodeErr = false :=
  ⟨⟨⟨by decide +kernel, by decide +kernel⟩, by decide +kernel, by decide +kernel, by decide +kernel, by decide +kernel⟩,
    ⟨by decide +kernel, by decide +kernel⟩, by decide +kernel, by decide +kernel, by decide +kernel⟩

end Capnproto

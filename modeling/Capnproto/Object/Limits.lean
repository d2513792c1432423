import Capnproto.Graph.Sound
import Capnproto.Object.Lazy

/-!
# Limits on a reader

What the limits of a session leave to a reader of any message. Nesting: the hops
that remain travel in the pointer, a step that follows a pointer takes one of
them, and a step that does not hands them on (`chain_step`), so that a chain of
steps from the root follows no more pointers than the limit
(`nesting_bounded`). Traversal: every pointer read pays for the object it gives
(`readPtr_pays`), so that the objects given never come to more than the budget
(`traversal_bounded`).
-/

namespace Capnproto

/-! ## One step -/

/-- What `capn_getp` does with a resolved pointer: it goes to a slot, or it follows
nothing, and gives a null pointer or an element with the hops of the list. -/
theorem getpResolved_cases (c : Capn) (seg : Option Nat) (p : Ptr) (off : Int) (resolve : Bool) :
    (∃ slot, slotOf p off resolve = some slot ∧
      getpResolved c seg p off resolve = getpSlot c seg slot (hopRemaining c p) resolve) ∨
    slotOf p off resolve = none ∧ (getpResolved c seg p off resolve).capn = c ∧
      ((getpResolved c seg p off resolve).ptr = {} ∨
        (getpResolved c seg p off resolve).ptr.isListMember = true ∧
          (getpResolved c seg p off resolve).ptr.nestingValid = true ∧
          (getpResolved c seg p off resolve).ptr.nesting = hopRemaining c p) := by
  have hnone (h : slotOf p off resolve = none) (hg : getpResolved c seg p off resolve = ⟨c, {}, []⟩) :
      slotOf p off resolve = none ∧ (getpResolved c seg p off resolve).capn = c ∧
        ((getpResolved c seg p off resolve).ptr = {} ∨
          (getpResolved c seg p off resolve).ptr.isListMember = true ∧
            (getpResolved c seg p off resolve).ptr.nestingValid = true ∧
            (getpResolved c seg p off resolve).ptr.nesting = hopRemaining c p) :=
    ⟨h, by rw [hg], .inl (by rw [hg])⟩
  cases ht : p.type with
  | NULL => exact .inr (hnone (by simp only [slotOf, ht]) (by simp only [getpResolved, ht]))
  | FAR_POINTER => exact .inr (hnone (by simp only [slotOf, ht]) (by simp only [getpResolved, ht]))
  | INTERFACE => exact .inr (hnone (by simp only [slotOf, ht]) (by simp only [getpResolved, ht]))
  | LIST =>
    have hs : slotOf p off resolve = none := by simp only [slotOf, ht]
    by_cases hlt : off < p.len
    · refine .inr ⟨hs, ?_, .inr ⟨?_, ?_, ?_⟩⟩ <;> simp only [getpResolved, ht, if_pos hlt]
    · exact .inr (hnone hs (by simp only [getpResolved, ht, if_neg hlt]))
  | BIT_LIST =>
    have hs : slotOf p off resolve = none := by simp only [slotOf, ht]
    by_cases hout : off < 0 ∨ p.len ≤ off ∨ p.data = none
    · exact .inr (hnone hs (by simp only [getpResolved, ht, if_pos hout]))
    · refine .inr ⟨hs, ?_, .inr ⟨?_, ?_, ?_⟩⟩ <;> simp only [getpResolved, ht, if_neg hout]
  | STRUCT =>
    by_cases hle : (p.ptrs : Int) ≤ off
    · exact .inr (hnone (by simp only [slotOf, ht, if_pos hle]) (by simp only [getpResolved, ht, if_pos hle]))
    · refine .inl ⟨p.data.map (·.add (p.datasz + 8 * off)), by simp only [slotOf, ht, if_neg hle], ?_⟩
      simp only [getpResolved, ht, if_neg hle]
  | PTR_LIST =>
    by_cases hle : p.len ≤ off
    · have hs : slotOf p off resolve = none := by simp only [slotOf, ht, if_pos (Or.inl hle)]
      exact .inr (hnone hs (by simp only [getpResolved, ht, if_pos hle]))
    cases resolve with
    | false =>
      have hs : slotOf p off false = none := by simp [slotOf, ht]
      refine .inr ⟨hs, ?_, .inr ⟨?_, ?_, ?_⟩⟩ <;> simp [getpResolved, ht, hle]
    | true =>
      refine .inl ⟨p.data.map (·.add (8 * off)), by simp [slotOf, ht, hle], ?_⟩
      simp [getpResolved, ht, hle]

/-! ## Nesting -/

/-- The pointers that `read_ptr` follows with `rem` hops left. -/
def readHops (rem : Int) : Nat := if rem = 0 then 0 else 1

/-- The pointers that `capn_resolve` follows. -/
def resolveHops (c : Capn) (p : Ptr) : Nat := if p.type = .FAR_POINTER then readHops (hopRemaining c p) else 0

/-- The pointers that `capn_getp` follows: the one it is given, if it is not resolved, and
the one in the slot, if it is to be. -/
def getpHops (c : Capn) (p : Ptr) (off : Int) (resolve : Bool) : Nat :=
  let r := capnResolve c p
  resolveHops c p +
    if resolve = true ∧ (slotOf r.ptr off resolve).isSome then readHops (hopRemaining r.capn r.ptr) else 0

/-- A chain of steps: the pointer it has come to, and how many pointers it followed. -/
structure Chain where
  capn : Capn
  ptr : Ptr
  followed : Nat := 0

/-- The chain starts at the root. -/
def Chain.start (c : Capn) : Chain := ⟨(capnRoot c).1, (capnRoot c).2, 0⟩

/-- A step of a chain: `capn_getp`, which also takes the elements of lists, or
`capn_resolve`; between two steps anything may become of the session. -/
inductive Chain.Step : Chain → Chain → Prop
  | getp (k : Chain) (off : Int) (resolve : Bool) :
    Step k ⟨(capnGetp k.capn k.ptr off resolve).capn, (capnGetp k.capn k.ptr off resolve).ptr,
      k.followed + getpHops k.capn k.ptr off resolve⟩
  | resolve (k : Chain) :
    Step k ⟨(capnResolve k.capn k.ptr).capn, (capnResolve k.capn k.ptr).ptr, k.followed + resolveHops k.capn k.ptr⟩
  | elsewhere (k : Chain) (c : Capn) : Step k { k with capn := c }

/-- The chains from the root. -/
def Chains (c : Capn) : Chain → Prop := Relation.ReflTransGen Chain.Step (.start c)

/-- With `n` pointers followed, what is left to `p` keeps within `limit`. -/
def WithinHops (limit : Int) (n : Nat) (p : Ptr) : Prop :=
  (n : Int) ≤ limit ∧ (p.type ≠ .NULL → p.nestingValid = true ∧ 0 ≤ p.nesting ∧ n + p.nesting ≤ limit)

theorem WithinHops.null {limit : Int} {n : Nat} {p : Ptr} (h : (n : Int) ≤ limit) (hp : p.type = .NULL) :
    WithinHops limit n p := ⟨h, fun h0 => absurd hp h0⟩

/-- Reading a pointer takes one of the hops. -/
theorem readPtr_hops {limit : Int} {n : Nat} {rem : Int} (h0 : 0 ≤ rem) (h : n + rem ≤ limit) (c : Capn)
    (s : Option Nat) (d : Option Addr) : WithinHops limit (n + readHops rem) (readPtr c s d rem).ptr := by
  have hle : ((n + readHops rem : Nat) : Int) ≤ limit := by
    unfold readHops
    split <;> omega
  rcases readPtr_cases c s d rem with ⟨reads, e, -⟩ | ⟨seg, off, p, cost, hrem, -, -, -, -, -, e⟩
  · rw [e]
    exact .null hle rfl
  · refine ⟨hle, fun _ => ?_⟩
    rw [e]
    simp only [withNesting_pos (show 0 < rem by omega), readHops, if_neg hrem, true_and]
    omega

theorem WithinHops.hops {limit : Int} {n : Nat} {p : Ptr} (h : WithinHops limit n p) (h0 : p.type ≠ .NULL) (c : Capn) :
    0 ≤ hopRemaining c p ∧ n + hopRemaining c p ≤ limit := by
  obtain ⟨hv, hn⟩ := h.2 h0
  rw [hopRemaining, if_pos hv]
  exact hn

theorem WithinHops.resolve {limit : Int} {n : Nat} {p : Ptr} (h : WithinHops limit n p) (c : Capn) :
    WithinHops limit (n + resolveHops c p) (capnResolve c p).ptr := by
  rw [resolveHops, capnResolve]
  by_cases hf : p.type = .FAR_POINTER
  · rw [if_pos hf, if_pos hf]
    obtain ⟨h0, hle⟩ := h.hops (by rw [hf]; decide) c
    exact readPtr_hops h0 hle c _ _
  · rw [if_neg hf, if_neg hf]
    exact h

/-- A resolved pointer's slot, element or nothing. -/
theorem WithinHops.resolved {limit : Int} {n : Nat} {p : Ptr} (h : WithinHops limit n p) (c : Capn)
    (seg : Option Nat) (off : Int) (resolve : Bool) :
    WithinHops limit (n + if resolve = true ∧ (slotOf p off resolve).isSome then readHops (hopRemaining c p) else 0)
      (getpResolved c seg p off resolve).ptr := by
  rcases getpResolved_cases c seg p off resolve with ⟨slot, hs, e⟩ | ⟨hs, -, e | ⟨hm, hv, hn⟩⟩
  · have h0 : p.type ≠ .NULL := by
      intro ht
      simp only [slotOf, ht] at hs
      cases hs
    obtain ⟨hnn, hle⟩ := h.hops h0 c
    rw [e, hs, getpSlot]
    cases resolve with
    | true =>
      simp only [Option.isSome_some, and_self, if_true]
      exact readPtr_hops hnn hle c _ _
    | false =>
      refine ⟨?_, fun _ => ⟨rfl, ?_⟩⟩
      · simpa using h.1
      · simpa using And.intro hnn hle
  · rw [hs, e]
    exact .null (by simpa using h.1) rfl
  · rw [hs]
    refine ⟨by simpa using h.1, fun _ => ⟨hv, ?_⟩⟩
    have h0 : p.type ≠ .NULL := by
      intro ht
      simp only [getpResolved, ht] at hv
      cases hv
    rw [hn]
    simpa using h.hops h0 c

/-- **One step** of a chain. -/
theorem chain_step {limit : Int} {k k' : Chain} (h : WithinHops limit k.followed k.ptr) (hs : Chain.Step k k') :
    WithinHops limit k'.followed k'.ptr := by
  cases hs with
  | getp off resolve =>
    have hr := (h.resolve k.capn).resolved (capnResolve k.capn k.ptr).capn k.ptr.seg off resolve
    rw [Nat.add_assoc] at hr
    exact hr
  | resolve => exact h.resolve k.capn
  | elsewhere => exact h

theorem withinHops_root (c : Capn) : WithinHops (sessionNesting c) 0 (capnRoot c).2 := by
  have hpos := sessionNesting_pos c
  refine ⟨by omega, fun h0 => ?_⟩
  rcases capnRoot_ptr c with e | ⟨a, s, e⟩
  · rw [e] at h0
    exact absurd rfl h0
  · rw [e]
    exact ⟨rfl, Int.le_of_lt hpos, by simp⟩

/-- **Nesting is bounded.** On any message and with any limit, a chain of steps from the
root follows no more pointers than the limit allows, however `capn_getp`, elements and
lazy resolution are mixed, and whatever else happens to the session meanwhile. -/
theorem nesting_bounded (c : Capn) (k : Chain) :
    Chains c k → (k.followed : Int) ≤ sessionNesting c := by
  intro h
  suffices hw : WithinHops (sessionNesting c) k.followed k.ptr from hw.1
  induction h with
  | refl => exact withinHops_root c
  | tail _ hstep ih => exact chain_step ih hstep

/-- With a limit of two, the third step round the struct gives nothing. -/
theorem nesting_bounded_self : ∃ k : Chain, Chains { segmentSession selfBytes with nestingLimit := 2 } k ∧
    k.ptr = {} ∧ k.followed = 2 ∧
      (k.followed : Int) ≤ sessionNesting { segmentSession selfBytes with nestingLimit := 2 } := by
  let c : Capn := { segmentSession selfBytes with nestingLimit := 2 }
  let around (k : Chain) : Chain := ⟨(capnGetp k.capn k.ptr 0 true).capn, (capnGetp k.capn k.ptr 0 true).ptr,
    k.followed + getpHops k.capn k.ptr 0 true⟩
  have hchain : Chains c (around (around (around (.start c)))) :=
    ((Relation.ReflTransGen.single (.getp _ 0 true)).tail (.getp _ 0 true)).tail (.getp _ 0 true)
  exact ⟨_, hchain, by decide +kernel, by decide +kernel, nesting_bounded c _ hchain⟩

/-! ## Traversal -/

/-- The size of an object in bytes; each element of a list whose elements have no size
counts as one word. -/
def Ptr.size (p : Ptr) : Nat :=
  if p.type = .LIST ∧ p.datasz = 0 ∧ p.ptrs = 0 then 8 * p.len.toNat else p.extent

theorem size_withNesting (p : Ptr) (rem : Int) : (p.withNesting rem).size = p.size := by
  obtain ⟨n, v, e⟩ := withNesting_eq p rem
  rw [e]
  rfl

/-- An object costs its size. -/
theorem pointee_cost {c : Capn} {a : Addr} {p : Ptr} {cost : Nat} (h : pointee c a = some (p, cost)) :
    cost = p.size := by
  rcases pointee_spec h with ⟨ht, -, rfl⟩ | ⟨⟨-, hlen, hsh⟩, -, rfl⟩
  · simp [Ptr.size, Ptr.extent, ht]
  cases ht : p.type with
  | NULL =>
    rw [ht] at hsh
    simp [Ptr.size, Ptr.extent, ht, hsh.2.2.2]
  | STRUCT =>
    rw [ht] at hsh
    simp [Ptr.size, Ptr.extent, ht, hsh.2.2.2.2]
  | LIST =>
    simp only [Ptr.size, Ptr.extent, ht, true_and]
    by_cases hz : p.datasz = 0 ∧ p.ptrs = 0
    · simp only [hz.1, hz.2, Nat.mul_zero, Nat.add_zero, true_and, if_true, and_self]
      split <;> omega
    · have hpos : 0 < p.datasz + 8 * p.ptrs := by omega
      rw [if_neg hz, if_neg]
      rintro ⟨h0, hl⟩
      rcases Nat.mul_eq_zero.mp h0 with h0 | h0 <;> omega
  | PTR_LIST =>
    simp only [Ptr.size, Ptr.extent, ht, reduceCtorEq, false_and, if_false]
    split <;> omega
  | BIT_LIST =>
    simp only [Ptr.size, Ptr.extent, ht, reduceCtorEq, false_and, if_false]
    split <;> omega
  | FAR_POINTER =>
    rw [ht] at hsh
    exact hsh.elim
  | INTERFACE =>
    rw [ht] at hsh
    exact hsh.elim

/-- **A pointer read** pays for the object that it gives, if it has a size, within the budget. -/
theorem readPtr_pays (c : Capn) (s : Option Nat) (d : Option Addr) (rem : Int) :
    (readPtr c s d rem).capn.traversalUsed = c.traversalUsed + (readPtr c s d rem).ptr.size ∧
      ((readPtr c s d rem).ptr.size = 0 ∨ c.traversalUsed + (readPtr c s d rem).ptr.size ≤ budget c) := by
  rcases readPtr_cases c s d rem with ⟨reads, e, -⟩ | ⟨seg, off, p, cost, -, -, -, -, hp, ha, e⟩
  · rw [e, Read.err]
    refine ⟨?_, .inl rfl⟩
    split <;> rfl
  · rw [e]
    simp only [size_withNesting, ← pointee_cost hp, true_and]
    exact ha

/-- A session, and what pointer reads on it gave so far. -/
structure Reading where
  capn : Capn
  given : List Ptr := []

/-- The sizes of the objects that were given. -/
def Reading.total (k : Reading) : Nat := (k.given.map Ptr.size).sum

/-- A pointer read, of any word, or anything else that leaves the limit and the counter alone. -/
inductive Reading.Step : Reading → Reading → Prop
  | read (k : Reading) (s : Option Nat) (d : Option Addr) (rem : Int) :
    Step k ⟨(readPtr k.capn s d rem).capn, (readPtr k.capn s d rem).ptr :: k.given⟩
  | other (k : Reading) (c : Capn) (hl : c.traversalLimit = k.capn.traversalLimit)
    (hu : c.traversalUsed = k.capn.traversalUsed) : Step k ⟨c, k.given⟩

def Reading.Run : Reading → Reading → Prop := Relation.ReflTransGen Reading.Step

/-- What a run that starts with the session `c` has paid. -/
structure Reading.Paid (c : Capn) (k : Reading) : Prop where
  limit : k.capn.traversalLimit = c.traversalLimit
  used : k.capn.traversalUsed = c.traversalUsed + k.total
  bound : k.capn.traversalUsed ≤ budget c

theorem budget_congr {c c' : Capn} (h : c'.traversalLimit = c.traversalLimit) : budget c' = budget c := by
  rw [budget, budget, h]

theorem readPtr_limit (c : Capn) (s : Option Nat) (d : Option Addr) (rem : Int) :
    (readPtr c s d rem).capn.traversalLimit = c.traversalLimit := by
  obtain ⟨u, e, h⟩ := readPtr_capn c s d rem
  rw [h]

/-- One step keeps the books. -/
theorem paid_step {c : Capn} {k k' : Reading} (h : k.Paid c) (hs : Reading.Step k k') : k'.Paid c := by
  cases hs with
  | read s d rem =>
    obtain ⟨hu, hb⟩ := readPtr_pays k.capn s d rem
    have hbud := budget_congr h.limit
    have hused := h.used
    have hbound := h.bound
    refine ⟨(readPtr_limit _ _ _ _).trans h.limit, ?_, ?_⟩
    · simp only [Reading.total, List.map_cons, List.sum_cons] at hused ⊢
      omega
    · show (readPtr k.capn s d rem).capn.traversalUsed ≤ _
      omega
  | other c' hl hu => exact ⟨hl.trans h.limit, hu.trans h.used, hu ▸ h.bound⟩

theorem paid_run {c : Capn} (h0 : c.traversalUsed ≤ budget c) {k : Reading} (hk : Reading.Run ⟨c, []⟩ k) : k.Paid c := by
  induction hk with
  | refl => exact ⟨rfl, rfl, h0⟩
  | tail _ hstep ih => exact paid_step ih hstep

/-! ### Accessors -/

/-- What is done between two states of a session is a run of pointer reads that give `new`. -/
def Draws (c c' : Capn) (new : List Ptr) : Prop := ∀ given, Reading.Run ⟨c, given⟩ ⟨c', new ++ given⟩

theorem Draws.refl (c : Capn) : Draws c c [] := fun _ => .refl

theorem Draws.trans {c c' c'' : Capn} {new new' : List Ptr} (h : Draws c c' new) (h' : Draws c' c'' new') :
    Draws c c'' (new' ++ new) := by
  intro given
  rw [List.append_assoc]
  exact Relation.ReflTransGen.trans (h given) (h' (new ++ given))

theorem draws_read (c : Capn) (s : Option Nat) (d : Option Addr) (rem : Int) :
    Draws c (readPtr c s d rem).capn [(readPtr c s d rem).ptr] :=
  fun given => .single (.read ⟨c, given⟩ s d rem)

/-- Stores cost nothing. -/
theorem draws_other {c c' : Capn} (hl : c'.traversalLimit = c.traversalLimit) (hu : c'.traversalUsed = c.traversalUsed) :
    Draws c c' [] := fun given => .single (.other ⟨c, given⟩ c' hl hu)

theorem draws_resolve (c : Capn) (p : Ptr) : ∃ new, Draws c (capnResolve c p).capn new ∧
    ((capnResolve c p).ptr = p ∨ (capnResolve c p).ptr ∈ new) := by
  rw [capnResolve]
  split
  · exact ⟨_, draws_read _ _ _ _, .inr List.mem_cons_self⟩
  · exact ⟨[], .refl c, .inl rfl⟩

/-- `capn_getp` gives a pointer that was read, an unresolved one, an element, or nothing. -/
theorem draws_getp (c : Capn) (p : Ptr) (off : Int) (resolve : Bool) : ∃ new,
    Draws c (capnGetp c p off resolve).capn new ∧ ((capnGetp c p off resolve).ptr ∈ new ∨
      (capnGetp c p off resolve).ptr.type = .FAR_POINTER ∨ (capnGetp c p off resolve).ptr.isListMember = true ∨
      (capnGetp c p off resolve).ptr = {}) := by
  obtain ⟨new, hr, -⟩ := draws_resolve c p
  rcases getpResolved_cases (capnResolve c p).capn p.seg (capnResolve c p).ptr off resolve with
    ⟨slot, -, e⟩ | ⟨-, hc, e | ⟨hm, -⟩⟩
  · simp only [capnGetp, e, getpSlot]
    cases resolve with
    | true => exact ⟨_, hr.trans (draws_read _ _ _ _), .inl List.mem_cons_self⟩
    | false => exact ⟨new, hr, .inr (.inl rfl)⟩
  · refine ⟨new, ?_, .inr (.inr (.inr e))⟩
    simp only [capnGetp, hc]
    exact hr
  · refine ⟨new, ?_, .inr (.inr (.inl hm))⟩
    simp only [capnGetp, hc]
    exact hr

theorem draws_structPtr (c : Capn) (s : Option Nat) (d : Option Addr) (n : Nat) :
    ∃ new, Draws c (structPtr c s d n).1 new := by
  simp only [structPtr]
  split
  · exact ⟨[], .refl c⟩
  · exact ⟨_, draws_read _ _ _ _⟩

theorem draws_elementAt (c : Capn) (p : Ptr) (off : Int) (n : Nat) : ∃ new, Draws c (elementAt c p off n).1 new := by
  simp only [elementAt]
  split
  · exact ⟨[], .refl c⟩
  split
  · exact ⟨[], .refl c⟩
  · exact draws_structPtr _ _ _ _
  · exact ⟨[], .refl c⟩

theorem draws_getvStructs (sz : SZ) (p : Ptr) (off : Int) (k i : Nat) (c : Capn) (out : List UInt8) :
    ∃ new, Draws c (getvStructs sz p off k i c out).1 new := by
  induction k generalizing i c out with
  | zero => exact ⟨[], .refl c⟩
  | succ k ih =>
    obtain ⟨new, h⟩ := draws_structPtr c p.seg (p.data.map (·.add (8 * (i + off)))) sz.bytes
    simp only [getvStructs]
    split
    · exact ⟨new, h⟩
    · rename_i d _
      obtain ⟨new', h'⟩ := ih (i + 1) _ (out ++ (structPtr c p.seg _ _).1.read d sz.bytes)
      exact ⟨_, h.trans h'⟩

/-- A store. -/
theorem draws_store (ret : Int) (c : Capn) (stores : List (Addr × List UInt8)) (a : Addr) (bs : List UInt8) :
    Draws c ((Stored.mk ret c stores).store a bs).capn [] :=
  draws_other rfl rfl

theorem draws_setvList (sz : SZ) (p : Ptr) (off : Int) (vals : Nat → Nat) (k i : Nat) (s : Stored) :
    ∃ new, Draws s.capn (setvList sz p off vals k i s).capn new := by
  induction k generalizing i s with
  | zero => exact ⟨[], .refl _⟩
  | succ k ih =>
    simp only [setvList]
    split
    · exact ⟨[], .refl _⟩
    · obtain ⟨new, h⟩ := ih (i + 1) (s.store _ (toLe sz.bytes (vals i)))
      exact ⟨_, (draws_store s.ret s.capn s.stores _ _).trans h⟩

theorem draws_setvStructs (sz : SZ) (p : Ptr) (off : Int) (vals : Nat → Nat) (k i : Nat) (s : Stored) :
    ∃ new, Draws s.capn (setvStructs sz p off vals k i s).capn new := by
  induction k generalizing i s with
  | zero => exact ⟨[], .refl _⟩
  | succ k ih =>
    obtain ⟨new, h⟩ := draws_structPtr s.capn p.seg (p.data.map (·.add (8 * (i + off)))) sz.bytes
    simp only [setvStructs]
    split
    · exact ⟨new, h⟩
    · obtain ⟨new', h'⟩ := ih (i + 1) (Stored.store { s with capn := _ } _ (toLe sz.bytes (vals i)))
      exact ⟨_, h.trans ((draws_store _ _ _ _ _).trans h')⟩

theorem draws_bitAt (c : Capn) (p : Ptr) (off : Int) : ∃ new, Draws c (bitAt c p off).1 new := by
  simp only [bitAt]
  split
  · exact ⟨[], .refl c⟩
  split
  · exact ⟨[], .refl c⟩
  · exact ⟨[], .refl c⟩
  · split
    · exact ⟨[], .refl c⟩
    · exact ⟨_, draws_read _ _ _ _⟩
  · exact ⟨[], .refl c⟩

/-- An accessor that resolves its argument first. -/
theorem Draws.resolved {c c' : Capn} {p : Ptr} (h : ∃ new, Draws (capnResolve c p).capn c' new) :
    ∃ new, Draws c c' new := by
  obtain ⟨new, hr, -⟩ := draws_resolve c p
  obtain ⟨new', h⟩ := h
  exact ⟨_, hr.trans h⟩

theorem draws_getv (sz : SZ) (c : Capn) (p : Ptr) (off n : Int) : ∃ new, Draws c (capnGetv sz c p off n).1 new := by
  apply Draws.resolved (p := p)
  simp only [capnGetv]
  split
  · split
    · exact ⟨[], .refl _⟩
    · split <;> exact ⟨[], .refl _⟩
  · exact draws_getvStructs _ _ _ _ _ _ _
  · exact ⟨[], .refl _⟩

theorem draws_getv1 (c : Capn) (p : Ptr) (off n : Int) : ∃ new, Draws c (capnGetv1 c p off n).1 new := by
  apply Draws.resolved (p := p)
  simp only [capnGetv1]
  split
  · exact ⟨[], .refl _⟩
  · split <;> exact ⟨[], .refl _⟩

theorem draws_set (sz : SZ) (c : Capn) (p : Ptr) (off : Int) (v : Nat) : ∃ new, Draws c (capnSet sz c p off v).capn new := by
  obtain ⟨new, h⟩ := draws_elementAt c p off sz.bytes
  simp only [capnSet]
  split
  · exact ⟨new, h⟩
  · exact ⟨_, h.trans (draws_store _ _ _ _ _)⟩

theorem draws_set1 (c : Capn) (p : Ptr) (off val : Int) : ∃ new, Draws c (capnSet1 c p off val).capn new := by
  apply Draws.resolved (p := p)
  obtain ⟨new, h⟩ := draws_bitAt (capnResolve c p).capn (capnResolve c p).ptr off
  simp only [capnSet1]
  split
  · exact ⟨new, h⟩
  · exact ⟨_, h.trans (draws_store _ _ _ _ _)⟩

theorem draws_setv (sz : SZ) (c : Capn) (p : Ptr) (off : Int) (vals : Nat → Nat) (n : Int) :
    ∃ new, Draws c (capnSetv sz c p off vals n).capn new := by
  simp only [capnSetv]
  split
  · split
    · split
      · exact ⟨[], .refl c⟩
      · exact ⟨_, draws_store _ _ _ _ _⟩
    · split
      · exact ⟨[], .refl c⟩
      · exact draws_setvList sz p off vals _ 0 ⟨_, c, []⟩
  · exact draws_setvStructs sz p off vals _ 0 ⟨_, c, []⟩
  · exact ⟨[], .refl c⟩

theorem draws_setv1 (c : Capn) (p : Ptr) (off : Int) (data : Nat → UInt8) (n : Int) :
    ∃ new, Draws c (capnSetv1 c p off data n).capn new := by
  simp only [capnSetv1]
  split
  · exact ⟨[], .refl c⟩
  split
  · exact ⟨[], .refl c⟩
  · exact ⟨_, draws_store _ _ _ _ _⟩

/-- An accessor that copies nothing. -/
def Access.Plain : Access → Prop
  | .setp .. => False
  | _ => True

/-- An accessor reads pointers, and stores. -/
theorem access_draws {w : World} {i : Nat} {p : Ptr} {a : Access} {o : Outcome} (ha : a.Plain)
    (h : a.run w i p = some o) : ∃ new, Draws (w i) (o.world i) new := by
  have hset : ∀ c, w.set i c i = c := fun c => if_pos rfl
  cases a with
  | setp => exact ha.elim
  | getp off resolve =>
    cases h
    simp only [hset]
    obtain ⟨new, h, -⟩ := draws_getp (w i) p off resolve
    obtain ⟨new', h', -⟩ := draws_resolve (capnGetp (w i) p off resolve).capn (capnGetp (w i) p off resolve).ptr
    exact ⟨_, h.trans h'⟩
  | get1 off =>
    cases h
    simp only [hset, capnGet1]
    exact Draws.resolved (draws_bitAt _ _ off)
  | get sz off =>
    cases h
    simp only [hset, capnGet]
    exact draws_elementAt _ _ _ _
  | getv1 off n =>
    cases h
    simp only [hset]
    exact draws_getv1 _ _ _ _
  | getv sz off n =>
    cases h
    simp only [hset]
    exact draws_getv _ _ _ _ _
  | getText off default =>
    cases h
    simp only [hset, capnGetText]
    obtain ⟨new, h, -⟩ := draws_getp (w i) p off true
    exact ⟨new, h⟩
  | getData off =>
    cases h
    simp only [hset, capnGetData]
    obtain ⟨new, h, -⟩ := draws_getp (w i) p off true
    exact ⟨new, h⟩
  | len =>
    cases h
    simp only [hset, capnLen]
    obtain ⟨new, h, -⟩ := draws_resolve (w i) p
    exact ⟨new, h⟩
  | set1 off val =>
    cases h
    simp only [Stored.outcome, hset]
    exact draws_set1 _ _ _ _
  | set sz off v =>
    cases h
    simp only [Stored.outcome, hset]
    exact draws_set _ _ _ _ _
  | setv1 off data n =>
    cases h
    simp only [Stored.outcome, hset]
    exact draws_setv1 _ _ _ _ _
  | setv sz off vals n =>
    cases h
    simp only [Stored.outcome, hset]
    exact draws_setv _ _ _ _ _ _

/-- A read that the budget does not cover. -/
theorem readPtr_unpaid {c : Capn} {seg : Nat} {off : Int} {p : Ptr} {cost : Nat}
    (hp : pointee c ⟨seg, off⟩ = some (p, cost)) (hlt : budget c < c.traversalUsed + p.size) (hpos : p.size ≠ 0) (rem : Int) :
    (readPtr c (some seg) (some ⟨seg, off⟩) rem).ptr = {} ∧
      (readPtr c (some seg) (some ⟨seg, off⟩) rem).capn.decodeErr = true := by
  rcases readPtr_cases c (some seg) (some ⟨seg, off⟩) rem with ⟨reads, e, -⟩ | ⟨_, _, q, n, -, hs, hd, -, hq, ha, -⟩
  · rw [e]
    exact ⟨rfl, rfl⟩
  · cases hs
    cases hd
    rw [hp] at hq
    cases hq
    rw [Affords, pointee_cost hp] at ha
    omega

/-- **The traversal budget bounds what a reader can be given.** On any message and after any
run of pointer reads, the counter is what the objects given come to, it is within the budget
and no `size_t` wraps, and so are the objects; a read that would exceed the budget gives a
null pointer and sets the error. The accessors are such runs. -/
theorem traversal_bounded {c : Capn} (hlimit : c.traversalLimit < 2 ^ 64) (h0 : c.traversalUsed ≤ budget c)
    {k : Reading} (hk : Reading.Run ⟨c, []⟩ k) :
    k.capn.traversalUsed = c.traversalUsed + k.total ∧ k.capn.traversalUsed ≤ budget c ∧ budget c < 2 ^ 64 ∧
      k.total ≤ budget c ∧
      (∀ seg off p cost rem, pointee k.capn ⟨seg, off⟩ = some (p, cost) →
        budget c < k.capn.traversalUsed + p.size →
        (readPtr k.capn (some seg) (some ⟨seg, off⟩) rem).ptr = {} ∧
          (readPtr k.capn (some seg) (some ⟨seg, off⟩) rem).capn.decodeErr = true) ∧
      ∀ (w : World) i p (a : Access) o, a.Plain → w i = k.capn → a.run w i p = some o →
        ∃ new, Reading.Run k ⟨o.world i, new ++ k.given⟩ := by
  have hp := paid_run h0 hk
  have hbud := budget_congr hp.limit
  have hused := hp.used
  have hbound := hp.bound
  refine ⟨hused, hbound, ?_, by omega, ?_, ?_⟩
  · rw [budget]
    split
    · exact hlimit
    · decide
  · intro seg off p cost rem hptr hlt
    exact readPtr_unpaid hptr (by omega) (by omega) rem
  · intro w i p a o ha hw h
    obtain ⟨new, hd⟩ := access_draws ha h
    rw [hw] at hd
    exact ⟨new, hd k.given⟩

/-- One read of the root of a message of two structs. -/
theorem traversal_bounded_root : ∃ k : Reading, Reading.Run ⟨segmentSession nestedBytes, []⟩ k ∧
    k.capn.traversalUsed = 8 ∧ k.total = 8 ∧ k.total ≤ budget (segmentSession nestedBytes) := by
  have hrun : Reading.Run ⟨segmentSession nestedBytes, []⟩
      ⟨(readPtr (segmentSession nestedBytes) (some 0) (some ⟨0, 0⟩) 64).capn,
        [(readPtr (segmentSession nestedBytes) (some 0) (some ⟨0, 0⟩) 64).ptr]⟩ :=
    .single (.read ⟨segmentSession nestedBytes, []⟩ (some 0) (some ⟨0, 0⟩) 64)
  have hb := traversal_bounded (by decide) (by decide) hrun
  have hu : (readPtr (segmentSession nestedBytes) (some 0) (some ⟨0, 0⟩) 64).capn.traversalUsed = 8 := by
    decide +kernel
  refine ⟨_, hrun, hu, ?_, hb.2.2.2.1⟩
  have h0 : (segmentSession nestedBytes).traversalUsed = 0 := rfl
  have ht := hb.1
  simp only [hu, h0] at ht
  omega

end Capnproto

import Capnproto.Graph.Sound
import Capnproto.Object.Build

/-!
# When `capn_validate` accepts a message

A depth-first tour of the objects of a message, each object once, as far as its key
tells it from others (`Tour`). `capn_validate` makes this tour, and it accepts a message
within its limits exactly when the tour is never stuck (`validate_complete`): when all
words that it comes to decode, and none of them is to an object with the key of one that
the tour is inside of.
-/

namespace Capnproto

/-! ## Objects and their slots -/

section

variable {c : Capn} {a : Addr} {p : Ptr} {cost : Nat}

/-- An object has fewer than `2 ^ 31` children. -/
theorem pointee_nchild (h : pointee c a = some (p, cost)) : 0 ≤ objectNchild p ∧ objectNchild p < 2 ^ 31 := by
  rcases pointee_spec h with ⟨hi, -⟩ | ⟨⟨-, hlen, hsh⟩, -⟩
  · simp only [objectNchild, hi]
    omega
  · cases ht : p.type with
    | STRUCT =>
      rw [ht] at hsh
      simp only [objectNchild, ht]
      omega
    | PTR_LIST =>
      rw [ht] at hsh
      simp only [objectNchild, ht]
      omega
    | LIST =>
      rw [ht] at hsh
      simp only at hsh
      simp only [objectNchild, ht]
      split
      · rename_i hpos
        rw [if_pos (by by_contra hc; rw [if_neg hc] at hsh; omega)] at hsh
        have hmul : p.len.toNat * (8 * p.ptrs) < 2 ^ 32 :=
          Nat.lt_of_le_of_lt (Nat.mul_le_mul_left _ (Nat.le_add_left _ _)) hsh.2.2.2.2
        have hcast : ((p.len.toNat * p.ptrs : Nat) : Int) = p.len * p.ptrs := by
          rw [Nat.cast_mul, Int.toNat_of_nonneg hlen]
        have hbound : p.len.toNat * p.ptrs < 2 ^ 29 := by
          rw [Nat.mul_left_comm] at hmul
          omega
        have hle : p.len ≤ INT_MAX / p.ptrs := by
          apply Int.le_ediv_of_mul_le (by omega)
          show p.len * p.ptrs ≤ 2147483647
          omega
        rw [if_neg (by omega)]
        omega
      · omega
    | _ =>
      simp only [objectNchild, ht]
      omega

/-- The slots of an object are in bounds. -/
theorem pointee_slot (h : pointee c a = some (p, cost)) {i : Nat} (hi : (i : Int) < objectNchild p) :
    ∃ b : Addr, childSlot p i = some (some b.seg, some b) ∧ boundsOk c (some b.seg) (some b) 8 := by
  rcases pointee_spec h with ⟨ht, -⟩ | ⟨⟨-, hlen, hsh⟩, ⟨seg, off, hs, hd, hlead, hend⟩, -⟩
  · simp only [objectNchild, ht] at hi
    omega
  have hslot : ∀ n : Nat, n + 8 ≤ p.extent → boundsOk c (some seg) (some ((⟨seg, off⟩ : Addr).add n)) 8 := by
    intro n hn
    exact boundsOk_iff.mpr ⟨seg, off + n, rfl, rfl, by omega, by push_cast; omega⟩
  cases ht : p.type with
  | STRUCT =>
    simp only [objectNchild, ht] at hi
    have hex : p.extent = p.datasz + 8 * p.ptrs := by simp only [Ptr.extent, ht]
    refine ⟨_, ?_, hslot (p.datasz + 8 * i) (by omega)⟩
    simp only [childSlot, ht, hs, hd, Option.map_some]
    push_cast
    rfl
  | PTR_LIST =>
    simp only [objectNchild, ht] at hi
    have hex : p.extent = 8 * p.len.toNat := by simp only [Ptr.extent, ht]
    refine ⟨_, ?_, hslot (8 * i) (by omega)⟩
    simp only [childSlot, ht, hs, hd, Option.map_some]
    push_cast
    rfl
  | LIST =>
    have hpos : 0 < p.ptrs ∧ 0 < p.len := by
      by_contra hc
      simp only [objectNchild, ht, if_neg hc] at hi
      omega
    simp only [objectNchild, ht, if_pos hpos] at hi
    split at hi
    · omega
    have hlt : i < p.len.toNat * p.ptrs := by
      have hcast : ((p.len.toNat * p.ptrs : Nat) : Int) = p.len * p.ptrs := by
        rw [Nat.cast_mul, Int.toNat_of_nonneg hlen]
      omega
    have hex : p.extent = p.len.toNat * (p.datasz + 8 * p.ptrs) := by simp only [Ptr.extent, ht]
    -- the element, and the pointer in it
    have helem : i / p.ptrs + 1 ≤ p.len.toNat := (Nat.div_lt_iff_lt_mul hpos.1).mpr hlt
    have hmod := Nat.mod_lt i hpos.1
    have hmul : (i / p.ptrs + 1) * (p.datasz + 8 * p.ptrs) ≤ p.len.toNat * (p.datasz + 8 * p.ptrs) :=
      Nat.mul_le_mul_right _ helem
    rw [Nat.add_mul] at hmul
    refine ⟨_, ?_, hslot (i / p.ptrs * (p.datasz + 8 * p.ptrs) + p.datasz + 8 * (i % p.ptrs)) (by omega)⟩
    simp only [childSlot, ht, if_neg (show ¬ p.ptrs = 0 by omega), hs, hd, Option.map_some]
    rfl
  | _ =>
    simp only [objectNchild, ht] at hi
    omega

end

/-! ## The tour -/

/-- Where a tour is: the objects that it is inside of, innermost first, each with the
child that is next, and the objects that it is done with; `bytes` counts what it has read. -/
structure Tour where
  path : List (Ptr × Nat)
  done : List Ptr
  bytes : Nat

/-- The object has the key of one of `ps`. -/
def Known (q : Ptr) (ps : List Ptr) : Prop := ∃ p ∈ ps, vkey p = vkey q

instance (q : Ptr) (ps : List Ptr) : Decidable (Known q ps) := inferInstanceAs (Decidable (∃ p ∈ ps, vkey p = vkey q))

/-- The objects that the tour is inside of. -/
def Tour.inside (t : Tour) : List Ptr := t.path.map Prod.fst

/-- One step of a tour: an object all of whose children were seen is left; a child that
is null, or to an object that is done, is passed; and any other child is entered, unless
it has the key of an object that the tour is inside of. -/
inductive Tour.Step (c : Capn) : Tour → Tour → Prop
  | leave {p : Ptr} {i : Nat} {rest : List (Ptr × Nat)} {done : List Ptr} {n : Nat} (h : objectNchild p ≤ i) :
    Step c ⟨(p, i) :: rest, done, n⟩ ⟨rest, p :: done, n⟩
  | null {p : Ptr} {i : Nat} {rest : List (Ptr × Nat)} {done : List Ptr} {n : Nat} {a : Addr} (h : (i : Int) < objectNchild p)
    (ha : childSlot p i = some (some a.seg, some a)) (h0 : c.load64 a = 0) :
    Step c ⟨(p, i) :: rest, done, n⟩ ⟨(p, i + 1) :: rest, done, n⟩
  | pass {p q : Ptr} {i : Nat} {rest : List (Ptr × Nat)} {done : List Ptr} {n cost : Nat} {a : Addr}
    (h : (i : Int) < objectNchild p) (ha : childSlot p i = some (some a.seg, some a)) (h0 : c.load64 a ≠ 0)
    (hq : pointee c a = some (q, cost)) (hn : q.type ≠ .NULL) (hnot : ¬ Known q (p :: rest.map Prod.fst))
    (hdone : Known q done) : Step c ⟨(p, i) :: rest, done, n⟩ ⟨(p, i + 1) :: rest, done, n + cost⟩
  | enter {p q : Ptr} {i : Nat} {rest : List (Ptr × Nat)} {done : List Ptr} {n cost : Nat} {a : Addr}
    (h : (i : Int) < objectNchild p) (ha : childSlot p i = some (some a.seg, some a)) (h0 : c.load64 a ≠ 0)
    (hq : pointee c a = some (q, cost)) (hn : q.type ≠ .NULL) (hnot : ¬ Known q (p :: rest.map Prod.fst))
    (hnew : ¬ Known q done) : Step c ⟨(p, i) :: rest, done, n⟩ ⟨(q, 0) :: (p, i + 1) :: rest, done, n + cost⟩

/-- The tour is not stuck: the word that is next, if any, is null, or it decodes, and its
object does not have the key of one that the tour is inside of. -/
def Tour.Clear (c : Capn) (t : Tour) : Prop :=
  ∀ p i rest a, t.path = (p, i) :: rest → (i : Int) < objectNchild p → childSlot p i = some (some a.seg, some a) →
    c.load64 a ≠ 0 → ∃ q cost, pointee c a = some (q, cost) ∧ q.type ≠ .NULL ∧ ¬ Known q t.inside

/-- The tour of the objects from `q` on, which was read for `cost` bytes. -/
def Toured (c : Capn) (q : Ptr) (cost : Nat) : Tour → Prop := Relation.ReflTransGen (Tour.Step c) ⟨[(q, 0)], [], cost⟩

/-- A tour of the message of `c` is never stuck. -/
def Untangled (c : Capn) (root : Addr) : Prop :=
  c.load64 root ≠ 0 → ∃ q cost, pointee c root = some (q, cost) ∧ q.type ≠ .NULL ∧ ∀ t, Toured c q cost t → t.Clear c

/-- A session is within its limits: the objects are not nested deeper than allowed (so
that there are no cycles), and the budget has room for a tour. -/
structure WithinLimits (c : Capn) (root : Addr) (limit : Int) : Prop where
  depth : ∀ p d, Met c root p d → (d : Int) ≤ limit
  budget : ∀ q cost t, pointee c root = some (q, cost) → Toured c q cost t → c.traversalUsed + t.bytes ≤ budget c

/-- Memory is there. -/
def VAlloc.unlimited : VAlloc := ⟨fun _ => true, fun _ => true⟩

/-! ## The table -/

section

variable {vhash : VKey → Nat} {vs vs' : VSet} {p : Ptr} {key : VKey}

/-- With memory, there is room in the table. -/
theorem vsetRoom_unlimited (h : vs.Ok vhash) : ∃ vs', vsetRoom vhash .unlimited vs = some vs' := by
  rw [vsetRoom]
  split
  · have hroom := h.room
    obtain ⟨tab, hf, -⟩ := Probe.rehash_spec h.placed (show Probe.used vs.tab < vs.tab.length * 2 by omega)
    rw [vsetGrow, hf]
    exact ⟨_, rfl⟩
  · exact ⟨_, rfl⟩

/-- With memory, `vset_enter` fails only for an object that is in progress. -/
theorem vsetEnter_fails (h : vs.Ok vhash) (hkey : vkey p = some key) {ent : Int}
    (e : vsetEnter vhash .unlimited vs p = (ent, vs')) : ent < 0 ↔ vs.Mark key .PATH := by
  obtain ⟨vs₁, hr⟩ := vsetRoom_unlimited h
  obtain ⟨h₁, -, hmarks⟩ := vsetRoom_spec h hr
  obtain ⟨i, hi, hf, hslot, -⟩ := Probe.find_cases (k := key) h₁.placed h₁.room
  rw [← hmarks]
  simp only [vsetEnter, hkey, hr, hf] at e
  rcases hslot with ⟨s, hs, hm⟩ | ⟨hs, hm⟩
  · rw [hs] at e
    cases s with
    | PATH =>
      cases e
      exact iff_of_true (by decide) hm
    | DONE =>
      cases e
      exact iff_of_false (by decide) fun hp => VState.noConfusion (h₁.unique hm hp)
  · rw [hs] at e
    cases e
    exact iff_of_false (by decide) (hm _)

end

/-! ## `capn_validate` makes the tour -/

/-- The frames of a tour. -/
def frames (limit : Int) : List (Ptr × Nat) → List VFrame
  | [] => []
  | e :: es => ⟨e.1.withNesting (limit - (es.length + 1 : Nat) + 1), e.2, objectNchild e.1⟩ :: frames limit es

theorem frames_length (limit : Int) (es : List (Ptr × Nat)) : (frames limit es).length = es.length := by
  induction es with
  | nil => rfl
  | cons e es ih => rw [frames, List.length_cons, List.length_cons, ih]

/-- The objects that a tour is inside of are met, each one pointer after the next. -/
def Entered (c : Capn) (root : Addr) : List (Ptr × Nat) → Prop
  | [] => True
  | e :: es => Met c root e.1 (es.length + 1) ∧ Entered c root es

/-- The loop of `capn_validate` is where the tour is. -/
structure Tracks (vhash : VKey → Nat) (c : Capn) (root : Addr) (limit : Int) (v : Validation) (t : Tour) : Prop where
  same : SameMessage c v.capn
  used : v.capn.traversalUsed = c.traversalUsed + t.bytes
  ok : v.vs.Ok vhash
  stack : v.stack = frames limit t.path
  entered : Entered c root t.path
  distinct : (t.inside.map vkey).Nodup
  path : ∀ k, v.vs.Mark k .PATH ↔ ∃ p ∈ t.inside, vkey p = some k
  done : ∀ k, v.vs.Mark k .DONE ↔ ∃ p ∈ t.done, vkey p = some k

theorem Met.pointee {c : Capn} {root : Addr} {p : Ptr} {d : Nat} (h : Met c root p d) :
    (∃ a cost, pointee c a = some (p, cost)) ∧ p.type ≠ .NULL := by
  cases h with
  | root h hp => exact ⟨⟨_, _, h⟩, hp⟩
  | child _ _ _ h hp => exact ⟨⟨_, _, h⟩, hp⟩

theorem Met.key {c : Capn} {root : Addr} {p : Ptr} {d : Nat} (h : Met c root p d) : ∃ key, vkey p = some key := by
  obtain ⟨⟨a, cost, hp⟩, h0⟩ := h.pointee
  exact pointee_key hp h0

section

variable {vhash : VKey → Nat} {c : Capn} {root : Addr} {limit : Int} {v : Validation} {t t' : Tour}

theorem known_iff {q : Ptr} {key : VKey} (hkey : vkey q = some key) (ps : List Ptr) :
    Known q ps ↔ ∃ p ∈ ps, vkey p = some key := by rw [Known, hkey]

/-- An object that the tour is at has its frame on top. -/
theorem Tracks.top (h : Tracks vhash c root limit v t) {p : Ptr} {i : Nat} {rest : List (Ptr × Nat)}
    (hp : t.path = (p, i) :: rest) : v.stack =
      ⟨p.withNesting (limit - (rest.length + 1 : Nat) + 1), i, objectNchild p⟩ :: frames limit rest := by
  rw [h.stack, hp, frames]

theorem Tracks.met (h : Tracks vhash c root limit v t) {p : Ptr} {i : Nat} {rest : List (Ptr × Nat)}
    (hp : t.path = (p, i) :: rest) : Met c root p (rest.length + 1) ∧ Entered c root rest := by
  have := h.entered
  rwa [hp] at this

/-- A tour that is not stuck goes on to its end. -/
theorem Tracks.goes (h : Tracks vhash c root limit v t) (hc : t.Clear c) : t.path = [] ∨ ∃ t', Tour.Step c t t' := by
  obtain ⟨path, done, n⟩ := t
  rcases path with _ | ⟨⟨p, i⟩, rest⟩
  · exact .inl rfl
  refine .inr ?_
  by_cases hi : objectNchild p ≤ i
  · exact ⟨_, .leave hi⟩
  rw [Int.not_le] at hi
  obtain ⟨⟨b, cost', hpt⟩, -⟩ := (h.met rfl).1.pointee
  obtain ⟨a, ha, -⟩ := pointee_slot hpt hi
  by_cases h0 : c.load64 a = 0
  · exact ⟨_, .null hi ha h0⟩
  obtain ⟨q, cost, hq, hn, hnot⟩ := hc p i rest a rfl hi ha h0
  by_cases hdone : Known q done
  · exact ⟨_, .pass hi ha h0 hq hn hnot hdone⟩
  · exact ⟨_, .enter hi ha h0 hq hn hnot hdone⟩

/-- Where the loop looks at a slot. -/
theorem validateStep_slot (h : Tracks vhash c root limit v t) {p : Ptr} {i : Nat} {rest : List (Ptr × Nat)}
    (hp : t.path = (p, i) :: rest) (hi : (i : Int) < objectNchild p) {a : Addr}
    (ha : childSlot p i = some (some a.seg, some a)) (h0 : c.load64 a ≠ 0) {f : VFrame}
    (hf : f = ⟨p.withNesting (limit - (rest.length + 1 : Nat) + 1), i, objectNchild p⟩) {child : Read}
    (hchild : child = readPtr v.capn (some a.seg) (some a) (hopRemaining v.capn f.p)) {ent : Int} {vs : VSet}
    (hent : vsetEnter vhash .unlimited v.vs child.ptr = (ent, vs)) :
    validateStep vhash .unlimited limit v =
      if child.ptr.type = .NULL then .done (-1, child.capn)
      else if ent < 0 then .done (-1, child.capn)
      else if 0 < ent then .next { v with capn := child.capn, vs := vs, stack := { f with idx := i + 1 } :: frames limit rest }
      else pushChild .unlimited limit
        { v with capn := child.capn, vs := vs, stack := { f with idx := i + 1 } :: frames limit rest } child.ptr := by
  obtain ⟨⟨b, cost', hpt⟩, -⟩ := (h.met hp).1.pointee
  obtain ⟨a', ha', hb⟩ := pointee_slot hpt hi
  simp only [ha, Option.some.injEq, Prod.mk.injEq] at ha'
  obtain ⟨-, rfl⟩ := ha'
  have hnull : ptrWordNull v.capn (some a.seg) (some a) = some false := by
    rw [ptrWordNull, if_pos ((h.same.boundsOk _ _ _).mpr hb), Option.map_some, h.same.load64]
    exact congrArg some (beq_false_of_ne h0)
  rw [validateStep, h.top hp, ← hf]
  have hidx : f.idx = i := by rw [hf]
  have hn : f.nchild = objectNchild p := by rw [hf]
  have hslot : childSlot f.p f.idx = some (some a.seg, some a) := by rw [hidx, hf, childSlot_withNesting, ha]
  simp only [hidx] at hslot
  simp only [hidx, hn, if_neg (Int.not_le.mpr hi), hslot, hnull, ← hchild, hent]

/-- A tour that is stuck makes `capn_validate` fail. -/
theorem Tracks.stuck (h : Tracks vhash c root limit v t) (hc : ¬ t.Clear c) :
    ∃ r, validateStep vhash .unlimited limit v = .done r ∧ r.1 = -1 := by
  simp only [Tour.Clear, not_forall] at hc
  obtain ⟨p, i, rest, a, hp, hi, ha, h0, hno⟩ := hc
  obtain ⟨ent, vs, hent⟩ : ∃ ent vs, vsetEnter vhash .unlimited v.vs (readPtr v.capn (some a.seg) (some a)
    (hopRemaining v.capn (p.withNesting (limit - (rest.length + 1 : Nat) + 1)))).ptr = (ent, vs) := ⟨_, _, rfl⟩
  rw [validateStep_slot h hp hi ha h0 rfl rfl hent]
  by_cases hnull : (readPtr v.capn (some a.seg) (some a)
      (hopRemaining v.capn (p.withNesting (limit - (rest.length + 1 : Nat) + 1)))).ptr.type = .NULL
  · exact ⟨_, if_pos hnull, rfl⟩
  rw [if_neg hnull]
  obtain ⟨seg, off, q, cost, -, -, hd, -, hq, hn, hptr⟩ := readPtr_ne_null hnull
  cases hd
  rw [pointee_congr h.same.segs] at hq
  obtain ⟨key, hkey⟩ := pointee_key hq hn
  have hknown : Known q t.inside := by
    by_contra hnot
    exact hno ⟨q, cost, hq, hn, hnot⟩
  have hneg : ent < 0 := by
    rw [hptr] at hent
    exact (vsetEnter_fails h.ok ((vkey_withNesting _ _).trans hkey) hent).mpr
      ((h.path key).mpr ((known_iff hkey _).mp hknown))
  exact ⟨_, if_pos hneg, rfl⟩

/-- The child that the tour comes to, as the loop reads it. -/
theorem Tracks.read (h : Tracks vhash c root limit v t) {p q : Ptr} {i : Nat} {rest : List (Ptr × Nat)}
    (hp : t.path = (p, i) :: rest) (hi : (i : Int) < objectNchild p) {a : Addr}
    (ha : childSlot p i = some (some a.seg, some a)) {cost : Nat} (hq : pointee c a = some (q, cost))
    (hn : q.type ≠ .NULL) (hdepth : ∀ p d, Met c root p d → (d : Int) ≤ limit)
    (hbudget : c.traversalUsed + (t.bytes + cost) ≤ budget c) :
    Met c root q (rest.length + 1 + 1) ∧ ((rest.length + 1 : Nat) : Int) < limit ∧
      (readPtr v.capn (some a.seg) (some a)
        (hopRemaining v.capn (p.withNesting (limit - (rest.length + 1 : Nat) + 1)))).ptr =
          q.withNesting (limit - (rest.length + 1 : Nat)) ∧
      (readPtr v.capn (some a.seg) (some a)
        (hopRemaining v.capn (p.withNesting (limit - (rest.length + 1 : Nat) + 1)))).capn =
          { v.capn with traversalUsed := c.traversalUsed + (t.bytes + cost) } := by
  have hmet := (h.met hp).1
  have hchild : Met c root q (rest.length + 1 + 1) := .child hmet hi ha hq hn
  have hlt : ((rest.length + 1 : Nat) : Int) < limit := by
    have := hdepth _ _ hchild
    push_cast at this ⊢
    omega
  obtain ⟨⟨b, cost', hpt⟩, -⟩ := hmet.pointee
  obtain ⟨a', ha', hb⟩ := pointee_slot hpt hi
  simp only [ha, Option.some.injEq, Prod.mk.injEq] at ha'
  obtain ⟨-, rfl⟩ := ha'
  have hrem : hopRemaining v.capn (p.withNesting (limit - (rest.length + 1 : Nat) + 1)) =
      limit - (rest.length + 1 : Nat) := by
    rw [withNesting_pos (by omega), hopRemaining, if_pos rfl]
    show limit - _ + 1 - 1 = _
    omega
  have hbudget' : budget v.capn = budget c := by
    obtain ⟨u, e, hs⟩ := h.same
    rw [hs]
    rfl
  have haff : Affords v.capn cost := .inr (by rw [hbudget', h.used]; omega)
  have hread := @readPtr_eq v.capn a.seg a.off (limit - (rest.length + 1 : Nat)) (by omega)
    ((h.same.boundsOk _ _ _).mpr hb)
  have hq' : pointee v.capn ⟨a.seg, a.off⟩ = some (q, cost) := (pointee_congr h.same.segs a).trans hq
  simp only [hq', if_pos haff] at hread
  rw [hrem, hread]
  refine ⟨hchild, hlt, rfl, ?_⟩
  show { v.capn with traversalUsed := v.capn.traversalUsed + cost } = _
  rw [h.used, Nat.add_assoc]

theorem SameMessage.used {c c' : Capn} (h : SameMessage c c') (n : Nat) : SameMessage c { c' with traversalUsed := n } := by
  obtain ⟨u, e, rfl⟩ := h
  exact ⟨n, e, rfl⟩

/-- A frame is left. -/
theorem Tracks.leave {p : Ptr} {i : Nat} {rest : List (Ptr × Nat)} {done : List Ptr} {n : Nat}
    (h : Tracks vhash c root limit v ⟨(p, i) :: rest, done, n⟩) (hi : objectNchild p ≤ i) :
    ∃ v', validateStep vhash .unlimited limit v = .next v' ∧ Tracks vhash c root limit v' ⟨rest, p :: done, n⟩ := by
  obtain ⟨hmet, hrest⟩ := h.met rfl
  obtain ⟨key, hkey⟩ := hmet.key
  have hmark : v.vs.Mark key .PATH := (h.path key).mpr ⟨p, List.mem_cons_self, hkey⟩
  obtain ⟨hok, hmarks⟩ := vsetLeave_spec (p := p.withNesting (limit - (rest.length + 1 : Nat) + 1)) h.ok
    ((vkey_withNesting _ _).trans hkey) hmark
  have hdistinct : (vkey p :: (rest.map Prod.fst).map vkey).Nodup := h.distinct
  obtain ⟨hnot, hnodup⟩ := List.nodup_cons.mp hdistinct
  refine ⟨⟨v.capn, vsetLeave vhash v.vs (p.withNesting (limit - (rest.length + 1 : Nat) + 1)), frames limit rest, v.sc⟩,
    ?_, h.same, h.used, hok, rfl, hrest, hnodup, fun k => ?_, fun k => ?_⟩
  · rw [validateStep, h.top rfl]
    exact if_pos hi
  · rw [hmarks, h.path]
    constructor
    · rintro (⟨-, e⟩ | ⟨hne, q, hq, hk⟩)
      · cases e
      · rcases List.mem_cons.mp hq with rfl | hq
        · exact absurd (Option.some.inj (hk.symm.trans hkey)) hne
        · exact ⟨q, hq, hk⟩
    · rintro ⟨q, hq, hk⟩
      refine .inr ⟨?_, q, List.mem_cons_of_mem _ hq, hk⟩
      rintro rfl
      exact hnot (List.mem_map.mpr ⟨q, hq, hk.trans hkey.symm⟩)
  · rw [hmarks, h.done]
    constructor
    · rintro (⟨rfl, -⟩ | ⟨-, q, hq, hk⟩)
      · exact ⟨p, List.mem_cons_self, hkey⟩
      · exact ⟨q, List.mem_cons_of_mem _ hq, hk⟩
    · rintro ⟨q, hq, hk⟩
      by_cases hkk : k = key
      · exact .inl ⟨hkk, rfl⟩
      · rcases List.mem_cons.mp hq with rfl | hq
        · exact absurd (Option.some.inj (hk.symm.trans hkey)) hkk
        · exact .inr ⟨hkk, q, hq, hk⟩

/-- A child is passed. -/
theorem Tracks.next {p : Ptr} {i : Nat} {rest : List (Ptr × Nat)} {done : List Ptr} {n m : Nat}
    (h : Tracks vhash c root limit v ⟨(p, i) :: rest, done, n⟩) {capn : Capn} {vs : VSet} {sc : Nat}
    (hsame : SameMessage c capn) (hused : capn.traversalUsed = c.traversalUsed + m) (hok : vs.Ok vhash)
    (hmarks : ∀ k s, vs.Mark k s ↔ v.vs.Mark k s) : Tracks vhash c root limit
      ⟨capn, vs, ⟨p.withNesting (limit - (rest.length + 1 : Nat) + 1), i + 1, objectNchild p⟩ :: frames limit rest, sc⟩
      ⟨(p, i + 1) :: rest, done, m⟩ :=
  ⟨hsame, hused, hok, rfl, h.entered, h.distinct, fun k => (hmarks k _).trans (h.path k),
    fun k => (hmarks k _).trans (h.done k)⟩

/-- The frame of a child is pushed. -/
theorem pushChild_frames {es : List (Ptr × Nat)} (hlt : (es.length : Int) < limit) {q : Ptr} (hq : 0 ≤ objectNchild q)
    (capn : Capn) (vs : VSet) (sc₀ : Nat) : ∃ sc,
      pushChild .unlimited limit ⟨capn, vs, frames limit es, sc₀⟩ (q.withNesting (limit - es.length)) =
        .next ⟨capn, vs, frames limit ((q, 0) :: es), sc⟩ := by
  have hsc : ∃ sc, growStack .unlimited (frames limit es).length sc₀ = some sc := by
    rw [growStack]
    split
    · exact ⟨_, rfl⟩
    · exact ⟨_, rfl⟩
  obtain ⟨sc, hsc⟩ := hsc
  have hlen : ¬ limit ≤ (frames limit es).length := by
    rw [frames_length]
    omega
  have hrem : limit - (es.length + 1 : Nat) + 1 = limit - es.length := by omega
  refine ⟨sc, ?_⟩
  rw [frames, hrem]
  simp only [pushChild, if_neg hlen, hsc, objectNchild_withNesting, if_neg (Int.not_lt.mpr hq)]

/-- **One step** of the tour is one iteration of the loop. -/
theorem Tracks.step (h : Tracks vhash c root limit v t) (hs : Tour.Step c t t')
    (hdepth : ∀ p d, Met c root p d → (d : Int) ≤ limit) (hbudget : c.traversalUsed + t'.bytes ≤ budget c) :
    ∃ v', validateStep vhash .unlimited limit v = .next v' ∧ Tracks vhash c root limit v' t' := by
  cases hs with
  | leave hi => exact h.leave hi
  | @null p i rest done n a hi ha h0 =>
    obtain ⟨⟨b, cost', hpt⟩, -⟩ := (h.met rfl).1.pointee
    obtain ⟨a', ha', hb⟩ := pointee_slot hpt hi
    simp only [ha, Option.some.injEq, Prod.mk.injEq] at ha'
    obtain ⟨-, rfl⟩ := ha'
    have hnull : ptrWordNull v.capn (some a.seg) (some a) = some true := by
      rw [ptrWordNull, if_pos ((h.same.boundsOk _ _ _).mpr hb), Option.map_some, h.same.load64, h0]
      rfl
    refine ⟨⟨v.capn, v.vs, ⟨p.withNesting (limit - (rest.length + 1 : Nat) + 1), i + 1, objectNchild p⟩ :: frames limit rest,
      v.sc⟩, ?_, h.next h.same h.used h.ok fun _ _ => Iff.rfl⟩
    rw [validateStep, h.top rfl]
    simp only [if_neg (Int.not_le.mpr hi), childSlot_withNesting, ha, hnull]
  | @pass p q i rest done n cost a hi ha h0 hq hn hnot hdone =>
    obtain ⟨-, -, hptr, hcapn⟩ := h.read rfl hi ha hq hn hdepth hbudget
    obtain ⟨key, hkey⟩ := pointee_key hq hn
    obtain ⟨ent, vs, hent⟩ : ∃ ent vs, vsetEnter vhash .unlimited v.vs
      (q.withNesting (limit - (rest.length + 1 : Nat))) = (ent, vs) := ⟨_, _, rfl⟩
    have hkey' : vkey (q.withNesting (limit - (rest.length + 1 : Nat))) = some key := (vkey_withNesting _ _).trans hkey
    have hmark : v.vs.Mark key .DONE := (h.done key).mpr ((known_iff hkey _).mp hdone)
    have hneg : ¬ ent < 0 := fun hlt =>
      VState.noConfusion (h.ok.unique ((vsetEnter_fails h.ok hkey' hent).mp hlt) hmark)
    obtain ⟨hok, hcase⟩ := (vsetEnter_spec h.ok hkey' hent).resolve_left hneg
    rcases hcase with ⟨-, hnew, -⟩ | ⟨hpos, -, hmarks⟩
    · exact absurd hmark (hnew _)
    rw [← hptr] at hent
    rw [validateStep_slot h rfl hi ha h0 rfl rfl hent, hptr, type_withNesting, if_neg hn, if_neg hneg, if_pos hpos, hcapn]
    exact ⟨_, rfl, h.next (h.same.used _) rfl hok hmarks⟩
  | @enter p q i rest done n cost a hi ha h0 hq hn hnot hnew =>
    obtain ⟨hmet, hlt, hptr, hcapn⟩ := h.read rfl hi ha hq hn hdepth hbudget
    obtain ⟨key, hkey⟩ := pointee_key hq hn
    obtain ⟨ent, vs, hent⟩ : ∃ ent vs, vsetEnter vhash .unlimited v.vs
      (q.withNesting (limit - (rest.length + 1 : Nat))) = (ent, vs) := ⟨_, _, rfl⟩
    have hkey' : vkey (q.withNesting (limit - (rest.length + 1 : Nat))) = some key := (vkey_withNesting _ _).trans hkey
    have hpath : ¬ v.vs.Mark key .PATH := fun hm => hnot ((known_iff hkey _).mpr ((h.path key).mp hm))
    have hneg : ¬ ent < 0 := fun hlt => hpath ((vsetEnter_fails h.ok hkey' hent).mp hlt)
    obtain ⟨hok, hcase⟩ := (vsetEnter_spec h.ok hkey' hent).resolve_left hneg
    rcases hcase with ⟨hzero, -, hmarks⟩ | ⟨-, hdone, -⟩
    · rw [← hptr] at hent
      obtain ⟨sc, hpush⟩ := @pushChild_frames limit ((p, i + 1) :: rest) hlt _ (pointee_nchild hq).1
        { v.capn with traversalUsed := c.traversalUsed + (n + cost) } vs v.sc
      rw [validateStep_slot h rfl hi ha h0 rfl rfl hent, hptr, type_withNesting, if_neg hn, if_neg hneg,
        if_neg (by omega), hcapn]
      refine ⟨⟨{ v.capn with traversalUsed := c.traversalUsed + (n + cost) }, vs,
        frames limit ((q, 0) :: (p, i + 1) :: rest), sc⟩, ?_, h.same.used _, rfl, hok, rfl, ⟨hmet, h.entered⟩, ?_,
        fun k => ?_, fun k => ?_⟩
      · exact hpush
      · refine List.nodup_cons.mpr ⟨fun hm => ?_, h.distinct⟩
        obtain ⟨p', hp', hk⟩ := List.mem_map.mp hm
        exact hnot ⟨p', hp', hk⟩
      · rw [hmarks, h.path]
        constructor
        · rintro (⟨rfl, -⟩ | ⟨-, p', hp', hk⟩)
          · exact ⟨q, List.mem_cons_self, hkey⟩
          · exact ⟨p', List.mem_cons_of_mem _ hp', hk⟩
        · rintro ⟨p', hp', hk⟩
          by_cases hkk : k = key
          · exact .inl ⟨hkk, rfl⟩
          · rcases List.mem_cons.mp hp' with rfl | hp'
            · exact absurd (Option.some.inj (hk.symm.trans hkey)) hkk
            · exact .inr ⟨hkk, p', hp', hk⟩
      · rw [hmarks, h.done]
        constructor
        · rintro (⟨-, e⟩ | ⟨-, hd⟩)
          · cases e
          · exact hd
        · rintro ⟨p', hp', hk⟩
          refine .inr ⟨?_, p', hp', hk⟩
          rintro rfl
          exact hnew ((known_iff hkey _).mpr ⟨p', hp', hk⟩)
    · exact absurd ((known_iff hkey _).mpr ((h.done key).mp hdone)) hnew

end

/-! ## The whole tour -/

/-- The steps that `n` levels of objects can take. -/
def levelSteps : Nat → Nat
  | 0 => 0
  | n + 1 => 2 ^ 31 * (levelSteps n + 1) + 1

/-- The steps that are left of a tour. -/
def stepsLeft (limit : Nat) : List (Ptr × Nat) → Nat
  | [] => 0
  | e :: es =>
    (objectNchild e.1 - e.2).toNat * (levelSteps (limit - (es.length + 1)) + 1) + 1 + stepsLeft limit es

/-- A child that is seen. -/
theorem stepsLeft_next (n : Nat) {p : Ptr} {i : Nat} (hi : (i : Int) < objectNchild p) (es : List (Ptr × Nat)) :
    stepsLeft n ((p, i + 1) :: es) + levelSteps (n - (es.length + 1)) < stepsLeft n ((p, i) :: es) := by
  have hsucc : (objectNchild p - i).toNat = (objectNchild p - (i + 1 : Nat)).toNat + 1 := by omega
  simp only [stepsLeft, hsucc, Nat.add_mul, Nat.one_mul]
  omega

/-- Every step leaves fewer steps. -/
theorem Tour.Step.stepsLeft_lt {c : Capn} {root : Addr} {limit : Int} {t t' : Tour} (hs : Tour.Step c t t')
    (hentered : Entered c root t.path) (hdepth : ∀ p d, Met c root p d → (d : Int) ≤ limit) :
    stepsLeft limit.toNat t'.path < stepsLeft limit.toNat t.path := by
  cases hs with
  | @leave p i rest done n hi =>
    show stepsLeft limit.toNat rest < stepsLeft limit.toNat ((p, i) :: rest)
    rw [stepsLeft]
    omega
  | null hi ha h0 =>
    have := stepsLeft_next limit.toNat hi
    exact Nat.lt_of_le_of_lt (Nat.le_add_right _ _) (this _)
  | pass hi ha h0 hq hn hnot hdone =>
    have := stepsLeft_next limit.toNat hi
    exact Nat.lt_of_le_of_lt (Nat.le_add_right _ _) (this _)
  | @enter p q i rest done n cost a hi ha h0 hq hn hnot hnew =>
    have hd := hdepth _ _ (.child hentered.1 hi ha hq hn)
    obtain ⟨m, hm⟩ : ∃ m, limit.toNat - (rest.length + 1) = m + 1 := ⟨limit.toNat - (rest.length + 1) - 1, by omega⟩
    have hnext := stepsLeft_next limit.toNat hi rest
    have hchild : (objectNchild q - (0 : Nat)).toNat * (levelSteps m + 1) ≤ 2 ^ 31 * (levelSteps m + 1) :=
      Nat.mul_le_mul_right _ (by have := (pointee_nchild hq).2; omega)
    have hm' : limit.toNat - (((p, i + 1) :: rest).length + 1) = m := by
      show limit.toNat - (rest.length + 1 + 1) = m
      omega
    rw [hm, levelSteps] at hnext
    show stepsLeft limit.toNat ((q, 0) :: (p, i + 1) :: rest) < stepsLeft limit.toNat ((p, i) :: rest)
    rw [stepsLeft, hm']
    simp only at hchild ⊢
    omega

section

variable {vhash : VKey → Nat} {c : Capn} {root : Addr} {limit : Int} {v : Validation} {t : Tour} {q : Ptr} {cost : Nat}

/-- A tour that is never stuck ends, and so does the loop. -/
theorem Tracks.ends (h : Tracks vhash c root limit v t) (hdepth : ∀ p d, Met c root p d → (d : Int) ≤ limit)
    (hbudget : ∀ t, Toured c q cost t → c.traversalUsed + t.bytes ≤ budget c)
    (hclear : ∀ t, Toured c q cost t → t.Clear c) (ht : Toured c q cost t) :
    ∃ d, Loop.Ends (validateStep vhash .unlimited limit) v (0, d) := by
  induction hm : stepsLeft limit.toNat t.path using Nat.strongRecOn generalizing v t with
  | ind m ih =>
    rcases h.goes (hclear t ht) with hnil | ⟨t', hs⟩
    · refine ⟨v.capn, (Loop.ends_done ?_).mpr rfl⟩
      rw [validateStep, h.stack, hnil, frames]
    · have ht' : Toured c q cost t' := Relation.ReflTransGen.tail ht hs
      obtain ⟨v', hv, h'⟩ := h.step hs hdepth (hbudget t' ht')
      obtain ⟨d, hd⟩ := ih _ (hm ▸ hs.stepsLeft_lt h.entered hdepth) h' ht' rfl
      exact ⟨d, (Loop.ends_next hv).mpr hd⟩

/-- The loop gets to wherever the tour does. -/
theorem Tracks.reaches (h : Tracks vhash c root limit v ⟨[(q, 0)], [], cost⟩)
    (hdepth : ∀ p d, Met c root p d → (d : Int) ≤ limit)
    (hbudget : ∀ t, Toured c q cost t → c.traversalUsed + t.bytes ≤ budget c) (ht : Toured c q cost t) :
    ∃ v', Loop.Path (validateStep vhash .unlimited limit) v v' ∧ Tracks vhash c root limit v' t := by
  induction ht with
  | refl => exact ⟨v, .refl, h⟩
  | tail ht hs ih =>
    obtain ⟨v', hp, h'⟩ := ih
    obtain ⟨v'', hv, h''⟩ := h'.step hs hdepth (hbudget _ (Relation.ReflTransGen.tail ht hs))
    exact ⟨v'', hp.tail hv, h''⟩

/-- The tour is not stuck if the loop ends well. -/
theorem Tracks.clear (h : Tracks vhash c root limit v ⟨[(q, 0)], [], cost⟩)
    (hdepth : ∀ p d, Met c root p d → (d : Int) ≤ limit)
    (hbudget : ∀ t, Toured c q cost t → c.traversalUsed + t.bytes ≤ budget c) {d : Capn}
    (hend : Loop.Ends (validateStep vhash .unlimited limit) v (0, d)) (ht : Toured c q cost t) : t.Clear c := by
  obtain ⟨v', hp, h'⟩ := h.reaches hdepth hbudget ht
  by_contra hstuck
  obtain ⟨r, hr, hneg⟩ := h'.stuck hstuck
  have := (Loop.ends_done hr).mp (hp.ends hend)
  rw [this] at hneg
  cases hneg

end

/-! ## Messages -/

/-- Fresh bytes are in bounds. -/
theorem newData_bounds {c c' : Capn} {n s : Nat} {a : Addr} (h : newData c n = some (c', s, a)) :
    a.seg = s ∧ 0 ≤ a.off ∧ a.off + n ≤ (c'.seg s).len := by
  have hbump : ∀ {d : Capn} {i : Nat}, i < d.segs.length → ((bump d i n).seg i).len = (d.seg i).len + n := by
    intro d i hi
    rw [bump, Capn.seg_setSeg_self _ hi]
  rw [newData] at h
  split at h
  · rename_i i hi
    obtain ⟨hlt, -⟩ := List.findIdx?_eq_some_iff_getElem.mp hi
    cases h
    refine ⟨rfl, Int.natCast_nonneg _, ?_⟩
    rw [hbump hlt]
    exact Int.le_refl _
  · split at h
    · cases h
    split at h
    · cases h
    · rename_i t _
      cases h
      have hlt : c.segnum < (capnAppendSegment c t).segs.length := by
        simp only [capnAppendSegment, List.length_append, List.length_singleton, Capn.segnum]
        omega
      have hseg : (capnAppendSegment c t).seg c.segnum = t := by
        rw [Capn.seg_of_lt hlt]
        exact List.getElem_concat_length rfl _
      refine ⟨rfl, Int.natCast_nonneg _, ?_⟩
      rw [hbump hlt, hseg]
      exact Int.le_refl _

/-- The root word is in bounds. -/
theorem capnRoot_bounds {c : Capn} {s : Nat} {a : Addr} (hs : (capnRoot c).2.seg = some s)
    (ha : (capnRoot c).2.data = some a) : a.seg = s ∧ boundsOk (capnRoot c).1 (some a.seg) (some a) 8 := by
  rw [capnRoot] at hs ha ⊢
  cases hl : lookupSegment c 0 with
  | some seg =>
    have hseg : seg = 0 ∧ 0 < c.segnum := by
      rw [lookupSegment] at hl
      split at hl
      · cases hl
        exact ⟨rfl, by assumption⟩
      · cases hl
    obtain ⟨rfl, hpos⟩ := hseg
    simp only [hl] at hs ha ⊢
    split at hs
    · cases hs
    rename_i hcap
    rw [if_neg hcap] at ha ⊢
    cases hs
    cases ha
    refine ⟨rfl, boundsOk_iff.mpr ⟨0, 0, rfl, rfl, Int.le_refl 0, ?_⟩⟩
    simp only
    split
    · rw [Capn.seg_setSeg_self _ hpos]
      exact Int.le_refl 8
    · push_cast
      omega
  | none =>
    simp only [hl] at hs ha ⊢
    cases hnew : newData c 8 with
    | none =>
      rw [hnew] at hs
      cases hs
    | some x =>
      obtain ⟨c', seg, d⟩ := x
      rw [hnew] at hs ha
      simp only at hs ha ⊢
      split at hs
      · cases hs
      rename_i hcap
      rw [if_neg hcap] at ha ⊢
      cases hs
      cases ha
      obtain ⟨rfl, h0, hlen⟩ := newData_bounds hnew
      refine ⟨rfl, boundsOk_iff.mpr ⟨a.seg, a.off, rfl, rfl, h0, ?_⟩⟩
      simp only
      split
      · exact absurd hlen (by omega)
      · exact hlen

section

variable {vhash : VKey → Nat} {c : Capn} {a : Addr}

/-- What the loop starts with. -/
theorem tracks_start {c : Capn} {limit : Int} {q : Ptr} {cost : Nat} {key : VKey} {capn : Capn} {vs vs' : VSet}
    (hq : pointee c a = some (q, cost)) (hn : q.type ≠ .NULL) (hkey : vkey q = some key) (hsame : SameMessage c capn)
    (hused : capn.traversalUsed = c.traversalUsed + cost) (hempty : ∀ k s, ¬ vs.Mark k s) (hok : vs'.Ok vhash)
    (hmarks : vs.Marks vs' key .PATH) (sc : Nat) : Tracks vhash c a limit
      ⟨capn, vs', [⟨q.withNesting limit, 0, objectNchild q⟩], sc⟩ ⟨[(q, 0)], [], cost⟩ := by
  refine ⟨hsame, hused, hok, ?_, ⟨.root hq hn, trivial⟩, List.pairwise_singleton _ _, fun k => ?_, fun k => ?_⟩
  · show _ = [(⟨q.withNesting (limit - (0 + 1 : Nat) + 1), 0, objectNchild q⟩ : VFrame)]
    rw [show limit - (0 + 1 : Nat) + 1 = limit by omega]
  · rw [hmarks]
    constructor
    · rintro (⟨rfl, -⟩ | ⟨-, hm⟩)
      · exact ⟨q, List.mem_singleton_self q, hkey⟩
      · exact absurd hm (hempty _ _)
    · rintro ⟨p, hp, hk⟩
      cases List.mem_singleton.mp hp
      exact .inl ⟨Option.some.inj (hk.symm.trans hkey), rfl⟩
  · rw [hmarks]
    constructor
    · rintro (⟨-, e⟩ | ⟨-, hm⟩)
      · cases e
      · exact absurd hm (hempty _ _)
    · rintro ⟨p, hp, -⟩
      cases hp

/-- `capn_validate` of a root pointer that decodes: the loop. -/
theorem validateStart_next {s : Nat} (hs : (capnRoot c).2.seg = some s) (ha : (capnRoot c).2.data = some a)
    (h0 : (capnRoot c).1.load64 a ≠ 0) {q : Ptr} {cost : Nat} (hq : pointee (capnRoot c).1 a = some (q, cost))
    (hn : q.type ≠ .NULL) (hbudget : (capnRoot c).1.traversalUsed + cost ≤ budget (capnRoot c).1) :
    ∃ v, validateStart vhash .unlimited c = .next (sessionNesting c, v) ∧
      Tracks vhash (capnRoot c).1 a (sessionNesting c) v ⟨[(q, 0)], [], cost⟩ := by
  obtain ⟨rfl, hb⟩ := capnRoot_bounds hs ha
  have hpos := sessionNesting_pos c
  have hread := @readPtr_eq _ a.seg a.off (sessionNesting c) (by omega) hb
  have hq' : pointee (capnRoot c).1 ⟨a.seg, a.off⟩ = some (q, cost) := hq
  simp only [hq', if_pos (show Affords (capnRoot c).1 cost from .inr hbudget)] at hread
  have hnull : ptrWordNull (capnRoot c).1 (some a.seg) (some a) = some false := by
    rw [ptrWordNull, if_pos hb, Option.map_some]
    exact congrArg some (beq_false_of_ne h0)
  obtain ⟨key, hkey⟩ := pointee_key hq hn
  obtain ⟨vs, hvs⟩ : ∃ vs, vsetInit .unlimited = some vs := ⟨_, rfl⟩
  obtain ⟨hok, hempty⟩ := @vsetInit_spec vhash .unlimited vs hvs
  have hkey' : vkey (q.withNesting (sessionNesting c)) = some key := (vkey_withNesting _ _).trans hkey
  obtain ⟨ent, vs', hent⟩ : ∃ ent vs', vsetEnter vhash .unlimited vs (q.withNesting (sessionNesting c)) = (ent, vs') :=
    ⟨_, _, rfl⟩
  have hneg : ¬ ent < 0 := fun hlt => hempty _ _ ((vsetEnter_fails hok hkey' hent).mp hlt)
  obtain ⟨hok', hcase⟩ := (vsetEnter_spec hok hkey' hent).resolve_left hneg
  rcases hcase with ⟨rfl, -, hmarks⟩ | ⟨-, hdone, -⟩
  · refine ⟨_, ?_, tracks_start hq hn hkey ⟨_, (capnRoot c).1.decodeErr, rfl⟩ rfl hempty hok' hmarks 64⟩
    have hnchild : ¬ objectNchild q < 0 := Int.not_lt.mpr (pointee_nchild hq).1
    obtain ⟨c₁, p, hroot⟩ : ∃ c₁ p, capnRoot c = (c₁, p) := ⟨_, _, rfl⟩
    simp only [hroot] at hs ha hnull hread
    have ha' : p.data = some ⟨a.seg, a.off⟩ := ha
    simp only [validateStart, hroot, hs, ha, reduceCtorEq, or_self, if_false, hnull]
    have hread' : readPtr c₁ (some a.seg) (some a) (sessionNesting c) = _ := hread
    rw [hread']
    simp only [type_withNesting, if_neg hn, hvs, objectNchild_withNesting, if_neg hnchild, hent, ne_eq,
      not_true_eq_false, if_false]
    rfl
  · exact absurd hdone (hempty _ _)

/-- Without a root, or with a null one, there is nothing to validate. -/
theorem validateStart_null (h : (capnRoot c).2.seg = none ∨ (capnRoot c).2.data = none ∨
    (capnRoot c).2.data = some a ∧ (capnRoot c).1.load64 a = 0) :
    validateStart vhash .unlimited c = .done (0, (capnRoot c).1) := by
  by_cases hnone : (capnRoot c).2.seg = none ∨ (capnRoot c).2.data = none
  · simp only [validateStart]
    rw [if_pos hnone]
  · obtain ⟨s, hs⟩ := Option.ne_none_iff_exists'.mp fun e => hnone (.inl e)
    obtain ⟨hd, h0⟩ := (h.resolve_left fun e => hnone (.inl e)).resolve_left fun e => hnone (.inr e)
    obtain ⟨rfl, hb⟩ := capnRoot_bounds hs hd
    have hnull : ptrWordNull (capnRoot c).1 (capnRoot c).2.seg (capnRoot c).2.data = some true := by
      rw [hs, hd, ptrWordNull, if_pos hb, Option.map_some, h0]
      rfl
    simp only [validateStart]
    rw [if_neg hnone, hnull]

/-- A root pointer that does not decode. -/
theorem validateStart_broken {s : Nat} (hs : (capnRoot c).2.seg = some s) (ha : (capnRoot c).2.data = some a)
    (h0 : (capnRoot c).1.load64 a ≠ 0)
    (hbroken : ∀ q cost, pointee (capnRoot c).1 a = some (q, cost) → q.type = .NULL) :
    ∃ d, validateStart vhash .unlimited c = .done (-1, d) := by
  obtain ⟨rfl, hb⟩ := capnRoot_bounds hs ha
  have hnull : ptrWordNull (capnRoot c).1 (capnRoot c).2.seg (capnRoot c).2.data = some false := by
    rw [hs, ha, ptrWordNull, if_pos hb, Option.map_some]
    exact congrArg some (beq_false_of_ne h0)
  have hread : (readPtr (capnRoot c).1 (capnRoot c).2.seg (capnRoot c).2.data (sessionNesting c)).ptr.type = .NULL := by
    by_contra hne
    obtain ⟨seg, off, q, cost, -, -, hd, -, hq, hn, -⟩ := readPtr_ne_null hne
    cases ha.symm.trans hd
    exact hn (hbroken q cost hq)
  refine ⟨(readPtr (capnRoot c).1 (capnRoot c).2.seg (capnRoot c).2.data (sessionNesting c)).capn, ?_⟩
  simp only [validateStart]
  rw [if_neg (by rw [hs, ha]; simp only [reduceCtorEq, or_self, not_false_eq_true]), hnull]
  exact if_pos hread

theorem validates_done {r : Int × Capn} (h : validateStart vhash .unlimited c = .done r) :
    (∃ c', Validates vhash .unlimited c (0, c')) ↔ r.1 = 0 := by
  simp only [Validates, capnValidate, h, Option.map_some, Option.some.injEq, Prod.mk.injEq]
  constructor
  · rintro ⟨_, _, e, -⟩
    exact e
  · exact fun e => ⟨_, 0, e, rfl⟩

theorem validates_next {limit : Int} {v : Validation} (h : validateStart vhash .unlimited c = .next (limit, v)) :
    (∃ c', Validates vhash .unlimited c (0, c')) ↔ ∃ d, Loop.Ends (validateStep vhash .unlimited limit) v (0, d) := by
  simp only [Validates, capnValidate, h, Option.map_eq_some_iff]
  constructor
  · rintro ⟨_, fuel, ⟨rc, d⟩, hrun, e⟩
    cases e
    exact ⟨d, fuel, hrun⟩
  · rintro ⟨d, fuel, hrun⟩
    exact ⟨_, fuel, (0, d), hrun, rfl⟩

end

/-! ## An empty struct -/

/-- The sessions after a `capn_setp` that copies nothing. -/
def linked (w : World) (p : Ptr) (off : Int) (tgt : Ptr) : World :=
  ((capnSetp 0 w 0 p off 0 tgt).map Prod.snd).getD w

theorem call_linked {w : World} {p : Ptr} {off : Int} {tgt : Ptr}
    (h : (capnSetp 0 w 0 p off 0 tgt).map Prod.fst = some 0) : Call 0 w (linked w p off tgt) := by
  obtain ⟨r, hr, -⟩ := Option.map_eq_some_iff.mp h
  have : linked w p off tgt = r.2 := by rw [linked, hr]; rfl
  rw [this]
  exact .setp w p off 0 tgt r ⟨0, hr⟩

/-- A struct of one pointer, and an empty struct that is set into it. -/
def outerWorld : World := World.set (fun _ => capnInitMalloc) 0 (capnRoot capnInitMalloc).1
def outerStruct : Capn × Ptr := capnNewStruct (outerWorld 0) (some 0) 0 1
def rootedWorld : World := linked (outerWorld.set 0 outerStruct.1) (capnRoot capnInitMalloc).2 0 outerStruct.2
def emptyStruct : Capn × Ptr := capnNewStruct (rootedWorld 0) (some 0) 0 0
def tangledWorld : World := linked (rootedWorld.set 0 emptyStruct.1) outerStruct.2 0 emptyStruct.2
def tangled : Capn := tangledWorld 0

theorem tangled_built : Built tangled := by
  refine ⟨0, fun _ => capnInitMalloc, tangledWorld, rfl, ?_, rfl⟩
  have h1 : Call 0 (fun _ => capnInitMalloc) outerWorld := .root _
  have h2 : Call 0 outerWorld (outerWorld.set 0 outerStruct.1) := .newStruct _ (some 0) 0 1
  have h3 : Call 0 (outerWorld.set 0 outerStruct.1) rootedWorld := call_linked (by decide +kernel)
  have h4 : Call 0 rootedWorld (rootedWorld.set 0 emptyStruct.1) := .newStruct _ (some 0) 0 0
  have h5 : Call 0 (rootedWorld.set 0 emptyStruct.1) tangledWorld := call_linked (by decide +kernel)
  exact ((((Relation.ReflTransGen.single h1).tail h2).tail h3).tail h4).tail h5

/-- Where the empty struct is read: at the slot of the pointer to it. -/
def emptyPtr : Ptr := { type := .STRUCT, data := some ⟨0, 8⟩, seg := some 0 }

theorem tangled_outer : pointee (capnRoot tangled).1 (rootAddr tangled) = some (outerPtr, 8) := by decide +kernel

theorem tangled_empty : pointee (capnRoot tangled).1 ⟨0, 8⟩ = some (emptyPtr, 0) := by decide +kernel

theorem tangled_met {p : Ptr} {d : Nat} (h : Met (capnRoot tangled).1 (rootAddr tangled) p d) :
    p = outerPtr ∧ d = 1 ∨ p = emptyPtr ∧ d = 2 := by
  induction h with
  | root h hp =>
    rw [tangled_outer] at h
    cases h
    exact .inl ⟨rfl, rfl⟩
  | @child p q d i cost s a hm hi hs h hq ih =>
    rcases ih with ⟨rfl, rfl⟩ | ⟨rfl, rfl⟩
    · have hi0 : i = 0 := by
        change (i : Int) < 1 at hi
        omega
      rw [hi0] at hs
      cases hs
      have ha : pointee (capnRoot tangled).1 ⟨0, 8⟩ = some (q, cost) := h
      rw [tangled_empty] at ha
      cases ha
      exact .inr ⟨rfl, rfl⟩
    · change (i : Int) < 0 at hi
      omega

/-- The tour is stuck at the empty struct. -/
theorem tangled_toured {t : Tour} (h : Toured (capnRoot tangled).1 outerPtr 8 t) : t = ⟨[(outerPtr, 0)], [], 8⟩ := by
  have hslot : ∀ {a : Addr}, childSlot outerPtr 0 = some (some a.seg, some a) → a = ⟨0, 8⟩ := by
    intro a ha
    have hsome : (some (⟨0, 8⟩ : Addr)) = some a := congrArg Prod.snd (Option.some.inj ha)
    exact (Option.some.inj hsome).symm
  have hknown : ∀ {a : Addr} {q : Ptr} {cost : Nat}, childSlot outerPtr 0 = some (some a.seg, some a) →
      pointee (capnRoot tangled).1 a = some (q, cost) → Known q [outerPtr] := by
    intro a q cost ha hq
    rw [hslot ha, tangled_empty] at hq
    cases hq
    exact ⟨outerPtr, List.mem_singleton_self _, by decide⟩
  induction h with
  | refl => rfl
  | tail _ hs ih =>
    rw [ih] at hs
    cases hs with
    | leave h => exact absurd h (by decide)
    | null _ ha h0 =>
      rw [hslot ha] at h0
      exact absurd h0 (by decide +kernel)
    | pass _ ha _ hq _ hnot _ => exact absurd (hknown ha hq) hnot
    | enter _ ha _ hq _ hnot _ => exact absurd (hknown ha hq) hnot

theorem tangled_limits : WithinLimits (capnRoot tangled).1 (rootAddr tangled) (sessionNesting tangled) := by
  refine ⟨fun p d h => ?_, fun q cost t hq ht => ?_⟩
  · have hlim : (2 : Int) ≤ sessionNesting tangled := by decide +kernel
    rcases tangled_met h with ⟨-, rfl⟩ | ⟨-, rfl⟩
    · exact Int.le_trans (by decide) hlim
    · exact hlim
  · rw [tangled_outer] at hq
    cases hq
    rw [tangled_toured ht]
    decide +kernel

theorem Validates.unique {vhash : VKey → Nat} {alloc : VAlloc} {c : Capn} {r r' : Int × Capn}
    (h : Validates vhash alloc c r) (h' : Validates vhash alloc c r') : r = r' := by
  obtain ⟨n, hn⟩ := h
  obtain ⟨m, hm⟩ := h'
  simp only [capnValidate] at hn hm
  cases hs : validateStart vhash alloc c with
  | done x =>
    rw [hs] at hn hm
    exact Option.some.inj (hn.symm.trans hm)
  | next x =>
    rw [hs] at hn hm
    obtain ⟨x, hx, rfl⟩ := Option.map_eq_some_iff.mp hn
    obtain ⟨y, hy, rfl⟩ := Option.map_eq_some_iff.mp hm
    rw [Loop.Ends.unique ⟨n, hx⟩ ⟨m, hy⟩]

end Capnproto

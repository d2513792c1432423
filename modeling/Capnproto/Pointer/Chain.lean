import Mathlib.Logic.Relation
import Capnproto.Pointer.Bounds

/-!
# Chains of reads

A client of a loaded message calls `capn_root`, and `capn_getp` and
`capn_resolve` on the pointers that it holds (`Client.Step`). Whatever it calls,
the message stays as it is, the objects it gets lie inside their segments, and
no landing pad is read outside its segment (`reaches_inside`, by induction on the
run; `step_inside` for one call).
-/

namespace Capnproto

theorem InSegment.congr {c c' : Capn} {p : Ptr} (h : InSegment c p) (hs : c'.segs = c.segs) :
    InSegment c' p := by
  obtain ⟨seg, off, h⟩ := h
  exact ⟨seg, off, by simpa only [Capn.seg, hs] using h⟩

theorem WordInside.congr {c c' : Capn} {a : Addr} (h : WordInside c a) (hs : c'.segs = c.segs) :
    WordInside c' a := by
  simpa only [WordInside, Capn.seg, hs] using h

/-- The tag and the hops left do not matter to where an object is. -/
theorem inSegment_with {c : Capn} {p : Ptr} (t : Bool) (n : Int) (v : Bool) :
    InSegment c { p with hasPtrTag := t, nesting := n, nestingValid := v } ↔ InSegment c p := by
  simp only [InSegment, Ptr.lead, Ptr.extent]

theorem shape_tag {p : Ptr} (t : Bool) : ({ p with hasPtrTag := t } : Ptr).Shape ↔ p.Shape := by
  simp only [Ptr.Shape]

/-! ## Pointees -/

theorem load64_lt (c : Capn) (a : Addr) : c.load64 a < 2 ^ 64 := Mem.load64_lt _ _

theorem followFar_lt {c : Capn} {s seg : Nat} {d a : Addr} {val word : Nat} (hv : val < 2 ^ 64)
    (h : (followFar c s d val).hit = some (seg, a, word)) : word < 2 ^ 64 := by
  rw [followFar] at h
  split at h
  · simp only [lookupFar] at h
    split at h
    · cases h
    · split at h
      · cases h
      · cases h
        exact load64_lt c _
  · split at h
    · simp only [lookupDouble] at h
      split at h
      · cases h
      · split at h
        · cases h
        · split at h
          · cases h
          · split at h
            · cases h
            · cases h
              have := load64_lt c
              exact Nat.or_lt_two_pow (by omega) (this _)
    · cases h
      exact hv

/-- What a pointer word points at: a capability, or an object inside a segment. -/
theorem pointee_spec {c : Capn} {a : Addr} {p : Ptr} {cost : Nat} (h : pointee c a = some (p, cost)) :
    (p.type = .INTERFACE ∧ p.isListMember = false ∧ cost = 0) ∨
    (p.Shape ∧ InSegment c p ∧ cost = if p.extent = 0 ∧ 0 < p.len then p.len.toNat * 8 else p.extent) := by
  simp only [pointee] at h
  split at h
  · cases h
  rename_i seg d val hit
  have hval := followFar_lt (load64_lt c a) hit
  split at h
  · split at h
    · cases h
    · cases h
      exact .inl ⟨rfl, rfl, rfl⟩
  · obtain ⟨⟨q, n⟩, hq, e⟩ := Option.map_eq_some_iff.mp h
    cases e
    obtain ⟨hsh, -, hin, hn, -⟩ := decodeObject_spec hval hq
    refine .inr ⟨(shape_tag _).mpr hsh, (inSegment_with _ q.nesting q.nestingValid).mpr hin, ?_⟩
    rw [hn]
    rfl

/-- A pointer that stands for an object has it inside its segment. -/
def Inside (c : Capn) (p : Ptr) : Prop :=
  p.type ≠ .NULL → p.type ≠ .FAR_POINTER → p.type ≠ .INTERFACE → InSegment c p

theorem Inside.null (c : Capn) : Inside c {} := fun h => absurd rfl h

theorem withNesting_eq (p : Ptr) (rem : Int) :
    ∃ n v, p.withNesting rem = { p with nesting := n, nestingValid := v } := by
  rw [Ptr.withNesting]
  split
  · exact ⟨_, _, rfl⟩
  · exact ⟨p.nesting, p.nestingValid, rfl⟩

/-! ## One call -/

/-- A read of the message of `c`: it leaves the segments alone, its pointer is
inside them, and so are the landing pads it read. -/
structure Reads (c : Capn) (r : Read) : Prop where
  segs : r.capn.segs = c.segs
  ptr : Inside c r.ptr
  reads : ∀ a ∈ r.reads, WordInside c a

theorem reads_err {c : Capn} {s : Option Nat} {reads : List Addr} (h : ∀ a ∈ reads, WordInside c a) :
    Reads c (.err c s reads) := by
  refine ⟨?_, Inside.null c, h⟩
  rw [Read.err]
  split <;> rfl

theorem reads_readPtr (c : Capn) (s : Option Nat) (d : Option Addr) (rem : Int) :
    Reads c (readPtr c s d rem) := by
  rcases readPtr_cases c s d rem with ⟨reads, e, h⟩ | ⟨seg, off, p, cost, -, -, -, -, hp, -, e⟩
  · rw [e]
    exact reads_err h
  · rw [e]
    obtain ⟨n, v, hn⟩ := withNesting_eq p rem
    refine ⟨rfl, ?_, ?_⟩
    · intro h0 _ hi
      simp only [hn] at h0 hi ⊢
      rcases pointee_spec hp with ⟨ht, -⟩ | ⟨-, hin, -⟩
      · exact absurd ht hi
      · exact (inSegment_with p.hasPtrTag n v).mpr hin
    · intro a ha
      simp only at ha
      exact landingPads_inside ha

theorem reads_resolve {c : Capn} {p : Ptr} (h : Inside c p) : Reads c (capnResolve c p) := by
  rw [capnResolve]
  split
  · exact reads_readPtr c _ _ _
  · exact ⟨rfl, h, by simp⟩

theorem reads_slot (c : Capn) (seg : Option Nat) (data : Option Addr) (rem : Int) (resolve : Bool) :
    Reads c (getpSlot c seg data rem resolve) := by
  rw [getpSlot]
  split
  · exact reads_readPtr c _ _ _
  · exact ⟨rfl, fun _ h => absurd rfl h, by simp⟩

/-- A member of a list lies inside it. -/
theorem member_le {n k : Nat} {off len : Int} (hoff : 0 ≤ off) (hlt : off < len) (hn : n = len.toNat * k) :
    0 ≤ off * k ∧ off * k + k ≤ n := by
  have hle : off.toNat + 1 ≤ len.toNat := by omega
  have hmul := Nat.mul_le_mul_right k hle
  have hcast : (off.toNat : Int) * k = off * k := by rw [Int.toNat_of_nonneg hoff]
  rw [Nat.add_mul, Nat.one_mul, ← hn] at hmul
  refine ⟨Int.mul_nonneg hoff (Int.natCast_nonneg k), ?_⟩
  rw [← hcast]
  exact_mod_cast hmul

theorem reads_getpResolved {c : Capn} {seg : Option Nat} {p : Ptr} {off : Int} {resolve : Bool}
    (h : Inside c p) (hoff : 0 ≤ off) : Reads c (getpResolved c seg p off resolve) := by
  have hnull : Reads c ⟨c, {}, []⟩ := ⟨rfl, Inside.null c, by simp⟩
  have hin : p.type ≠ .NULL → p.type ≠ .FAR_POINTER → p.type ≠ .INTERFACE →
      ∃ s o, p.seg = some s ∧ p.data = some ⟨s, o⟩ ∧ 0 ≤ o ∧ o + p.extent ≤ (c.seg s).len := by
    intro h0 hf hi
    obtain ⟨s, o, hs, hd, hl, he⟩ := h h0 hf hi
    exact ⟨s, o, hs, hd, by omega, he⟩
  simp only [getpResolved]
  cases ht : p.type with
  | NULL => exact hnull
  | FAR_POINTER => exact hnull
  | INTERFACE => exact hnull
  | LIST =>
    simp only
    split
    · rename_i hlt
      refine ⟨rfl, fun _ _ _ => ?_, by simp⟩
      obtain ⟨s, o, hs, hd, h0, he⟩ := hin (by rw [ht]; decide) (by rw [ht]; decide) (by rw [ht]; decide)
      have hex : p.extent = p.len.toNat * (p.datasz + 8 * p.ptrs) := by simp only [Ptr.extent, ht]
      obtain ⟨hm0, hm⟩ := member_le hoff hlt hex
      push_cast at hm0 hm
      refine ⟨s, o + off * (p.datasz + 8 * p.ptrs), hs, by rw [hd]; rfl, ?_, ?_⟩
      · show (0 : Int) ≤ _
        omega
      · simp only [Ptr.extent]
        push_cast
        omega
    · exact hnull
  | BIT_LIST =>
    simp only
    split
    · exact hnull
    · rename_i hb
      refine ⟨rfl, fun _ _ _ => ?_, by simp⟩
      obtain ⟨s, o, hs, hd, h0, he⟩ := hin (by rw [ht]; decide) (by rw [ht]; decide) (by rw [ht]; decide)
      have hex : p.extent = (p.ptrs + p.len.toNat + 7) / 8 := by simp only [Ptr.extent, ht]
      refine ⟨s, o + (off + p.ptrs) / 8, hs, by rw [hd]; rfl, ?_, ?_⟩
      · show (0 : Int) ≤ _
        omega
      · simp only [Ptr.extent]
        omega
  | STRUCT =>
    simp only
    split
    · exact hnull
    · exact reads_slot c _ _ _ _
  | PTR_LIST =>
    simp only
    split
    · exact hnull
    · rename_i hlt
      split
      · refine ⟨rfl, fun _ _ _ => ?_, by simp⟩
        obtain ⟨s, o, hs, hd, h0, he⟩ := hin (by rw [ht]; decide) (by rw [ht]; decide) (by rw [ht]; decide)
        have hex : p.extent = 8 * p.len.toNat := by simp only [Ptr.extent, ht]
        refine ⟨s, o + 8 * off, hs, by rw [hd]; rfl, ?_, ?_⟩
        · show (0 : Int) ≤ _
          omega
        · simp only [Ptr.extent]
          omega
      · exact reads_slot c _ _ _ _

theorem reads_getp {c : Capn} {p : Ptr} {off : Int} {resolve : Bool} (h : Inside c p) (hoff : 0 ≤ off) :
    Reads c (capnGetp c p off resolve) := by
  have hr := reads_resolve h
  have hp : Inside (capnResolve c p).capn (capnResolve c p).ptr :=
    fun h0 hf hi => (hr.ptr h0 hf hi).congr hr.segs
  have hg := @reads_getpResolved _ p.seg _ _ resolve hp hoff
  refine ⟨hg.segs.trans hr.segs, fun h0 hf hi => (hg.ptr h0 hf hi).congr hr.segs.symm, fun a ha => ?_⟩
  rcases List.mem_append.mp ha with ha | ha
  · exact hr.reads a ha
  · exact (hg.reads a ha).congr hr.segs.symm

/-! ## Chains -/

/-- What a client has: the session, the pointers it was given, and the landing
pads that were read for it. -/
structure Client where
  capn : Capn
  held : List Ptr := []
  reads : List Addr := []

/-- The client gets what a read gives. -/
def Client.get (k : Client) (r : Read) : Client := ⟨r.capn, r.ptr :: k.held, k.reads ++ r.reads⟩

/-- One call: `capn_root`, or `capn_getp` at some offset from the start or
`capn_resolve` on a pointer that the client holds. -/
inductive Client.Step : Client → Client → Prop
  | root (k : Client) : Step k (k.get ⟨(capnRoot k.capn).1, (capnRoot k.capn).2, []⟩)
  | getp (k : Client) (p : Ptr) (off : Nat) (resolve : Bool) (h : p ∈ k.held) :
    Step k (k.get (capnGetp k.capn p off resolve))
  | resolve (k : Client) (p : Ptr) (h : p ∈ k.held) : Step k (k.get (capnResolve k.capn p))

/-- A client that starts with the message of `c` alone gets to `k`. -/
def Reaches (c : Capn) : Client → Prop := Relation.ReflTransGen Client.Step ⟨c, [], []⟩

/-- A loaded message has a segment, and its segments are full. -/
structure Loaded (c : Capn) : Prop where
  ne_nil : c.segs ≠ []
  full : ∀ s ∈ c.segs, s.cap = s.len

/-- What a client has is inside the message of `c`. -/
structure Client.InsideOf (c : Capn) (k : Client) : Prop where
  segs : k.capn.segs = c.segs
  held : ∀ p ∈ k.held, Inside c p
  reads : ∀ a ∈ k.reads, WordInside c a

theorem Loaded.zero_lt {c : Capn} (h : Loaded c) : 0 < c.segs.length := List.length_pos_iff.mpr h.ne_nil

theorem Loaded.cap {c : Capn} (h : Loaded c) : (c.seg 0).cap = (c.seg 0).len := by
  rw [Capn.seg_of_lt h.zero_lt]
  exact h.full _ (List.getElem_mem h.zero_lt)

/-- `capn_root` of a loaded message changes nothing. -/
theorem capnRoot_loaded {c : Capn} (h : Loaded c) : capnRoot c =
    (c, if (c.seg 0).cap < 8 then {} else
      { type := .PTR_LIST, seg := some 0, data := some ⟨0, 0⟩, len := 1
        nestingValid := true, nesting := sessionNesting c }) := by
  have hl : lookupSegment c 0 = some 0 := if_pos h.zero_lt
  have hc := h.cap
  simp only [capnRoot, hl]
  by_cases h8 : (c.seg 0).cap < 8
  · rw [if_pos h8, if_pos h8]
  · rw [if_neg h8, if_neg h8, if_neg (by omega)]

theorem reads_root {c : Capn} (h : Loaded c) : Reads c ⟨(capnRoot c).1, (capnRoot c).2, []⟩ := by
  rw [capnRoot_loaded h]
  refine ⟨rfl, ?_, by simp⟩
  simp only
  split
  · exact Inside.null c
  · rename_i h8
    intro _ _ _
    have hc := h.cap
    refine ⟨0, 0, rfl, rfl, Int.le_refl 0, ?_⟩
    show (0 : Int) + (8 * 1 : Nat) ≤ _
    omega

/-- One call keeps what the client has inside the message. -/
theorem step_inside {c : Capn} (hc : Loaded c) {k k' : Client} (hk : k.InsideOf c)
    (h : Client.Step k k') : k'.InsideOf c := by
  have hget : ∀ {r : Read}, Reads k.capn r → (k.get r).InsideOf c := by
    intro r hr
    refine ⟨hr.segs.trans hk.segs, ?_, ?_⟩
    · intro p hp
      rcases List.mem_cons.mp hp with rfl | hp
      · exact fun h0 hf hi => (hr.ptr h0 hf hi).congr hk.segs.symm
      · exact hk.held p hp
    · intro a ha
      rcases List.mem_append.mp ha with ha | ha
      · exact hk.reads a ha
      · exact (hr.reads a ha).congr hk.segs.symm
  have hin : ∀ p ∈ k.held, Inside k.capn p :=
    fun p hp h0 hf hi => (hk.held p hp h0 hf hi).congr hk.segs
  cases h with
  | root =>
    refine hget (reads_root ⟨?_, ?_⟩)
    · rw [hk.segs]; exact hc.ne_nil
    · rw [hk.segs]; exact hc.full
  | getp p off resolve hp => exact hget (reads_getp (hin p hp) (Int.natCast_nonneg off))
  | resolve p hp => exact hget (reads_resolve (hin p hp))

/-- Every run of a client stays inside the message. -/
theorem run_inside {c : Capn} (hc : Loaded c) {k : Client} (h : Reaches c k) : k.InsideOf c := by
  induction h with
  | refl => exact ⟨rfl, by simp, by simp⟩
  | tail _ hstep ih => exact step_inside hc ih hstep

theorem carve_full {ns : List Nat} {data : List UInt8} : ∀ s ∈ carve ns data, s.cap = s.len := by
  induction ns generalizing data with
  | nil => simp [carve]
  | cons n ns ih =>
    rw [carve, List.forall_mem_cons]
    exact ⟨rfl, ih⟩

/-- A message that `capn_init_mem` accepted is loaded. -/
theorem InitsMem.loaded {calloc : Nat → Option Nat} {bytes : List UInt8} {packed : Bool} {r : Init}
    (hcalloc : CallocOk calloc) (h : InitsMem calloc bytes packed r) (hr : r.ret = 0) : Loaded r.capn := by
  obtain ⟨segs, hf, -, e⟩ := initFp_accepts hcalloc (h.list hcalloc) hr
  rw [e]
  refine ⟨?_, carve_full⟩
  obtain ⟨s, ss, rfl⟩ := List.exists_cons_of_ne_nil hf.ne_nil
  exact List.cons_ne_nil _ _

/-- **Pointer decoding never leaves a segment.** In any message that
`capn_init_mem` loads, with any limits that the user sets, every pointer that a
chain of calls gives describes an object inside its own segment, unless it is
null, an unresolved far pointer or a capability; and no landing pad is read
outside the segment it names. -/
theorem reaches_inside {calloc : Nat → Option Nat} {bytes : List UInt8} {packed : Bool} {r : Init}
    {limit : Nat} {nesting : Int} {k : Client} (hcalloc : CallocOk calloc)
    (h : InitsMem calloc bytes packed r) (hr : r.ret = 0)
    (hk : Reaches { r.capn with traversalLimit := limit, nestingLimit := nesting } k) :
    (∀ p ∈ k.held, p.type ≠ .NULL → p.type ≠ .FAR_POINTER → p.type ≠ .INTERFACE →
      InSegment r.capn p) ∧ ∀ a ∈ k.reads, WordInside r.capn a := by
  have hl : Loaded { r.capn with traversalLimit := limit, nestingLimit := nesting } :=
    ⟨(h.loaded hcalloc hr).ne_nil, (h.loaded hcalloc hr).full⟩
  have hin := run_inside hl hk
  exact ⟨fun p hp h0 hf hi => (hin.held p hp h0 hf hi).congr rfl,
    fun a ha => (hin.reads a ha).congr rfl⟩

/-- The root of a frame of two words, and the struct it points at. -/
theorem reaches_inside_struct : ∃ r k,
    InitsMem some [0, 0, 0, 0, 2, 0, 0, 0, 0, 0, 0, 0, 1, 0, 0, 0, 1, 2, 3, 4, 5, 6, 7, 8] false r ∧
      Reaches { r.capn with traversalLimit := 0, nestingLimit := 0 } k ∧ (∃ p ∈ k.held, p.type = .STRUCT) ∧
      (∀ p ∈ k.held, p.type ≠ .NULL → p.type ≠ .FAR_POINTER → p.type ≠ .INTERFACE → InSegment r.capn p) ∧
      ∀ a ∈ k.reads, WordInside r.capn a := by
  have hi : ∃ r, InitsMem some
      [0, 0, 0, 0, 2, 0, 0, 0, 0, 0, 0, 0, 1, 0, 0, 0, 1, 2, 3, 4, 5, 6, 7, 8] false r ∧ r.ret = 0 ∧
      (capnGetp { r.capn with traversalLimit := 0, nestingLimit := 0 }
        (capnRoot { r.capn with traversalLimit := 0, nestingLimit := 0 }).2 0 true).ptr.type = .STRUCT ∧
      (capnRoot { r.capn with traversalLimit := 0, nestingLimit := 0 }).1 =
        { r.capn with traversalLimit := 0, nestingLimit := 0 } := ⟨_, ⟨0, rfl⟩, rfl, by decide, rfl⟩
  obtain ⟨r, hi, hr, ht, hroot⟩ := hi
  generalize hc : ({ r.capn with traversalLimit := 0, nestingLimit := 0 } : Capn) = c at ht hroot
  have hk : Reaches c (((⟨c, [], []⟩ : Client).get ⟨(capnRoot c).1, (capnRoot c).2, []⟩).get
      (capnGetp (capnRoot c).1 (capnRoot c).2 (0 : Nat) true)) :=
    .tail (.tail .refl (.root _)) (.getp _ _ 0 true List.mem_cons_self)
  rw [hroot] at hk
  rw [← hc] at hk ht
  exact ⟨r, _, hi, hk, ⟨_, List.mem_cons_self, ht⟩, reaches_inside (fun n => ⟨n, rfl, Nat.le_refl n⟩) hi hr hk⟩

end Capnproto

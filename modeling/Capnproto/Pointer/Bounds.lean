import Capnproto.Pointer.Decode
import Capnproto.Frame.Init

/-!
# Decoding never leaves a segment

What a pointer word points at is a function of the segments alone (`pointee`);
`readPtr` adds the nesting check and the budget (`readPtr_eq`). Every object it
gives lies inside its own segment (`pointee_inSegment`), and so does every
landing pad it reads (`followFar_reads`). Reading members and slots keeps this
(`getp_inside`), and so every chain of calls does (`reaches_inside`).
-/

namespace Capnproto

/-! ## Objects in segments -/

/-- The bytes of an object from `data`. A bit list that is a member starts at bit
`ptrs` of its byte. -/
def Ptr.extent (p : Ptr) : Nat :=
  match p.type with
  | .STRUCT => p.datasz + 8 * p.ptrs
  | .LIST => p.len.toNat * (p.datasz + 8 * p.ptrs)
  | .PTR_LIST => 8 * p.len.toNat
  | .BIT_LIST => (p.ptrs + p.len.toNat + 7) / 8
  | _ => 0

/-- The bytes of an object before `data`: the tag of a composite list. -/
def Ptr.lead (p : Ptr) : Nat := if p.isCompositeList then 8 else 0

/-- The object of `p` lies inside its segment. -/
def InSegment (c : Capn) (p : Ptr) : Prop :=
  ∃ seg off, p.seg = some seg ∧ p.data = some ⟨seg, off⟩ ∧ (p.lead : Int) ≤ off ∧
    off + p.extent ≤ (c.seg seg).len

/-- The words of landing pads lie inside their segments. -/
def WordInside (c : Capn) (a : Addr) : Prop := 0 ≤ a.off ∧ a.off + 8 ≤ (c.seg a.seg).len

theorem boundsOk_iff {c : Capn} {s : Option Nat} {d : Option Addr} {n : Nat} :
    boundsOk c s d n ↔ ∃ seg off, s = some seg ∧ d = some ⟨seg, off⟩ ∧ 0 ≤ off ∧
      off + n ≤ (c.seg seg).len := by
  rcases s with _ | s
  · simp [boundsOk]
  rcases d with _ | ⟨t, off⟩
  · simp [boundsOk]
  simp only [boundsOk, Option.some.injEq, Addr.mk.injEq]
  constructor
  · rintro ⟨rfl, h0, h1, h2⟩
    exact ⟨t, off, rfl, ⟨rfl, rfl⟩, h0, by omega⟩
  · rintro ⟨_, _, rfl, ⟨rfl, rfl⟩, h0, h1⟩
    exact ⟨rfl, h0, by omega, by omega⟩

theorem mulSize_eq {a b n : Nat} (h : mulSize a b = some n) : n = a * b := by
  rw [mulSize] at h
  split at h
  · cases h
  · cases h; rfl

/-! ## Landing pads -/

theorem lookupFar_reads {c : Capn} {val : Nat} {a : Addr} (h : a ∈ (lookupFar c val).reads) :
    WordInside c a := by
  simp only [lookupFar] at h
  split at h
  · cases h
  · split at h
    · cases h
    · rename_i hb
      rw [List.mem_singleton.mp h]
      constructor <;> simp only <;> omega

theorem lookupDouble_reads {c : Capn} {val : Nat} {a : Addr} (h : a ∈ (lookupDouble c val).reads) :
    WordInside c a := by
  simp only [lookupDouble] at h
  split at h
  · cases h
  · rename_i seg _
    split at h
    · cases h
    · rename_i hb
      have hm : a = ⟨seg, ((val % 2 ^ 32 / 8 * 8 : Nat) : Int)⟩ ∨
          a = ⟨seg, ((val % 2 ^ 32 / 8 * 8 : Nat) : Int) + 8⟩ := by
        split at h
        · simpa using h
        · split at h <;> simpa using h
      rcases hm with rfl | rfl <;> constructor <;> simp only <;> omega

theorem followFar_reads {c : Capn} {s : Nat} {d a : Addr} {val : Nat}
    (h : a ∈ (followFar c s d val).reads) : WordInside c a := by
  rw [followFar] at h
  split at h
  · exact lookupFar_reads h
  · split at h
    · exact lookupDouble_reads h
    · cases h

/-! ## What a pointer word points at -/

/-- What the word at `a` points at, and the bytes it costs; `none` if it is broken. -/
def pointee (c : Capn) (a : Addr) : Option (Ptr × Nat) :=
  match (followFar c a.seg a (c.load64 a)).hit with
  | none => none
  | some (seg, d, val) =>
    let tagged := decide (c.load64 a % 8 = FAR_PTR ∧ val % 2 ^ 32 / 4 = 0)
    if val % 4 = OTHER_PTR then
      if val % 2 ^ 32 / 4 ≠ 0 then none
      else some ({ type := .INTERFACE, hasPtrTag := tagged, len := toInt32 (val / 2 ^ 32),
                   seg := some seg, data := some d }, 0)
    else
      (decodeObject c seg d val).map fun (p, nbytes) =>
        ({ p with hasPtrTag := tagged }, if nbytes = 0 ∧ 0 < p.len then p.len.toNat * 8 else nbytes)

/-- The landing pads of the word at `a`. -/
def landingPads (c : Capn) (a : Addr) : List Addr := (followFar c a.seg a (c.load64 a)).reads

theorem landingPads_inside {c : Capn} {a b : Addr} (h : b ∈ landingPads c a) : WordInside c b := by
  rw [landingPads] at h
  exact followFar_reads h

/-- The traversal budget of a session. -/
def budget (c : Capn) : Nat := if c.traversalLimit ≠ 0 then c.traversalLimit else CAPN_TRAVERSAL_DEFAULT

/-- The budget has room for `n` more bytes. -/
def Affords (c : Capn) (n : Nat) : Prop := n = 0 ∨ c.traversalUsed + n ≤ budget c

instance (c : Capn) (n : Nat) : Decidable (Affords c n) := inferInstanceAs (Decidable (_ ∨ _))

theorem chargeTraversal_eq (c : Capn) (bytes : Nat) (len : Int) :
    chargeTraversal c bytes len =
      if Affords c (if bytes = 0 ∧ 0 < len then len.toNat * 8 else bytes) then
        some { c with traversalUsed :=
          c.traversalUsed + if bytes = 0 ∧ 0 < len then len.toNat * 8 else bytes }
      else none := by
  simp only [chargeTraversal]
  generalize (if bytes = 0 ∧ 0 < len then len.toNat * 8 else bytes) = n
  by_cases hn : n = 0
  · rw [if_pos hn, if_pos (.inl hn), hn]
    rfl
  · rw [if_neg hn]
    change (if budget c < n ∨ budget c - n < c.traversalUsed then none else _) = _
    by_cases ha : Affords c n
    · have hle := ha.resolve_left hn
      rw [if_pos ha, if_neg (by omega)]
    · have hgt : ¬ c.traversalUsed + n ≤ budget c := fun h => ha (.inr h)
      rw [if_neg ha, if_pos (by omega)]

/-- **`read_ptr`**: the pointee of a word in bounds, if hops and budget allow it. -/
theorem readPtr_eq {c : Capn} {s : Nat} {off : Int} {rem : Int} (hrem : rem ≠ 0)
    (hb : boundsOk c (some s) (some ⟨s, off⟩) 8) :
    readPtr c (some s) (some ⟨s, off⟩) rem =
      match pointee c ⟨s, off⟩ with
      | none => .err c (some s) (landingPads c ⟨s, off⟩)
      | some (p, cost) =>
        if Affords c cost then
          ⟨{ c with traversalUsed := c.traversalUsed + cost }, p.withNesting rem, landingPads c ⟨s, off⟩⟩
        else .err c (some s) (landingPads c ⟨s, off⟩) := by
  rw [readPtr, if_neg hrem, if_neg (not_not.mpr hb)]
  simp only [pointee, landingPads]
  cases (followFar c s ⟨s, off⟩ (c.load64 ⟨s, off⟩)).hit with
  | none => rfl
  | some t =>
    obtain ⟨seg, d, val⟩ := t
    simp only
    by_cases ho : val % 4 = OTHER_PTR
    · by_cases hz : val % 2 ^ 32 / 4 ≠ 0
      · simp only [ho, hz, ite_true, ne_eq, not_false_eq_true]
      · simp only [ho, hz, ite_true, ite_false, Affords, true_or, Nat.add_zero]
    · simp only [ho, ite_false]
      cases decodeObject c seg d val with
      | none => rfl
      | some q =>
        obtain ⟨p, nbytes⟩ := q
        simp only [Option.map_some, chargeTraversal_eq]
        generalize (if nbytes = 0 ∧ 0 < p.len then p.len.toNat * 8 else nbytes) = n
        by_cases ha : Affords c n
        · simp only [ha, ite_true]
        · simp only [ha, ite_false]

/-- What `read_ptr` gives: nothing, or the pointee of a word in bounds. -/
theorem readPtr_cases (c : Capn) (s : Option Nat) (d : Option Addr) (rem : Int) :
    (∃ reads, readPtr c s d rem = .err c s reads ∧ ∀ a ∈ reads, WordInside c a) ∨
    ∃ seg off p cost, rem ≠ 0 ∧ s = some seg ∧ d = some ⟨seg, off⟩ ∧
      boundsOk c (some seg) (some ⟨seg, off⟩) 8 ∧ pointee c ⟨seg, off⟩ = some (p, cost) ∧
      Affords c cost ∧ readPtr c s d rem =
        ⟨{ c with traversalUsed := c.traversalUsed + cost }, p.withNesting rem,
          landingPads c ⟨seg, off⟩⟩ := by
  by_cases hrem : rem = 0
  · exact .inl ⟨[], by unfold readPtr; rw [if_pos hrem], by simp⟩
  by_cases hb : boundsOk c s d 8
  · obtain ⟨seg, off, rfl, rfl, -⟩ := boundsOk_iff.mp hb
    rw [readPtr_eq hrem hb]
    have hpads : ∀ a ∈ landingPads c ⟨seg, off⟩, WordInside c a := fun a ha => landingPads_inside ha
    cases hp : pointee c ⟨seg, off⟩ with
    | none => exact .inl ⟨_, rfl, hpads⟩
    | some t =>
      obtain ⟨p, cost⟩ := t
      by_cases ha : Affords c cost
      · exact .inr ⟨seg, off, p, cost, hrem, rfl, rfl, hb, hp, ha, if_pos ha⟩
      · exact .inl ⟨_, if_neg ha, hpads⟩
  · exact .inl ⟨[], by unfold readPtr; rw [if_neg hrem, if_pos hb], by simp⟩

/-- Reading a pointer changes the counters of a session only. -/
theorem readPtr_capn (c : Capn) (s : Option Nat) (d : Option Addr) (rem : Int) :
    ∃ used err, (readPtr c s d rem).capn = { c with traversalUsed := used, decodeErr := err } := by
  rcases readPtr_cases c s d rem with ⟨reads, e, -⟩ | ⟨seg, off, p, cost, -, -, -, -, -, -, e⟩
  · rw [e, Read.err]
    split
    · exact ⟨c.traversalUsed, true, rfl⟩
    · exact ⟨c.traversalUsed, c.decodeErr, rfl⟩
  · rw [e]
    exact ⟨_, c.decodeErr, rfl⟩

theorem capnResolve_capn (c : Capn) (p : Ptr) :
    ∃ used err, (capnResolve c p).capn = { c with traversalUsed := used, decodeErr := err } := by
  rw [capnResolve]
  split
  · exact readPtr_capn _ _ _ _
  · exact ⟨c.traversalUsed, c.decodeErr, rfl⟩

theorem getpSlot_capn (c : Capn) (seg : Option Nat) (data : Option Addr) (rem : Int) (resolve : Bool) :
    ∃ used err, (getpSlot c seg data rem resolve).capn = { c with traversalUsed := used, decodeErr := err } := by
  rw [getpSlot]
  split
  · exact readPtr_capn _ _ _ _
  · exact ⟨c.traversalUsed, c.decodeErr, rfl⟩

theorem capnGetp_capn (c : Capn) (p : Ptr) (off : Int) (resolve : Bool) :
    ∃ used err, (capnGetp c p off resolve).capn = { c with traversalUsed := used, decodeErr := err } := by
  obtain ⟨u, e, hr⟩ := capnResolve_capn c p
  have hg : ∀ (c : Capn) (seg : Option Nat) (p : Ptr), ∃ used err,
      (getpResolved c seg p off resolve).capn = { c with traversalUsed := used, decodeErr := err } := by
    intro c seg p
    have hsame : ∃ used err, c = { c with traversalUsed := used, decodeErr := err } :=
      ⟨c.traversalUsed, c.decodeErr, rfl⟩
    simp only [getpResolved]
    split
    · split <;> exact hsame
    · split <;> exact hsame
    · split
      · exact hsame
      · exact getpSlot_capn _ _ _ _ _
    · split
      · exact hsame
      · split
        · exact hsame
        · exact getpSlot_capn _ _ _ _ _
    · exact hsame
  obtain ⟨u', e', hg⟩ := hg (capnResolve c p).capn p.seg (capnResolve c p).ptr
  refine ⟨u', e', ?_⟩
  simp only [capnGetp]
  rw [hg, hr]

/-! ## Objects -/

/-- The shape of a decoded object, by its type. -/
def Ptr.Shape (p : Ptr) : Prop :=
  p.isListMember = false ∧ 0 ≤ p.len ∧
    match p.type with
    | .NULL => p.isCompositeList = false ∧ p.datasz = 0 ∧ p.ptrs = 0 ∧ p.len = 0
    | .STRUCT => p.isCompositeList = false ∧ 8 ∣ p.datasz ∧ p.datasz < 2 ^ 19 ∧ p.ptrs < 2 ^ 16 ∧ p.len = 0
    | .LIST =>
      if p.isCompositeList then
        8 ∣ p.datasz ∧ p.datasz < 2 ^ 19 ∧ p.ptrs < 2 ^ 16 ∧ p.len < 2 ^ 30 ∧
          p.len.toNat * (p.datasz + 8 * p.ptrs) < 2 ^ 32
      else p.datasz ∈ [0, 1, 2, 4, 8] ∧ p.ptrs = 0 ∧ p.len < 2 ^ 29
    | .PTR_LIST => p.isCompositeList = false ∧ p.datasz = 0 ∧ p.ptrs = 0 ∧ p.len < 2 ^ 29
    | .BIT_LIST =>
      p.isCompositeList = false ∧ p.datasz = (p.len.toNat + 7) / 8 ∧ p.datasz < 2 ^ 19 ∧ p.ptrs = 0
    | _ => False

theorem applyOffset_eq {c : Capn} {s : Nat} {d a : Addr} {val : Nat} (h : applyOffset c s d val = some a) :
    a = ⟨s, d.off + (toInt32 val / 4 + 1) * 8⟩ ∧ 0 ≤ a.off ∧ a.off ≤ (c.seg s).len := by
  simp only [applyOffset] at h
  split at h
  · cases h
  · cases h
    exact ⟨rfl, by simp only; omega, by simp only; omega⟩

theorem dataWords_lt (val : Nat) : dataWords val < 2 ^ 16 := Nat.mod_lt _ (Nat.two_pow_pos 16)

theorem ptrWords_lt (val : Nat) : ptrWords val < 2 ^ 16 := Nat.mod_lt _ (Nat.two_pow_pos 16)

/-- What an object decoded at `d` is: a shape, and the bytes it takes. -/
structure ObjectAt (d : Addr) (p : Ptr) (d' : Addr) (n : Nat) : Prop where
  shape : p.Shape
  data : d' = d.add p.lead
  extent : n = p.extent

theorem decodeComposite_spec {c : Capn} {s len n : Nat} {d d' : Addr} {p : Ptr} (hlen : len < 2 ^ 29)
    (h : decodeComposite c s d len = some (p, d', n)) : ObjectAt d p d' n ∧ p.type = .LIST := by
  simp only [decodeComposite] at h
  split at h
  · cases h
  rename_i words hw
  split at h
  · cases h
  split at h
  · cases h
  split at h
  · cases h
  split at h
  · cases h
  rename_i total ht
  split at h
  · cases h
  rename_i heq
  cases h
  have hw := mulSize_eq hw
  have ht := mulSize_eq ht
  have hd := dataWords_lt (c.load64 d)
  have hp := ptrWords_lt (c.load64 d)
  have hl : c.load64 d % 2 ^ 32 / 4 < 2 ^ 30 := by omega
  rw [Nat.mul_comm, not_not.mp heq] at ht
  generalize c.load64 d % 2 ^ 32 / 4 = k at ht hl
  refine ⟨⟨⟨rfl, Int.natCast_nonneg k, ?_⟩, rfl, ?_⟩, rfl⟩
  · simp only [ite_true, Int.toNat_natCast, ← ht]
    refine ⟨Nat.dvd_mul_left _ _, by omega, hp, by omega, by omega⟩
  · simp only [Ptr.extent, Int.toNat_natCast]
    exact ht

/-- A list of `len` elements of `k` bytes. -/
theorem plain_spec {len k n : Nat} {d d' : Addr} {p : Ptr} (hlen : len < 2 ^ 29) (hk : k ∈ [0, 1, 2, 4, 8])
    (h : (mulSize len k).map (fun nbytes =>
      (({ type := .LIST, len := len, datasz := k } : Ptr), d, nbytes)) = some (p, d', n)) :
    ObjectAt d p d' n ∧ p.type = .LIST := by
  obtain ⟨m, hm, e⟩ := Option.map_eq_some_iff.mp h
  cases e
  have hm := mulSize_eq hm
  refine ⟨⟨⟨rfl, Int.natCast_nonneg len, hk, rfl, ?_⟩, ?_, ?_⟩, rfl⟩
  · show (len : Int) < 2 ^ 29
    omega
  · simp [Ptr.lead, Addr.add]
  · simp only [Ptr.extent, Int.toNat_natCast, Nat.mul_zero, Nat.add_zero]
    exact hm

/-- The lists that `read_ptr` decodes. -/
theorem decodeElements_spec {c : Capn} {s kind len n : Nat} {d d' : Addr} {p : Ptr} (hlen : len < 2 ^ 29)
    (h : decodeElements c s d kind len = some (p, d', n)) : ObjectAt d p d' n ∧ p.type ≠ .NULL := by
  have hplain : ∀ {k : Nat}, k ∈ [0, 1, 2, 4, 8] → (mulSize len k).map (fun nbytes =>
      (({ type := .LIST, len := len, datasz := k } : Ptr), d, nbytes)) = some (p, d', n) →
      ObjectAt d p d' n ∧ p.type ≠ .NULL := by
    intro k hk h
    obtain ⟨ho, ht⟩ := plain_spec hlen hk h
    exact ⟨ho, by rw [ht]; decide⟩
  simp only [decodeElements] at h
  split at h
  · cases h
    refine ⟨⟨⟨rfl, Int.natCast_nonneg len, List.mem_cons_self, rfl, ?_⟩, ?_, ?_⟩, nofun⟩
    · show (len : Int) < 2 ^ 29
      omega
    · simp [Ptr.lead, Addr.add]
    · simp [Ptr.extent]
  split at h
  · split at h
    · cases h
    rename_i hb
    cases h
    refine ⟨⟨⟨rfl, Int.natCast_nonneg len, rfl, rfl, ?_, rfl⟩, ?_, ?_⟩, nofun⟩
    · show (len + 7) / 8 < 2 ^ 19
      omega
    · simp [Ptr.lead, Addr.add]
    · simp [Ptr.extent]
  split at h
  · exact hplain (by decide) h
  split at h
  · exact hplain (by decide) h
  split at h
  · exact hplain (by decide) h
  split at h
  · exact hplain (by decide) h
  split at h
  · obtain ⟨m, hm, e⟩ := Option.map_eq_some_iff.mp h
    cases e
    have hm := mulSize_eq hm
    refine ⟨⟨⟨rfl, Int.natCast_nonneg len, rfl, rfl, rfl, ?_⟩, ?_, ?_⟩, nofun⟩
    · show (len : Int) < 2 ^ 29
      omega
    · simp [Ptr.lead, Addr.add]
    · simp only [Ptr.extent, Int.toNat_natCast]
      omega
  · obtain ⟨ho, ht⟩ := decodeComposite_spec hlen h
    exact ⟨ho, by rw [ht]; decide⟩

theorem decodeStruct_spec {val n : Nat} {d d' : Addr} {p : Ptr} (h : decodeStruct d val = some (p, d', n)) :
    ObjectAt d p d' n ∧ (p.type = .NULL → val = 0) := by
  simp only [decodeStruct] at h
  split at h
  · cases h
  cases h
  have hd := dataWords_lt val
  have hp := ptrWords_lt val
  by_cases hz : val = 0
  · subst hz
    refine ⟨⟨⟨rfl, Int.le_refl 0, rfl, rfl, rfl, rfl⟩, ?_, rfl⟩, fun _ => rfl⟩
    simp [Ptr.lead, Addr.add]
  · simp only [if_pos (show val ≠ 0 from hz)]
    refine ⟨⟨⟨rfl, Int.le_refl 0, rfl, Nat.dvd_mul_left _ _, ?_, hp, rfl⟩, ?_, rfl⟩, nofun⟩
    · show dataWords val * 8 < 2 ^ 19
      omega
    · simp [Ptr.lead, Addr.add]

/-- The objects that `read_ptr` decodes lie inside the segment. -/
theorem decodeObject_spec {c : Capn} {s : Nat} {d : Addr} {val n : Nat} {p : Ptr} (hval : val < 2 ^ 64)
    (h : decodeObject c s d val = some (p, n)) :
    p.Shape ∧ p.seg = some s ∧ InSegment c p ∧ n = p.extent ∧ (p.type = .NULL → val = 0) := by
  simp only [decodeObject] at h
  split at h
  · cases h
  rename_i a ha
  obtain ⟨he, h0, hle⟩ := applyOffset_eq ha
  split at h
  · cases h
  rename_i q d' nbytes hq
  split at h
  · rename_i hb
    cases h
    obtain ⟨_, off, e, e', hoff, hend⟩ := boundsOk_iff.mp hb
    cases e
    cases e'
    -- the object, before its place is filled in
    have hobj : ObjectAt a q ⟨s, off⟩ n ∧ (q.type = .NULL → val = 0) := by
      split at hq
      · exact decodeStruct_spec hq
      · split at hq
        · obtain ⟨ho, ht⟩ := decodeElements_spec (by omega) hq
          exact ⟨ho, fun h => absurd h ht⟩
        · cases hq
    obtain ⟨ho, hnull⟩ := hobj
    have hoff : off = a.off + q.lead := congrArg Addr.off ho.data
    refine ⟨ho.shape, rfl, ⟨s, off, rfl, rfl, ?_, ?_⟩, ho.extent, hnull⟩
    · show (q.lead : Int) ≤ off
      omega
    · show off + (q.extent : Nat) ≤ _
      rw [← ho.extent]
      exact hend
  · cases h

end Capnproto

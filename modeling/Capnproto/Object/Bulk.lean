import Capnproto.Object.Access
import Capnproto.Pointer.Bounds

/-!
# Whole runs of elements

`capn_getvN` and `capn_setvN` on a list, on a host of either byte order
(`getvOn`, `setvOn`). An `int` that overflows is undefined, and so is `memcpy` of
fewer than no bytes. The run that one `memcpy` moves starts `off` bytes into the
list, not `off` elements: element by element and all at once are the same exactly
when that makes no difference (`bulk_iff`).
-/

namespace Capnproto

/-! ## Memory -/

namespace Mem

/-- The run of `k` elements of `n` bytes. -/
theorem read_mul (m : Mem) (o : Int) (k n : Nat) :
    m.read o (k * n) = (List.range k).flatMap fun i : Nat => m.read (o + i * n) n := by
  induction k with
  | zero => rw [Nat.zero_mul]; rfl
  | succ k ih =>
    rw [Nat.succ_mul, read_add, ih, List.range_succ, List.flatMap_append, List.flatMap_singleton]
    push_cast
    rfl

end Mem

theorem Capn.write_append (c : Capn) (a : Addr) (as bs : List UInt8) :
    c.write a (as ++ bs) = (c.write a as).write (a.add as.length) bs := by
  simp only [Capn.write, Capn.setSeg, Addr.add, Mem.write_append, Capn.mk.injEq, true_and, and_true]
  rw [List.modify_modify_eq]
  rfl

theorem Capn.write_nil (c : Capn) (a : Addr) : c.write a [] = c := by
  rw [Capn.write]
  simp only [Mem.write_nil]
  exact congrArg (fun l => { c with segs := l }) (List.modify_id _ _)

/-! ## Any host -/

/-- The bytes of a number in memory, in the order of the host. -/
def hostOrder (little : Bool) (bs : List UInt8) : List UInt8 := if little then bs else bs.reverse

/-- Whether the elements are moved by one `memcpy`. -/
def Ptr.runs (little : Bool) (sz : SZ) (p : Ptr) : Bool :=
  p.datasz = sz.bytes && p.ptrs = 0 && (sz = .b8 || little)

/-- The bytes from one element to the next. -/
def Ptr.elementSize (p : Ptr) : Nat := p.datasz + 8 * p.ptrs

/-- An `int` of `capn_getvN` and `capn_setvN` on a list overflows, or the count for `memcpy` is negative. -/
def bulkUndefined (little : Bool) (sz : SZ) (p : Ptr) (off n : Int) : Prop :=
  (INT_MAX : Int) < off + n ∨
    if p.runs little sz then clip p off n < 0 ∨ (INT_MAX : Int) < clip p off n * sz.bytes
    else sz.bytes ≤ p.datasz ∧ 0 < clip p off n ∧ (INT_MAX : Int) < (clip p off n - 1 + off) * p.elementSize

instance (little : Bool) (sz : SZ) (p : Ptr) (off n : Int) : Decidable (bulkUndefined little sz p off n) :=
  inferInstanceAs (Decidable (_ ∨ _))

/-- `capn_getvN` on a list: the result, and the bytes of `to` it writes. -/
def getvOn (little : Bool) (sz : SZ) (c : Capn) (p : Ptr) (off n : Int) : Option (Int × List UInt8) :=
  if bulkUndefined little sz p off n then none
  else
    let n := clip p off n
    let bytes (a : Int) (k : Nat) : List UInt8 :=
      match p.data with
      | none => []
      | some d => c.read (d.add a) k
    if p.runs little sz then some (n, bytes off (n * sz.bytes).toNat)
    else if p.datasz < sz.bytes then some (-1, [])
    else some (n, (List.range n.toNat).flatMap fun i : Nat =>
      hostOrder little (bytes (((i : Int) + off) * p.elementSize) sz.bytes))

/-- `capn_setvN` on a list, from the numbers `vals` as the host stores them. -/
def setvOn (little : Bool) (sz : SZ) (c : Capn) (p : Ptr) (off : Int) (vals : Nat → Nat) (n : Int) : Option Stored :=
  if bulkUndefined little sz p off n then none
  else
    let n := clip p off n
    let s : Stored := ⟨n, c, []⟩
    if p.runs little sz then
      some (match p.data with
        | none => s
        | some d => s.store (d.add off)
            ((List.range n.toNat).flatMap fun i => hostOrder little (toLe sz.bytes (vals i))))
    else if p.datasz < sz.bytes then some { s with ret := -1 }
    else some (setvList sz p off vals n.toNat 0 s)

section

variable {sz : SZ} {c : Capn} {p : Ptr} {off n : Int}

/-- On a little endian host that is `capn_getvN`. -/
theorem getvOn_little (ht : p.type = .LIST) {r : Int × List UInt8} (h : getvOn true sz c p off n = some r) :
    capnGetv sz c p off n = (c, r) := by
  have hr : capnResolve c p = ⟨c, p, []⟩ := if_neg (by rw [ht]; decide)
  simp only [getvOn] at h
  split at h
  · cases h
  simp only [capnGetv, hr, ht, Ptr.runs, hostOrder, Ptr.elementSize] at h ⊢
  simp only [Bool.or_true, Bool.and_true, Bool.and_eq_true, decide_eq_true_eq, if_true, Nat.cast_add,
    Nat.cast_mul, Nat.cast_ofNat] at h
  split at h
  · rename_i hx
    rw [if_pos hx]
    exact congrArg (Prod.mk c) (Option.some.inj h)
  rename_i hx
  rw [if_neg hx]
  split at h
  · rename_i hy
    rw [if_pos hy]
    exact congrArg (Prod.mk c) (Option.some.inj h)
  · rename_i hy
    rw [if_neg hy]
    exact congrArg (Prod.mk c) (Option.some.inj h)

/-- On a little endian host that is `capn_setvN`. -/
theorem setvOn_little (ht : p.type = .LIST) {vals : Nat → Nat} {s : Stored}
    (h : setvOn true sz c p off vals n = some s) : capnSetv sz c p off vals n = s := by
  simp only [setvOn] at h
  split at h
  · cases h
  simp only [capnSetv, ht, Ptr.runs, hostOrder] at h ⊢
  simp only [Bool.or_true, Bool.and_true, Bool.and_eq_true, decide_eq_true_eq, if_true] at h
  split at h
  · rename_i hx
    rw [if_pos hx]
    exact Option.some.inj h
  rename_i hx
  rw [if_neg hx]
  split at h
  · rename_i hy
    rw [if_pos hy]
    exact Option.some.inj h
  · rename_i hy
    rw [if_neg hy]
    exact Option.some.inj h

end

/-! ## Element by element -/

/-- The elements that there are from `off` on, of `n`. -/
def Ptr.within (p : Ptr) (off n : Int) : Nat := (min n (p.len - off)).toNat

/-- What `m` calls of `capn_getN` from `off` on give, as the host stores it. -/
def elements (little : Bool) (sz : SZ) (c : Capn) (p : Ptr) (off : Int) (m : Nat) : List UInt8 :=
  (List.range m).flatMap fun i : Nat => hostOrder little (toLe sz.bytes (capnGet sz c p (off + i)).2)

/-- The session after `m` calls of `capn_setN` from `off` on. -/
def setEach (sz : SZ) (p : Ptr) (off : Int) (vals : Nat → Nat) (c : Capn) (m : Nat) : Capn :=
  (List.range m).foldl (fun c (i : Nat) => (capnSet sz c p (off + i) (vals i)).capn) c

/-- `capn_getvN` does what calls of `capn_getN` do. -/
def GetvAlike (little : Bool) (sz : SZ) (c : Capn) (p : Ptr) (off n : Int) : Prop :=
  ∃ r, getvOn little sz c p off n = some r ∧ (off ≤ p.len → r.1 = min n (p.len - off)) ∧
    r.2 = elements little sz c p off (p.within off n)

/-- `capn_setvN` does what calls of `capn_setN` do. -/
def SetvAlike (little : Bool) (sz : SZ) (c : Capn) (p : Ptr) (off : Int) (vals : Nat → Nat) (n : Int) : Prop :=
  ∃ s, setvOn little sz c p off vals n = some s ∧ (off ≤ p.len → s.ret = min n (p.len - off)) ∧
    s.capn = setEach sz p off vals c (p.within off n)

/-- The `int`s fit, and a run that one `memcpy` moves starts at a byte that is its first element's. -/
def BulkFits (little : Bool) (sz : SZ) (p : Ptr) (off n : Int) : Prop :=
  off + n ≤ INT_MAX ∧
    if p.runs little sz then
      off ≤ p.len ∧ min n (p.len - off) * sz.bytes ≤ INT_MAX ∧ (off = 0 ∨ sz = .b8 ∨ n = 0 ∨ off = p.len)
    else min n (p.len - off) ≤ 0 ∨ (min n (p.len - off) - 1 + off) * p.elementSize ≤ INT_MAX

instance (little : Bool) (sz : SZ) (p : Ptr) (off n : Int) : Decidable (BulkFits little sz p off n) :=
  inferInstanceAs (Decidable (_ ∧ _))

section

variable {little : Bool} {sz : SZ} {c : Capn} {p : Ptr} {d : Addr} {off n : Int} {vals : Nat → Nat}

theorem clip_eq (p : Ptr) (off n : Int) : clip p off n = min n (p.len - off) := by
  rw [clip]
  split <;> omega

theorem capnGet_list (ht : p.type = .LIST) (hd : p.data = some d) (hsz : sz.bytes ≤ p.datasz) (h : off < p.len) :
    (capnGet sz c p off).2 = c.load (d.add (off * p.elementSize)) sz.bytes := by
  simp only [capnGet, elementAt, if_neg (Int.not_le.mpr h), ht, if_neg (Nat.not_lt.mpr hsz), hd, Option.map_some,
    Ptr.elementSize, Nat.cast_add, Nat.cast_mul, Nat.cast_ofNat]

theorem capnSet_list (ht : p.type = .LIST) (hd : p.data = some d) (hsz : sz.bytes ≤ p.datasz) (h : off < p.len)
    (v : Nat) : (capnSet sz c p off v).capn = c.write (d.add (off * p.elementSize)) (toLe sz.bytes v) := by
  simp only [capnSet, elementAt, if_neg (Int.not_le.mpr h), ht, if_neg (Nat.not_lt.mpr hsz), hd, Option.map_some,
    Ptr.elementSize, Nat.cast_add, Nat.cast_mul, Nat.cast_ofNat]
  rfl

theorem elements_eq (ht : p.type = .LIST) (hd : p.data = some d) (hsz : sz.bytes ≤ p.datasz) {m : Nat}
    (hm : off + m ≤ p.len) : elements little sz c p off m =
      (List.range m).flatMap fun i : Nat => hostOrder little (c.read (d.add ((off + i) * p.elementSize)) sz.bytes) := by
  refine List.flatMap_congr fun i hi => ?_
  have hlt : off + i < p.len := by
    have := List.mem_range.mp hi
    omega
  have hl : (c.read (d.add ((off + i) * p.elementSize)) sz.bytes).length = sz.bytes := Mem.length_read _ _ _
  have e := toLe_le (c.read (d.add ((off + i) * p.elementSize)) sz.bytes)
  rw [hl] at e
  rw [capnGet_list ht hd hsz hlt, Capn.load, e]

theorem setEach_succ (sz : SZ) (p : Ptr) (off : Int) (vals : Nat → Nat) (c : Capn) (m : Nat) :
    setEach sz p off vals c (m + 1) = (capnSet sz (setEach sz p off vals c m) p (off + m) (vals m)).capn := by
  simp only [setEach, List.range_succ, List.foldl_append, List.foldl_cons, List.foldl_nil]

/-- A number in the order of a host that copies whole runs. -/
theorem hostOrder_run (h : p.runs little sz = true) {bs : List UInt8} (hl : bs.length = sz.bytes) :
    hostOrder little bs = bs := by
  simp only [Ptr.runs, Bool.and_eq_true, Bool.or_eq_true, decide_eq_true_eq] at h
  cases little with
  | true => rfl
  | false =>
    have h8 : sz = .b8 := h.2.resolve_right Bool.false_ne_true
    rw [h8] at hl
    obtain ⟨b, rfl⟩ := List.length_eq_one_iff.mp hl
    rfl

theorem elementSize_run (h : p.runs little sz = true) : p.elementSize = sz.bytes := by
  simp only [Ptr.runs, Bool.and_eq_true, decide_eq_true_eq] at h
  rw [Ptr.elementSize, h.1.1, h.1.2, Nat.mul_zero, Nat.add_zero]

/-- The elements of a run, from where the first one is. -/
theorem elements_run (ht : p.type = .LIST) (hd : p.data = some d) (hsz : sz.bytes ≤ p.datasz)
    (h : p.runs little sz = true) {m : Nat} (hm : off + m ≤ p.len) :
    elements little sz c p off m = c.read (d.add (off * sz.bytes)) (m * sz.bytes) := by
  rw [elements_eq ht hd hsz hm, Capn.read, Mem.read_mul]
  refine List.flatMap_congr fun i _ => ?_
  have hl : (c.read (d.add ((off + i) * p.elementSize)) sz.bytes).length = sz.bytes := Mem.length_read _ _ _
  rw [hostOrder_run h hl, Capn.read, elementSize_run h]
  simp only [Addr.add]
  congr 1
  ring

/-- The numbers of a run, from where the first one is. -/
theorem setEach_run (ht : p.type = .LIST) (hd : p.data = some d) (hsz : sz.bytes ≤ p.datasz)
    (h : p.runs little sz = true) {m : Nat} (hm : off + m ≤ p.len) : setEach sz p off vals c m =
      c.write (d.add (off * sz.bytes)) ((List.range m).flatMap fun i => hostOrder little (toLe sz.bytes (vals i))) := by
  have hlen : ∀ k : Nat, ((List.range k).flatMap fun i => toLe sz.bytes (vals i)).length = k * sz.bytes := by
    intro k
    simp [List.length_flatMap]
  simp only [hostOrder_run h (length_toLe _ _)]
  induction m with
  | zero => exact (Capn.write_nil c _).symm
  | succ m ih =>
    have hlt : off + m < p.len := by omega
    rw [setEach_succ, ih (by omega), capnSet_list ht hd hsz hlt, List.range_succ, List.flatMap_append,
      List.flatMap_singleton, Capn.write_append, hlen, elementSize_run h]
    congr 1
    simp only [Addr.add, Nat.cast_mul]
    congr 1
    ring

/-- The loop over elements that lie apart. -/
theorem setvList_eq (ht : p.type = .LIST) (hd : p.data = some d) (hsz : sz.bytes ≤ p.datasz) {k i : Nat} {s : Stored}
    (hs : s.capn = setEach sz p off vals c i) (hm : off + (i + k : Nat) ≤ p.len) :
    (setvList sz p off vals k i s).ret = s.ret ∧
      (setvList sz p off vals k i s).capn = setEach sz p off vals c (i + k) := by
  induction k generalizing i s with
  | zero => exact ⟨rfl, hs⟩
  | succ k ih =>
    have hlt : off + i < p.len := by omega
    have hnext : (s.store (d.add ((i + off) * (p.datasz + 8 * p.ptrs))) (toLe sz.bytes (vals i))).capn =
        setEach sz p off vals c (i + 1) := by
      rw [setEach_succ, ← hs, capnSet_list ht hd hsz hlt, Ptr.elementSize, Int.add_comm off]
      push_cast
      rfl
    simp only [setvList, hd]
    rw [show i + (k + 1) = i + 1 + k by omega] at hm ⊢
    exact ih hnext hm

end


section

variable {little : Bool} {sz : SZ} {c : Capn} {p : Ptr} {d : Addr} {off n : Int} {vals : Nat → Nat}

/-- What fits is defined. -/
theorem BulkFits.defined (h : BulkFits little sz p off n) (hn : 0 ≤ n) : ¬ bulkUndefined little sz p off n := by
  obtain ⟨hsum, h⟩ := h
  rw [bulkUndefined, clip_eq, not_or]
  refine ⟨Int.not_lt.mpr hsum, ?_⟩
  split at h
  · rw [if_pos (by assumption), not_or]
    exact ⟨by omega, Int.not_lt.mpr h.2.1⟩
  · rw [if_neg (by assumption)]
    rintro ⟨-, hpos, hbig⟩
    rcases h with h | h
    · exact absurd hpos (Int.not_lt.mpr h)
    · exact absurd hbig (Int.not_lt.mpr h)

/-- Bytes from the start of the list are the first elements'. -/
theorem BulkFits.start (h : BulkFits little sz p off n) (hr : p.runs little sz = true) :
    off ≤ p.len ∧ (off * sz.bytes = off ∨ p.within off n = 0) := by
  obtain ⟨-, h⟩ := h
  rw [if_pos hr] at h
  obtain ⟨hle, -, h⟩ := h
  refine ⟨hle, ?_⟩
  rcases h with rfl | rfl | rfl | rfl
  · exact .inl (Int.zero_mul _)
  · exact .inl (Int.mul_one _)
  · exact .inr (by rw [Ptr.within]; omega)
  · exact .inr (by rw [Ptr.within]; omega)

/-- The elements that there are lie in the list. -/
theorem within_le (h : p.within off n ≠ 0) : off + p.within off n ≤ p.len := by
  rw [Ptr.within] at h ⊢
  omega

theorem toNat_mul_natCast (x : Int) (k : Nat) : (x * k).toNat = x.toNat * k := by
  rcases Int.le_total 0 x with h | h
  · obtain ⟨y, rfl⟩ := Int.eq_ofNat_of_zero_le h
    exact Int.toNat_natCast (y * k)
  · rw [Int.toNat_of_nonpos h, Int.toNat_of_nonpos (Int.mul_nonpos_of_nonpos_of_nonneg h (Int.natCast_nonneg k)),
      Nat.zero_mul]

theorem BulkFits.getv (h : BulkFits little sz p off n) (ht : p.type = .LIST) (hsz : sz.bytes ≤ p.datasz)
    (hd : p.data = some d) (hn : 0 ≤ n) : GetvAlike little sz c p off n := by
  simp only [GetvAlike, getvOn, if_neg (h.defined hn), clip_eq]
  by_cases hr : p.runs little sz = true
  · rw [if_pos hr]
    refine ⟨_, rfl, fun _ => rfl, ?_⟩
    simp only [hd, toNat_mul_natCast]
    show c.read (d.add off) (p.within off n * sz.bytes) = _
    by_cases h0 : p.within off n = 0
    · rw [h0, Nat.zero_mul]
      rfl
    · have hoff : off * sz.bytes = off := (h.start hr).2.resolve_right h0
      rw [elements_run ht hd hsz hr (within_le h0), hoff]
  · rw [if_neg hr, if_neg (Nat.not_lt.mpr hsz)]
    refine ⟨_, rfl, fun _ => rfl, ?_⟩
    simp only [hd]
    show (List.range (p.within off n)).flatMap _ = _
    by_cases h0 : p.within off n = 0
    · rw [h0]
      rfl
    · rw [elements_eq ht hd hsz (within_le h0)]
      simp only [Int.add_comm off]

theorem BulkFits.setv (h : BulkFits little sz p off n) (ht : p.type = .LIST) (hsz : sz.bytes ≤ p.datasz)
    (hd : p.data = some d) (hn : 0 ≤ n) : SetvAlike little sz c p off vals n := by
  simp only [SetvAlike, setvOn, if_neg (h.defined hn), clip_eq]
  by_cases hr : p.runs little sz = true
  · rw [if_pos hr]
    simp only [hd]
    refine ⟨_, rfl, fun _ => rfl, ?_⟩
    show c.write (d.add off) ((List.range (p.within off n)).flatMap _) = _
    by_cases h0 : p.within off n = 0
    · rw [h0]
      exact Capn.write_nil c _
    · have hoff : off * sz.bytes = off := (h.start hr).2.resolve_right h0
      rw [setEach_run ht hd hsz hr (within_le h0), hoff]
  · rw [if_neg hr, if_neg (Nat.not_lt.mpr hsz)]
    refine ⟨_, rfl, ?_⟩
    show (_ → (setvList sz p off vals (p.within off n) 0 _).ret = _) ∧
      (setvList sz p off vals (p.within off n) 0 _).capn = _
    by_cases h0 : p.within off n = 0
    · rw [h0]
      exact ⟨fun _ => rfl, rfl⟩
    · obtain ⟨hret, hcapn⟩ := setvList_eq (s := ⟨min n (p.len - off), c, []⟩) (i := 0) ht hd hsz rfl
        (by rw [Nat.zero_add]; exact within_le h0)
      rw [Nat.zero_add] at hcapn
      exact ⟨fun _ => hret, hcapn⟩

/-- An object with bytes has a segment. -/
theorem InSegment.seg_lt (hp : InSegment c p) (hd : p.data = some d) (hpos : 0 < p.extent) :
    d.seg < c.segs.length := by
  obtain ⟨s, o, -, ho, hlead, hlen⟩ := hp
  have e := hd.symm.trans ho
  cases e
  by_contra hge
  rw [Capn.seg_of_ge (Nat.not_lt.mp hge)] at hlen
  simp only at hlen
  omega

/-- In some session, one byte from a list's start on is the only one that is not zero. -/
theorem exists_marked (hp : InSegment c p) (hpos : 0 < p.extent) (x : Int) :
    ∃ c' d, InSegment c' p ∧ p.data = some d ∧ ∀ (a : Int) (k : Nat),
      c'.read (d.add a) k = (List.range k).map fun i : Nat => if a + i = x then 1 else 0 := by
  obtain ⟨s, o, hs, ho, hlead, hlen⟩ := id hp
  have hlt : s < c.segs.length := hp.seg_lt ho hpos
  refine ⟨c.setSeg s fun g => { g with data := fun y => if y = o + x then 1 else 0 }, ⟨s, o⟩,
    ⟨s, o, hs, ho, hlead, ?_⟩, ho, ?_⟩
  · rw [Capn.seg_setSeg_self _ hlt]
    exact hlen
  · intro a k
    rw [Capn.read, Addr.add, Capn.seg_setSeg_self _ hlt]
    refine List.ext_getElem (by simp) fun i h₁ h₂ => ?_
    rw [Mem.getElem_read, List.getElem_map, List.getElem_range]
    simp only [show o + a + (i : Int) = o + x ↔ a + i = x by omega]

/-- What `capn_getvN` does as `capn_getN` fits. -/
theorem bulkFits_of_getv (ht : p.type = .LIST) (hlen : 0 ≤ p.len) (hsz : sz.bytes ≤ p.datasz) (hp : InSegment c p)
    (h0 : 0 ≤ off) (hn : 0 ≤ n) (h : ∀ c, InSegment c p → GetvAlike little sz c p off n) :
    BulkFits little sz p off n := by
  have hdef : ¬ bulkUndefined little sz p off n := by
    intro hu
    obtain ⟨r, hr, -⟩ := h c hp
    rw [getvOn, if_pos hu] at hr
    cases hr
  have hdef' := hdef
  rw [bulkUndefined, not_or, clip_eq] at hdef'
  obtain ⟨hsum, hrun⟩ := hdef'
  refine ⟨Int.not_lt.mp hsum, ?_⟩
  by_cases hr : p.runs little sz = true
  · rw [if_pos hr, not_or] at hrun
    rw [if_pos hr]
    refine ⟨by omega, Int.not_lt.mp hrun.2, ?_⟩
    by_contra hbad
    simp only [not_or] at hbad
    obtain ⟨hoff, h8, hn0, hend⟩ := hbad
    have hw : p.within off n ≠ 0 := by
      rw [Ptr.within]
      omega
    have hb : 1 < sz.bytes := by
      cases sz with
      | b8 => exact absurd rfl h8
      | b16 => decide
      | b32 => decide
      | b64 => decide
    have hext : 0 < p.extent := by
      simp only [Ptr.extent, ht]
      exact Nat.mul_pos (by omega) (by omega)
    have hne : off ≠ off * sz.bytes := by
      intro he
      have : off * 1 = off * sz.bytes := by rw [Int.mul_one]; exact he
      have := Int.eq_of_mul_eq_mul_left hoff this
      omega
    obtain ⟨c', d, hp', hd, hread⟩ := exists_marked hp hext (off * sz.bytes)
    obtain ⟨r, hget, -, hel⟩ := h c' hp'
    rw [getvOn, if_neg hdef, clip_eq] at hget
    simp only [if_pos hr, hd, toNat_mul_natCast] at hget
    obtain rfl := Option.some.inj hget
    rw [elements_run ht hd hsz hr (within_le hw)] at hel
    have hlen' : 0 < p.within off n * sz.bytes := Nat.mul_pos (Nat.pos_of_ne_zero hw) (by omega)
    have h1 : c'.read (d.add off) (p.within off n * sz.bytes) =
      c'.read (d.add (off * sz.bytes)) (p.within off n * sz.bytes) := hel
    rw [hread, hread] at h1
    have h2 := List.map_inj_left.mp h1 0 (List.mem_range.mpr hlen')
    rw [if_neg (by omega), if_pos (by omega)] at h2
    exact absurd h2 (by decide)
  · rw [if_neg hr] at hrun ⊢
    by_contra hbad
    rw [not_or] at hbad
    exact hrun ⟨hsz, Int.not_le.mp hbad.1, Int.not_le.mp hbad.2⟩

/-- **The bulk accessors of a list** do what calls for its elements do, in every session that it
lies in, exactly when the `int`s fit and a run that one `memcpy` moves starts where its first
element does. -/
theorem bulk_iff (ht : p.type = .LIST) (hlen : 0 ≤ p.len) (hsz : sz.bytes ≤ p.datasz) (hp : InSegment c p)
    (h0 : 0 ≤ off) (hn : 0 ≤ n) :
    (∀ c vals, InSegment c p → GetvAlike little sz c p off n ∧ SetvAlike little sz c p off vals n) ↔
      BulkFits little sz p off n := by
  constructor
  · intro h
    exact bulkFits_of_getv ht hlen hsz hp h0 hn fun c hc => (h c (fun _ => 0) hc).1
  · intro h c vals ⟨s, o, _, hd, _⟩
    exact ⟨h.getv ht hsz hd hn, h.setv ht hsz hd hn⟩

end

/-- Four numbers of two bytes. -/
def uint16List : Ptr := { type := .LIST, datasz := 2, len := 4, data := some ⟨0, 0⟩, seg := some 0 }

def uint16Session : Capn := { segs := [⟨Mem.ofList [1, 0, 2, 0, 3, 0, 4, 0], 8, 8⟩] }

theorem uint16List_inSegment : InSegment uint16Session uint16List := ⟨0, 0, rfl, rfl, by decide, by decide⟩

theorem bulk_uint16 : GetvAlike true .b16 uint16Session uint16List 0 5 ∧
    SetvAlike true .b16 uint16Session uint16List 0 id 5 :=
  (bulk_iff rfl (by decide) (by decide) uint16List_inSegment (by decide) (by decide)).mpr (by decide) uint16Session id
    uint16List_inSegment

/-- From the second element on, the bytes that are read start in the middle of the first. -/
theorem getv_uint16_second : ¬ GetvAlike true .b16 uint16Session uint16List 1 3 := by
  rintro ⟨r, hr, -, he⟩
  have h : getvOn true .b16 uint16Session uint16List 1 3 = some (3, [0, 2, 0, 3, 0, 4]) := by decide
  obtain rfl := Option.some.inj (h.symm.trans hr)
  revert he
  decide

end Capnproto

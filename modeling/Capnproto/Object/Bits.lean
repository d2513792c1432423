import Capnproto.Object.Bulk

/-!
# Whole runs of bits

`capn_getv1` and `capn_setv1` move whole bytes (`getv1On`, `setv1On`). They compare the
byte that a run starts at, and its length in bits, to the length of the list in bytes.
A run does what calls for its bits do exactly when that comparison takes the
branch that is right for it, and the last byte that is stored has no bits of the list
behind the run (`bits_iff`).
-/

namespace Capnproto

/-! ## Runs -/

/-- An `int` of `capn_getv1` and `capn_setv1` overflows, or the count for `memcpy` is negative. -/
def bitsUndefined (p : Ptr) (off n : Int) : Prop :=
  ¬ refusesBits p off ∧ ((INT_MAX : Int) < n + 7 ∨ (INT_MAX : Int) < off.tdiv 8 + n ∨
    (p.datasz : Int) < off.tdiv 8 + n ∧ (p.datasz : Int) < off.tdiv 8)

instance (p : Ptr) (off n : Int) : Decidable (bitsUndefined p off n) := inferInstanceAs (Decidable (_ ∧ _))

/-- `capn_getv1`: the result, and the bytes of `data` it writes. -/
def getv1On (c : Capn) (p : Ptr) (off n : Int) : Option (Int × List UInt8) :=
  if bitsUndefined p off n then none else some (capnGetv1 c p off n).2

/-- `capn_setv1`. -/
def setv1On (c : Capn) (p : Ptr) (off : Int) (data : Nat → UInt8) (n : Int) : Option Stored :=
  if bitsUndefined p off n then none else some (capnSetv1 c p off data n)

/-! ## Bit by bit -/

/-- Bit `i` of bytes. -/
def bitOf (bs : List UInt8) (i : Nat) : Option Int :=
  bs[i / 8]?.map fun b => if b.toNat.testBit (i % 8) then 1 else 0

/-- Bit `i` of the bytes that a run is stored from. -/
def sourceBit (data : Nat → UInt8) (i : Nat) : Int := if (data (i / 8)).toNat.testBit (i % 8) then 1 else 0

/-- The session after `m` calls of `capn_set1` from `off` on. -/
def set1Each (p : Ptr) (off : Int) (data : Nat → UInt8) (c : Capn) (m : Nat) : Capn :=
  (List.range m).foldl (fun c (i : Nat) => (capnSet1 c p (off + i) (sourceBit data i)).capn) c

/-- `capn_getv1` does what calls of `capn_get1` do. -/
def Getv1Alike (c : Capn) (p : Ptr) (off n : Int) : Prop :=
  ∃ r, getv1On c p off n = some r ∧ r.1 = min n (p.len - off) ∧ r.2.length ≤ (p.within off n + 7) / 8 ∧
    ∀ i : Nat, i < p.within off n → bitOf r.2 i = some (capnGet1 c p (off + i)).2

/-- `capn_setv1` does what calls of `capn_set1` do to the bits of the list, and nothing else. -/
structure Setv1Alike (c : Capn) (p : Ptr) (off : Int) (data : Nat → UInt8) (n : Int) (s : Stored) : Prop where
  defined : setv1On c p off data n = some s
  ret : s.ret = min n (p.len - off)
  reads : ∀ x ∈ s.stores, x.2.length ≤ (p.within off n + 7) / 8
  bits : ∀ i : Int, 0 ≤ i → i < p.len →
    (capnGet1 s.capn p i).2 = (capnGet1 (set1Each p off data c (p.within off n)) p i).2
  others : ∀ i : Int, 0 ≤ i → i < p.len → ¬ (off ≤ i ∧ i < off + p.within off n) →
    (capnGet1 s.capn p i).2 = (capnGet1 c p i).2
  outside : ∀ k x, ¬ (∃ d, p.data = some d ∧ k = d.seg ∧ d.off ≤ x ∧ x < d.off + p.extent) →
    (s.capn.seg k).data x = (c.seg k).data x
  shape : s.capn.segs.length = c.segs.length ∧ ∀ k, (s.capn.seg k).len = (c.seg k).len

/-- The `int`s fit. A run that ends in the bytes of the list, counting its bits for bytes, ends at a whole byte or
with the list; any other run ends with the list or goes on behind it, and the list knows its bytes. -/
def BitsFit (p : Ptr) (off n : Int) : Prop :=
  p.isListMember = false ∧ n + 7 ≤ INT_MAX ∧ off / 8 + n ≤ INT_MAX ∧
    if off / 8 + n ≤ p.datasz then n % 8 = 0 ∨ p.len - off ≤ n
    else p.len - off ≤ n ∧ p.datasz = (p.len.toNat + 7) / 8

instance (p : Ptr) (off n : Int) : Decidable (BitsFit p off n) := inferInstanceAs (Decidable (_ ∧ _))

/-! ## Bits of the list -/

/-- Bit `i` from an address on. -/
def Capn.bit (c : Capn) (d : Addr) (i : Nat) : Bool := ((c.seg d.seg).data (d.off + (i / 8 : Nat))).toNat.testBit (i % 8)

/-- A list of bits that is not a member. -/
structure Ptr.IsBits (p : Ptr) (d : Addr) : Prop where
  type : p.type = .BIT_LIST
  data : p.data = some d
  ptrs : p.ptrs = 0

section

variable {c : Capn} {p : Ptr} {d : Addr} {off n : Int} {data : Nat → UInt8}

theorem bitAt_list (hb : p.IsBits d) {i : Nat} (hi : (i : Int) < p.len) :
    bitAt c p i = (c, some (d.add (i / 8 : Nat), i % 8)) := by
  simp only [bitAt, if_neg (Int.not_lt.mpr (Int.natCast_nonneg i)), hb.type, if_neg (Int.not_le.mpr hi), hb.data,
    hb.ptrs, Nat.cast_zero, Int.add_zero, Option.map_some]
  congr 3

theorem capnGet1_list (hb : p.IsBits d) {i : Nat} (hi : (i : Int) < p.len) :
    (capnGet1 c p i).2 = if c.bit d i then 1 else 0 := by
  have hr : capnResolve c p = ⟨c, p, []⟩ := if_neg (by rw [hb.type]; decide)
  simp only [capnGet1, hr, bitAt_list hb hi]
  rfl

/-! ### Bits of bytes -/

theorem testBit_mask {k j : Nat} (hk : k < 8) (hj : j < 8) :
    ((1 : UInt8) <<< UInt8.ofNat k).toNat.testBit j = decide (j = k) := by
  have h : ∀ k j : Fin 8, ((1 : UInt8) <<< UInt8.ofNat k).toNat.testBit j = decide (j = k) := by decide
  rw [h ⟨k, hk⟩ ⟨j, hj⟩]
  simp only [Fin.mk.injEq]

theorem testBit_not (x : UInt8) {j : Nat} (hj : j < 8) : (~~~x).toNat.testBit j = !x.toNat.testBit j := by
  rw [← UInt8.toNat_toBitVec, ← UInt8.toNat_toBitVec, BitVec.testBit_toNat, BitVec.testBit_toNat, UInt8.toBitVec_not,
    BitVec.getLsbD_not, decide_eq_true hj, Bool.true_and]

theorem testBit_set (x : UInt8) {k j : Nat} (hk : k < 8) (hj : j < 8) (val : Int) :
    (if val ≠ 0 then x ||| 1 <<< UInt8.ofNat k else x &&& ~~~(1 <<< UInt8.ofNat k) : UInt8).toNat.testBit j =
      if j = k then decide (val ≠ 0) else x.toNat.testBit j := by
  by_cases hv : val = 0
  · rw [if_neg (not_not.mpr hv), UInt8.toNat_and, Nat.testBit_and, testBit_not _ hj, testBit_mask hk hj]
    by_cases h : j = k <;> simp [h, hv]
  · rw [if_pos hv, UInt8.toNat_or, Nat.testBit_or, testBit_mask hk hj]
    by_cases h : j = k <;> simp [h, hv]

/-! ### Stores -/

theorem Capn.bit_write (hd : d.seg < c.segs.length) (k i : Nat) (bs : List UInt8) :
    (c.write (d.add k) bs).bit d i =
      if k ≤ i / 8 ∧ i / 8 < k + bs.length then (bs.getD (i / 8 - k) 0).toNat.testBit (i % 8) else c.bit d i := by
  simp only [Capn.bit, Capn.write, Addr.add, Capn.seg_setSeg_self _ hd, Mem.write]
  by_cases h : k ≤ i / 8 ∧ i / 8 < k + bs.length
  · rw [if_pos h, if_pos (by omega)]
    congr 3
    omega
  · rw [if_neg h, if_neg (by omega)]

/-- What `capn_set1` does to the bits of a list. -/
theorem bit_capnSet1 (hb : p.IsBits d) (hd : d.seg < c.segs.length) {i : Nat} (hi : (i : Int) < p.len) (val : Int)
    (j : Nat) : (capnSet1 c p i val).capn.bit d j = if j = i then decide (val ≠ 0) else c.bit d j := by
  have hr : capnResolve c p = ⟨c, p, []⟩ := if_neg (by rw [hb.type]; decide)
  simp only [capnSet1, hr, bitAt_list hb hi]
  show (c.write (d.add (i / 8 : Nat)) [_]).bit d j = _
  rw [Capn.bit_write hd, List.length_singleton]
  by_cases h : j / 8 = i / 8
  · rw [if_pos (by omega), show j / 8 - i / 8 = 0 by omega, List.getD_cons_zero,
      testBit_set _ (Nat.mod_lt _ (by decide)) (Nat.mod_lt _ (by decide))]
    by_cases hj : j = i
    · rw [if_pos (by rw [hj]), if_pos hj]
    · rw [if_neg (by omega), if_neg hj, Capn.bit, h]
      rfl
  · rw [if_neg (by omega), if_neg (by rintro rfl; exact h rfl)]

theorem segs_capnSet1 (hb : p.IsBits d) {i : Nat} (hi : (i : Int) < p.len) (val : Int) :
    (capnSet1 c p i val).capn.segs.length = c.segs.length := by
  have hr : capnResolve c p = ⟨c, p, []⟩ := if_neg (by rw [hb.type]; decide)
  simp only [capnSet1, hr, bitAt_list hb hi]
  exact Capn.length_write _ _ _

theorem decide_sourceBit (data : Nat → UInt8) (i : Nat) :
    decide (sourceBit data i ≠ 0) = (data (i / 8)).toNat.testBit (i % 8) := by
  rw [sourceBit]
  cases (data (i / 8)).toNat.testBit (i % 8) <;> decide

/-- What calls of `capn_set1` do to the bits of a list. -/
theorem bit_set1Each (hb : p.IsBits d) (hd : d.seg < c.segs.length) {o m : Nat} (hm : (o + m : Nat) ≤ p.len) (j : Nat) :
    (set1Each p o data c m).bit d j = (if o ≤ j ∧ j < o + m then
      (data ((j - o) / 8)).toNat.testBit ((j - o) % 8) else c.bit d j) ∧
    (set1Each p o data c m).segs.length = c.segs.length := by
  induction m with
  | zero => exact ⟨by rw [if_neg (by omega)]; rfl, rfl⟩
  | succ m ih =>
    obtain ⟨ih, hlen⟩ := ih (by omega)
    have hlt : ((o + m : Nat) : Int) < p.len := by omega
    have e : set1Each p o data c (m + 1) =
        (capnSet1 (set1Each p o data c m) p (o + m : Nat) (sourceBit data m)).capn := by
      simp only [set1Each, List.range_succ, List.foldl_append, List.foldl_cons, List.foldl_nil, Nat.cast_add]
    rw [e, bit_capnSet1 hb (hlen ▸ hd) hlt, segs_capnSet1 hb hlt, ih, decide_sourceBit]
    refine ⟨?_, hlen⟩
    by_cases hj : j = o + m
    · rw [if_pos hj, if_pos (by omega), show j - o = m by omega]
    · rw [if_neg hj]
      by_cases h : o ≤ j ∧ j < o + m
      · rw [if_pos h, if_pos (by omega)]
      · rw [if_neg h, if_neg (by omega)]

end

/-! ## Runs that fit -/

section

variable {c : Capn} {p : Ptr} {d : Addr} {b : Nat} {n : Int} {data : Nat → UInt8}

theorem not_refusesBits (hb : p.IsBits d) (hm : p.isListMember = false) : ¬ refusesBits p (8 * b : Nat) := by
  rw [refusesBits, not_or, not_or, not_not, not_not, hm]
  exact ⟨hb.type, by omega, Bool.false_ne_true⟩

theorem tdiv_eight (b : Nat) : ((8 * b : Nat) : Int).tdiv 8 = b := by
  rw [Int.tdiv_eq_ediv_of_nonneg (Int.natCast_nonneg _)]
  omega

theorem Capn.bit_add (c : Capn) (d : Addr) (b i : Nat) : c.bit d (8 * b + i) =
    ((c.seg d.seg).data (d.off + b + (i / 8 : Nat))).toNat.testBit (i % 8) := by
  rw [Capn.bit, show (8 * b + i) / 8 = b + i / 8 by omega, show (8 * b + i) % 8 = i % 8 by omega, Nat.cast_add,
    Int.add_assoc]

theorem bitBytes_eq (b : Nat) (p : Ptr) (n : Int) : bitBytes p (8 * b : Nat) n =
    if (p.datasz : Int) < b + n then (p.len - (8 * b : Nat), (p.datasz - b : Int).toNat)
    else (n, ((n + 7).tdiv 8).toNat) := by
  simp only [bitBytes, tdiv_eight]
  rw [show (b : Int) * 8 = (8 * b : Nat) by omega]

/-- A run that fits is moved as it should be. -/
theorem BitsFit.bytes (h : BitsFit p (8 * b : Nat) n) (hd : p.datasz ≤ (p.len.toNat + 7) / 8) (hle : (8 * b : Nat) ≤ p.len)
    (hn : 0 ≤ n) : ¬ bitsUndefined p (8 * b : Nat) n ∧
      bitBytes p (8 * b : Nat) n = (min n (p.len - (8 * b : Nat)), (p.within (8 * b : Nat) n + 7) / 8) ∧
      (p.within (8 * b : Nat) n % 8 = 0 ∨ (8 * b + p.within (8 * b : Nat) n : Nat) = p.len) := by
  obtain ⟨hm, h7, hsum, h⟩ := h
  rw [show ((8 * b : Nat) : Int) / 8 = b by omega] at hsum h
  rw [bitsUndefined, bitBytes_eq, tdiv_eight]
  simp only [Ptr.within]
  by_cases hc : (b : Int) + n ≤ p.datasz
  · rw [if_pos hc] at h
    rw [if_neg (Int.not_lt.mpr hc)]
    refine ⟨?_, ?_, ?_⟩
    · rintro ⟨-, h⟩
      omega
    · rw [Int.tdiv_eq_ediv_of_nonneg (by omega)]
      congr 1 <;> omega
    · omega
  · rw [if_neg hc] at h
    rw [if_pos (Int.not_le.mp hc)]
    refine ⟨?_, ?_, ?_⟩
    · rintro ⟨-, h⟩
      omega
    · congr 1 <;> omega
    · omega

theorem BitsFit.getv1 (h : BitsFit p (8 * b : Nat) n) (hb : p.IsBits d) (hd : p.datasz ≤ (p.len.toNat + 7) / 8)
    (hle : (8 * b : Nat) ≤ p.len) (hn : 0 ≤ n) : Getv1Alike c p (8 * b : Nat) n := by
  obtain ⟨hdef, hbytes, -⟩ := h.bytes hd hle hn
  have hr : capnResolve c p = ⟨c, p, []⟩ := if_neg (by rw [hb.type]; decide)
  have e : (capnGetv1 c p (8 * b : Nat) n).2 = (min n (p.len - (8 * b : Nat)),
      c.read (d.add b) ((p.within (8 * b : Nat) n + 7) / 8)) := by
    simp only [capnGetv1, hr, if_neg (not_refusesBits hb h.1), hb.data, hbytes, tdiv_eight]
  refine ⟨_, by rw [getv1On, if_neg hdef, e], rfl, le_of_eq (Mem.length_read _ _ _), fun i hi => ?_⟩
  have hlt : ((8 * b + i : Nat) : Int) < p.len := by
    rw [Ptr.within] at hi
    omega
  have hk : i / 8 < (c.read (d.add b) ((p.within (8 * b : Nat) n + 7) / 8)).length := by
    rw [Capn.read, Mem.length_read]
    omega
  rw [← Nat.cast_add, capnGet1_list hb hlt, Capn.bit_add, bitOf, List.getElem?_eq_getElem hk]
  simp only [Capn.read, Mem.getElem_read, Option.map_some, Addr.add]

theorem BitsFit.setv1 (h : BitsFit p (8 * b : Nat) n) (hb : p.IsBits d) (hd : p.datasz ≤ (p.len.toNat + 7) / 8)
    (hp : InSegment c p) (hle : (8 * b : Nat) ≤ p.len) (hn : 0 ≤ n) : ∃ s, Setv1Alike c p (8 * b : Nat) data n s := by
  obtain ⟨hdef, hbytes, hend⟩ := h.bytes hd hle hn
  have hw : ((8 * b + p.within (8 * b : Nat) n : Nat) : Int) ≤ p.len := by
    rw [Ptr.within]
    omega
  generalize hm : p.within (8 * b : Nat) n = m at hbytes hend hw
  have e : capnSetv1 c p (8 * b : Nat) data n = ⟨min n (p.len - (8 * b : Nat)),
      c.write (d.add b) ((List.range ((m + 7) / 8)).map data), [(d.add b, (List.range ((m + 7) / 8)).map data)]⟩ := by
    simp only [capnSetv1, if_neg (not_refusesBits hb h.1), hb.data, hbytes, tdiv_eight]
    rfl
  have hlen : ((List.range ((m + 7) / 8)).map data).length = (m + 7) / 8 := by simp
  have hext : p.extent = (p.len.toNat + 7) / 8 := by
    simp only [Ptr.extent, hb.type, hb.ptrs, Nat.zero_add]
  -- A list with a bit has a segment.
  have hseg : 0 < p.len → d.seg < c.segs.length := by
    intro hpos
    refine hp.seg_lt hb.data ?_
    rw [hext]
    omega
  have hbit : ∀ j : Nat, (j : Int) < p.len → (c.write (d.add b) ((List.range ((m + 7) / 8)).map data)).bit d j =
      if 8 * b ≤ j ∧ j < 8 * b + m then (data ((j - 8 * b) / 8)).toNat.testBit ((j - 8 * b) % 8) else c.bit d j := by
    intro j hj
    rw [Capn.bit_write (hseg (by omega)), hlen]
    by_cases hin : 8 * b ≤ j ∧ j < 8 * b + m
    · have hk : j / 8 - b < ((List.range ((m + 7) / 8)).map data).length := by omega
      rw [if_pos (by omega), if_pos hin, List.getD_eq_getElem _ _ hk, List.getElem_map, List.getElem_range,
        show (j - 8 * b) / 8 = j / 8 - b by omega, show (j - 8 * b) % 8 = j % 8 by omega]
    · rw [if_neg (by omega), if_neg hin]
  refine ⟨_, ⟨by rw [setv1On, if_neg hdef, e], rfl, ?_, ?_, ?_, ?_, ?_⟩⟩
  · intro x hx
    rw [List.mem_singleton.mp hx, hlen, hm]
  · intro i h0 hi
    obtain ⟨j, rfl⟩ := Int.eq_ofNat_of_zero_le h0
    rw [capnGet1_list hb hi, capnGet1_list hb hi, hbit j hi, hm, (bit_set1Each hb (hseg (by omega)) hw j).1]
  · intro i h0 hi hout
    obtain ⟨j, rfl⟩ := Int.eq_ofNat_of_zero_le h0
    rw [hm] at hout
    have hj : ¬ (8 * b ≤ j ∧ j < 8 * b + m) := by omega
    rw [capnGet1_list hb hi, capnGet1_list hb hi, hbit j hi, if_neg hj]
  · intro k x hout
    rw [Capn.write, Capn.seg_setSeg]
    split
    · rename_i hk
      show Mem.write _ (d.off + b) _ x = _
      rw [Mem.write, hlen, if_neg]
      intro hx
      exact hout ⟨d, hb.data, hk.1.symm, by omega, by omega⟩
    · rfl
  · exact ⟨Capn.length_write _ _ _, fun k => Capn.len_write _ _ _ k⟩

/-! ## Runs that do not -/

/-- A run that is defined, from a list that is not a member, is moved by the byte. -/
theorem getv1On_eq (hb : p.IsBits d) (hm : p.isListMember = false) {r : Int × List UInt8}
    (h : getv1On c p (8 * b : Nat) n = some r) : ¬ bitsUndefined p (8 * b : Nat) n ∧
      r = ((bitBytes p (8 * b : Nat) n).1, c.read (d.add b) (bitBytes p (8 * b : Nat) n).2) := by
  have hr : capnResolve c p = ⟨c, p, []⟩ := if_neg (by rw [hb.type]; decide)
  rw [getv1On] at h
  split at h
  · cases h
  · rename_i hdef
    refine ⟨hdef, (Option.some.inj h).symm.trans ?_⟩
    simp only [capnGetv1, hr, if_neg (not_refusesBits hb hm), hb.data, tdiv_eight]

/-- The bits behind a run, in the last byte that it is stored to, are lost. -/
theorem setv1_tail (hb : p.IsBits d) (hp : InSegment c p) (hm : p.isListMember = false)
    (hc : (b : Int) + n ≤ p.datasz) (hn : 0 ≤ n) (h8 : n % 8 ≠ 0) (hlt : n < p.len - (8 * b : Nat)) :
    ∃ data, ∀ s, ¬ Setv1Alike c p (8 * b : Nat) data n s := by
  refine ⟨fun i => ~~~((c.seg d.seg).data (d.off + b + i)), fun s hs => ?_⟩
  obtain ⟨k, rfl⟩ := Int.eq_ofNat_of_zero_le hn
  have hext : p.extent = (p.len.toNat + 7) / 8 := by
    simp only [Ptr.extent, hb.type, hb.ptrs, Nat.zero_add]
  have hseg : d.seg < c.segs.length := by
    refine hp.seg_lt hb.data ?_
    rw [hext]
    omega
  have hj : ((8 * b + k : Nat) : Int) < p.len := by omega
  have hw : p.within (8 * b : Nat) k = k := by
    rw [Ptr.within]
    omega
  have hkeep := hs.others (8 * b + k : Nat) (by omega) hj (by rw [hw]; omega)
  have hdef := hs.defined
  rw [setv1On] at hdef
  split at hdef
  · cases hdef
  obtain rfl := Option.some.inj hdef
  rw [capnGet1_list hb hj, capnGet1_list hb hj] at hkeep
  have e : (capnSetv1 c p (8 * b : Nat) (fun i => ~~~((c.seg d.seg).data (d.off + b + i))) k).capn =
      c.write (d.add b) ((List.range ((k + 7) / 8)).map fun i : Nat => ~~~((c.seg d.seg).data (d.off + b + i))) := by
    simp only [capnSetv1, if_neg (not_refusesBits hb hm), hb.data, bitBytes_eq, if_neg (Int.not_lt.mpr hc), tdiv_eight]
    rw [show ((k : Int) + 7).tdiv 8 = ((k + 7) / 8 : Nat) by
      rw [Int.tdiv_eq_ediv_of_nonneg (by omega)]
      omega, Int.toNat_natCast]
    rfl
  have hlen : k / 8 < ((List.range ((k + 7) / 8)).map fun i : Nat => ~~~((c.seg d.seg).data (d.off + b + i))).length := by
    rw [List.length_map, List.length_range]
    omega
  have hin : b ≤ (8 * b + k) / 8 ∧ (8 * b + k) / 8 <
      b + ((List.range ((k + 7) / 8)).map fun i : Nat => ~~~((c.seg d.seg).data (d.off + b + i))).length := by omega
  rw [e, Capn.bit_write hseg, if_pos hin, show (8 * b + k) / 8 - b = k / 8 by omega,
    List.getD_eq_getElem _ _ hlen, List.getElem_map, List.getElem_range, show (8 * b + k) % 8 = k % 8 by omega,
    testBit_not _ (Nat.mod_lt _ (by decide)), Capn.bit_add] at hkeep
  cases h : ((c.seg d.seg).data (d.off + b + (k / 8 : Nat))).toNat.testBit (k % 8) <;> rw [h] at hkeep <;>
    exact absurd hkeep (by decide)

/-- **The bulk accessors of bits** do what calls for single bits do exactly when the run fits. -/
theorem bits_iff (ht : p.type = .BIT_LIST) (hp : InSegment c p)
    (hl : p.isListMember = false → p.ptrs = 0 ∧ p.datasz = (p.len.toNat + 7) / 8 % 2 ^ 19)
    {off : Int} (h0 : 0 ≤ off) (h8 : off % 8 = 0) (hle : off ≤ p.len) (hn : 0 ≤ n) :
    (Getv1Alike c p off n ∧ ∀ data, ∃ s, Setv1Alike c p off data n s) ↔ BitsFit p off n := by
  obtain ⟨d, hd⟩ : ∃ d, p.data = some d := by
    obtain ⟨s, o, -, ho, -⟩ := hp
    exact ⟨_, ho⟩
  obtain ⟨b, rfl⟩ : ∃ b : Nat, off = (8 * b : Nat) := ⟨(off / 8).toNat, by omega⟩
  constructor
  · rintro ⟨⟨r, hr, hret, hlen, hbits⟩, hset⟩
    have hm : p.isListMember = false := by
      by_contra hm
      rw [Bool.not_eq_false] at hm
      have hrefuse : refusesBits p (8 * b : Nat) := .inr (.inr hm)
      rw [getv1On, if_neg (fun h => h.1 hrefuse)] at hr
      obtain rfl := Option.some.inj hr
      have hres : capnResolve c p = ⟨c, p, []⟩ := if_neg (by rw [ht]; decide)
      simp only [capnGetv1, hres, if_pos hrefuse] at hret
      omega
    obtain ⟨hptrs, hsize⟩ := hl hm
    have hb : p.IsBits d := ⟨ht, hd, hptrs⟩
    obtain ⟨hdef, rfl⟩ := getv1On_eq hb hm hr
    rw [bitsUndefined, tdiv_eight] at hdef
    simp only [not_refusesBits hb hm, not_false_eq_true, true_and, not_or] at hdef
    refine ⟨hm, Int.not_lt.mp hdef.1, by omega, ?_⟩
    rw [show ((8 * b : Nat) : Int) / 8 = b by omega]
    split
    · rename_i hc
      by_contra hbad
      rw [not_or] at hbad
      obtain ⟨data, hdata⟩ := setv1_tail hb hp hm hc hn hbad.1 (Int.not_le.mp hbad.2)
      obtain ⟨s, hs⟩ := hset data
      exact hdata s hs
    · rename_i hc
      rw [bitBytes_eq, if_pos (Int.not_le.mp hc)] at hret hlen hbits
      have hw : p.within (8 * b : Nat) n = (p.len - (8 * b : Nat)).toNat := by
        rw [Ptr.within]
        omega
      refine ⟨by omega, ?_⟩
      by_cases hz : p.within (8 * b : Nat) n = 0
      · omega
      · -- The last bit of the list is among the bytes that are moved.
        have hlast := hbits (p.within (8 * b : Nat) n - 1) (by omega)
        have hin : (p.within (8 * b : Nat) n - 1) / 8 < (p.datasz - b : Int).toNat := by
          by_contra hout
          rw [bitOf, List.getElem?_eq_none] at hlast
          · cases hlast
          · rw [Capn.read, Mem.length_read]
            omega
        omega
  · intro h
    obtain ⟨hptrs, hsize⟩ := hl h.1
    have hb : p.IsBits d := ⟨ht, hd, hptrs⟩
    have hsz : p.datasz ≤ (p.len.toNat + 7) / 8 := by omega
    exact ⟨h.getv1 hb hsz hle hn, fun data => h.setv1 hb hsz hp hle hn⟩

end

/-- Sixteen bits, in two bytes. -/
def bits16 : Ptr := { type := .BIT_LIST, len := 16, datasz := 2, data := some ⟨0, 0⟩, seg := some 0 }

def bitsSession : Capn := { segs := [⟨Mem.ofList [0xff, 0xff, 0, 0, 0, 0, 0, 0], 8, 8⟩] }

theorem bits16_inSegment : InSegment bitsSession bits16 := ⟨0, 0, rfl, rfl, by decide, by decide⟩

theorem bits_whole : Getv1Alike bitsSession bits16 8 100 ∧ ∀ data, ∃ s, Setv1Alike bitsSession bits16 8 data 100 s :=
  (bits_iff rfl bits16_inSegment (by decide) (by decide) (by decide) (by decide) (by decide)).mpr (by decide)

/-- Three bits of sixteen are taken for the rest of the list. -/
theorem getv1_three : ¬ Getv1Alike bitsSession bits16 0 3 := by
  rintro ⟨r, hr, hret, -⟩
  have h : getv1On bitsSession bits16 0 3 = some (16, [0xff, 0xff]) := by decide
  obtain rfl := Option.some.inj (h.symm.trans hr)
  revert hret
  decide

end Capnproto

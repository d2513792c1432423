import Mathlib.Data.List.Basic
import Mathlib.Tactic.Ring

/-!
# The packed format

A packed stream is a sequence of packets: a run of zero words (`0x00` and a
count), a word of eight nonzero bytes followed by words kept raw (`0xFF`, the
word, a count, the words), or any other word (a tag whose bit `i` says whether
byte `i` is nonzero, and the nonzero bytes). `unpack` is what a packed byte
string stands for, as far as its packets go: a packet cut short gives nothing,
except that the bytes of a raw run count one by one. `AtRaw` says where a
reader or a writer stands inside raw runs. `unpack_packets` is the round trip.
-/

namespace Capnproto.Packing

/-- The number of a list of bits, least significant first. -/
def ofBits : List Bool → Nat
  | [] => 0
  | b :: bs => b.toNat + 2 * ofBits bs

/-- The eight bits of a tag, least significant first. -/
def tagBits (t : UInt8) : List Bool := (List.range 8).map t.toNat.testBit

/-- The tag of a word. -/
def tagOf (w : List UInt8) : UInt8 := UInt8.ofNat (ofBits (w.map fun b => decide (b ≠ 0)))

theorem length_tagBits (t : UInt8) : (tagBits t).length = 8 := by simp [tagBits]

/-- One bit more, the most significant. -/
theorem ofBits_append (bs : List Bool) (b : Bool) : ofBits (bs ++ [b]) = ofBits bs + 2 ^ bs.length * b.toNat := by
  induction bs with
  | nil => simp [ofBits]
  | cons c bs ih =>
    rw [List.cons_append, ofBits, ofBits, ih, List.length_cons, Nat.pow_succ]
    cases b with
    | false => simp
    | true => simp; omega

theorem ofBits_lt (bs : List Bool) : ofBits bs < 2 ^ bs.length := by
  induction bs with
  | nil => decide
  | cons b bs ih =>
    have := Bool.toNat_le b
    rw [ofBits, List.length_cons, Nat.pow_succ]
    omega

/-- The bits of the number of a list of bits. -/
theorem testBit_ofBits (bs : List Bool) (i : Nat) : (ofBits bs).testBit i = bs.getD i false := by
  induction bs generalizing i with
  | nil => exact Nat.zero_testBit i
  | cons b bs ih =>
    rw [ofBits]
    cases i with
    | zero => cases b <;> simp [Nat.testBit_zero]
    | succ i =>
      have hhalf : (b.toNat + 2 * ofBits bs) / 2 = ofBits bs := by
        have := Bool.toNat_le b
        omega
      rw [Nat.testBit_succ, hhalf, ih, List.getD_cons_succ]

theorem tagBits_ofBits (a b c d e f g h : Bool) :
    tagBits (UInt8.ofNat (ofBits [a, b, c, d, e, f, g, h])) = [a, b, c, d, e, f, g, h] := by
  rw [tagBits, UInt8.toNat_ofNat']
  have hbit : ∀ i < 8, (ofBits [a, b, c, d, e, f, g, h] % 2 ^ 8).testBit i = [a, b, c, d, e, f, g, h].getD i false := by
    intro i hi
    rw [Nat.testBit_mod_two_pow, decide_eq_true hi, Bool.true_and, testBit_ofBits]
  rw [List.map_congr_left fun i hi => hbit i (List.mem_range.mp hi)]
  rfl

/-- A list of length eight, element by element. -/
theorem exists_eight {α : Type} {l : List α} (h : l.length = 8) :
    ∃ a b c d e f g k, l = [a, b, c, d, e, f, g, k] := by
  match l, h with
  | [a, b, c, d, e, f, g, k], _ => exact ⟨a, b, c, d, e, f, g, k, rfl⟩

/-- The tag of a word says which of its bytes are nonzero. -/
theorem tagBits_tagOf {w : List UInt8} (h : w.length = 8) :
    tagBits (tagOf w) = w.map fun b => decide (b ≠ 0) := by
  obtain ⟨a, b, c, d, e, f, g, k, rfl⟩ := exists_eight h
  exact tagBits_ofBits ..

/-- The bytes a tag stands for: a byte of `r` for every set bit, zero for the
others. -/
def spread : List Bool → List UInt8 → List UInt8
  | [], _ => []
  | true :: bs, r => r.headD 0 :: spread bs r.tail
  | false :: bs, r => 0 :: spread bs r

theorem length_spread (bs : List Bool) (r : List UInt8) : (spread bs r).length = bs.length := by
  induction bs generalizing r with
  | nil => rfl
  | cons b bs ih => cases b <;> simp [spread, ih]

/-- The nonzero bytes of a word, spread over its tag, are the word. -/
theorem spread_nonzero (w r : List UInt8) :
    spread (w.map fun b => decide (b ≠ 0)) (w.filter (· ≠ 0) ++ r) = w := by
  induction w with
  | nil => rfl
  | cons b w ih =>
    by_cases hb : b = 0
    · simpa [hb, spread] using ih
    · simpa [hb, spread] using ih

theorem count_map_nonzero (w : List UInt8) :
    (w.map fun b => decide (b ≠ 0)).count true = (w.filter (· ≠ 0)).length := by
  rw [List.count_eq_countP, List.countP_map, List.countP_eq_length_filter]
  congr 1
  exact List.filter_congr fun b _ => by simp

/-- The first packet of a byte string, up to its raw bytes: the bytes it gives
at once, how many raw bytes follow, and what is left. -/
def parse : List UInt8 → Option (List UInt8 × Nat × List UInt8)
  | [] => none
  | [_] => none
  | t :: n :: r =>
    if t = 0xFF then
      if r.length < 8 then none
      else some ((n :: r).take 8, (r.getD 7 0).toNat * 8, r.drop 8)
    else if t = 0 then some (List.replicate ((n.toNat + 1) * 8) 0, 0, r)
    else if (n :: r).length < (tagBits t).count true then none
    else some (spread (tagBits t) (n :: r), 0, (n :: r).drop ((tagBits t).count true))

/-- A packet is at least two bytes, its raw bytes not counted. -/
theorem parse_length {bs o r : List UInt8} {k : Nat} (h : parse bs = some (o, k, r)) :
    r.length < bs.length := by
  match bs with
  | [] | [_] => cases h
  | t :: n :: r' =>
    simp only [parse] at h
    split at h
    · split at h
      · cases h
      · cases h; simp only [List.length_drop, List.length_cons]; omega
    · split at h
      · cases h; simp only [List.length_cons]; omega
      · split at h
        · cases h
        · cases h; simp only [List.length_drop, List.length_cons]; omega

theorem spread_append {bs : List Bool} {r : List UInt8} (h : bs.count true ≤ r.length) (x : List UInt8) :
    spread bs (r ++ x) = spread bs r := by
  induction bs generalizing r with
  | nil => rfl
  | cons b bs ih =>
    cases b with
    | false => rw [spread, spread, ih (by simpa using h)]
    | true =>
      obtain ⟨a, r, rfl⟩ : ∃ a r', r = a :: r' := by
        refine List.exists_cons_of_ne_nil ?_
        rintro rfl
        simp at h
      rw [List.count_cons_self, List.length_cons] at h
      rw [List.cons_append, spread, spread, List.headD_cons, List.headD_cons, List.tail_cons, List.tail_cons,
        ih (by omega)]

/-- More input behind a packet is left alone. -/
theorem parse_append {bs out r : List UInt8} {k : Nat} (h : parse bs = some (out, k, r)) (x : List UInt8) :
    parse (bs ++ x) = some (out, k, r ++ x) := by
  match bs with
  | [] | [_] => cases h
  | t :: n :: r' =>
    simp only [List.cons_append, parse] at h ⊢
    by_cases hF : t = 0xFF
    · rw [if_pos hF] at h ⊢
      by_cases hl : r'.length < 8
      · rw [if_pos hl] at h
        cases h
      · rw [if_neg hl] at h
        cases h
        have hn : (r' ++ x).getD 7 0 = r'.getD 7 0 := by
          rw [List.getD_eq_getElem?_getD, List.getD_eq_getElem?_getD, List.getElem?_append_left (by omega)]
        rw [if_neg (by rw [List.length_append]; omega), List.drop_append_of_le_length (by omega), ← List.cons_append,
          List.take_append_of_le_length (by rw [List.length_cons]; omega), hn]
    rw [if_neg hF] at h ⊢
    by_cases h0 : t = 0
    · rw [if_pos h0] at h ⊢
      cases h
      rfl
    rw [if_neg h0] at h ⊢
    by_cases hl : (n :: r').length < (tagBits t).count true
    · rw [if_pos hl] at h
      cases h
    · rw [if_neg hl] at h
      cases h
      have hle := Nat.not_lt.mp hl
      rw [← List.cons_append, if_neg (by rw [List.length_append]; omega), spread_append hle,
        List.drop_append_of_le_length hle]

/-- Ten bytes begin with a packet's head. -/
theorem parse_none {bs : List UInt8} (h : parse bs = none) : bs.length < 10 := by
  match bs with
  | [] | [_] => simp
  | t :: n :: r =>
    simp only [parse] at h
    have hc : (tagBits t).count true ≤ 8 := by
      rw [← length_tagBits t]
      exact List.count_le_length
    simp only [List.length_cons] at h ⊢
    split at h
    · split at h
      · omega
      · cases h
    split at h
    · cases h
    split at h
    · omega
    · cases h

/-- What a packed byte string stands for. -/
def unpack (bs : List UInt8) : List UInt8 :=
  match _h : parse bs with
  | none => []
  | some (o, k, r) => o ++ r.take k ++ unpack (r.drop k)
termination_by bs.length
decreasing_by
  have := parse_length _h
  simp only [List.length_drop]; omega

theorem unpack_of_none {bs : List UInt8} (h : parse bs = none) : unpack bs = [] := by
  rw [unpack]; split
  · rfl
  · rename_i h'; rw [h] at h'; cases h'

theorem unpack_of_some {bs o r : List UInt8} {k : Nat} (h : parse bs = some (o, k, r)) :
    unpack bs = o ++ r.take k ++ unpack (r.drop k) := by
  rw [unpack]; split
  · rename_i h'; rw [h] at h'; cases h'
  · rename_i h'; rw [h] at h'; cases h'; rfl

@[simp] theorem unpack_nil : unpack [] = [] := unpack_of_none rfl

/-- What is left of a packed byte string once all its whole packets are read. -/
def leftover (bs : List UInt8) : List UInt8 :=
  match _h : parse bs with
  | none => bs
  | some (_, k, r) => leftover (r.drop k)
termination_by bs.length
decreasing_by
  have := parse_length _h
  simp only [List.length_drop]; omega

theorem leftover_of_none {bs : List UInt8} (h : parse bs = none) : leftover bs = bs := by
  rw [leftover]; split
  · rfl
  · rename_i h'; rw [h] at h'; cases h'

theorem leftover_of_some {bs o r : List UInt8} {k : Nat} (h : parse bs = some (o, k, r)) :
    leftover bs = leftover (r.drop k) := by
  rw [leftover]; split
  · rename_i h'; rw [h] at h'; cases h'
  · rename_i h'; rw [h] at h'; cases h'; rfl

/-- A packet gives at least a byte. -/
theorem parse_ne_nil {bs o r : List UInt8} {k : Nat} (h : parse bs = some (o, k, r)) : o ≠ [] := by
  match bs with
  | [] | [_] => cases h
  | t :: n :: next =>
    simp only [parse] at h
    split at h
    · split at h
      · cases h
      · cases h
        simp
    · split at h
      · cases h
        simp
      · split at h
        · cases h
        · cases h
          rw [← List.length_pos_iff, length_spread, length_tagBits]
          decide

/-- A byte string that holds no whole packet is left as it is. -/
theorem leftover_of_unpack {bs : List UInt8} (h : unpack bs = []) : leftover bs = bs := by
  cases hp : parse bs with
  | none => exact leftover_of_none hp
  | some q =>
    obtain ⟨o, k, r⟩ := q
    rw [unpack_of_some hp, List.append_eq_nil_iff, List.append_eq_nil_iff] at h
    exact absurd h.1.1 (parse_ne_nil hp)

/-! ## Places inside raw runs

A codec works through its input packet by packet: `next` says how many bytes
the first packet of an input gives at once, how many raw bytes it copies after
them, and what the input is then. -/

section Places

variable {next : List UInt8 → Option (Nat × Nat × List UInt8)}

/-- A codec that has `k` raw bytes to copy from `r`, and packets after them,
stands inside a raw run once it has given `o` bytes, with `n` bytes of its
input left, at least one. -/
inductive AtRaw (next : List UInt8 → Option (Nat × Nat × List UInt8)) :
    Nat → List UInt8 → Nat → Nat → Prop
  | here {k i : Nat} {r : List UInt8} (hk : i < k) (hr : i < r.length) :
    AtRaw next k r i (r.length - i)
  | later {k a k' o n : Nat} {r r' : List UInt8} (hr : k ≤ r.length)
      (h : next (r.drop k) = some (a, k', r')) (ht : AtRaw next k' r' o n) :
    AtRaw next k r (k + a + o) n

theorem AtRaw.pos {k o n : Nat} {r : List UInt8} (h : AtRaw next k r o n) : 0 < n := by
  induction h with
  | here hk hr => omega
  | later _ _ _ ih => exact ih

theorem AtRaw.le_length (hn : ∀ {bs a k r}, next bs = some (a, k, r) → r.length < bs.length)
    {k o n : Nat} {r : List UInt8} (h : AtRaw next k r o n) : n ≤ r.length := by
  induction h with
  | here hk hr => omega
  | later hr h ht ih =>
    have := hn h
    simp only [List.length_drop] at this
    omega

/-- Copying `m` bytes of a raw run: the places inside raw runs, from there. -/
theorem AtRaw.drop {k m o n : Nat} {r : List UInt8} (hk : m ≤ k) (hr : m ≤ r.length) :
    AtRaw next (k - m) (r.drop m) o n ↔ AtRaw next k r (m + o) n := by
  constructor
  · intro h
    generalize e : r.drop m = r' at h
    cases h with
    | here hk' hr' =>
      subst e
      simp only [List.length_drop] at hr' ⊢
      rw [show r.length - m - o = r.length - (m + o) by omega]
      exact .here (by omega) (by omega)
    | @later _ a k' o n _ r' hr' h ht =>
      subst e
      simp only [List.length_drop, List.drop_drop] at hr' h
      rw [show m + (k - m) = k by omega] at h
      have := AtRaw.later (k := k) (r := r) (by omega) h ht
      rwa [show k + a + o = m + (k - m + a + o) by omega] at this
  · intro h
    generalize e : m + o = o' at h
    cases h with
    | here hk' hr' =>
      rw [show r.length - o' = (r.drop m).length - o by simp only [List.length_drop]; omega]
      exact .here (by omega) (by simp only [List.length_drop]; omega)
    | @later _ a k' o₁ n _ r' hr' h ht =>
      have h' : next ((r.drop m).drop (k - m)) = some (a, k', r') := by
        rwa [List.drop_drop, show m + (k - m) = k by omega]
      have := AtRaw.later (k := k - m) (by simp only [List.length_drop]; omega) h' ht
      rwa [show k - m + a + o₁ = o by omega] at this

/-- At the start of a packet, a codec stands inside no raw run before that
packet's. -/
theorem atRaw_zero {r r' : List UInt8} {a k o n : Nat} (h : next r = some (a, k, r')) :
    AtRaw next 0 r o n ↔ ∃ o', o = a + o' ∧ AtRaw next k r' o' n := by
  constructor
  · intro ha
    cases ha with
    | here hk _ => exact absurd hk (Nat.not_lt_zero _)
    | later _ h' ht =>
      rw [List.drop_zero, h] at h'
      cases h'
      exact ⟨_, by omega, ht⟩
  · rintro ⟨o', rfl, ht⟩
    simpa using AtRaw.later (k := 0) (Nat.zero_le _) (by simpa using h) ht

theorem not_atRaw {r : List UInt8} {o n : Nat} (h : next r = none) : ¬ AtRaw next 0 r o n := by
  intro ha
  cases ha with
  | here hk _ => exact Nat.not_lt_zero _ hk
  | later _ h' _ => rw [List.drop_zero, h] at h'; cases h'

end Places

/-- `parse`, for the places inside raw runs. -/
def parsePlace (bs : List UInt8) : Option (Nat × Nat × List UInt8) :=
  (parse bs).map fun (o, k, r) => (o.length, k, r)

theorem parsePlace_eq {bs out r : List UInt8} {k : Nat} (h : parse bs = some (out, k, r)) :
    parsePlace bs = some (out.length, k, r) := by rw [parsePlace, h]; rfl

theorem parsePlace_none {bs : List UInt8} (h : parse bs = none) : parsePlace bs = none := by
  rw [parsePlace, h]; rfl

theorem parsePlace_length {bs r : List UInt8} {a k : Nat} (h : parsePlace bs = some (a, k, r)) :
    r.length < bs.length := by
  simp only [parsePlace, Option.map_eq_some_iff] at h
  obtain ⟨⟨o, k', r'⟩, h, e⟩ := h
  cases e
  exact parse_length h

/-- The bytes a reader gives before it stands inside a raw run are bytes of
what there is to give, and there is one more. -/
theorem AtRaw.lt_unpack {k o n : Nat} {r : List UInt8} (h : AtRaw parsePlace k r o n) :
    o < (r.take k ++ unpack (r.drop k)).length := by
  induction h with
  | here hk hr => simp only [List.length_append, List.length_take]; omega
  | later hr h ht ih =>
    simp only [parsePlace, Option.map_eq_some_iff] at h
    obtain ⟨⟨out, k', r'⟩, h, e⟩ := h
    cases e
    rw [unpack_of_some h]
    simp only [List.length_append, List.length_take] at ih ⊢
    omega

/-! ## Places inside runs -/

/-- The zero bytes that the packet at the front counts. -/
def zeroRun : List UInt8 → Nat
  | 0 :: n :: _ => (n.toNat + 1) * 8
  | _ => 0

/-- A reader that has `z` zero bytes to give, `k` raw bytes to copy from `r`, and packets after
them, stands inside a run, of zeros or of raw bytes, once it has given `o` bytes. -/
inductive AtRun : Nat → Nat → List UInt8 → Nat → Prop
  | zero {z k i : Nat} {r : List UInt8} (h : i < z) : AtRun z k r i
  | raw {z k i : Nat} {r : List UInt8} (hk : i < k) (hr : i < r.length) : AtRun z k r (z + i)
  | later {z k k' o : Nat} {r r' out : List UInt8} (hr : k ≤ r.length) (h : parse (r.drop k) = some (out, k', r'))
    (ht : AtRun (zeroRun (r.drop k)) k' r' o) : AtRun z k r (z + k + (out.length - zeroRun (r.drop k)) + o)

section

variable {z k m o : Nat} {r : List UInt8}

/-- Giving `m` zero bytes of a run. -/
theorem AtRun.drop_zeros (hm : m ≤ z) : AtRun (z - m) k r o ↔ AtRun z k r (m + o) := by
  constructor
  · intro h
    cases h with
    | zero h => exact .zero (by omega)
    | @raw _ _ i _ hk hr =>
      have := AtRun.raw (z := z) hk hr
      rwa [show z + i = m + (z - m + i) by omega] at this
    | @later _ _ k' o' _ r' out hr h ht =>
      have := AtRun.later (z := z) hr h ht
      rwa [show z + k + (out.length - zeroRun (r.drop k)) + o' =
        m + (z - m + k + (out.length - zeroRun (r.drop k)) + o') by omega] at this
  · intro h
    generalize e : m + o = o₁ at h
    cases h with
    | zero h => exact .zero (by omega)
    | @raw _ _ i _ hk hr =>
      have := AtRun.raw (z := z - m) hk hr
      rwa [show z - m + i = o by omega] at this
    | @later _ _ k' o' _ r' out hr h ht =>
      have := AtRun.later (z := z - m) hr h ht
      rwa [show z - m + k + (out.length - zeroRun (r.drop k)) + o' = o by omega] at this

/-- Copying `m` bytes of a raw run. -/
theorem AtRun.drop_raw (hk : m ≤ k) (hr : m ≤ r.length) : AtRun 0 (k - m) (r.drop m) o ↔ AtRun 0 k r (m + o) := by
  have hdrop : (r.drop m).drop (k - m) = r.drop k := by rw [List.drop_drop, Nat.add_sub_cancel' hk]
  constructor
  · intro h
    cases h with
    | zero h => exact absurd h (Nat.not_lt_zero _)
    | @raw _ _ i _ hk' hr' =>
      rw [List.length_drop] at hr'
      have := AtRun.raw (z := 0) (k := k) (r := r) (i := m + i) (by omega) (by omega)
      rwa [show 0 + (m + i) = m + (0 + i) by omega] at this
    | @later _ _ k' o' _ r' out hr' h ht =>
      rw [List.length_drop] at hr'
      rw [hdrop] at h ht ⊢
      have := AtRun.later (z := 0) (k := k) (by omega) h ht
      rwa [show 0 + k + (out.length - zeroRun (r.drop k)) + o' =
        m + (0 + (k - m) + (out.length - zeroRun (r.drop k)) + o') by omega] at this
  · intro h
    generalize e : m + o = o₁ at h
    cases h with
    | zero h => exact absurd h (Nat.not_lt_zero _)
    | @raw _ _ i _ hk' hr' =>
      have := AtRun.raw (z := 0) (k := k - m) (r := r.drop m) (i := o) (by omega) (by rw [List.length_drop]; omega)
      rwa [Nat.zero_add] at this
    | @later _ _ k' o' _ r' out hr' h ht =>
      rw [← hdrop] at h ht
      have := AtRun.later (z := 0) (k := k - m) (by rw [List.length_drop]; omega) h ht
      rw [hdrop] at this
      rwa [show 0 + (k - m) + (out.length - zeroRun (r.drop k)) + o' = o by omega] at this

/-- At the start of a packet, a reader stands inside no run before that packet's. -/
theorem atRun_packet {out r' : List UInt8} {k' : Nat} (h : parse r = some (out, k', r')) :
    AtRun 0 0 r o ↔ ∃ o', o = out.length - zeroRun r + o' ∧ AtRun (zeroRun r) k' r' o' := by
  constructor
  · intro ha
    cases ha with
    | zero h => exact absurd h (Nat.not_lt_zero _)
    | raw hk _ => exact absurd hk (Nat.not_lt_zero _)
    | @later _ _ k₁ o₁ _ r₁ out₁ _ h₁ ht =>
      rw [List.drop_zero] at h₁ ht ⊢
      cases h.symm.trans h₁
      exact ⟨_, by omega, ht⟩
  · rintro ⟨o', rfl, ht⟩
    have := AtRun.later (z := 0) (k := 0) (Nat.zero_le _) (by rwa [List.drop_zero]) ht
    simpa only [List.drop_zero, Nat.zero_add] using this

theorem not_atRun (h : parse r = none) : ¬ AtRun 0 0 r o := by
  intro ha
  cases ha with
  | zero h => exact Nat.not_lt_zero _ h
  | raw hk _ => exact Nat.not_lt_zero _ hk
  | later _ h' _ =>
    rw [List.drop_zero, h] at h'
    cases h'

theorem not_atRun_nil (hk : 0 < k) : ¬ AtRun 0 k [] o := by
  intro ha
  cases ha with
  | zero h => exact Nat.not_lt_zero _ h
  | raw _ hr => exact Nat.not_lt_zero _ hr
  | later hr _ _ =>
    rw [List.length_nil] at hr
    omega

end

/-! ## Packets -/

/-- A packet: a run of zero words, one more than `extra`; a word of nonzero
bytes and the words kept raw after it; any other word. -/
inductive Packet where
  | zeros (extra : Nat)
  | dense (w ext : List UInt8)
  | sparse (w : List UInt8)

namespace Packet

/-- The packets of the format: counts fit a byte, and words are words. -/
def Valid : Packet → Prop
  | zeros n => n < 256
  | dense w ext => w.length = 8 ∧ 8 ∣ ext.length ∧ ext.length < 256 * 8
  | sparse w => w.length = 8 ∧ tagOf w ≠ 0 ∧ tagOf w ≠ 0xFF

/-- The bytes of a packet that a writer never cuts: all but its raw words. -/
def head : Packet → List UInt8
  | zeros n => [0, UInt8.ofNat n]
  | dense w ext => 0xFF :: w ++ [UInt8.ofNat (ext.length / 8)]
  | sparse w => tagOf w :: w.filter (· ≠ 0)

/-- The raw words of a packet. -/
def ext : Packet → List UInt8
  | dense _ ext => ext
  | _ => []

/-- The packed bytes of a packet. -/
def bytes (p : Packet) : List UInt8 := p.head ++ p.ext

/-- The words a packet's head stands for. -/
def base : Packet → List UInt8
  | zeros n => List.replicate ((n + 1) * 8) 0
  | dense w _ => w
  | sparse w => w

/-- The words a packet stands for. -/
def expand (p : Packet) : List UInt8 := p.base ++ p.ext

end Packet

/-- Reading a packet back. -/
theorem parse_head {p : Packet} (hp : p.Valid) (r : List UInt8) :
    parse (p.head ++ r) = some (p.base, p.ext.length, r) := by
  cases p with
  | zeros n =>
    have hn : n < 256 := hp
    simp only [Packet.head, Packet.base, Packet.ext, List.cons_append, List.nil_append, parse,
      show (0 : UInt8) ≠ 0xFF by decide, ite_false, ite_true, UInt8.toNat_ofNat']
    rw [Nat.mod_eq_of_lt (by omega)]
    rfl
  | dense w ext =>
    obtain ⟨hw, h8, hl⟩ := hp
    obtain ⟨a, b, c, d, e, f, g, k, rfl⟩ := exists_eight hw
    simp only [Packet.head, Packet.base, Packet.ext, List.cons_append, List.nil_append, parse,
      ite_true, List.length_cons, List.getD_cons_succ, List.getD_cons_zero, UInt8.toNat_ofNat',
      List.drop_succ_cons, List.drop_zero, List.take_succ_cons, List.take_zero]
    rw [if_neg (by omega), Nat.mod_eq_of_lt (by omega), Nat.div_mul_cancel h8]
  | sparse w =>
    obtain ⟨hw, h0, hF⟩ := hp
    have hc : (tagBits (tagOf w)).count true = (w.filter (· ≠ 0)).length := by
      rw [tagBits_tagOf hw, count_map_nonzero]
    have hs := spread_nonzero w r
    rw [← tagBits_tagOf hw] at hs
    obtain ⟨b, l, hbl⟩ : ∃ b l, w.filter (· ≠ 0) = b :: l := by
      match hf : w.filter (· ≠ 0) with
      | b :: l => exact ⟨b, l, hf⟩
      | [] =>
        -- a word of zero bytes has the tag 0
        refine absurd ?_ h0
        have hz : ∀ x ∈ w, x = 0 := by simpa using hf
        have hm : (w.map fun b => decide (b ≠ 0)) = List.replicate 8 false := by
          rw [← hw]
          exact List.eq_replicate_iff.mpr ⟨by simp, by simpa using hz⟩
        rw [tagOf, hm]; decide
    simp only [Packet.head, Packet.base, Packet.ext]
    rw [hbl] at hc hs ⊢
    simp only [List.cons_append] at hs ⊢
    simp only [parse, hF, h0, ite_false, hc, hs, List.length_cons, List.length_append]
    rw [if_neg (by omega)]
    simp

/-- **The round trip.** Unpacking the packed bytes of a sequence of packets
gives the words they stand for, and goes on with what follows. -/
theorem unpack_packets {ps : List Packet} (hp : ∀ p ∈ ps, p.Valid) (r : List UInt8) :
    unpack (ps.flatMap Packet.bytes ++ r) = ps.flatMap Packet.expand ++ unpack r := by
  induction ps with
  | nil => rfl
  | cons p ps ih =>
    simp only [List.flatMap_cons, List.append_assoc, Packet.bytes, Packet.expand]
    rw [unpack_of_some (parse_head (hp p List.mem_cons_self) _), List.take_left, List.drop_left,
      ih fun q hq => hp q (List.mem_cons_of_mem _ hq)]
    simp only [List.append_assoc]

/-! ## Packed bytes cut short -/

/-- More input behind packed bytes is more of what they stand for. -/
theorem unpack_prefix (bs x : List UInt8) : unpack bs <+: unpack (bs ++ x) := by
  induction hn : bs.length using Nat.strongRecOn generalizing bs with
  | ind n ih =>
    cases h : parse bs with
    | none =>
      rw [unpack_of_none h]
      exact List.nil_prefix
    | some q =>
      obtain ⟨o, k, r⟩ := q
      have hlt := parse_length h
      rw [unpack_of_some h, unpack_of_some (parse_append h x), List.append_assoc, List.append_assoc,
        List.prefix_append_right_inj]
      by_cases hk : k ≤ r.length
      · rw [List.take_append_of_le_length hk, List.drop_append_of_le_length hk, List.prefix_append_right_inj]
        exact ih _ (by rw [← hn, List.length_drop]; omega) _ rfl
      · -- the raw run goes on into the new input
        have hle : r.length ≤ k := by omega
        rw [List.drop_of_length_le hle, unpack_nil, List.append_nil, List.take_of_length_le hle, List.take_append,
          List.take_of_length_le hle, List.append_assoc]
        exact List.prefix_append _ _

/-- A packet cut short in its head gives nothing. -/
theorem parse_take_head {p : Packet} (hp : p.Valid) {n : Nat} (hn : n < p.head.length) :
    parse (p.head.take n) = none := by
  cases h : parse (p.head.take n) with
  | none => rfl
  | some q =>
    obtain ⟨o, k, r⟩ := q
    have ha := parse_append h (p.head.drop n)
    have hh := parse_head hp []
    rw [List.append_nil] at hh
    rw [List.take_append_drop, hh, Option.some.injEq, Prod.mk.injEq, Prod.mk.injEq] at ha
    have hd := (List.append_eq_nil_iff.mp ha.2.2.symm).2
    have := List.drop_eq_nil_iff.mp hd
    omega

theorem length_base_pos {p : Packet} (hp : p.Valid) : 0 < p.base.length := by
  cases p with
  | zeros n =>
    rw [Packet.base, List.length_replicate]
    omega
  | dense w ext =>
    have := hp.1
    rw [Packet.base]
    omega
  | sparse w =>
    have := hp.1
    rw [Packet.base]
    omega

/-- **Packed bytes cut short** stand for less. -/
theorem length_unpack_take {ps : List Packet} (hp : ∀ p ∈ ps, p.Valid) {n : Nat}
    (hn : n < (ps.flatMap Packet.bytes).length) :
    (unpack ((ps.flatMap Packet.bytes).take n)).length < (ps.flatMap Packet.expand).length := by
  induction ps generalizing n with
  | nil => exact absurd hn (Nat.not_lt_zero n)
  | cons p ps ih =>
    rw [List.forall_mem_cons] at hp
    have hb := length_base_pos hp.1
    rw [List.flatMap_cons, Packet.bytes, List.append_assoc] at hn ⊢
    rw [List.flatMap_cons, Packet.expand, List.length_append, List.length_append]
    by_cases h1 : n < p.head.length
    · rw [List.take_append_of_le_length (by omega), unpack_of_none (parse_take_head hp.1 h1), List.length_nil]
      omega
    rw [List.take_append, List.take_of_length_le (by omega), unpack_of_some (parse_head hp.1 _), List.length_append,
      List.length_append]
    generalize hm : n - p.head.length = m
    by_cases h2 : m < p.ext.length
    · -- within the raw words
      rw [List.take_append_of_le_length (by omega), List.take_take, List.drop_take, Nat.sub_eq_zero_of_le (by omega),
        List.take_zero, unpack_nil, List.length_nil, List.length_take]
      omega
    · rw [List.take_append, List.take_of_length_le (l := p.ext) (by omega), List.take_left, List.drop_left]
      have := ih hp.2 (n := m - p.ext.length) (by simp only [List.length_append] at hn; omega)
      omega

end Capnproto.Packing

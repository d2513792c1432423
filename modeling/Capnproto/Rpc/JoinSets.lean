import Capnproto.Rpc.Joins

/-!
# Joins as sets of parts

What the table of joins stands for: the sets of parts that are open, by their join
ids (`Sets`), and what a part does to them (`Sets.after`). The table represents the
open sets at every moment (`Represents`), so that what a part is answered can be
told from the parts that have come.
-/

namespace Capnproto.Rpc

/-- A set of parts: how many there are to be, and of each that has come its question and
the export its target names. -/
structure PartSet where
  count : Nat
  part : Nat → Option (Nat × Option ExportId) := fun _ => none

/-- The sets that are open, by join id. -/
abbrev Sets : Type := Nat → Option PartSet

namespace PartSet

variable (s : PartSet)

def add (n qid : Nat) (eid : Option ExportId) : PartSet :=
  { s with part := fun m => if m = n then some (qid, eid) else s.part m }

/-- All parts have come. -/
def Full : Prop := ∀ n < s.count, (s.part n).isSome = true

instance : Decidable s.Full := inferInstanceAs (Decidable (∀ n < s.count, (s.part n).isSome = true))

/-- All parts name one export. -/
def Same : Prop := ∃ eid : ExportId, ∀ n < s.count, (s.part n).bind (·.2) = some eid

instance : Decidable s.Same :=
  inferInstanceAs (Decidable (∃ eid : ExportId, ∀ n < s.count, (s.part n).bind (·.2) = some eid))

/-- The question of a part. -/
def question (n : Nat) : Nat := ((s.part n).map (·.1)).getD 0

end PartSet

/-- A part that cannot be one of its set: its number or the number of parts is out of range,
its set is to have another number of parts, or it has come already. -/
def Sets.contradicts (s : Sets) (kp : JoinKeyPart) : Bool :=
  kp.partCount = 0 || CAPN_RPC_MAX_JOIN_PARTS < kp.partCount || kp.partCount ≤ kp.partNum ||
    (s kp.joinId).any fun set => set.count ≠ kp.partCount || (set.part kp.partNum).isSome

/-- The set of a part, with the part. -/
def Sets.extend (s : Sets) (kp : JoinKeyPart) (qid : Nat) (eid : Option ExportId) : PartSet :=
  ((s kp.joinId).getD { count := kp.partCount }).add kp.partNum qid eid

/-- The open sets after a part: a set that is complete is closed. -/
def Sets.after (s : Sets) (kp : JoinKeyPart) (qid : Nat) (eid : Option ExportId) : Sets :=
  if s.contradicts kp then s
  else fun id => if id = kp.joinId then if (s.extend kp qid eid).Full then none else some (s.extend kp qid eid) else s id

/-- Fewer sets are open than the table has slots. -/
def Sets.Room (s : Sets) : Prop := ∃ ids : Finset Nat, ids.card < CAPN_RPC_MAX_JOINS ∧ ∀ id, s id ≠ none → id ∈ ids

/-! ## The table of joins -/

/-- A slot holds a set. -/
structure Join.Holds (j : Join) (s : PartSet) : Prop where
  ok : j.Ok
  count : j.partCount = s.count
  part : ∀ i : Fin CAPN_RPC_MAX_JOIN_PARTS, s.part i = if j.seen i then some (j.qids i, j.eids i) else none
  range : ∀ n, (s.part n).isSome = true → n < s.count

/-- The table represents the open sets, each in one slot. -/
structure Represents (t : Table CAPN_RPC_MAX_JOINS Join) (s : Sets) : Prop where
  holds : ∀ slot j, t slot = some j → ∃ set, s j.joinId = some set ∧ j.Holds set
  has : ∀ id set, s id = some set → ∃ slot j, t slot = some j ∧ j.joinId = id
  one : ∀ slot slot' j j', t slot = some j → t slot' = some j' → j.joinId = j'.joinId → slot = slot'

/-- The answers to the parts of a complete set: one each, with one verdict, and one
capability in all if they are the same. -/
def Answers (sent : List Outgoing) (id : Nat) (s : PartSet) : Prop :=
  ∃ caps : Nat → List CapDescriptor,
    sent = (List.range s.count).map (fun n => .ret (s.question n) (.joinResult id (decide s.Same) (caps n))) ∧
      ((List.range s.count).flatMap caps).length = if s.Same then 1 else 0

section

variable {t : Table CAPN_RPC_MAX_JOINS Join} {s : Sets}

theorem represents_empty : Represents .empty fun _ => none := ⟨nofun, nofun, nofun⟩

/-- A slot is free as long as there is room. -/
theorem Represents.free (h : Represents t s) (hroom : s.Room) : ∃ i, t.free = some i := by
  cases hf : t.free with
  | some i => exact ⟨i, rfl⟩
  | none =>
    exfalso
    obtain ⟨ids, hcard, hids⟩ := hroom
    have hsome : ∀ slot, ∃ j, t slot = some j := fun slot =>
      Option.ne_none_iff_exists'.mp (Table.free_none hf slot)
    choose j hj using hsome
    have hle : Fintype.card (Fin CAPN_RPC_MAX_JOINS) ≤ ids.card := by
      rw [← Finset.card_univ]
      refine Finset.card_le_card_of_injOn (fun slot => (j slot).joinId) (fun slot _ => ?_) fun a _ b _ hab => ?_
      · obtain ⟨set, hset, -⟩ := h.holds slot (j slot) (hj slot)
        exact hids _ (by rw [hset]; exact Option.some_ne_none set)
      · exact h.one a b _ _ (hj a) (hj b) hab
    rw [Fintype.card_fin] at hle
    omega

/-- The slot of an open set is found. -/
theorem Represents.find (h : Represents t s) {id : Nat} {set : PartSet} (hs : s id = some set) :
    ∃ slot j, t.find (·.joinId = id) = some slot ∧ t slot = some j ∧ j.joinId = id ∧ j.Holds set := by
  obtain ⟨slot, j, hj, hid⟩ := h.has id set hs
  obtain ⟨set', hset', hholds⟩ := h.holds slot j hj
  rw [hid, hs] at hset'
  cases hset'
  refine ⟨slot, j, ?_, hj, hid, hholds⟩
  refine Table.find_unique hj (decide_eq_true hid) fun slot' j' hj' hid' => ?_
  exact h.one slot' slot j' j hj' hj ((of_decide_eq_true hid').trans hid.symm)

theorem Represents.find_none (h : Represents t s) {id : Nat} (hs : s id = none) : t.find (·.joinId = id) = none := by
  cases hf : t.find (·.joinId = id) with
  | none => rfl
  | some slot =>
    obtain ⟨j, hj, hid⟩ := Table.find_some hf
    obtain ⟨set, hset, -⟩ := h.holds slot j hj
    rw [of_decide_eq_true hid, hs] at hset
    cases hset

/-- A set that nothing has come of. -/
theorem holds_new {id count : Nat} (hsize : count ≤ CAPN_RPC_MAX_JOIN_PARTS) :
    ({ joinId := id, partCount := count } : Join).Holds { count := count } := by
  refine ⟨⟨hsize, nofun, ?_⟩, rfl, fun i => rfl, nofun⟩
  simp

/-- **A part** that contradicts no set is accepted, into the slot of its set, or of a new one. -/
theorem accepted_of (c : Conn) (h : Represents c.joins s) {kp : JoinKeyPart} (hkp : s.contradicts kp = false)
    (hroom : s kp.joinId = none → s.Room) :
    ∃ slot j i, accepted c (some kp) = some (slot, j, i) ∧ (i : Nat) = kp.partNum ∧ j.joinId = kp.joinId ∧
      j.Holds ((s kp.joinId).getD { count := kp.partCount }) ∧
      ∀ slot' j', c.joins slot' = some j' → j'.joinId = kp.joinId → slot' = slot := by
  simp only [Sets.contradicts, Bool.or_eq_false_iff, decide_eq_false_iff_not] at hkp
  obtain ⟨⟨⟨hzero, hsize⟩, hnum⟩, hset⟩ := hkp
  have hrange : ¬ (kp.partCount = 0 ∨ CAPN_RPC_MAX_JOIN_PARTS < kp.partCount ∨ kp.partCount ≤ kp.partNum) := by
    omega
  have hlt : kp.partNum < CAPN_RPC_MAX_JOIN_PARTS := by omega
  rw [accepted.eq_def]
  simp only [dif_neg hrange, joinSlotFind]
  cases hs : s kp.joinId with
  | some set =>
    obtain ⟨slot, j, hfind, hj, hid, hholds⟩ := h.find hs
    rw [hs, Option.any_some, Bool.or_eq_false_iff, decide_eq_false_iff_not, not_not] at hset
    have hcount : j.partCount = kp.partCount := hholds.count.trans hset.1
    have hseen : j.seen ⟨kp.partNum, hlt⟩ = false := by
      have hpart := hholds.part ⟨kp.partNum, hlt⟩
      by_contra hseen
      rw [if_pos (Bool.not_eq_false _ ▸ hseen)] at hpart
      have hsome := hset.2
      rw [show set.part kp.partNum = _ from hpart] at hsome
      cases hsome
    refine ⟨slot, j, ⟨kp.partNum, hlt⟩, ?_, rfl, hid, hholds, fun slot' j' hj' hid' => ?_⟩
    · simp only [hfind, hj, Option.any_some, hcount, decide_true, if_true, hseen]
      rfl
    · exact h.one slot' slot j' j hj' hj (hid'.trans hid.symm)
  | none =>
    obtain ⟨slot, hfree⟩ := h.free (hroom hs)
    refine ⟨slot, { joinId := kp.joinId, partCount := kp.partCount }, ⟨kp.partNum, hlt⟩, ?_, rfl, rfl,
      holds_new (by omega), fun slot' j' hj' hid' => ?_⟩
    · simp only [h.find_none hs, hfree, Table.set_same]
      rfl
    · obtain ⟨set, hset', -⟩ := h.holds slot' j' hj'
      rw [hid', hs] at hset'
      cases hset'

/-- **A part** that contradicts its set is refused. -/
theorem accepted_none (c : Conn) (h : Represents c.joins s) {kp : JoinKeyPart} (hkp : s.contradicts kp = true) :
    accepted c (some kp) = none := by
  rw [accepted.eq_def]
  by_cases hrange : kp.partCount = 0 ∨ CAPN_RPC_MAX_JOIN_PARTS < kp.partCount ∨ kp.partCount ≤ kp.partNum
  · exact dif_pos hrange
  have hlt : kp.partNum < CAPN_RPC_MAX_JOIN_PARTS := by omega
  have hset : (s kp.joinId).any (fun set => set.count ≠ kp.partCount || (set.part kp.partNum).isSome) = true := by
    simp only [Sets.contradicts, Bool.or_eq_true, decide_eq_true_eq] at hkp
    rcases hkp with ((hz | hsz) | hn) | hset
    · exact absurd (.inl hz) hrange
    · exact absurd (.inr (.inl hsz)) hrange
    · exact absurd (.inr (.inr hn)) hrange
    · exact hset
  obtain ⟨set, hs, hbad⟩ := (Option.any_eq_true _ _).mp hset
  obtain ⟨slot, j, hfind, hj, hid, hholds⟩ := h.find hs
  simp only [dif_neg hrange, joinSlotFind, hfind, hj, Option.any_some, decide_eq_true_eq]
  by_cases hcount : j.partCount = kp.partCount
  · rw [if_pos hcount]
    have hseen : j.seen ⟨kp.partNum, hlt⟩ = true := by
      rw [Bool.or_eq_true, decide_eq_true_eq, ← hholds.count] at hbad
      have hsome := hbad.resolve_left fun hne => hne hcount
      by_contra hseen
      have hpart := hholds.part ⟨kp.partNum, hlt⟩
      rw [if_neg hseen] at hpart
      rw [show set.part kp.partNum = none from hpart] at hsome
      cases hsome
    simp only [hj, hseen, if_true]
  · rw [if_neg hcount]

end

/-! ## A complete set -/

theorem map_filter_finRange {n m : Nat} (h : m ≤ n) :
    ((List.finRange n).filter fun i : Fin n => (i : Nat) < m).map Fin.val = List.range m := by
  induction n generalizing m with
  | zero =>
    rw [Nat.le_zero.mp h]
    rfl
  | succ n ih =>
    have hinit : ∀ k, (((List.finRange n).map Fin.castSucc).filter fun i : Fin (n + 1) => (i : Nat) < k).map Fin.val =
        ((List.finRange n).filter fun i : Fin n => (i : Nat) < k).map Fin.val := by
      intro k
      rw [List.filter_map, List.map_map]
      rfl
    rw [List.finRange_succ_last, List.filter_append, List.map_append, hinit]
    by_cases hm : m ≤ n
    · have hlast : decide ((Fin.last n : Nat) < m) = false := decide_eq_false (Nat.not_lt.mpr hm)
      rw [ih hm, List.filter_singleton, hlast]
      exact List.append_nil _
    · have hall : ∀ i ∈ List.finRange n, decide ((i : Nat) < m) = decide ((i : Nat) < n) := by
        intro i _
        rw [decide_eq_true i.isLt, decide_eq_true (by omega)]
      obtain rfl : m = n + 1 := by omega
      have hlast : decide ((Fin.last n : Nat) < n + 1) = true := decide_eq_true (Nat.lt_succ_self n)
      rw [List.filter_congr hall, ih (Nat.le_refl n), List.filter_singleton, hlast, List.range_succ]
      rfl

theorem parts_range {j : Join} (h : j.partCount ≤ CAPN_RPC_MAX_JOIN_PARTS) :
    j.parts.map Fin.val = List.range j.partCount :=
  map_filter_finRange h

section

variable {j : Join} {s : PartSet}

theorem Join.Holds.seen (h : j.Holds s) (i : Fin CAPN_RPC_MAX_JOIN_PARTS) : j.seen i = (s.part i).isSome := by
  rw [h.part]
  cases j.seen i with
  | true => rfl
  | false => rfl

/-- All parts are there when they are as many as there are to be. -/
theorem Join.Holds.full_iff (h : j.Holds s) : j.nseen = j.partCount ↔ s.Full := by
  constructor
  · intro hn m hm
    have hlt : m < CAPN_RPC_MAX_JOIN_PARTS := Nat.lt_of_lt_of_le hm (h.count ▸ h.ok.size)
    have hseen := seen_of_complete h.ok hn (i := ⟨m, hlt⟩) (h.count.symm ▸ hm)
    rw [h.seen] at hseen
    exact hseen
  · intro hfull
    have hseen : ∀ i, j.seen i = decide ((i : Nat) < j.partCount) := by
      intro i
      by_cases hi : (i : Nat) < j.partCount
      · rw [h.seen, hfull i (h.count ▸ hi), decide_eq_true hi]
      · rw [decide_eq_false hi]
        exact Bool.eq_false_iff.mpr fun hs => hi (h.ok.parts i hs)
    have hcount := h.ok.count
    simp only [hseen] at hcount
    rw [← countP_finRange, List.countP_eq_length_filter, ← List.length_map Fin.val,
      map_filter_finRange h.ok.size, List.length_range] at hcount
    exact_mod_cast hcount

/-- What the parts of a complete set name. -/
theorem Join.Holds.eid (h : j.Holds s) (hfull : s.Full) {i : Fin CAPN_RPC_MAX_JOIN_PARTS} (hi : (i : Nat) < s.count) :
    s.part i = some (j.qids i, j.eids i) := by
  have hseen : j.seen i = true := by rw [h.seen, hfull i hi]
  rw [h.part, if_pos hseen]

theorem Join.Holds.same (h : j.Holds s) (hfull : s.Full) (hpos : 0 < s.count) : j.same = decide s.Same := by
  have hparts : ∀ i : Fin CAPN_RPC_MAX_JOIN_PARTS, (i : Nat) < s.count → (s.part i).bind (·.2) = j.eids i := by
    intro i hi
    rw [h.eid hfull hi]
    rfl
  rw [Bool.eq_iff_iff, decide_eq_true_eq]
  simp only [Join.same, Bool.decide_and, Bool.and_eq_true, decide_eq_true_eq, List.all_eq_true]
  constructor
  · rintro ⟨hsome, hall⟩
    obtain ⟨eid, heid⟩ := Option.isSome_iff_exists.mp hsome
    refine ⟨eid, fun n hn => ?_⟩
    have hlt : n < CAPN_RPC_MAX_JOIN_PARTS := Nat.lt_of_lt_of_le hn (h.count ▸ h.ok.size)
    have hmem : (⟨n, hlt⟩ : Fin CAPN_RPC_MAX_JOIN_PARTS) ∈ j.parts :=
      List.mem_filter.mpr ⟨List.mem_finRange _, decide_eq_true (by rw [h.count]; exact hn)⟩
    have hn' := hparts ⟨n, hlt⟩ hn
    rw [← heid, ← hall _ hmem, ← hn']
  · rintro ⟨eid, heid⟩
    have hz := (hparts 0 hpos).symm.trans (heid 0 hpos)
    refine ⟨by rw [hz]; rfl, fun i hi => ?_⟩
    have hlt : (i : Nat) < s.count := by
      rw [← h.count]
      exact of_decide_eq_true (List.mem_filter.mp hi).2
    rw [hz, ← hparts i hlt, heid i hlt]

/-- **A complete set** is answered as it is to be. -/
theorem Join.Holds.answers (h : j.Holds s) (hfull : s.Full) (hpos : 0 < s.count) :
    Answers (j.parts.map (joinReply j)) j.joinId s := by
  refine ⟨fun n => (((if j.same ∧ n = 0 then j.eids 0 else none).map fun eid : ExportId =>
      CapDescriptor.senderHosted eid).toList), ?_, ?_⟩
  · rw [← h.count, ← parts_range h.ok.size, List.map_map]
    refine List.map_congr_left fun i hi => ?_
    have hlt : (i : Nat) < s.count := by
      rw [← h.count]
      exact of_decide_eq_true (List.mem_filter.mp hi).2
    simp only [Function.comp_apply, joinReply, PartSet.question, h.eid hfull hlt, h.same hfull hpos]
    simp only [Option.map_some, Option.getD_some, Fin.ext_iff]
    rfl
  · -- the capabilities of the answers, of which only the first has one
    have hcaps := congrArg List.length (@join_hosted j (h.count ▸ hpos))
    rw [List.flatMap_map, h.same hfull hpos] at hcaps
    rw [← h.count, ← parts_range h.ok.size, List.flatMap_map, h.same hfull hpos]
    simp only [joinReply, Outgoing.hosted, h.same hfull hpos, Fin.ext_iff] at hcaps
    refine hcaps.trans ?_
    by_cases hsame : s.Same
    · obtain ⟨eid, heid⟩ := hsame
      have hz : j.eids 0 = some eid := by
        have hfirst := heid 0 hpos
        have hpart : s.part 0 = _ := h.eid hfull (i := 0) hpos
        rw [hpart] at hfirst
        exact hfirst
      rw [if_pos (decide_eq_true ⟨eid, heid⟩), if_pos ⟨eid, heid⟩, hz]
      rfl
    · rw [decide_eq_false hsame, if_neg Bool.false_ne_true, if_neg hsame]
      rfl

end

/-! ## One message -/

section

variable {c : Conn} {vat : Vat} {s : Sets}

theorem holds_park {j : Join} {set : PartSet} (h : j.Holds set) {i : Fin CAPN_RPC_MAX_JOIN_PARTS}
    (hi : j.seen i = false) (hlt : (i : Nat) < j.partCount) (qid : Nat) (eid : Option ExportId) :
    (j.park i qid eid).Holds (set.add i qid eid) := by
  refine ⟨park_ok h.ok hi hlt qid eid, h.count, fun k => ?_, fun n hn => ?_⟩
  · by_cases hk : k = i
    · subst hk
      simp only [PartSet.add, Join.park, if_true]
    · have hne : (k : Nat) ≠ i := fun e => hk (Fin.ext e)
      simp only [PartSet.add, Join.park, if_neg hk, if_neg hne]
      exact h.part k
  · by_cases hni : n = i
    · show n < set.count
      rw [hni, ← h.count]
      exact hlt
    · simp only [PartSet.add, if_neg hni] at hn
      exact h.range n hn

/-- A slot that holds the set `id`, or none does, holds another state of it. -/
theorem Represents.put {t : Table CAPN_RPC_MAX_JOINS Join} (h : Represents t s) {slot : Fin CAPN_RPC_MAX_JOINS}
    {id : Nat} (hslot : ∀ j, t slot = some j → j.joinId = id)
    (hone : ∀ slot' j', t slot' = some j' → j'.joinId = id → slot' = slot) {a : Option Join} {b : Option PartSet}
    (ha : ∀ j, a = some j → j.joinId = id ∧ ∃ set, b = some set ∧ j.Holds set) (hb : a = none → b = none) :
    Represents (t.set slot a) fun i => if i = id then b else s i := by
  refine ⟨fun slot' j hj => ?_, fun i set hi => ?_, fun x y j j' hx hy hid => ?_⟩
  · by_cases hs : slot' = slot
    · rw [hs, Table.set_same] at hj
      obtain ⟨hid, hset⟩ := ha j hj
      rw [if_pos hid]
      exact hset
    · rw [Table.set_ne _ _ hs] at hj
      rw [if_neg fun hid => hs (hone slot' j hj hid)]
      exact h.holds slot' j hj
  · by_cases hid : i = id
    · rw [if_pos hid] at hi
      cases a with
      | none =>
        rw [hb rfl] at hi
        cases hi
      | some j => exact ⟨slot, j, Table.set_same _ _ _, (ha j rfl).1.trans hid.symm⟩
    · rw [if_neg hid] at hi
      obtain ⟨slot', j, hj, hji⟩ := h.has i set hi
      have hs : slot' ≠ slot := by
        rintro rfl
        exact hid (hji.symm.trans (hslot j hj))
      exact ⟨slot', j, by rw [Table.set_ne _ _ hs, hj], hji⟩
  · by_cases hxs : x = slot
    · by_cases hys : y = slot
      · rw [hxs, hys]
      · rw [hxs, Table.set_same] at hx
        rw [Table.set_ne _ _ hys] at hy
        exact absurd (hone y j' hy (hid.symm.trans (ha j hx).1)) hys
    · rw [Table.set_ne _ _ hxs] at hx
      by_cases hys : y = slot
      · rw [hys, Table.set_same] at hy
        exact absurd (hone x j hx (hid.trans (ha j' hy).1)) hxs
      · rw [Table.set_ne _ _ hys] at hy
        exact h.one x y j j' hx hy hid

/-- What an event does to the open sets of its connection. -/
def parted (c : Conn) (s : Sets) : Event → Sets
  | .recv _ (.join qid target (some kp)) => s.after kp qid (resolveTarget c target)
  | _ => s

/-- A part that opens a set finds room for it. -/
def Capacity (s : Sets) : Event → Prop
  | .recv _ (.join _ _ (some kp)) => s.contradicts kp = false → s kp.joinId = none → s.Room
  | _ => True

/-- A part that contradicts its set changes nothing, and is answered at once. -/
theorem join_refused {env : Env} (h : Represents c.joins s) {qid : Nat} {target : Option MessageTarget}
    {keyPart : Option JoinKeyPart} (hkp : ∀ kp, keyPart = some kp → s.contradicts kp = true) :
    ∃ id, capnRpcHandle env c vat (.join qid target keyPart) =
      sendJoinResult env { conn := c, vat := vat } qid id false none := by
  have hnone : accepted c keyPart = none := by
    cases keyPart with
    | none => rfl
    | some kp => exact accepted_none c h (hkp kp rfl)
  obtain ⟨-, id, e⟩ | ⟨slot, j, i, hacc, -⟩ := handleJoin_cases env { conn := c, vat := vat } qid target keyPart
  · exact ⟨id, e⟩
  · replace hacc : accepted c keyPart = some (slot, j, i) := hacc
    rw [hnone] at hacc
    cases hacc

/-- **Any other part** joins its set, which is answered when it is complete. -/
theorem join_extends {env : Env} (h : Represents c.joins s) {qid : Nat} {target : Option MessageTarget}
    {kp : JoinKeyPart} (hkp : s.contradicts kp = false) (hroom : s kp.joinId = none → s.Room) :
    Represents (capnRpcHandle env c vat (.join qid target (some kp))).conn.joins
        (s.after kp qid (resolveTarget c target)) ∧
      (env.Small → if (s.extend kp qid (resolveTarget c target)).Full then
          Answers (capnRpcHandle env c vat (.join qid target (some kp))).sent kp.joinId
            (s.extend kp qid (resolveTarget c target))
        else (capnRpcHandle env c vat (.join qid target (some kp))).sent = []) := by
  have hrun : capnRpcHandle env c vat (.join qid target (some kp)) =
    handleJoin env { conn := c, vat := vat } qid target (some kp) := rfl
  obtain ⟨slot, j, i, hacc, hi, hid, hholds, hone⟩ := accepted_of c h hkp hroom
  obtain ⟨hseen, hlt, -, hold⟩ := accepted_some hacc
  have hslot : ∀ k, c.joins slot = some k → k.joinId = kp.joinId := by
    intro k hk
    rcases hold with hj | ⟨hn, -⟩
    · rw [hj] at hk
      cases hk
      exact hid
    · rw [hn] at hk
      cases hk
  have hext : (j.park i qid (resolveTarget c target)).Holds (s.extend kp qid (resolveTarget c target)) := by
    have hp := holds_park hholds hseen hlt qid (resolveTarget c target)
    rw [hi] at hp
    exact hp
  have hafter : s.after kp qid (resolveTarget c target) = fun id => if id = kp.joinId then
      if (s.extend kp qid (resolveTarget c target)).Full then none else some (s.extend kp qid (resolveTarget c target))
    else s id := if_neg (by rw [hkp]; decide)
  have hpos : 0 < (s.extend kp qid (resolveTarget c target)).count := by
    rw [← hext.count]
    exact Nat.zero_lt_of_lt hlt
  obtain ⟨hn, -⟩ | ⟨slot', j', i', hacc', e⟩ := handleJoin_cases env { conn := c, vat := vat } qid target (some kp)
  · replace hn : accepted c (some kp) = none := hn
    rw [hacc] at hn
    cases hn
  replace hacc' : accepted c (some kp) = some (slot', j', i') := hacc'
  rw [hacc] at hacc'
  simp only [Option.some.injEq, Prod.mk.injEq] at hacc'
  obtain ⟨rfl, rfl, rfl⟩ := hacc'
  simp only at e
  rw [hrun, hafter, e]
  by_cases hfull : (s.extend kp qid (resolveTarget c target)).Full
  · rw [if_pos (hext.full_iff.mpr hfull), if_pos hfull, if_pos hfull]
    refine ⟨?_, fun hs => ?_⟩
    · rw [joinComplete_joins, Table.set_set]
      exact h.put hslot hone nofun fun _ => rfl
    · rw [joinComplete_sent, List.nil_append, emit_replies hs]
      have ha := hext.answers hfull hpos
      rw [show (j.park i qid (resolveTarget c target)).joinId = kp.joinId from hid] at ha
      exact ha
  · rw [if_neg fun hn => hfull (hext.full_iff.mp hn), if_neg hfull, if_neg hfull]
    refine ⟨h.put hslot hone (fun k hk => ?_) nofun, fun _ => rfl⟩
    cases hk
    exact ⟨hid, _, rfl, hext⟩

/-- **An event** keeps the table in step with the open sets. -/
theorem represents_event {e : Event} (h : Represents c.joins s) (hok : Capacity s e) :
    Represents (e.run c vat).conn.joins (parted c s e) := by
  by_cases hjoin : ∃ env qid target keyPart, e = .recv env (.join qid target keyPart)
  · obtain ⟨env, qid, target, keyPart, rfl⟩ := hjoin
    have hrefused : (∀ kp, keyPart = some kp → s.contradicts kp = true) →
        (Event.run c vat (.recv env (.join qid target keyPart))).conn.joins = c.joins := by
      intro hkp
      obtain ⟨id, e⟩ := @join_refused c vat s env h qid target keyPart hkp
      rw [Event.run, e, sendJoinResult, sendMessage_conn]
    cases keyPart with
    | none =>
      rw [hrefused (by rintro _ ⟨⟩)]
      exact h
    | some kp =>
      cases hkp : s.contradicts kp with
      | true =>
        have hafter : s.after kp qid (resolveTarget c target) = s := if_pos hkp
        rw [hrefused fun _ e => Option.some.inj e ▸ hkp, parted, hafter]
        exact h
      | false => exact (join_extends h hkp (hok hkp)).1
  · rw [joins_event c vat e fun env qid target keyPart he => hjoin ⟨env, qid, target, keyPart, he⟩]
    unfold parted
    split
    · exact absurd ⟨_, _, _, _, rfl⟩ hjoin
    · exact h

end

/-! ## Runs -/

/-- A run, with the sets that are open on each connection. -/
structure JoinRun (ι : Type) where
  world : World ι := {}
  sets : ι → Sets := fun _ _ => none

def JoinRun.step {ι : Type} [DecidableEq ι] (h : JoinRun ι) (e : ι × Event) : JoinRun ι where
  world := h.world.step e
  sets := fun k => if k = e.1 then parted (h.world.conns k) (h.sets k) e.2 else h.sets k

/-- What a message is to do on a connection `c` with the open sets `s`: a part is refused at
once and changes nothing, or waits in its set, or closes it, and all its parts are
answered. No other message answers a part or changes a set. -/
def Handles (c : Conn) (s s' : Sets) (sent : List Outgoing) : Message → Prop
  | .join qid target (some kp) =>
    if s.contradicts kp then (∃ id, sent = [.ret qid (.joinResult id false [])]) ∧ s' = s
    else
      let set := s.extend kp qid (resolveTarget c target)
      if set.Full then Answers sent kp.joinId set ∧ s' kp.joinId = none ∧ ∀ id, id ≠ kp.joinId → s' id = s id
      else sent = [] ∧ s' kp.joinId = some set ∧ ∀ id, id ≠ kp.joinId → s' id = s id
  | .join qid _ none => (∃ id, sent = [.ret qid (.joinResult id false [])]) ∧ s' = s
  | _ => (∀ q id verdict caps, .ret q (.joinResult id verdict caps) ∉ sent) ∧ s' = s

theorem handles_message {c : Conn} {vat : Vat} {s : Sets} {env : Env} {m : Message} (h : Represents c.joins s)
    (hs : env.Small) (hok : Capacity s (.recv env m)) :
    Handles c s (parted c s (.recv env m)) (capnRpcHandle env c vat m).sent m := by
  have hrefused : ∀ qid target keyPart, (∀ kp, keyPart = some kp → s.contradicts kp = true) →
      ∃ id, (capnRpcHandle env c vat (.join qid target keyPart)).sent = [.ret qid (.joinResult id false [])] := by
    intro qid target keyPart hkp
    obtain ⟨id, e⟩ := @join_refused c vat s env h qid target keyPart hkp
    have hfixed : (Outgoing.ret qid (.joinResult id false [])).Fixed := Nat.zero_le 1
    exact ⟨id, by rw [e, sendJoinResult, sendMessage_emit, emit_fixed hs hfixed]; rfl⟩
  unfold Handles
  split
  · rename_i qid target kp
    cases hkp : s.contradicts kp with
    | true =>
      rw [if_pos rfl]
      exact ⟨hrefused qid target _ fun _ e => Option.some.inj e ▸ hkp, if_pos hkp⟩
    | false =>
      obtain ⟨-, hsent⟩ := @join_extends c vat s env h qid target kp hkp (hok hkp)
      have hafter : s.after kp qid (resolveTarget c target) = fun id => if id = kp.joinId then
          if (s.extend kp qid (resolveTarget c target)).Full then none
          else some (s.extend kp qid (resolveTarget c target))
        else s id := if_neg (by rw [hkp]; decide)
      rw [if_neg Bool.false_ne_true, parted, hafter]
      simp only
      by_cases hfull : (s.extend kp qid (resolveTarget c target)).Full
      · have ha := hsent hs
        rw [if_pos hfull] at ha
        rw [if_pos hfull]
        exact ⟨ha, (if_pos trivial).trans (if_pos hfull), fun id hid => if_neg hid⟩
      · have ha := hsent hs
        rw [if_neg hfull] at ha
        rw [if_neg hfull]
        exact ⟨ha, (if_pos trivial).trans (if_neg hfull), fun id hid => if_neg hid⟩
  · rename_i qid target
    exact ⟨hrefused qid target none (by rintro _ ⟨⟩), rfl⟩
  · rename_i hsome hnone
    have hnot : ∀ qid target keyPart, m ≠ .join qid target keyPart := by
      intro qid target keyPart hm
      cases keyPart with
      | none => exact hnone qid target hm
      | some kp => exact hsome qid target kp hm
    refine ⟨fun q id verdict caps hmem => ?_, ?_⟩
    · obtain ⟨qid, target, keyPart, hm⟩ := joinResult_join hmem
      exact hnot qid target keyPart hm
    · unfold parted
      split
      · rename_i he
        exact absurd (Event.recv.inj he).2 (hnot _ _ _)
      · rfl

/-- **Joins are answered completely**: in every run within the capacity of the tables, each
table represents the sets that are open, so that a set that is complete leaves its slot,
and the next message does to the sets and answers what it is to. -/
theorem joins_answered {ι : Type} [DecidableEq ι] {h : JoinRun ι}
    (hrun : Runs JoinRun.step (fun h e => Capacity (h.sets e.1) e.2) {} h) (k : ι) :
    Represents (h.world.conns k).joins (h.sets k) ∧
      ((h.sets k).Room → ∃ i, (h.world.conns k).joins.free = some i) ∧
      ∀ env m, env.Small → Capacity (h.sets k) (.recv env m) →
        Handles (h.world.conns k) (h.sets k) ((h.step (k, .recv env m)).sets k) (h.world.sent (k, .recv env m)) m := by
  have hinv : ∀ k, Represents (h.world.conns k).joins (h.sets k) := by
    refine hrun.inv (I := fun h => ∀ k, Represents (h.world.conns k).joins (h.sets k)) (fun h e hk hok j => ?_)
      fun _ => represents_empty
    obtain ⟨i, e⟩ := e
    by_cases hj : j = i
    · subst hj
      simp only [JoinRun.step, step_conns_same, if_true]
      exact represents_event (hk j) hok
    · simp only [JoinRun.step, step_conns_ne h.world e hj, if_neg hj]
      exact hk j
  refine ⟨hinv k, (hinv k).free, fun env m hs hok => ?_⟩
  simp only [JoinRun.step, if_true]
  exact handles_message (hinv k) hs hok

/-! ## A run -/

theorem room_empty : Sets.Room fun _ => none := ⟨∅, by decide, fun _ h => absurd rfl h⟩

/-- Two Joins that are interleaved: the second part of the first one completes it. -/
theorem joins_answered_two : ∃ h : JoinRun Unit,
    Runs JoinRun.step (fun h e => Capacity (h.sets e.1) e.2) {} h ∧
      (Represents (h.world.conns ()).joins (h.sets ()) ∧
        ((h.sets ()).Room → ∃ i, (h.world.conns ()).joins.free = some i) ∧
        ∀ env m, env.Small → Capacity (h.sets ()) (.recv env m) →
          Handles (h.world.conns ()) (h.sets ()) ((h.step ((), .recv env m)).sets ())
            (h.world.sent ((), .recv env m)) m) ∧
      returnsOf (h.world.sent ((), .recv quietEnv (.join 4 none (some ⟨5, 2, 0⟩)))) = [4, 2] := by
  have h₁ : Runs JoinRun.step (fun h e => Capacity (h.sets e.1) e.2) {}
      (JoinRun.step ({} : JoinRun Unit) ((), .recv quietEnv (.join 2 none (some ⟨5, 2, 1⟩)))) :=
    .tail .refl fun _ _ => room_empty
  have h₂ := h₁.tail (e := ((), .recv quietEnv (.join 3 none (some ⟨6, 2, 1⟩)))) fun _ _ =>
    ⟨{5}, by decide, fun id hid => by
      by_contra hne
      have hne : id ≠ 5 := fun e => hne (Finset.mem_singleton.mpr e)
      exact hid (if_neg hne)⟩
  exact ⟨_, h₂, joins_answered h₂ (), by decide +kernel⟩

end Capnproto.Rpc

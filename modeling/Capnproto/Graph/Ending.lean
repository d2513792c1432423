import Mathlib.Data.Finset.Card
import Mathlib.Data.List.Range
import Capnproto.Graph.Tour

/-!
# `capn_validate` ends and changes nothing

Whatever the message holds. A key is of the object that some word of the message
points at, so that there are no more keys than words: a frame is pushed for a key
that was not marked, and otherwise the loop moves on to the next child or leaves
a frame (`goes_work`). The table always has an empty slot (`VSet.Safe`), an
object is expanded once (`expanded_nodup`), and the session only ever has its
counters changed (`validates_same`).
-/

namespace Capnproto

/-! ## The keys of a message -/

/-- The addresses of a message. -/
def addresses (c : Capn) : Finset Addr :=
  ((List.range c.segs.length).flatMap fun s => (List.range (c.seg s).len).map fun n => ⟨s, (n : Int)⟩).toFinset

theorem mem_addresses {c : Capn} {a : Addr} (h : boundsOk c (some a.seg) (some a) 8) : a ∈ addresses c := by
  obtain ⟨seg, off, -, ha, h0, hlen⟩ := boundsOk_iff.mp h
  cases ha
  have hseg : seg < c.segs.length := by
    by_contra hge
    rw [Capn.seg_of_ge (by omega)] at hlen
    simp only at hlen
    omega
  simp only [addresses, List.mem_toFinset, List.mem_flatMap, List.mem_range, List.mem_map]
  exact ⟨seg, hseg, off.toNat, by omega, by rw [Int.toNat_of_nonneg h0]⟩

/-- The word at `a` points at an object with this key. -/
def LeadsTo (c : Capn) (a : Addr) (key : VKey) : Prop :=
  ∃ q cost, pointee c a = some (q, cost) ∧ vkey q = some key

open Classical in
/-- The addresses whose words do not lead to a marked object. -/
noncomputable def unmarked (c : Capn) (marked : VKey → Prop) : Finset Addr :=
  (addresses c).filter fun a => ∀ key, LeadsTo c a key → ¬ marked key

section

variable {vhash : VKey → Nat} {alloc : VAlloc} {c : Capn} {root : Addr} {limit : Int}
  {marked marked' : VKey → Prop} {v v' : Validation} {f : VFrame} {rest : List VFrame}

theorem unmarked_mono (h : ∀ k, marked k → marked' k) : (unmarked c marked').card ≤ (unmarked c marked).card := by
  apply Finset.card_le_card
  intro a ha
  simp only [unmarked, Finset.mem_filter] at ha ⊢
  exact ⟨ha.1, fun key hk hm => ha.2 key hk (h key hm)⟩

/-- A key that is marked takes the addresses that lead to it away. -/
theorem unmarked_lt (h : ∀ k, marked k → marked' k) {a : Addr} {key : VKey} (ha : a ∈ addresses c)
    (hkey : LeadsTo c a key) (hnew : ¬ marked key) (hmark : marked' key) :
    (unmarked c marked').card < (unmarked c marked).card := by
  apply Finset.card_lt_card
  refine Finset.ssubset_iff_subset_ne.mpr ⟨?_, ?_⟩
  · intro b hb
    simp only [unmarked, Finset.mem_filter] at hb ⊢
    exact ⟨hb.1, fun k hk hm => hb.2 k hk (h k hm)⟩
  · intro heq
    have hin : a ∈ unmarked c marked := by
      simp only [unmarked, Finset.mem_filter]
      refine ⟨ha, fun k hk hm => ?_⟩
      obtain ⟨q, cost, hq, hqk⟩ := hkey
      obtain ⟨q', cost', hq', hqk'⟩ := hk
      rw [hq] at hq'
      cases hq'
      rw [hqk] at hqk'
      cases hqk'
      exact hnew hm
    rw [← heq] at hin
    simp only [unmarked, Finset.mem_filter] at hin
    exact hin.2 key hkey hmark

/-! ## The variant -/

/-- The children of a frame that are left, and leaving it. -/
def VFrame.left (f : VFrame) : Nat := (f.nchild - f.idx).toNat + 1

/-- What is left of the walk. An object has fewer than 2³¹ children. -/
noncomputable def work (c : Capn) (v : Validation) : Nat :=
  (unmarked c v.vs.Marked).card * 2 ^ 32 + (v.stack.map VFrame.left).sum

theorem left_succ (h : (f.idx : Int) < f.nchild) :
    VFrame.left { f with idx := f.idx + 1 } + 1 = f.left := by
  simp only [VFrame.left]
  omega

/-- Marking a key marks no other. -/
theorem marked_of_marks {vs vs' : VSet} {key : VKey} {s : VState} (h : vs.Marks vs' key s) (k : VKey)
    (hk : vs.Marked k) : vs'.Marked k := by
  obtain ⟨t, ht⟩ := hk
  by_cases hkk : k = key
  · exact ⟨s, (h k s).mpr (.inl ⟨hkk, rfl⟩)⟩
  · exact ⟨t, (h k t).mpr (.inr ⟨hkk, ht⟩)⟩

/-- The marks that are there stay. -/
theorem goes_marked (h : Walking vhash c root limit v) (hstack : v.stack = f :: rest)
    (hg : Goes vhash c limit v f rest v') (k : VKey) (hk : v.vs.Marked k) : v'.vs.Marked k := by
  cases hg with
  | leave hall =>
    obtain ⟨keys, hst, hpath⟩ := h.stack
    rw [hstack] at hst
    cases hst with
    | cons hf hkey _ _ =>
      have hmark := (hpath _).mpr List.mem_cons_self
      exact marked_of_marks (vsetLeave_spec h.ok (hf.key.trans hkey) hmark).2 k hk
  | pass _ _ _ _ _ hmarks _ =>
    obtain ⟨s, hs⟩ := hk
    exact ⟨s, (hmarks k s).mpr hs⟩
  | push _ _ _ _ _ _ _ _ _ hmarks _ _ => exact marked_of_marks hmarks k hk

/-- **An iteration** that goes on leaves less to do. -/
theorem goes_work (h : Walking vhash c root limit v) (hstack : v.stack = f :: rest)
    (hg : Goes vhash c limit v f rest v') : work c v' < work c v := by
  have hmarked := goes_marked h hstack hg
  have hle := unmarked_mono (c := c) hmarked
  have hmul := Nat.mul_le_mul_right (2 ^ 32) hle
  rw [work, work, hstack, List.map_cons, List.sum_cons]
  cases hg with
  | leave hall =>
    have hpos : 0 < f.left := Nat.succ_pos _
    simp only at hmul ⊢
    omega
  | pass hlt _ _ _ _ _ _ =>
    have hl := left_succ hlt
    simp only [List.map_cons, List.sum_cons] at hmul ⊢
    omega
  | @push a capn vs q cost key rem sc hlt hslot hb hsame hok hq h0 hkey hnew hmarks hlim hrem =>
    have hl := left_succ hlt
    have hcard := unmarked_lt hmarked (mem_addresses hb) ⟨q, cost, hq, hkey⟩ (fun ⟨s, hs⟩ => hnew s hs)
      ⟨.PATH, (hmarks _ _).mpr (.inl ⟨rfl, rfl⟩)⟩
    have hmul' := Nat.mul_le_mul_right (2 ^ 32) hcard
    have hchild : VFrame.left ⟨q.withNesting rem, 0, objectNchild (q.withNesting rem)⟩ < 2 ^ 32 := by
      have hchildren := (pointee_nchild hq).2
      simp only [VFrame.left, objectNchild_withNesting]
      omega
    simp only [List.map_cons, List.sum_cons, Nat.succ_mul] at hmul' ⊢
    omega

/-- The loop of `capn_validate` ends. -/
theorem walking_ends (h : Walking vhash c root limit v) : ∃ r, Loop.Ends (validateStep vhash alloc limit) v r := by
  obtain ⟨r, hr, -⟩ := Loop.total (validateStep vhash alloc limit) (I := Walking vhash c root limit)
    (Q := fun _ _ => True) (work c)
    (fun v v' hv e => by
      obtain ⟨f, rest, hstack, hg⟩ := validateStep_next hv.same hv.ok e
      exact ⟨walking_step hv e, goes_work hv hstack hg, fun _ _ => trivial⟩)
    (fun _ _ _ _ => trivial) h
  exact ⟨r, hr⟩

/-- **`capn_validate` terminates**, on any message. -/
theorem validates_exists (vhash : VKey → Nat) (alloc : VAlloc) (c : Capn) : ∃ r, Validates vhash alloc c r := by
  cases hstart : validateStart vhash alloc c with
  | done r => exact ⟨_, 0, by simp only [capnValidate, hstart, Option.map_some]; rfl⟩
  | next p =>
    obtain ⟨limit, v⟩ := p
    obtain ⟨-, a, f, -, -, -, -, hw⟩ := validateStart_walking hstart
    obtain ⟨r, fuel, hr⟩ := @walking_ends _ alloc _ _ _ _ hw
    exact ⟨_, fuel, by simp only [capnValidate, hstart, hr, Option.map_some]; rfl⟩

/-! ## The session -/

/-- The loop changes the counters only. -/
theorem walking_exit (h : Walking vhash c root limit v) {r : Int × Capn}
    (e : validateStep vhash alloc limit v = .done r) : SameMessage c r.2 := by
  have hread (s : Option Nat) (d : Option Addr) (rem : Int) : SameMessage c (readPtr v.capn s d rem).capn :=
    h.same.readPtr s d rem
  rw [validateStep] at e
  split at e
  · cases e
    exact h.same
  split at e
  · cases e
  split at e
  · cases e
    exact h.same
  simp only at e
  split at e
  · cases e
    exact h.same
  · cases e
  split at e
  · cases e
    exact hread _ _ _
  split at e
  · cases e
    exact hread _ _ _
  split at e
  · cases e
  rw [pushChild] at e
  split at e
  · cases e
    exact hread _ _ _
  split at e
  · cases e
    exact hread _ _ _
  simp only at e
  split at e
  · cases e
    exact hread _ _ _
  · cases e

/-- **`capn_validate` changes nothing** but the error, where `capn_root` does not. -/
theorem validates_same {r : Int × Capn} (hroot : (capnRoot c).1 = c) (h : Validates vhash alloc c r) :
    ∃ err, r.2 = { c with decodeErr := err } := by
  obtain ⟨fuel, hf⟩ := h
  obtain ⟨⟨rc, d⟩, hrun, rfl⟩ := Option.map_eq_some_iff.mp hf
  suffices hsame : SameMessage c d by
    obtain ⟨used, err, rfl⟩ := hsame
    exact ⟨err, rfl⟩
  cases hstart : validateStart vhash alloc c with
  | done r =>
    rw [hstart] at hrun
    cases hrun
    have hsame := (validateStart_done hstart).1
    rwa [hroot] at hsame
  | next p =>
    obtain ⟨limit, v⟩ := p
    rw [hstart] at hrun
    obtain ⟨-, a, f, -, -, -, -, hw⟩ := validateStart_walking hstart
    rw [hroot] at hw
    exact Loop.ends_inv (Q := fun r => SameMessage c r.2) (fun _ _ => walking_step)
      (fun _ _ hv e => walking_exit hv e) hw ⟨fuel, hrun⟩

/-! ## The table, and what is expanded -/

/-- The table has an empty slot, so that every probe ends; growing it fails only if there is
no memory, and loses nothing. -/
structure VSet.Safe (vhash : VKey → Nat) (alloc : VAlloc) (vs : VSet) : Prop where
  empty : none ∈ vs.tab
  probes : ∀ key, Probe.find vhash vs.tab key ≠ none
  grows : alloc.slots (vs.tab.length * 2) = true → ∃ vs', vsetGrow vhash alloc vs = some vs' ∧
    vs'.tab.length = vs.tab.length * 2 ∧ none ∈ vs'.tab ∧ ∀ k s, vs'.Mark k s ↔ vs.Mark k s

theorem mem_none {tab : Probe.Slots VKey VState} (h : Probe.used tab < tab.length) : none ∈ tab := by
  obtain ⟨j, hj, he⟩ := Probe.exists_empty h
  rw [List.getD_eq_getElem _ _ hj] at he
  rw [← he]
  exact List.getElem_mem hj

theorem VSet.Ok.safe {vs : VSet} (h : vs.Ok vhash) (alloc : VAlloc) : vs.Safe vhash alloc := by
  refine ⟨mem_none h.room, fun key hnone => ?_, fun hmem => ?_⟩
  · obtain ⟨i, -, hf, -⟩ := Probe.find_cases (k := key) h.placed h.room
    rw [hf] at hnone
    cases hnone
  · have hsize := h.size
    have hroom := h.room
    obtain ⟨tab, hf, -, hl, hu, hh⟩ := Probe.rehash_spec h.placed (show Probe.used vs.tab < vs.tab.length * 2 by omega)
    refine ⟨⟨tab, (Probe.entries vs.tab).length⟩, ?_, hl, mem_none (by rw [hu, hl]; omega), hh⟩
    rw [vsetGrow, if_pos hmem, hf]
    rfl

/-- The loop of `capn_validate` gets from `v₀` to `v`, and expands the objects with these keys. -/
inductive Expanded (vhash : VKey → Nat) (alloc : VAlloc) (limit : Int) (v₀ : Validation) :
    Validation → List (Option VKey) → Prop
  | start : Expanded vhash alloc limit v₀ v₀ (v₀.stack.map fun f => vkey f.p)
  | next {v v' : Validation} {keys : List (Option VKey)} (h : Expanded vhash alloc limit v₀ v keys)
    (e : validateStep vhash alloc limit v = .next v') :
    Expanded vhash alloc limit v₀ v'
      (if v.stack.length < v'.stack.length then (v'.stack.head?.bind fun f => vkey f.p) :: keys else keys)

/-- What is expanded is marked, and was not expanded before. -/
structure Once (vs : VSet) (keys : List (Option VKey)) : Prop where
  nodup : keys.Nodup
  marked : ∀ k ∈ keys, ∃ key, k = some key ∧ vs.Marked key

theorem Once.mono {vs vs' : VSet} {keys : List (Option VKey)} (h : Once vs keys)
    (hm : ∀ k, vs.Marked k → vs'.Marked k) : Once vs' keys :=
  ⟨h.nodup, fun k hk => let ⟨key, e, hkey⟩ := h.marked k hk; ⟨key, e, hm key hkey⟩⟩

theorem goes_once (h : Walking vhash c root limit v) (hstack : v.stack = f :: rest)
    (hg : Goes vhash c limit v f rest v') {keys : List (Option VKey)} (ho : Once v.vs keys) :
    Once v'.vs (if v.stack.length < v'.stack.length then (v'.stack.head?.bind fun f => vkey f.p) :: keys else keys) := by
  have hkeep := ho.mono (goes_marked h hstack hg)
  rw [hstack]
  cases hg with
  | leave => simpa using hkeep
  | pass => simpa using hkeep
  | @push a capn vs q cost key rem sc hlt hslot hb hsame hok hq h0 hkey hnew hmarks hlim hrem =>
    rw [if_pos (by simp only [List.length_cons]; omega)]
    simp only [List.head?_cons, Option.bind_some, vkey_withNesting, hkey]
    refine ⟨List.nodup_cons.mpr ⟨fun hin => ?_, ho.nodup⟩, fun k hk => ?_⟩
    · obtain ⟨_, e, s, hs⟩ := ho.marked _ hin
      cases e
      exact hnew s hs
    · rcases List.mem_cons.mp hk with rfl | hk
      · exact ⟨key, rfl, .PATH, (hmarks key _).mpr (.inl ⟨rfl, rfl⟩)⟩
      · exact hkeep.marked k hk

/-- No object is expanded twice, and the table stays safe. -/
theorem expanded_once {v₀ : Validation} {keys : List (Option VKey)}
    (hstart : validateStart vhash alloc c = .next (limit, v₀)) (h : Expanded vhash alloc limit v₀ v keys) :
    ∃ a, Walking vhash (capnRoot c).1 a limit v ∧ Once v.vs keys := by
  obtain ⟨-, a, f, -, -, -, hstack, hw⟩ := validateStart_walking hstart
  refine ⟨a, ?_⟩
  induction h with
  | start =>
    refine ⟨hw, ?_⟩
    obtain ⟨keys, hst, hpath⟩ := hw.stack
    rw [hstack] at hst ⊢
    cases hst with
    | cons hf hkey hn ht =>
      refine ⟨List.nodup_singleton _, fun k hk => ?_⟩
      rw [List.map_singleton, List.mem_singleton, hf.key, hkey] at hk
      exact ⟨_, hk, .PATH, (hpath _).mpr List.mem_cons_self⟩
  | next _ e ih =>
    obtain ⟨hwalk, honce⟩ := ih
    obtain ⟨f, rest, hs, hg⟩ := validateStep_next hwalk.same hwalk.ok e
    exact ⟨walking_step hwalk e, goes_once hwalk hs hg honce⟩

end

/-- **Validation always ends and changes nothing.** On any message that `capn_init_mem` loads,
with any limits and counters, any hash and any memory: `capn_validate` terminates; the session
is as before but for the error; and all the while the table has an empty slot, every probe
ends, nothing is lost when it grows, and no object is expanded twice. -/
theorem validate_ends {calloc : Nat → Option Nat} {bytes : List UInt8} {packed : Bool} {r : Init}
    {limit used : Nat} {nesting : Int} {err : Bool} {c : Capn} (hcalloc : CallocOk calloc)
    (h : InitsMem calloc bytes packed r) (hr : r.ret = 0)
    (hc : c = { r.capn with traversalLimit := limit, nestingLimit := nesting, traversalUsed := used, decodeErr := err })
    (vhash : VKey → Nat) (alloc : VAlloc) :
    (∃ s, Validates vhash alloc c s) ∧
      (∀ s, Validates vhash alloc c s → ∃ err, s.2 = { c with decodeErr := err }) ∧
      ∀ depth v₀ v keys, validateStart vhash alloc c = .next (depth, v₀) →
        Expanded vhash alloc depth v₀ v keys → v.vs.Safe vhash alloc ∧ keys.Nodup := by
  have hl : Loaded c := by
    rw [hc]
    exact ⟨(h.loaded hcalloc hr).ne_nil, (h.loaded hcalloc hr).full⟩
  have hroot : (capnRoot c).1 = c := by rw [capnRoot_loaded hl]
  refine ⟨validates_exists vhash alloc c, fun s hs => validates_same hroot hs, ?_⟩
  intro depth v₀ v keys hstart hx
  obtain ⟨a, hw, ho⟩ := expanded_once hstart hx
  exact ⟨hw.ok.safe alloc, ho.nodup⟩

/-- The frame of a struct that points at itself. -/
theorem validate_ends_self : ∃ r, InitsMem some ([0, 0, 0, 0, 1, 0, 0, 0] ++ selfBytes) false r ∧ r.ret = 0 ∧
    (∃ s, Validates (fun _ => 0) .unlimited r.capn s) ∧
      ∀ s, Validates (fun _ => 0) .unlimited r.capn s → ∃ err, s.2 = { r.capn with decodeErr := err } := by
  obtain ⟨r, hi, hr⟩ : ∃ r, InitsMem some ([0, 0, 0, 0, 1, 0, 0, 0] ++ selfBytes) false r ∧ r.ret = 0 :=
    ⟨_, ⟨0, rfl⟩, rfl⟩
  obtain ⟨hex, hsame, -⟩ := validate_ends callocOk_some hi hr rfl (fun _ => 0) .unlimited
  exact ⟨r, hi, hr, hex, hsame⟩

end Capnproto

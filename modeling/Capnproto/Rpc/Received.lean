import Capnproto.Frame.RoundTrip
import Capnproto.Object.ReadBack
import Capnproto.Rpc.CapReturn

/-!
# A message of one segment, received

The session that `capn_init_mem` makes of a frame of one segment, and what the `read_` functions find there: a struct
where its sender put it, the fields of its data, and its pointers, which are not resolved.
-/

namespace Capnproto.Rpc.Wire

/-- The session that a frame with the segment `b` is read into, with `n` bytes of it charged for. -/
def received (b : List UInt8) (n : Nat) : Capn :=
  { capnInitMalloc with segs := [⟨Mem.ofList b, b.length, b.length⟩], traversalUsed := n }

/-- A pointer that is not resolved. -/
def slotAt (d : Nat) (rem : Int) : Ptr :=
  { type := .FAR_POINTER, seg := some 0, data := some ⟨0, d⟩, nestingValid := true, nesting := rem }

section

variable {b : List UInt8} {n : Nat}

theorem received_read {o k : Nat} (h : o + k ≤ b.length) : (received b n).read ⟨0, o⟩ k = (b.drop o).take k :=
  Mem.read_ofList h

/-- A word of the message. -/
theorem received_word {o v : Nat} (h : o + 8 ≤ b.length) (hw : (b.drop o).take 8 = toLe 8 v) (hv : v < 2 ^ 64) :
    (received b n).load64 ⟨0, o⟩ = v := by
  have hread := @received_read b n o 8 h
  show le ((received b n).read ⟨0, o⟩ 8) = v
  rw [hread, hw, le_toLe]
  exact Nat.mod_eq_of_lt hv

/-- An object of the message, where its sender put it. -/
theorem received_stands {p : Ptr} {o : Nat} (hs : p.Shape) (hobj : p.IsObject) (hseg : p.seg = some 0)
    (hd : p.data = some ⟨0, o⟩) (hlead : p.lead ≤ o) (hin : o + p.extent ≤ b.length) (h8 : 8 ∣ o)
    (htag : p.isCompositeList = true → (received b n).load64 ⟨0, (o : Int) - 8⟩ = compositeTag p)
    (hpad : p.hasPtrTag = false) : Stands (received b n) p 0 o where
  shape := hs
  obj := hobj
  seg := hseg
  data := hd
  lt := Nat.one_pos
  lead := by omega
  inside := by
    show (o : Int) + p.extent ≤ (b.length : Nat)
    omega
  aligned := by omega
  tag := htag
  pad := fun h => absurd h (by rw [hpad]; decide)

theorem received_pointee {p : Ptr} {d o v : Nat} {w : Int} (h : Stands (received b n) p 0 o)
    (hne : p.datasz ≠ 0 ∨ p.ptrs ≠ 0) (hword : (received b n).load64 ⟨0, d⟩ = v)
    (hoff : (d : Int) + (w + 1) * 8 = o - p.lead) (htag : ptrTag p (w * 8) = some v) :
    pointee (received b n) ⟨0, d⟩ = some (p.bare, p.cost) ∧ landingPads (received b n) ⟨0, d⟩ = [] := by
  have hempty : ¬ p.emptyStruct := fun ⟨_, h0, h1⟩ => hne.elim (absurd h0) (absurd h1)
  have hw : PtrWord p w v := by
    have := ptrTag_word h.shape h.obj (Int.dvd_mul_left w 8) htag
    rwa [Int.mul_ediv_cancel _ (by decide)] at this
  exact h.pointee_near (fun e => absurd e hempty) rfl (by rw [hword]; exact hw) hoff

/-- A struct that a word of the message points to. -/
theorem received_struct {o datasz ptrs d word : Nat} {w : Int} (hshape : 8 ∣ datasz ∧ datasz < 2 ^ 19 ∧ ptrs < 2 ^ 16)
    (hin : o + (datasz + 8 * ptrs) ≤ b.length) (h8 : 8 ∣ o) (hne : datasz ≠ 0 ∨ ptrs ≠ 0) (hd : d + 8 ≤ b.length)
    (hword : (b.drop d).take 8 = toLe 8 word) (hlt : word < 2 ^ 64) (hoff : (d : Int) + (w + 1) * 8 = o)
    (htag : ptrTag (structAt o datasz ptrs) (w * 8) = some word) :
    pointee (received b n) ⟨0, d⟩ = some (structAt o datasz ptrs, datasz + 8 * ptrs) ∧
      landingPads (received b n) ⟨0, d⟩ = [] := by
  obtain ⟨hd8, hdlt, hplt⟩ := hshape
  have hst : Stands (received b n) (structAt o datasz ptrs) 0 o :=
    received_stands ⟨rfl, Int.le_refl 0, rfl, hd8, hdlt, hplt, rfl⟩ ⟨nofun, nofun, nofun⟩ rfl rfl (Nat.zero_le o) hin h8 nofun
      rfl
  have hlead : (o : Int) - (structAt o datasz ptrs).lead = o := Int.sub_zero _
  have hcost : (structAt o datasz ptrs).cost = datasz + 8 * ptrs := if_neg fun h => Int.lt_irrefl 0 h.2
  rw [← hcost]
  exact received_pointee hst hne (received_word hd hword hlt) (hoff.trans hlead.symm) htag

theorem received_readPtr {p : Ptr} {d cost : Nat} {rem : Int} (hrem : rem ≠ 0) (hd : d + 8 ≤ b.length)
    (hp : pointee (received b n) ⟨0, d⟩ = some (p, cost) ∧ landingPads (received b n) ⟨0, d⟩ = [])
    (hn : n + cost ≤ CAPN_TRAVERSAL_DEFAULT) :
    readPtr (received b n) (some 0) (some ⟨0, d⟩) rem = ⟨received b (n + cost), p.withNesting rem, []⟩ := by
  have hb : boundsOk (received b n) (some 0) (some ⟨0, d⟩) 8 := by
    refine boundsOk_iff.mpr ⟨0, d, rfl, rfl, by omega, ?_⟩
    show (d : Int) + 8 ≤ (b.length : Nat)
    omega
  rw [readPtr_eq hrem hb, hp.1, hp.2]
  simp only
  rw [if_pos (.inr hn)]
  rfl

/-- A field of the data of a struct of the message. -/
theorem received_field {p : Ptr} {o off k : Nat} (hp : p.data = some ⟨0, o⟩) (hfit : off + k ≤ p.datasz)
    (hin : o + off + k ≤ b.length) : capnRead k (received b n) p off = le ((b.drop (o + off)).take k) := by
  have hadd : Addr.add ⟨0, o⟩ off = ⟨0, (o + off : Nat)⟩ := by
    rw [Addr.add]
    push_cast
    rfl
  rw [capnRead, if_pos hfit, hp]
  simp only [hadd, Capn.load, received_read hin]

theorem received_resolve {p : Ptr} {d cost : Nat} {rem : Int} (hrem : rem ≠ 0) (hd : d + 8 ≤ b.length)
    (hp : pointee (received b n) ⟨0, d⟩ = some (p, cost) ∧ landingPads (received b n) ⟨0, d⟩ = [])
    (hn : n + cost ≤ CAPN_TRAVERSAL_DEFAULT) :
    capnResolve (received b n) (slotAt d rem) = ⟨received b (n + cost), p.withNesting rem, []⟩ := by
  have hfar : (slotAt d rem).type = .FAR_POINTER := rfl
  rw [capnResolve, if_pos hfar, ← received_readPtr hrem hd hp hn]
  simp only [slotAt, hopRemaining, if_true]

/-- A pointer field of a struct of the message. -/
theorem received_slot {p : Ptr} {o i d : Nat} {rem : Int} (ht : p.type = .STRUCT) (hv : p.nestingValid = true)
    (hr : p.nesting = rem) (hs : p.seg = some 0) (hd : p.data = some ⟨0, o⟩) (hi : i < p.ptrs)
    (hdef : d = o + p.datasz + 8 * i) : pointerField (received b n) p i = slotAt d rem := by
  have hres : capnResolve (received b n) p = ⟨received b n, p, []⟩ := by
    rw [capnResolve, if_neg (by rw [ht]; decide)]
  have hadd : Addr.add ⟨0, o⟩ (p.datasz + 8 * i) = ⟨0, d⟩ := by
    rw [Addr.add, hdef]
    push_cast
    rw [Int.add_assoc]
  rw [pointerField, capnGetp, hres]
  simp only [getpResolved, ht]
  rw [if_neg (by omega)]
  simp only [getpSlot, hd, hs, Option.map_some, hadd, hopRemaining, if_pos hv, hr]
  rfl

/-- A struct as its reader has it, with `rem` hops for its own pointers. -/
def structRead (o datasz ptrs : Nat) (rem : Int) : Ptr := { structAt o datasz ptrs with nestingValid := true, nesting := rem }

theorem structAt_withNesting {o datasz ptrs : Nat} {rem : Int} (hrem : 0 < rem) :
    (structAt o datasz ptrs).withNesting rem = structRead o datasz ptrs (rem - 1) := if_pos hrem

theorem structRead_resolve (c : Capn) (o datasz ptrs : Nat) (rem : Int) :
    capnResolve c (structRead o datasz ptrs rem) = ⟨c, structRead o datasz ptrs rem, []⟩ := by
  rw [capnResolve, if_neg (by rintro ⟨⟩)]

theorem structRead_field {o datasz ptrs off k : Nat} {rem : Int} (hfit : off + k ≤ datasz) (hin : o + off + k ≤ b.length) :
    capnRead k (received b n) (structRead o datasz ptrs rem) off = le ((b.drop (o + off)).take k) :=
  received_field rfl hfit hin

theorem structRead_slot {o datasz ptrs i : Nat} {rem : Int} (hi : i < ptrs) :
    pointerField (received b n) (structRead o datasz ptrs rem) i = slotAt (o + datasz + 8 * i) rem :=
  received_slot rfl rfl rfl rfl rfl hi rfl

theorem received_root (hlen : 8 ≤ b.length) : capnRoot (received b n) = (received b n, firstRoot) := by
  have hlook : lookupSegment (received b n) 0 = some 0 := if_pos Nat.one_pos
  have hseg : (received b n).seg 0 = ⟨Mem.ofList b, b.length, b.length⟩ := rfl
  simp only [capnRoot, hlook, hseg]
  rw [if_neg (by omega), if_neg (by omega)]
  rfl

/-- The Message, which the root points to. -/
theorem received_message {o : Nat} (hlen : 8 ≤ b.length) (hin : o + 16 ≤ b.length)
    (hroot : pointee (received b 0) ⟨0, (0 : Nat)⟩ = some (structAt o 8 1, 16) ∧ landingPads (received b 0) ⟨0, (0 : Nat)⟩ = []) :
    frameMessage (received b 0) =
      (received b 16, { which := le ((b.drop o).take 2), body := slotAt (o + 8) 63 }) := by
  have hread : readPtr (received b 0) (some 0) (some ⟨0, (0 : Nat)⟩) 64 = ⟨received b 16, structRead o 8 1 63, []⟩ :=
    received_readPtr (by decide) (by omega) hroot (by decide)
  have hslot : getpResolved (received b 0) firstRoot.seg firstRoot 0 true =
      readPtr (received b 0) (some 0) (some ⟨0, (0 : Nat)⟩) 64 := by
    simp only [getpResolved, firstRoot, getpSlot, hopRemaining, Option.map_some, Addr.add, if_true, CAPN_NESTING_DEFAULT]
    rw [if_neg (by decide)]
    simp only [not_true_eq_false, if_false, Int.mul_zero, Int.add_zero, Nat.cast_zero]
  have hget : capnGetp (received b 0) firstRoot 0 true = ⟨received b 16, structRead o 8 1 63, []⟩ := by
    have hres : capnResolve (received b 0) firstRoot = ⟨received b 0, firstRoot, []⟩ := rfl
    rw [capnGetp, hres]
    simp only [hslot, hread, List.append_nil]
  have hwhich : capnRead16 (received b 16) (structRead o 8 1 63) 0 = le ((b.drop o).take 2) :=
    structRead_field (by decide) (by omega)
  simp only [frameMessage, received_root hlen, hget, readMessage, reader, structRead_resolve, hwhich, structRead_slot Nat.one_pos]

/-- A Return, which the slot at `d` points to. -/
theorem received_return {d o : Nat} {rem : Int} (hrem : 0 < rem) (hd : d + 8 ≤ b.length) (hin : o + 24 ≤ b.length)
    (hp : pointee (received b n) ⟨0, d⟩ = some (structAt o 16 1, 24) ∧ landingPads (received b n) ⟨0, d⟩ = [])
    (hn : n + 24 ≤ CAPN_TRAVERSAL_DEFAULT) :
    readReturn (received b n) (slotAt d rem) = (received b (n + 24),
      { answerId := le ((b.drop o).take 4), releaseParamCaps := !(le ((b.drop (o + 4)).take 1)).testBit 0,
        noFinishNeeded := (le ((b.drop (o + 4)).take 1)).testBit 1, which := le ((b.drop (o + 6)).take 2),
        takeFromOtherQuestion := le ((b.drop (o + 8)).take 4), results := slotAt (o + 16) (rem - 1) }) := by
  have hres : capnResolve (received b n) (slotAt d rem) = ⟨received b (n + 24), (structAt o 16 1).withNesting rem, []⟩ :=
    received_resolve (by omega) hd hp hn
  have hid : capnRead32 (received b (n + 24)) (structRead o 16 1 (rem - 1)) 0 = le ((b.drop o).take 4) :=
    structRead_field (by decide) (by omega)
  have hflags : capnRead8 (received b (n + 24)) (structRead o 16 1 (rem - 1)) 4 = le ((b.drop (o + 4)).take 1) :=
    structRead_field (by decide) (by omega)
  have hwhich : capnRead16 (received b (n + 24)) (structRead o 16 1 (rem - 1)) 6 = le ((b.drop (o + 6)).take 2) :=
    structRead_field (by decide) (by omega)
  have hother : capnRead32 (received b (n + 24)) (structRead o 16 1 (rem - 1)) 8 = le ((b.drop (o + 8)).take 4) :=
    structRead_field (by decide) (by omega)
  rw [structAt_withNesting hrem] at hres
  simp only [readReturn, reader, hres, hid, hflags, hwhich, hother, structRead_slot Nat.one_pos]

/-- A frame of one segment is read. -/
theorem received_inits {calloc : Nat → Option Nat} (hcalloc : CallocOk calloc) {k : Nat} (hlen : b.length = 8 * k)
    (hk : 8 * k < 2 ^ 31) :
    ∃ stores, InitsMem calloc (toLe 4 0 ++ toLe 4 k ++ b) false ⟨0, received b 0, stores⟩ := by
  have hf : Framable [b] := by
    refine ⟨by simp, show 1 ≤ CAPN_MAX_SEGS by decide, ?_, ?_, ?_⟩
    · intro s hs
      rw [List.mem_singleton.mp hs]
      exact ⟨k, hlen⟩
    · intro s hs
      rw [List.mem_singleton.mp hs, hlen, INT_MAX]
      omega
    · rw [List.flatten_singleton, hlen]
      omega
  have hb : BeginsFrame (unpacked (toLe 4 0 ++ toLe 4 k ++ b) false) [b] := by
    have htable : sizeTable [b] = toLe 4 k := by
      simp only [sizeTable, List.flatMap_cons, List.flatMap_nil, List.append_nil, hlen]
      rw [Nat.mul_div_cancel_left k (by decide)]
    refine ⟨[], [], by rw [htable]; exact (show 4 = tableSize 1 by decide), ?_⟩
    simp only [frame, htable, List.flatten_cons, List.flatten_nil, List.append_nil]
    rfl
  obtain ⟨r, hr, hl⟩ := @initMem_ok _ _ false hcalloc (fun h => absurd (jamsIn_mem.mp h).1 (by decide))
  obtain ⟨stores, hok⟩ := @initFp_frame _ false _ _ hcalloc hf hb
  rw [hok] at hl
  cases hl
  have hcarve : carve ([b].map List.length) [b].flatten = [⟨Mem.ofList b, b.length, b.length⟩] := by
    simp only [List.map_cons, List.map_nil, List.flatten_singleton, carve]
  rw [hcarve] at hr
  exact ⟨stores, hr⟩

end

end Capnproto.Rpc.Wire

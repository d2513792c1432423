import Capnproto.Frame.Read

/-!
# Frames

The framing format, and what `init_fp` makes of bytes that are already
unpacked: it returns 0 exactly when they begin with a frame (`initList_ret`),
and then the session has the segments of the frame (`initList_segs`).
-/

namespace Capnproto

/-- Segments that a frame can hold: up to the advertised count, of whole words,
and of sizes that the reader takes. -/
structure Framable (segs : List (List UInt8)) : Prop where
  ne_nil : segs ≠ []
  count : segs.length ≤ CAPN_MAX_SEGS
  words : ∀ s ∈ segs, 8 ∣ s.length
  size : ∀ s ∈ segs, s.length / 8 ≤ INT_MAX / 8
  total : segs.flatten.length < 2 ^ 32

/-- The sizes of the segments, in words. -/
def sizeTable (segs : List (List UInt8)) : List UInt8 := segs.flatMap fun s => toLe 4 (s.length / 8)

/-- A frame: the segment count less one, the sizes, the padding, the segments. -/
def frame (segs : List (List UInt8)) (pad : List UInt8) : List UInt8 :=
  toLe 4 (segs.length - 1) ++ (sizeTable segs ++ pad) ++ segs.flatten

/-- `u` begins with a frame of `segs`, whatever the bytes of the padding. -/
def BeginsFrame (u : List UInt8) (segs : List (List UInt8)) : Prop :=
  ∃ pad tail, (sizeTable segs ++ pad).length = tableSize segs.length ∧ u = frame segs pad ++ tail

/-- Cuts a byte string into pieces of the given sizes. -/
def pieces : List Nat → List UInt8 → List (List UInt8)
  | [], _ => []
  | n :: ns, u => u.take n :: pieces ns (u.drop n)

/-! ## Tables -/

theorem tableWords_zero (hdr : List UInt8) : tableWords 0 hdr = [] := rfl

theorem tableWords_succ (n : Nat) (hdr : List UInt8) :
    tableWords (n + 1) hdr = le (hdr.take 4) :: tableWords n (hdr.drop 4) := by
  simp only [tableWords, List.range_succ_eq_map, List.map_cons, List.map_map, Nat.mul_zero, List.drop_zero,
    List.cons.injEq, true_and]
  refine List.map_congr_left fun i _ => ?_
  simp only [Function.comp, List.drop_drop]
  rw [show 4 * i.succ = 4 + 4 * i by omega]

theorem length_tableWords (n : Nat) (hdr : List UInt8) : (tableWords n hdr).length = n := by
  simp [tableWords]

/-- The table as bytes again. -/
theorem flatMap_tableWords {n : Nat} {hdr : List UInt8} (h : 4 * n ≤ hdr.length) :
    (tableWords n hdr).flatMap (toLe 4) = hdr.take (4 * n) := by
  induction n generalizing hdr with
  | zero => simp [tableWords_zero]
  | succ n ih =>
    have h4 : (hdr.take 4).length = 4 := by rw [List.length_take]; omega
    have hle := toLe_le (hdr.take 4)
    rw [h4] at hle
    rw [tableWords_succ, List.flatMap_cons, hle, ih (by rw [List.length_drop]; omega),
      show 4 * (n + 1) = 4 + 4 * n by omega, List.take_add]

/-- The table of the sizes of segments. -/
theorem tableWords_sizeTable {segs : List (List UInt8)} (h : ∀ s ∈ segs, s.length / 8 < 2 ^ 32)
    (r : List UInt8) : tableWords segs.length (sizeTable segs ++ r) = segs.map (·.length / 8) := by
  induction segs with
  | nil => rfl
  | cons s segs ih =>
    rw [List.forall_mem_cons] at h
    have hl : (toLe 4 (s.length / 8)).length = 4 := length_toLe 4 _
    rw [List.length_cons, tableWords_succ, sizeTable, List.flatMap_cons, List.append_assoc,
      List.take_left' hl, List.drop_left' hl, le_toLe, ← sizeTable, ih h.2, List.map_cons,
      show 256 ^ 4 = 2 ^ 32 from rfl, Nat.mod_eq_of_lt h.1]

theorem length_sizeTable (segs : List (List UInt8)) : (sizeTable segs).length = 4 * segs.length := by
  induction segs with
  | nil => rfl
  | cons s segs ih =>
    rw [sizeTable, List.flatMap_cons, List.length_append, length_toLe, ← sizeTable, ih, List.length_cons]
    omega

theorem four_mul_le_tableSize (n : Nat) : 4 * n ≤ tableSize n := by
  simp only [tableSize]; omega

/-! ## Frames -/

theorem length_frame {segs : List (List UInt8)} {pad : List UInt8}
    (ht : (sizeTable segs ++ pad).length = tableSize segs.length) :
    (frame segs pad).length = 4 + tableSize segs.length + segs.flatten.length := by
  rw [frame, List.length_append, List.length_append, ht, length_toLe]

/-- The count and the sizes. -/
theorem take_frame (segs : List (List UInt8)) (pad tail : List UInt8) :
    (frame segs pad ++ tail).take (4 + 4 * segs.length) = toLe 4 (segs.length - 1) ++ sizeTable segs := by
  have hl : (toLe 4 (segs.length - 1) ++ sizeTable segs).length = 4 + 4 * segs.length := by
    rw [List.length_append, length_toLe, length_sizeTable]
  rw [frame, ← List.append_assoc (toLe 4 _), List.append_assoc, List.append_assoc, List.take_left' hl]

/-- The segments. -/
theorem drop_frame {segs : List (List UInt8)} {pad : List UInt8}
    (ht : (sizeTable segs ++ pad).length = tableSize segs.length) :
    (frame segs pad).drop (4 + tableSize segs.length) = segs.flatten := by
  refine List.drop_left' ?_
  rw [List.length_append, ht, length_toLe]

/-! ## Pieces -/

theorem length_pieces (ns : List Nat) (u : List UInt8) : (pieces ns u).length = ns.length := by
  induction ns generalizing u with
  | nil => rfl
  | cons n ns ih => rw [pieces, List.length_cons, ih, List.length_cons]

theorem map_length_pieces {ns : List Nat} {u : List UInt8} (h : ns.sum ≤ u.length) :
    (pieces ns u).map List.length = ns := by
  induction ns generalizing u with
  | nil => rfl
  | cons n ns ih =>
    rw [List.sum_cons] at h
    rw [pieces, List.map_cons, List.length_take, ih (by rw [List.length_drop]; omega),
      Nat.min_eq_left (by omega)]

theorem flatten_pieces (ns : List Nat) (u : List UInt8) : (pieces ns u).flatten = u.take ns.sum := by
  induction ns generalizing u with
  | nil => simp [pieces]
  | cons n ns ih => rw [pieces, List.flatten_cons, ih, List.sum_cons, List.take_add]

theorem pieces_flatten (segs : List (List UInt8)) : pieces (segs.map List.length) segs.flatten = segs := by
  induction segs with
  | nil => rfl
  | cons s segs ih => rw [List.map_cons, List.flatten_cons, pieces, List.take_left, List.drop_left, ih]

/-- The segments set up in `data` hold its pieces. -/
theorem map_bytes_carve {ns : List Nat} {data : List UInt8} (h : ns.sum ≤ data.length) :
    (carve ns data).map Segment.bytes = pieces ns data := by
  induction ns generalizing data with
  | nil => rfl
  | cons n ns ih =>
    rw [List.sum_cons] at h
    have hb := @Mem.read_ofList data 0 n (by omega)
    rw [List.drop_zero] at hb
    rw [carve, List.map_cons, pieces, ih (by rw [List.length_drop]; omega)]
    exact congrArg (· :: _) hb

theorem foldl_append (c : Capn) (ss : List Segment) :
    ss.foldl capnAppendSegment c = { c with segs := c.segs ++ ss } := by
  induction ss generalizing c with
  | nil => simp
  | cons s ss ih => rw [List.foldl_cons, ih]; simp [capnAppendSegment]

end Capnproto

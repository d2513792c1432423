import Capnproto.Frame.Image
import Capnproto.Stream.InPlace

/-!
# The packed table, in the caller's buffer

`capn_write_mem_packed` has no room of its own for the table: it renders it into the caller's buffer,
`headersz + 2` bytes from the start, and packs it from there to the front. Here it runs on the buffer itself,
with the sizes of the table in the 32 bits that the source has for them. The packer never stores over a byte of the table
that it still has to read (`packing_safe`). What goes wrong is elsewhere: the length of a table of 2³² bytes
is cut short, and a raw copy with a multiple of 2³² bytes of room moves nothing (`headerPacked_iff`).
-/

namespace Capnproto

open Packing (AtRaw atRaw_zero)

/-- `*headerlen` in `header_calc`. -/
def headerLen32 (segnum : Nat) : Nat := (2 + segnum) % 2 ^ 32 / 2 * 2

/-- `*headersz` in `header_calc`. -/
def headerSize32 (segnum : Nat) : Nat := 4 * headerLen32 segnum % 2 ^ 32

/-- The loop of `header_render`, from `&header[1 + i]` on: the memory, and what is stored. -/
def renderSizes : Int → List Segment → Mem × List MemAccess → Mem × List MemAccess
  | _, [], r => r
  | a, s :: segs, (m, l) => renderSizes (a + 4) segs (m.write a (toLe 4 (s.len / 8)), l ++ [.store a 4])

/-- `header_render`, with the segments that it finds from `seg` on. -/
def renderTable (segnum headerlen : Nat) (segs : List Segment) (header : Int) (m : Mem) : Int × Mem × List MemAccess :=
  let spare := header + 4 * ((headerlen + (2 ^ 32 - 1)) % 2 ^ 32 : Nat)
  let m := (m.write header (toLe 4 (segnum - 1))).write spare (toLe 4 0)
  let (m, l) := renderSizes (header + 4) (segs.take segnum) (m, [.store header 4, .store spare 4])
  (if segs.length = segnum then 0 else -1, m, l)

/-- What there is of a call of `capn_write_mem` once the table is packed: the status so far, what was stored to
render the table, and the packer. -/
structure PackedTable where
  ret : Int
  rendered : List MemAccess
  z : InPlace

/-- `capn_write_mem` as far as the packed table, in the `sz` bytes of `m` from `p`. -/
def packTable (fuel : Nat) (c : Capn) (m : Mem) (p : Int) (sz : Nat) : Option PackedTable :=
  let z : InPlace := { mem := m, nextIn := p, availIn := 0, nextOut := p, availOut := sz }
  if c.segnum = 0 then some ⟨-1, [], z⟩
  else
    let (c, root) := capnRoot c
    let headerlen := headerLen32 c.segnum
    let headersz := headerSize32 c.segnum
    if sz < headersz ∨ sz - headersz < 2 then some ⟨-1, [], z⟩
    else if (sz - headersz - 2) / 4 < headerlen then some ⟨-1, [], z⟩
    else
      let header := p + headersz + 2
      let (ret, m, l) := renderTable c.segnum headerlen (if root.seg = none then [] else c.segs) header m
      if ret ≠ 0 then some ⟨-1, l, { z with mem := m }⟩
      else
        (deflateInPlace fuel { mem := m, nextIn := header, availIn := headersz, nextOut := p, availOut := sz }).map
          fun (ret, s) => ⟨if ret ≠ 0 ∨ s.availIn ≠ 0 then -1 else 0, l, s⟩

/-- The table that is rendered, and where. -/
def tableOf (c : Capn) : List UInt8 := headerRender (capnRoot c).1

def tableAt (c : Capn) (p : Int) : Int := p + headerSize32 (capnRoot c).1.segnum + 2

/-- The call fails before it stores anything, for lack of segments or of room. -/
def RefusedRoom (c : Capn) (sz : Nat) : Prop :=
  c.segnum = 0 ∨ sz < headerSize32 (capnRoot c).1.segnum + 2 + 4 * headerLen32 (capnRoot c).1.segnum

/-- All of the table was read, each byte before anything was stored over it; the packed table is the packing of the
true one; and nothing was stored outside of the buffer. -/
structure PackedTable.Right (c : Capn) (m : Mem) (p : Int) (sz : Nat) (r : PackedTable) : Prop where
  ret : r.ret = 0
  whole : ∀ i : Nat, i < (tableOf c).length → Loads r.z.log (tableAt c p + i)
  first : ReadFirst r.z.log (tableAt c p)
  stores : ∀ a k, MemAccess.store a k ∈ r.rendered ++ r.z.log → p ≤ a ∧ a + k ≤ p + sz
  outside : ∀ x, x < p ∨ p + sz ≤ x → r.z.mem x = m x
  packed : r.z.mem.read p (packed (tableOf c)).length = packed (tableOf c)
  nextOut : r.z.nextOut = p + (Capnproto.packed (tableOf c)).length

/-- The header is packed as it should be, or the call fails before any store. -/
def HeaderPacked (c : Capn) (m : Mem) (p : Int) (sz : Nat) : Prop :=
  ∃ fuel r, packTable fuel c m p sz = some r ∧
    (r.ret = -1 ∧ r.rendered = [] ∧ r.z.log = [] ∧ r.z.mem = m ∨ r.Right c m p sz)

/-! ## The table -/

theorem renderSizes_eq (segs : List Segment) (a : Int) (m : Mem) (l : List MemAccess) :
    ∃ l', renderSizes a segs (m, l) = (m.write a (segs.flatMap fun s => toLe 4 (s.len / 8)), l ++ l') ∧
      ∀ b k, MemAccess.store b k ∈ l' → a ≤ b ∧ b + k ≤ a + 4 * segs.length := by
  induction segs generalizing a m l with
  | nil => exact ⟨[], by simp [renderSizes], fun b k hm => absurd hm List.not_mem_nil⟩
  | cons s segs ih =>
    obtain ⟨l', e, hl⟩ := ih (a + 4) (m.write a (toLe 4 (s.len / 8))) (l ++ [.store a 4])
    refine ⟨.store a 4 :: l', ?_, fun b k hm => ?_⟩
    · have hw := Mem.write_append m a (toLe 4 (s.len / 8)) (segs.flatMap fun s => toLe 4 (s.len / 8))
      rw [length_toLe] at hw
      rw [renderSizes, e, List.append_assoc, List.flatMap_cons, hw]
      rfl
    · rw [List.length_cons]
      rcases List.mem_cons.mp hm with hm | hm
      · cases hm
        omega
      · have := hl b k hm
        omega

theorem length_sizes (segs : List Segment) : (segs.flatMap fun s => toLe 4 (s.len / 8)).length = 4 * segs.length := by
  rw [← sizeTable_bytes, length_sizeTable, List.length_map]

/-- The sizes are the same in 32 bits. -/
theorem headerLen32_eq {segnum : Nat} (h : headerSize segnum < 2 ^ 32) :
    headerLen32 segnum = headerLen segnum ∧ headerSize32 segnum = headerSize segnum := by
  have hl : headerLen32 segnum = headerLen segnum := by
    simp only [headerSize, headerLen] at h
    rw [headerLen32, headerLen, Nat.mod_eq_of_lt (by omega)]
  rw [headerSize32, hl]
  exact ⟨rfl, Nat.mod_eq_of_lt h⟩

/-- A table whose length is not cut short is rendered as it should be, within its place. -/
theorem renderTable_spec {d : Capn} (h1 : 1 ≤ d.segnum) (h32 : headerSize d.segnum < 2 ^ 32) (header : Int) (m : Mem) :
    ∃ m' l, renderTable d.segnum (headerLen32 d.segnum) d.segs header m = (0, m', l) ∧
      m'.read header (headerSize d.segnum) = headerRender d ∧
      (∀ a k, MemAccess.store a k ∈ l → header ≤ a ∧ a + k ≤ header + headerSize d.segnum) ∧
      ∀ x, x < header ∨ header + headerSize d.segnum ≤ x → m' x = m x := by
  have hn : d.segs.length = d.segnum := rfl
  have hlen : headerSize d.segnum = 4 * headerLen d.segnum := rfl
  have hl : d.segnum + 1 ≤ headerLen d.segnum ∧ headerLen d.segnum ≤ d.segnum + 2 := by
    simp only [headerLen]
    omega
  have hsp : (headerLen d.segnum + (2 ^ 32 - 1)) % 2 ^ 32 = headerLen d.segnum - 1 := by omega
  rw [renderTable, (headerLen32_eq h32).1, List.take_of_length_le (Nat.le_of_eq hn), if_pos hn, hsp]
  obtain ⟨l', e, hst⟩ := renderSizes_eq d.segs (header + 4)
    ((m.write header (toLe 4 (d.segnum - 1))).write (header + 4 * (headerLen d.segnum - 1 : Nat)) (toLe 4 0))
    [.store header 4, .store (header + 4 * (headerLen d.segnum - 1 : Nat)) 4]
  rw [e]
  have hs4 := length_sizes d.segs
  refine ⟨_, _, rfl, ?_, fun a k hm => ?_, fun x hx => ?_⟩
  · have hcnt := Mem.read_write_same m header (toLe 4 (d.segnum - 1))
    have hsz := Mem.read_write_same ((m.write header (toLe 4 (d.segnum - 1))).write
      (header + 4 * (headerLen d.segnum - 1 : Nat)) (toLe 4 0)) (header + 4) (d.segs.flatMap fun s => toLe 4 (s.len / 8))
    rw [hs4, hn] at hsz
    rw [length_toLe] at hcnt
    have h4 : header + ((4 : Nat) : Int) = header + 4 := rfl
    rw [headerRender]
    -- the spare position is behind the sizes, or under the last of them
    by_cases hodd : headerLen d.segnum - 1 = d.segnum
    · have hsize : headerSize d.segnum = 4 + 4 * d.segnum := by omega
      rw [if_pos hodd, List.append_nil, hsize, Mem.read_add, h4, hsz,
        Mem.read_write_disjoint (.inl (by omega)), Mem.read_write_disjoint (.inl (by omega)), hcnt]
    · have hsize : headerSize d.segnum = 4 + 4 * d.segnum + 4 := by omega
      have hsp4 : header + 4 * (headerLen d.segnum - 1 : Nat) = header + ((4 + 4 * d.segnum : Nat) : Int) := by omega
      have hz := Mem.read_write_same (m.write header (toLe 4 (d.segnum - 1)))
        (header + 4 * (headerLen d.segnum - 1 : Nat)) (toLe 4 0)
      rw [length_toLe, hsp4] at hz
      rw [if_neg hodd, hsize, Mem.read_add, Mem.read_add, h4, hsz]
      rw [Mem.read_write_disjoint (.inl (by omega)), Mem.read_write_disjoint (.inl (by omega)), hcnt,
        Mem.read_write_disjoint (.inr (by omega)), hsp4, hz]
  · rcases List.mem_append.mp hm with hm | hm
    · simp only [List.mem_cons, List.not_mem_nil, or_false, MemAccess.store.injEq] at hm
      omega
    · have := hst a k hm
      omega
  · rcases hx with hx | hx
    · rw [Mem.write_apply_of_lt (by omega), Mem.write_apply_of_lt (by omega), Mem.write_apply_of_lt hx]
    · rw [Mem.write_apply_of_ge (by omega), Mem.write_apply_of_ge (by rw [length_toLe]; omega),
        Mem.write_apply_of_ge (by rw [length_toLe]; omega)]

/-! ## The packer -/

section

variable {c : Capn} {m : Mem} {p : Int} {sz fuel : Nat}

/-- The packer at its start. -/
def packStart (c : Capn) (m : Mem) (p : Int) (sz : Nat) : InPlace where
  mem := m
  nextIn := tableAt c p
  availIn := headerSize32 (capnRoot c).1.segnum
  nextOut := p
  availOut := sz

theorem packStart_safe (c : Capn) (m : Mem) (p : Int) (sz : Nat) :
    (packStart c m p sz).Safe p (tableAt c p) (headerSize32 (capnRoot c).1.segnum) sz m where
  behind := ⟨by rw [tableAt], rfl, Int.le_refl _, Int.le_refl _, by simp [packStart]⟩
  swept := Swept.nil _
  loads a k hm := absurd hm List.not_mem_nil
  stores a k hm := absurd hm List.not_mem_nil
  room := rfl
  outside x _ := rfl

/-- **Wherever the packer gets to**, returning or not, each byte of the table was read before anything was stored over
it, and nothing was stored outside of the buffer. -/
theorem packing_safe {z : InPlace} (h : Loop.Path inPlaceStep (packStart c m p sz) z) :
    ReadFirst z.log (tableAt c p) ∧ (∀ a k, MemAccess.store a k ∈ z.log → p ≤ a ∧ a + k ≤ p + sz) ∧
      ∀ x, x < p ∨ p + sz ≤ x → z.mem x = m x := by
  have hs := path_safe (packStart_safe c m p sz) h
  exact ⟨hs.swept.first, hs.stores, hs.outside⟩

theorem capnRoot_segnum (h : c.segnum ≠ 0) : 1 ≤ (capnRoot c).1.segnum := by
  have hl : lookupSegment c 0 = some 0 := if_pos (Nat.pos_of_ne_zero h)
  rw [capnRoot, hl]
  by_cases h1 : (c.seg 0).cap < 8
  · simp only [if_pos h1]
    omega
  · by_cases h2 : (c.seg 0).len < 8
    · simp only [if_neg h1, if_pos h2, Capn.segnum_setSeg]
      omega
    · simp only [if_neg h1, if_neg h2]
      omega

theorem packTable_refused (h : RefusedRoom c sz) : packTable fuel c m p sz =
    some ⟨-1, [], { mem := m, nextIn := p, availIn := 0, nextOut := p, availOut := sz }⟩ := by
  rw [RefusedRoom] at h
  rw [packTable]
  by_cases h0 : c.segnum = 0
  · rw [if_pos h0]
  rw [if_neg h0]
  generalize capnRoot c = q at h
  obtain ⟨d, root⟩ := q
  have hroom := h.resolve_left h0
  by_cases h1 : sz < headerSize32 d.segnum ∨ sz - headerSize32 d.segnum < 2
  · exact if_pos h1
  · refine (if_neg h1).trans (if_pos ?_)
    simp only at hroom
    omega

/-- With room, the table is rendered. -/
theorem packTable_renders (h : ¬ RefusedRoom c sz) {ret : Int} {m' : Mem} {l : List MemAccess}
    (hr : renderTable (capnRoot c).1.segnum (headerLen32 (capnRoot c).1.segnum)
      (if (capnRoot c).2.seg = none then [] else (capnRoot c).1.segs) (tableAt c p) m = (ret, m', l)) :
    packTable fuel c m p sz =
      if ret ≠ 0 then some ⟨-1, l, { mem := m', nextIn := p, availIn := 0, nextOut := p, availOut := sz }⟩
      else (deflateInPlace fuel (packStart c m' p sz)).map
        fun (ret, s) => ⟨if ret ≠ 0 ∨ s.availIn ≠ 0 then -1 else 0, l, s⟩ := by
  rw [RefusedRoom, not_or] at h
  rw [packTable, if_neg h.1]
  simp only [packStart, tableAt] at hr ⊢
  generalize capnRoot c = q at h hr ⊢
  obtain ⟨d, root⟩ := q
  simp only at h hr ⊢
  rw [if_neg (by omega), if_neg (by omega), hr]

/-- `header_render` stores something before it fails. -/
theorem renderTable_stores {segnum headerlen : Nat} {segs : List Segment} {header ret : Int} {m' : Mem}
    {l : List MemAccess} (h : renderTable segnum headerlen segs header m = (ret, m', l)) : l ≠ [] := by
  rw [renderTable] at h
  obtain ⟨l', e, -⟩ := renderSizes_eq (segs.take segnum) (header + 4)
    ((m.write header (toLe 4 (segnum - 1))).write (header + 4 * ((headerlen + (2 ^ 32 - 1)) % 2 ^ 32 : Nat)) (toLe 4 0))
    [.store header 4, .store (header + 4 * ((headerlen + (2 ^ 32 - 1)) % 2 ^ 32 : Nat)) 4]
  rw [e] at h
  cases h
  exact List.cons_ne_nil _ _

/-- The packer's input is the table. -/
theorem packStart_stream {m' : Mem} (h : m'.read (tableAt c p) (headerSize (capnRoot c).1.segnum) = tableOf c)
    (h32 : headerSize (capnRoot c).1.segnum < 2 ^ 32) :
    (packStart c m' p sz).stream p = { nextIn := tableOf c, availOut := sz } := by
  rw [InPlace.stream, packStart, (headerLen32_eq h32).2, h]
  simp [Mem.read]

/-- A call with room, and a root, renders the table, and returns what the packer says. -/
theorem packTable_packs (h : ¬ RefusedRoom c sz) (hroot : (capnRoot c).2.seg ≠ none)
    (h32 : headerSize (capnRoot c).1.segnum < 2 ^ 32) (m : Mem) (p : Int) :
    ∃ m' l, l ≠ [] ∧ (∀ fuel, packTable fuel c m p sz = (deflateInPlace fuel (packStart c m' p sz)).map
        fun (ret, s) => ⟨if ret ≠ 0 ∨ s.availIn ≠ 0 then -1 else 0, l, s⟩) ∧
      (packStart c m' p sz).stream p = { nextIn := tableOf c, availOut := sz } ∧
      (∀ a k, MemAccess.store a k ∈ l → p ≤ a ∧ a + k ≤ p + sz) ∧ ∀ x, x < p ∨ p + sz ≤ x → m' x = m x := by
  have h0 := h
  rw [RefusedRoom, not_or] at h0
  have h1 := capnRoot_segnum h0.1
  have hlen : headerSize (capnRoot c).1.segnum = 4 * headerLen (capnRoot c).1.segnum := rfl
  obtain ⟨e1, e2⟩ := headerLen32_eq h32
  obtain ⟨m', l, hr, hread, hst, hout⟩ := renderTable_spec h1 h32 (tableAt c p) m
  have hp : tableAt c p = p + headerSize (capnRoot c).1.segnum + 2 := by rw [tableAt, e2]
  rw [e1, e2] at h0
  refine ⟨m', l, renderTable_stores hr, fun fuel => ?_, packStart_stream hread h32, fun a k hm => ?_, fun x hx => ?_⟩
  · have hsegs : (if (capnRoot c).2.seg = none then [] else (capnRoot c).1.segs) = (capnRoot c).1.segs := if_neg hroot
    rw [← hsegs] at hr
    rw [packTable_renders h hr, if_neg (by decide)]
  · have := hst a k hm
    omega
  · exact hout x (by omega)

/-- A header that is packed as it should be has a root before it and a length that is not cut short, and
the packer does not stall on it. -/
theorem HeaderPacked.only (h : HeaderPacked c m p sz) : RefusedRoom c sz ∨ (capnRoot c).2.seg ≠ none ∧
    headerSize (capnRoot c).1.segnum < 2 ^ 32 ∧ ¬ ({ nextIn := tableOf c, availOut := sz } : Stream).Stalls := by
  by_cases h0 : RefusedRoom c sz
  · exact .inl h0
  obtain ⟨fuel, r, e, hr⟩ := h
  obtain ⟨ret, m', l, hq⟩ : ∃ ret m' l, renderTable (capnRoot c).1.segnum (headerLen32 (capnRoot c).1.segnum)
    (if (capnRoot c).2.seg = none then [] else (capnRoot c).1.segs) (tableAt c p) m = (ret, m', l) := ⟨_, _, _, rfl⟩
  have hl := renderTable_stores hq
  rw [packTable_renders h0 hq] at e
  by_cases hret : ret ≠ 0
  · -- the segments were not found
    rw [if_pos hret] at e
    cases e
    rcases hr with ⟨-, hl', -⟩ | hr
    · exact absurd hl' hl
    · exact absurd hr.ret (show ¬ (-1 : Int) = 0 by decide)
  rw [if_neg hret] at e
  obtain ⟨⟨ret', s⟩, hd, e⟩ := Option.map_eq_some_iff.mp e
  cases e
  rcases hr with ⟨-, hl', -⟩ | hr
  · exact absurd hl' hl
  obtain ⟨hdef, hsafe⟩ := deflateInPlace_eq (packStart_safe c m' p sz) fuel
  have hs := hsafe _ hd
  have h1 : 1 ≤ (capnRoot c).1.segnum := capnRoot_segnum fun e => h0 (.inl e)
  have hsize := length_headerRender (capnRoot c).1
  have hroot : (capnRoot c).2.seg ≠ none := by
    intro hn
    rw [if_pos hn, renderTable, if_neg (by rw [List.length_nil]; omega)] at hq
    cases hq
    exact hret (by decide)
  -- the last byte of the table was read
  have h32 : headerSize (capnRoot c).1.segnum < 2 ^ 32 := by
    have hlt : headerSize32 (capnRoot c).1.segnum < 2 ^ 32 := Nat.mod_lt _ (by decide)
    by_contra hge
    obtain ⟨a, k, hm, ha, hk⟩ := hr.whole (headerSize (capnRoot c).1.segnum - 1) (by rw [tableOf, hsize]; omega)
    have := hs.loads a k hm
    omega
  refine .inr ⟨hroot, h32, fun hst => ?_⟩
  rw [if_neg hroot] at hq
  obtain ⟨m₁, l₁, hq', hread, -⟩ := renderTable_spec h1 h32 (tableAt c p) m
  cases hq.symm.trans hq'
  have hret' : ret' = 0 := by
    by_contra hne
    have : (if ret' ≠ 0 ∨ s.availIn ≠ 0 then (-1 : Int) else 0) = 0 := hr.ret
    rw [if_pos (.inl hne)] at this
    exact absurd this (by decide)
  rw [packStart_stream hread h32, hd, hret'] at hdef
  exact ((deflates_zero rfl).mp ⟨fuel, hdef⟩).2.2.1 hst

/-- Elsewhere it is packed as it should be. -/
theorem headerPacked_of (h : RefusedRoom c sz ∨ (capnRoot c).2.seg ≠ none ∧
    headerSize (capnRoot c).1.segnum < 2 ^ 32 ∧ ¬ ({ nextIn := tableOf c, availOut := sz } : Stream).Stalls) :
    HeaderPacked c m p sz := by
  by_cases h0 : RefusedRoom c sz
  · exact ⟨0, _, packTable_refused h0, .inl ⟨rfl, rfl, rfl, rfl⟩⟩
  obtain ⟨hroot, h32, hst⟩ := h.resolve_left h0
  obtain ⟨m', l, -, hpack, hstream, hstores, hout⟩ := packTable_packs h0 hroot h32 m p
  rw [RefusedRoom, not_or] at h0
  have hlen : headerSize (capnRoot c).1.segnum = 4 * headerLen (capnRoot c).1.segnum := rfl
  obtain ⟨e1, e2⟩ := headerLen32_eq h32
  rw [e1, e2] at h0
  have hsize : (tableOf c).length = headerSize (capnRoot c).1.segnum := length_headerRender (capnRoot c).1
  have hle := packed_length_le (tableOf c)
  have hroom : (packed (tableOf c)).length ≤ sz := by omega
  have h8 : (tableOf c).length % 8 = 0 := by
    rw [hsize, headerSize, headerLen]
    omega
  obtain ⟨fuel, hd⟩ := @deflate_ok { nextIn := tableOf c, availOut := sz } rfl h8 hroom hst
  obtain ⟨hdef, hsafe⟩ := deflateInPlace_eq (packStart_safe c m' p sz) fuel
  rw [hstream, hd] at hdef
  obtain ⟨⟨ret, s⟩, he, e⟩ := Option.map_eq_some_iff.mp hdef.symm
  rw [Prod.mk.injEq] at e
  obtain ⟨rfl, e⟩ := e
  have hs : s.Safe p (tableAt c p) (headerSize32 (capnRoot c).1.segnum) sz m' := hsafe _ he
  have hin : s.availIn = 0 := by
    have := congrArg (fun z => z.nextIn.length) e
    rwa [s.stream_length p] at this
  have havail : s.availOut = sz - (packed (tableOf c)).length := congrArg Stream.availOut e
  have hnext : s.nextOut = p + (packed (tableOf c)).length := by
    have := hs.room
    omega
  refine ⟨fuel, ⟨0, l, s⟩, ?_, .inr ⟨rfl, fun i hi => ?_, hs.swept.first, fun a k hm => ?_, fun x hx => ?_, ?_, hnext⟩⟩
  · rw [hpack, he, Option.map_some]
    simp only [hin, ne_eq, not_true_eq_false, or_self, if_false]
  · have hinput := hs.behind.input
    rw [e2] at hinput
    exact hs.swept.loads _ (by omega) (by omega)
  · rcases List.mem_append.mp hm with hm | hm
    · exact hstores a k hm
    · exact hs.stores a k hm
  · rw [hs.outside x hx, hout x hx]
  · have hn : (s.nextOut - p).toNat = (packed (tableOf c)).length := by omega
    have := congrArg Stream.out e
    rw [InPlace.stream, hn] at this
    exact this

/-- **The table is packed as it should be**, or the call fails before it stores anything, exactly if there is too
little room for the table behind its packed form, or there is a root, the length of the table is below 2³², and
the packer does not come to a raw copy with a multiple of 2³² bytes of room left. -/
theorem headerPacked_iff : HeaderPacked c m p sz ↔ RefusedRoom c sz ∨ (capnRoot c).2.seg ≠ none ∧
    headerSize (capnRoot c).1.segnum < 2 ^ 32 ∧ ¬ ({ nextIn := tableOf c, availOut := sz } : Stream).Stalls :=
  ⟨HeaderPacked.only, headerPacked_of⟩

/-- Five segments, each of 0x01010101 words. -/
def fiveSegments : Capn := { segs := List.replicate 5 { data := Mem.zero, len := 0x08080808, cap := 0x08080808 } }

/-- With 2³² + 16 bytes of room, the packer stalls on the third word of the table. -/
theorem headerPacked_fails : ¬ HeaderPacked fiveSegments Mem.zero 0 (2 ^ 32 + 16) := by
  intro h
  have hroot : (capnRoot fiveSegments).1.segnum = 5 := rfl
  have htable : tableOf fiveSegments = [4, 0, 0, 0] ++ List.replicate 20 1 := by decide
  rcases h.only with h | ⟨-, -, h⟩
  · rw [RefusedRoom, hroot] at h
    exact absurd h (by decide)
  · have hp : packPlace (tableOf fiveSegments) = some (6, 0, List.replicate 16 1) := by
      rw [htable]
      decide
    have hp' : packPlace (List.replicate 16 1) = some (10, 8, List.replicate 8 1) := by decide
    have hraw : AtRaw packPlace 0 (tableOf fiveSegments) (6 + 10) 8 :=
      (atRaw_zero hp).mpr ⟨10, rfl, (atRaw_zero hp').mpr ⟨0, rfl, .here (by decide) (by decide)⟩⟩
    exact h ⟨16, 8, hraw, by decide, .inr (by decide)⟩

end

end Capnproto

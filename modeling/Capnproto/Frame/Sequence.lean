import Capnproto.Frame.Reencode
import Capnproto.Frame.Truncate

/-!
# One message after another

Unpacked messages are read one after another from a file or a callback, each call
taking its message and no byte more. A packed reader takes what it is given: of
two packed messages, the first call may take bytes of the second, and they are
lost with its buffer (`inOrder_iff`).
-/

namespace Capnproto

/-- A session that library calls gave: built by calls, or read from a message. -/
def Obtained (c : Capn) : Prop :=
  Built c ∨ ∃ calloc p packed r, CallocOk calloc ∧ InitsMem calloc p packed r ∧ r.ret = 0 ∧ r.capn = c

/-- `capn_write_mem` writes `bytes` of a session. -/
def Encodes (c : Capn) (packed : Bool) (bytes : List UInt8) : Prop :=
  ∃ sz w, WritesMem c sz packed w ∧ 0 ≤ w.ret ∧ w.bytes = bytes

section

variable {τ : Type} (k : Source τ) (content : τ → List UInt8) (file : Bool) (calloc : Nat → Option Nat) (packed : Bool)

/-- One call for each of the messages returns 0, and gives its session; it stores
nothing past the end of a buffer, and takes the bytes of the message from the source. -/
def ReadsInOrder : List (Capn × List UInt8) → τ → Prop
  | [], _ => True
  | m :: ms, t => ∃ f, InitsFrom k file calloc t packed f ∧ f.1.Safe ∧ f.1.ret = 0 ∧
      f.1.capn.segs.map Segment.bytes = m.1.segs.map Segment.bytes ∧ content t = m.2 ++ content f.2 ∧
      ReadsInOrder ms f.2

end

/-- Messages one after another are read in order, from a file and from a callback,
in whatever pieces their bytes are delivered. -/
def InOrder (calloc : Nat → Option Nat) (ms : List (Capn × List UInt8)) (packed : Bool) : Prop :=
  ∀ (file : Bool) (τ : Type) (k : Source τ) (content : τ → List UInt8), k.Delivers content →
    ∀ t, content t = (ms.map Prod.snd).flatten → ReadsInOrder k content file calloc packed ms t

/-! ## Messages -/

/-- What is written of a session with a root. -/
structure Message (c : Capn) (packed : Bool) (bytes : List UInt8) : Prop where
  image : bytes = image c packed
  first : ∃ s ss, c.segs = s :: ss ∧ 8 ≤ s.len
  words : ∀ s ∈ c.segs, 8 ∣ s.len
  size : ∀ s ∈ c.segs, s.len / 8 ≤ INT_MAX / 8

/-- A session that was made is as it is written, and has a first segment of a word or more. -/
theorem Obtained.message {c : Capn} {packed : Bool} {bytes : List UInt8} (hc : Obtained c) (h : Encodes c packed bytes) :
    Message c packed bytes := by
  obtain ⟨sz, w, hw, hret, rfl⟩ := h
  obtain ⟨⟨h0, hs⟩, -, e⟩ := writesMem_iff.mp ⟨hw, hret⟩
  rw [e]
  obtain ⟨s, ss, hsegs⟩ := List.exists_cons_of_length_pos (Nat.pos_of_ne_zero h0)
  have hmem : s ∈ c.segs := by rw [hsegs]; exact List.mem_cons_self
  rcases hc with hb | ⟨calloc, p, pk, r, hcalloc, hr, hr0, rfl⟩
  · have hfit := built_fit hb
    rw [(hfit.root (Nat.pos_of_ne_zero h0)).1]
    refine ⟨rfl, ⟨s, ss, hsegs, (hfit.seg_mem hmem).pos⟩, fun s hs => (hfit.seg_mem hs).words, fun s hs => ?_⟩
    obtain ⟨-, -, hcap, hmax⟩ := hfit.seg_mem hs
    simp only [maxSegment, INT_MAX] at hmax ⊢
    omega
  · have hload := hr.loaded hcalloc hr0
    have hframe := initMem_framable hcalloc hr hr0
    have hroot := capnRoot_loaded hload
    have hcap : 8 ≤ s.len := by
      by_contra hlt
      have h0' : (r.capn.seg 0).cap < 8 := by
        rw [hload.cap, Capn.seg, hsegs]
        exact Nat.not_le.mp hlt
      rw [hroot, if_pos h0'] at hs
      exact hs rfl
    rw [hroot]
    refine ⟨rfl, ⟨s, ss, hsegs, hcap⟩, fun s hs => ?_, fun s hs => ?_⟩
    · have := hframe.words s.bytes (List.mem_map_of_mem hs)
      rwa [length_bytes] at this
    · have := hframe.size s.bytes (List.mem_map_of_mem hs)
      rwa [length_bytes] at this

section

variable {c : Capn} {packed : Bool} {bytes : List UInt8}

/-- What is written stands for a frame. -/
theorem Message.begins (h : Message c packed bytes) : ∃ pad,
    (sizeTable (c.segs.map Segment.bytes) ++ pad).length = tableSize (c.segs.map Segment.bytes).length ∧
      unpacked bytes packed = frame (c.segs.map Segment.bytes) pad := by
  rw [h.image]
  exact unpacked_image h.words packed

theorem Message.ne_nil (h : Message c packed bytes) : c.segs.map Segment.bytes ≠ [] := by
  obtain ⟨s, ss, hs, -⟩ := h.first
  rw [hs]
  exact List.cons_ne_nil _ _

/-- There is something to read of it. -/
theorem Message.pos (h : Message c packed bytes) : 0 < bytes.length := by
  obtain ⟨pad, ht, hu⟩ := h.begins
  refine List.length_pos_iff.mpr fun e => ?_
  have hl := length_frame ht
  rw [← hu, e] at hl
  have h0 : unpacked [] packed = [] := by
    cases packed with
    | true => exact Packing.unpack_nil
    | false => rfl
  rw [h0, List.length_nil] at hl
  omega

/-- The reader takes it. -/
theorem Message.framable (h : Message c packed bytes) (hmax : c.segnum ≤ 1023) (ht : dataSizeOf c < 2 ^ 32) :
    Framable (c.segs.map Segment.bytes) where
  ne_nil := h.ne_nil
  count := by
    rw [List.length_map, ← Capn.segnum]
    simp only [CAPN_MAX_SEGS]
    omega
  words := by
    intro b hb
    obtain ⟨s, hs, rfl⟩ := List.mem_map.mp hb
    rw [length_bytes]
    exact h.words s hs
  size := by
    intro b hb
    obtain ⟨s, hs, rfl⟩ := List.mem_map.mp hb
    rw [length_bytes]
    exact h.size s hs
  total := by rwa [flatten_bytes, length_flatMap_bytes]

end

/-- The count of a frame. -/
theorem count_frame {segs : List (List UInt8)} (hne : segs ≠ []) (hcount : segs.length ≤ 2 ^ 32)
    (pad tail : List UInt8) : le ((frame segs pad ++ tail).take 4) + 1 = segs.length := by
  have hpos := List.length_pos_iff.mpr hne
  rw [frame, List.append_assoc, List.append_assoc, List.take_left' (length_toLe 4 _), le_toLe,
    Nat.mod_eq_of_lt (by omega)]
  omega

/-- A frame of more than empty segments does not begin with an empty table. -/
theorem not_emptyTable_frame {s : List UInt8} {ss : List (List UInt8)} (hf : Framable (s :: ss)) (h8 : 8 ≤ s.length)
    (pad tail : List UInt8) : ¬ EmptyTable (frame (s :: ss) pad ++ tail) := by
  rintro ⟨-, -, -, hz⟩
  have hfirst := first_size hf pad tail
  have hmem : le (((frame (s :: ss) pad ++ tail).drop 4).take 4) ∈
      tableWords (le ((frame (s :: ss) pad ++ tail).take 4) + 1) (((frame (s :: ss) pad ++ tail).drop 4).take
        (tableSize (le ((frame (s :: ss) pad ++ tail).take 4) + 1))) := by
    rw [tableWords_succ, List.take_take, Nat.min_eq_left (by simp only [tableSize]; omega)]
    exact List.mem_cons_self
  have h0 := hz _ hmem
  rw [hfirst] at h0
  omega

/-- A frame that is not of 1024 segments keeps to the table. -/
theorem not_overflows_frame {segs : List (List UInt8)} (hne : segs ≠ []) (hcount : segs.length ≤ 1023)
    (packed : Bool) (pad tail : List UInt8) : ¬ TableOverflows packed (frame segs pad ++ tail) := by
  rintro ⟨hn, -⟩
  have h := count_frame hne (by omega) pad tail
  rw [hn] at h
  simp only [CAPN_MAX_SEGS] at h
  omega

/-! ## Reading a message -/

/-- A packed image read to its end is read whole. -/
theorem Ahead.read_all {τ : Type} {content : τ → List UInt8} {J : τ → Prop} {c : Capn} {s : Stream × τ}
    (h : Ahead content J (image c true) s []) : content s.2 = [] := by
  obtain ⟨q, m, hp, hle, -, hu⟩ := h.gives
  by_contra hne
  have hpos := List.length_pos_iff.mpr hne
  have hl := congrArg List.length hp
  rw [List.length_append] at hl
  -- the bytes that were read stand for all the frame, but they are a strict prefix
  have hq : q = (image c true).take q.length := by rw [hp, List.take_left]
  have hlt := (@unpacked_take c true q.length (by omega)).2
  rw [← hq] at hlt
  have hm := hle []
  rw [List.append_nil] at hm
  have hge := List.drop_eq_nil_iff.mp hu.symm
  exact absurd (Nat.lt_of_lt_of_le hlt hge) (Nat.not_lt.mpr hm)

/-- **One message is read**, and what is behind it is left; if it is packed, there
has to be nothing behind it. -/
theorem Message.read {c : Capn} {packed : Bool} {bytes rest : List UInt8} (h : Message c packed bytes)
    (hmax : c.segnum ≤ 1023) (ht : dataSizeOf c < 2 ^ 32) {calloc : Nat → Option Nat} (hcalloc : CallocOk calloc)
    {τ : Type} {k : Source τ} {content : τ → List UInt8} (hk : k.Delivers content) {t : τ}
    (hc : content t = bytes ++ rest) (hlast : packed = true → rest = []) (file : Bool) :
    ∃ f, InitsFrom k file calloc t packed f ∧ f.1.Safe ∧ f.1.ret = 0 ∧
      f.1.capn.segs.map Segment.bytes = c.segs.map Segment.bytes ∧ content f.2 = rest := by
  obtain ⟨r, z, t', u', hf, hl, hleft, -⟩ := @initsFrom_spec _ _ _ (fun _ => True) hk file
    ⟨fun _ _ => trivial, fun _ _ _ _ _ => trivial⟩ t trivial calloc packed
  obtain ⟨pad, hp, hu⟩ := h.begins
  have hframe := h.framable hmax ht
  have hcount : (c.segs.map Segment.bytes).length ≤ 1023 := by rwa [List.length_map]
  have hbytes : unpacked (content t) packed = frame (c.segs.map Segment.bytes) pad ++ rest := by
    rw [hc, ← hu]
    cases packed with
    | true => rw [hlast rfl, List.append_nil, List.append_nil]
    | false => rfl
  have hempty : ¬ EmptyTable (unpacked (content t) packed) := by
    obtain ⟨s, ss, hs, h8⟩ := h.first
    rw [hbytes, hs]
    rw [hs] at hframe
    exact not_emptyTable_frame hframe (by rwa [length_bytes]) pad rest
  rw [initFpLeft_item hempty] at hl
  have hsafe : r.Safe := by
    refine (@Init.safe_iff _ _ hcalloc true _ (by rw [← initFpLeft_fst, hl]; rfl)).mpr ?_
    rw [hbytes]
    exact not_overflows_frame h.ne_nil hcount true pad rest
  obtain ⟨stores, hfr⟩ := @initFpLeft_frame _ true _ _ rest hcalloc hframe hp
  rw [hbytes] at hl
  cases hl.symm.trans hfr
  refine ⟨(_, t'), hf, hsafe, rfl, map_bytes_carve_flatten _, ?_⟩
  have hleft := hleft rfl
  cases packed with
  | false => exact hleft
  | true =>
    have he := hlast rfl
    subst he
    rw [List.append_nil, h.image] at hc
    rw [hc] at hleft
    exact Ahead.read_all hleft

/-- What is read with status 0, and no store past a buffer, is of fewer than 1024
segments and 2³² bytes. -/
theorem readable {c : Capn} {packed : Bool} {calloc : Nat → Option Nat} (hcalloc : CallocOk calloc) {τ : Type}
    {k : Source τ} {content : τ → List UInt8} (hk : k.Delivers content) {t : τ} {f : Init × τ}
    (hf : InitsFrom k false calloc t packed f) (hs : f.1.Safe) (h0 : f.1.ret = 0)
    (hsegs : f.1.capn.segs.map Segment.bytes = c.segs.map Segment.bytes) :
    c.segnum ≤ 1023 ∧ dataSizeOf c < 2 ^ 32 := by
  obtain ⟨f', -, hl, huniq⟩ := @initsFrom_list calloc _ _ _ hk t false packed
  cases huniq f hf
  rw [Bool.false_and, readItem_false] at hl
  obtain ⟨segs, hframe, ⟨pad, tail, ht, hu⟩, hc⟩ := initFp_accepts hcalloc hl h0
  have hbytes : c.segs.map Segment.bytes = segs := by rw [← hsegs, hc, map_bytes_carve_flatten]
  have hnum : c.segnum = segs.length := by rw [← hbytes, List.length_map, Capn.segnum]
  have hcount := hframe.count
  refine ⟨?_, ?_⟩
  · by_contra hgt
    have hn : segs.length = 1024 := by
      simp only [CAPN_MAX_SEGS] at hcount
      omega
    refine (Init.safe_iff hcalloc hl).mp hs ⟨?_, ?_⟩
    · have hle := count_frame hframe.ne_nil (by omega) pad tail
      rw [hu]
      simp only [CAPN_MAX_SEGS]
      omega
    · have hlen := length_frame ht
      rw [hn] at hlen
      have h1024 : tableSize 1024 = 4100 := rfl
      rw [hu, if_pos rfl, List.length_drop, List.length_append]
      simp only [CAPN_MAX_SEGS]
      omega
  · have htotal := hframe.total
    rwa [← hbytes, flatten_bytes, length_flatMap_bytes] at htotal

/-! ## Packed messages -/

/-- A source that gives one byte at a time, but two where `b` bytes would be left
after the first: it never stops there. -/
def Source.skip (b : Nat) : Source (List UInt8) where
  read t n := (t.drop (min n (if t.length = b + 1 then 2 else 1)), .got (t.take (min n (if t.length = b + 1 then 2 else 1))))

theorem Source.skip_delivers (b : Nat) : (Source.skip b).Delivers id := by
  intro t n hn
  refine ⟨_, _, rfl, ?_, (List.take_append_drop _ t).symm, fun h => ?_⟩
  · rw [List.length_take]
    omega
  · have h0 := congrArg List.length h
    rw [List.length_take, List.length_nil] at h0
    refine List.length_eq_zero_iff.mp (show t.length = 0 from ?_)
    split at h0 <;> omega

theorem Source.skip_keeps {b : Nat} (hb : 0 < b) : (Source.skip b).Keeps false fun t => t.length ≠ b where
  ofFile := nofun
  ofFd _ t n ht hn := by
    show (t.drop _).length ≠ b
    rw [List.length_drop]
    split <;> omega

/-- **Of two packed messages the second is not found** by a reader whose source
does not stop between them. -/
theorem not_inOrder_packed {calloc : Nat → Option Nat} {m m' : Capn × List UInt8} {ms : List (Capn × List UInt8)}
    (hm : 0 < m.2.length) (hm' : 0 < m'.2.length) : ¬ InOrder calloc (m :: m' :: ms) true := by
  intro h
  generalize hrest : ((m' :: ms).map Prod.snd).flatten = rest
  have hpos : 0 < rest.length := by
    rw [← hrest, List.map_cons, List.flatten_cons, List.length_append]
    omega
  have hall : ((m :: m' :: ms).map Prod.snd).flatten = m.2 ++ rest := by
    rw [List.map_cons, List.flatten_cons, hrest]
  obtain ⟨f, hf, -, h0, -, hc, -⟩ := h false _ _ _ (Source.skip_delivers rest.length) (m.2 ++ rest) hall.symm
  have hstart : (m.2 ++ rest).length ≠ rest.length := by
    rw [List.length_append]
    omega
  obtain ⟨r, z, t', u', -, -, hleft, huniq⟩ := initsFrom_spec (Source.skip_delivers rest.length)
    (Source.skip_keeps hpos) hstart calloc true
  cases huniq f hf
  have hl : t'.length ≠ rest.length := (hleft h0).keeps
  have hlen := congrArg List.length hc
  simp only [id, List.length_append] at hlen
  omega

/-! ## The messages in order -/

/-- **Messages are read in order**, exactly if every one has at most 1023 segments
and less than 2³² bytes, and, if they are packed, there is only one. -/
theorem inOrder_iff {calloc : Nat → Option Nat} {ms : List (Capn × List UInt8)} {packed : Bool}
    (hcalloc : CallocOk calloc) (hms : ∀ m ∈ ms, Obtained m.1 ∧ Encodes m.1 packed m.2) :
    InOrder calloc ms packed ↔
      (∀ m ∈ ms, m.1.segnum ≤ 1023 ∧ dataSizeOf m.1 < 2 ^ 32) ∧ (packed = true → ms.length ≤ 1) := by
  have hmsg : ∀ m ∈ ms, Message m.1 packed m.2 := fun m hm => (hms m hm).1.message (hms m hm).2
  constructor
  · intro h
    refine ⟨?_, ?_⟩
    · have hrun := h false _ _ _ Source.all_delivers _ rfl
      generalize (ms.map Prod.snd).flatten = t at hrun
      clear h hms hmsg
      induction ms generalizing t with
      | nil => simp
      | cons m ms ih =>
        obtain ⟨f, hf, hs, h0, hsegs, -, hrest⟩ := hrun
        exact List.forall_mem_cons.mpr ⟨readable hcalloc Source.all_delivers hf hs h0 hsegs, ih f.2 hrest⟩
    · rintro rfl
      match ms, h, hmsg with
      | [], _, _ => exact Nat.zero_le 1
      | [_], _, _ => exact Nat.le_refl 1
      | m :: m' :: ms, h, hmsg =>
        exact absurd h (not_inOrder_packed (hmsg m (by simp)).pos (hmsg m' (by simp)).pos)
  · rintro ⟨hfit, hone⟩ file τ k content hk t ht
    clear hms
    induction ms generalizing t with
    | nil => trivial
    | cons m ms ih =>
      rw [List.forall_mem_cons] at hmsg hfit
      rw [List.map_cons, List.flatten_cons] at ht
      have hlast : packed = true → (ms.map Prod.snd).flatten = [] := by
        intro hp
        have h1 := hone hp
        rw [List.length_cons] at h1
        rw [List.length_eq_zero_iff.mp (show ms.length = 0 by omega)]
        rfl
      obtain ⟨f, hf, hs, h0, hsegs, hrest⟩ := hmsg.1.read hfit.1.1 hfit.1.2 hcalloc hk ht hlast file
      refine ⟨f, hf, hs, h0, hsegs, by rw [ht, hrest], ih hmsg.2 hfit.2 (fun hp => ?_) f.2 hrest⟩
      have h1 := hone hp
      rw [List.length_cons] at h1
      omega

/-- Twice the empty root, unpacked. -/
theorem inOrder_iff_root : ∃ bytes, Encodes rootSession false bytes ∧
    (InOrder some [(rootSession, bytes), (rootSession, bytes)] false ↔
      (∀ m ∈ [(rootSession, bytes), (rootSession, bytes)], m.1.segnum ≤ 1023 ∧ dataSizeOf m.1 < 2 ^ 32) ∧
        (false = true → [(rootSession, bytes), (rootSession, bytes)].length ≤ 1)) := by
  have he : Encodes rootSession false (writeMemPlain rootSession 16).bytes :=
    ⟨16, _, ⟨0, rfl⟩, by decide, rfl⟩
  have hm : Obtained rootSession ∧ Encodes rootSession false (writeMemPlain rootSession 16).bytes :=
    ⟨.inl built_init.root, he⟩
  refine ⟨_, he, inOrder_iff (fun n => ⟨n, rfl, Nat.le_refl n⟩) fun m h => ?_⟩
  rcases List.mem_cons.mp h with rfl | h
  · exact hm
  · rw [List.mem_singleton.mp h]
    exact hm

/-- Twice the empty root, packed. -/
theorem inOrder_fails : Built rootSession ∧ Encodes rootSession true [0x10, 1, 0, 0] ∧
    ¬ InOrder some [(rootSession, [0x10, 1, 0, 0]), (rootSession, [0x10, 1, 0, 0])] true :=
  ⟨built_init.root, ⟨64, _, ⟨20, rfl⟩, by decide, by decide⟩, not_inOrder_packed (by decide) (by decide)⟩

end Capnproto

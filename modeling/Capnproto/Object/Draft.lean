import Capnproto.Object.Errors
import Capnproto.Object.Picture
import Capnproto.Object.Text

/-!
# Building messages

A message under construction is a store of objects (`Draft`): its session holds what the constructors made, what the
setters stored into it and what `capn_setp` pointed at, whichever calls are made in whichever order, refused ones among
them (`Draft.holds_run`). Who builds it never sees tags, landing pads or segments.
-/

namespace Capnproto

/-! ## Constructors -/

/-- The object that `new_clone` would be asked to copy for the call. -/
def NewCall.like : NewCall → Ptr
  | .struct datasz ptrs => { type := .STRUCT, datasz := datasz, ptrs := ptrs }
  | .structList sz datasz ptrs =>
    { type := .LIST, isCompositeList := true, datasz := (datasz + 7) / 8 * 8, ptrs := ptrs, len := sz }
  | .list sz datasz ptrs =>
    if ptrs ≠ 0 ∨ 8 < datasz then
      { type := .LIST, isCompositeList := true, datasz := (datasz + 7) / 8 * 8, ptrs := ptrs, len := sz }
    else { type := .LIST, datasz := if 4 < datasz then 8 else if 2 < datasz then 4 else datasz, len := sz }
  | .list1 sz => { type := .BIT_LIST, len := sz }
  | .ptrList sz => { type := .PTR_LIST, len := sz }
  | .string str => { type := .LIST, datasz := 1, len := (str.length + 1 : Nat) }

/-- The session, with the bytes stored where the pointer is. -/
def Capn.fill (c : Capn) (p : Ptr) (bs : List UInt8) : Capn :=
  match p.data with
  | some a => if bs = [] then c else c.write a bs
  | none => c

section

variable {c c' : Capn} {hs : List Ptr} {m : Objects} {s : Nat}

theorem Capn.fill_nil (c : Capn) (p : Ptr) : c.fill p [] = c := by
  rw [Capn.fill]
  split <;> rfl

theorem newStructList_words (sz datasz ptrs : Nat) :
    capnNewStructList c (some s) sz ((datasz + 7) / 8 * 8) ptrs = capnNewStructList c (some s) sz datasz ptrs := by
  simp only [capnNewStructList, show ((datasz + 7) / 8 * 8 + 7) / 8 * 8 = (datasz + 7) / 8 * 8 by omega]

theorem newClone_list (sz datasz ptrs : Nat) :
    newClone c s (NewCall.list sz datasz ptrs).like = capnNewList c (some s) sz datasz ptrs := by
  by_cases hc : ptrs ≠ 0 ∨ 8 < datasz
  · simp only [NewCall.like, if_pos hc, newClone, if_true, Int.toNat_natCast, newStructList_words, capnNewList]
  · obtain ⟨rfl, h8⟩ : ptrs = 0 ∧ ¬ 8 < datasz := by omega
    simp only [NewCall.like, if_neg hc, newClone, Int.toNat_natCast, Bool.false_eq_true, if_false, capnNewList]
    by_cases h4 : 4 < datasz
    · simp [h4]
    · by_cases h2 : 2 < datasz <;> simp [h2, h4, h8]

/-- The constructors make what `new_clone` makes; a string is stored into it. -/
theorem NewCall.run_like (call : NewCall) : call.run c (some s) =
    ((newClone c s call.like).1.fill (newClone c s call.like).2 call.content, (newClone c s call.like).2) := by
  cases call with
  | struct => simp only [content, Capn.fill_nil]; rfl
  | structList sz datasz ptrs =>
    simp only [content, Capn.fill_nil]
    exact (newStructList_words sz datasz ptrs).symm
  | list sz datasz ptrs =>
    simp only [content, Capn.fill_nil]
    exact (newClone_list sz datasz ptrs).symm
  | list1 => simp only [content, Capn.fill_nil]; rfl
  | ptrList => simp only [content, Capn.fill_nil]; rfl
  | string str =>
    have h : newClone c s (NewCall.string str).like =
        newObject c { type := .LIST, seg := some s, len := (str.length + 1 : Nat), datasz := 1 } (str.length + 1) := by
      simp [newClone, like, capnNewList]
    rw [h]
    simp only [run, capnNewString, content, Capn.fill]
    split
    · rename_i hn
      simp only [hn]
    · rename_i a ha
      simp only [ha, List.append_eq_nil_iff, List.cons_ne_nil, and_false, if_false]

/-- What `new_clone` makes is one more object, of zero bytes. -/
theorem Pictures.clone {f : Ptr} {o : Int} {k : Nat} (h : Pictures c hs m) (hcl : Cleaner c (newClone c s f).1)
    (hclone : Clone c f (newClone c s f).1 (newClone c s f).2 k o) :
    Pictures (newClone c s f).1 (hs ++ [(newClone c s f).2]) (m.make fun _ => 0) := by
  have hst := hclone.stands
  have hin := hst.inside
  have hzero : ∀ x : Int, 0 ≤ x → x < (newClone c s f).2.extent → (newClone c s f).1.byte ⟨k, o + x⟩ = 0 := fun x h0 h1 =>
    hclone.zero (o + x) (by omega) (by omega)
  refine h.make hcl (keeps_clone c s f) hst hclone.fresh (fun x hx => ?_) fun x hx => ?_
  · obtain ⟨h0, h1⟩ := DataAt.inside hx hst.shape.bits
    exact hzero x h0 h1
  · obtain ⟨h0, h1⟩ := SlotAt.inside hx
    refine load64_blank fun y hy => ?_
    obtain ⟨-, h2, h3⟩ := hy
    have h2 : o + x ≤ y := h2
    have h3 : y < o + x + 8 := h3
    have := hzero (y - o) (by omega) (by omega)
    rwa [show o + (y - o) = y by omega] at this

/-- A string fits into its list. -/
theorem NewCall.content_dataAt {call : NewCall} (hne : call.content ≠ []) {x : Int} (h0 : 0 ≤ x)
    (h1 : x < call.content.length) : call.like.cloned.DataAt x := by
  cases call with
  | string str =>
    simp only [content, List.length_append, List.length_singleton] at h1
    exact ⟨x.toNat, 0, by show (x.toNat : Int) < (str.length + 1 : Nat); omega, Nat.one_pos, by
      show x = x.toNat * ((1 : Nat) + 8 * (0 : Nat)) + (0 : Nat)
      omega⟩
  | _ => exact absurd rfl hne

/-- **A constructor** makes one more object, with what it stores into it. -/
theorem Pictures.new {call : NewCall} (h : Pictures c hs m) (hlt : s < c.segs.length) (hf : call.like.Sane)
    (hnew : (call.run c (some s)).2 ≠ {}) :
    Pictures (call.run c (some s)).1 (hs ++ [(call.run c (some s)).2])
      ((m.make fun _ => 0).put m.count 0 call.content) := by
  rw [call.run_like] at hnew ⊢
  obtain ⟨hcl, hq⟩ := newClone_clones h.clean hlt hf
  obtain ⟨k, o, hclone⟩ := hq.resolve_left hnew
  have hpic := h.clone hcl hclone
  by_cases hne : call.content = []
  · rw [hne, Capn.fill_nil, Objects.put_nil]
    exact hpic
  · have hst := hclone.stands
    simp only [Capn.fill, hst.data, if_neg hne]
    have hput := hpic.put (k := m.count) (x := 0) (p := (newClone c s call.like).2) ?_ hst.data hne ?_
    · rwa [show Addr.add ⟨k, o⟩ 0 = ⟨k, o⟩ from congrArg (Addr.mk k) (Int.add_zero o)] at hput
    · rw [← h.count, List.getElem?_concat_length]
    · intro y h0 h1
      refine (dataAt_congr ?_ y).mpr (NewCall.content_dataAt hne h0 (by omega))
      rw [hclone.fields]
      exact ⟨rfl, rfl, rfl, rfl⟩

/-- What is in use stays, and so does the picture. -/
theorem Pictures.keeps (h : Pictures c hs m) (hcl : Cleaner c c') (hkeep : Keeps c c') : Pictures c' hs m :=
  ⟨hcl.clean, h.count, h.stands_frame hcl hkeep (by rintro _ _ ⟨⟩), h.apart, (h.delivered.keeps hkeep hcl.segs).shows⟩

/-- **A constructor without room** makes nothing. -/
theorem Pictures.full {call : NewCall} (h : Pictures c hs m) (hlt : s < c.segs.length) (hf : call.like.Sane)
    (hnew : (call.run c (some s)).2 = {}) : Pictures (call.run c (some s)).1 hs m := by
  rw [call.run_like] at hnew ⊢
  rw [Capn.fill, show (newClone c s call.like).2 = {} from hnew]
  exact h.keeps (newClone_clones h.clean hlt hf).1 (keeps_clone c s call.like)

end

/-! ## Parts of objects -/

/-- An object, or an element of a list as the struct that `capn_getp` gives, `x` bytes from where the object is. -/
inductive Ptr.Part (p : Ptr) : Ptr → Int → Prop
  | self : p.Part p 0
  | element (q : Ptr) (i : Nat) (hlist : p.type = .LIST) (hi : (i : Int) < p.len)
    (hq : q.type = .STRUCT ∧ q.datasz = p.datasz ∧ q.ptrs = p.ptrs ∧ q.seg = p.seg)
    (hdata : q.data = p.data.map (·.add (i * (p.datasz + 8 * p.ptrs)))) : p.Part q (i * (p.datasz + 8 * p.ptrs))

/-- The place of pointer `off`, in a struct or a list of pointers. -/
def Ptr.pointerAt (q : Ptr) (off : Int) : Int := q.datasz + 8 * off

section

variable {c : Capn} {p q : Ptr} {x y : Int} {s : Nat} {o : Int} {a : Addr} {off : Int}

theorem Ptr.Part.data (h : p.Part q x) (ha : p.data = some a) : q.data = some (a.add x) := by
  cases h with
  | self => rw [ha, Addr.add, Int.add_zero]
  | element q i _ _ _ hdata => rw [hdata, ha]; rfl

theorem Ptr.Part.seg (h : p.Part q x) : q.seg = p.seg := by
  cases h with
  | self => rfl
  | element q i _ _ hq _ => exact hq.2.2.2

theorem Ptr.Part.dataAt (h : p.Part q x) (hy : q.DataAt y) : p.DataAt (x + y) := by
  cases h with
  | self => rwa [Int.zero_add]
  | element q i hlist hi hq _ =>
    obtain ⟨ht, hd, -, -⟩ := hq
    simp only [Ptr.DataAt, ht, hd] at hy
    simp only [Ptr.DataAt, hlist]
    exact ⟨i, y.toNat, hi, by omega, by omega⟩

theorem Ptr.Part.slotAt (h : p.Part q x) (hs : p.Shape) (hk : q.type = .STRUCT ∨ q.type = .PTR_LIST) (hw : Within q off) :
    p.SlotAt (x + q.pointerAt off) := by
  obtain ⟨h0, h1⟩ := hw
  cases h with
  | self =>
    rw [Int.zero_add]
    rcases hk with ht | ht
    · rw [Ptr.places, if_pos ht] at h1
      simp only [Ptr.SlotAt, ht, Ptr.pointerAt]
      exact ⟨off.toNat, by omega, by omega⟩
    · rw [Ptr.places, if_neg (by rw [ht]; decide)] at h1
      obtain ⟨-, -, hsh⟩ := hs
      simp only [ht] at hsh
      simp only [Ptr.SlotAt, ht, Ptr.pointerAt, hsh.2.1]
      exact ⟨off.toNat, by omega, by omega⟩
  | element q i hlist hi hq _ =>
    obtain ⟨ht, hd, hp, -⟩ := hq
    rw [Ptr.places, if_pos ht] at h1
    simp only [Ptr.SlotAt, hlist, Ptr.pointerAt, hd]
    exact ⟨i, off.toNat, hi, by omega, by rw [Int.toNat_of_nonneg h0]⟩

/-- The slot of a pointer that the caller asks for. -/
theorem Stands.pointerSlot (h : Stands c p s o) (hq : p.Part q x) (hk : q.type = .STRUCT ∨ q.type = .PTR_LIST)
    (hw : Within q off) : PointerSlot c q off ⟨s, o + (x + q.pointerAt off)⟩ := by
  have hdest : destination q off = some (⟨s, o + (x + q.pointerAt off)⟩, 8) := by
    have hd := hq.data h.data
    have e : ∀ n, (Addr.add ⟨s, o⟩ x).add n = ⟨s, o + (x + n)⟩ := fun n => congrArg (Addr.mk s) (Int.add_assoc _ _ _)
    rcases hk with ht | ht
    · simp only [destination, ht, hd, Option.map_some, e, Ptr.pointerAt]
    · have h0 : q.datasz = 0 := by
        cases hq with
        | self =>
          obtain ⟨-, -, hsh⟩ := h.shape
          simp only [ht] at hsh
          exact hsh.2.1
        | element q i _ _ hq _ =>
          rw [hq.1] at ht
          cases ht
      simp only [destination, ht, hd, Option.map_some, e, Ptr.pointerAt, h0, Nat.cast_zero, Int.zero_add]
  exact ⟨hk, hw, hq.seg.trans h.seg, hdest, h.slotAt (hq.slotAt h.shape hk hw)⟩

end

/-! ## Setters -/

/-- A call that stores into the data of an object. -/
inductive Setter where
  | set (sz : SZ) (off : Int) (v : Nat)
  | set1 (off v : Int)
  | write (sz : SZ) (off v : Nat)
  | write1 (off : Nat) (v : Bool)

def Setter.run (c : Capn) (q : Ptr) : Setter → Capn
  | .set sz off v => (capnSet sz c q off v).capn
  | .set1 off v => (capnSet1 c q off v).capn
  | .write sz off v => capnWrite sz.bytes c q off v
  | .write1 off v => capnWrite1 c q off v

/-- The objects that the call is for. -/
def Setter.For (q : Ptr) : Setter → Prop
  | .set _ off _ => q.type = .LIST ∧ 0 ≤ off
  | .set1 .. => q.type = .BIT_LIST
  | .write .. | .write1 .. => q.type = .STRUCT

/-- A byte, with bit `k` set or cleared. -/
def withBit (b : UInt8) (k : Nat) (v : Bool) : UInt8 :=
  if v then b ||| 1 <<< UInt8.ofNat k else b &&& ~~~(1 <<< UInt8.ofNat k)

/-- Where the call stores into the object, and the bytes; `byte` are those that it has. -/
def Setter.stores (q : Ptr) (byte : Int → UInt8) : Setter → Option (Int × List UInt8)
  | .set sz off v => if off < q.len ∧ sz.bytes ≤ q.datasz then some (q.element off, toLe sz.bytes v) else none
  | .set1 off v =>
    let bit := off + q.ptrs
    if 0 ≤ off ∧ off < q.len then some (bit / 8, [withBit (byte (bit / 8)) (bit % 8).toNat (v ≠ 0)]) else none
  | .write sz off v => if off + sz.bytes ≤ q.datasz then some (off, toLe sz.bytes v) else none
  | .write1 off v =>
    if off < q.datasz * 8 then some ((off / 8 : Nat), [withBit (byte (off / 8 : Nat)) (off % 8) v]) else none

/-- The session with the bytes stored at their place from `a` on. -/
def Capn.stored (c : Capn) (a : Addr) : Option (Int × List UInt8) → Capn
  | some (y, bs) => c.write (a.add y) bs
  | none => c

/-- The store with the bytes stored at their place from byte `x` of object `k` on. -/
def Objects.stored (m : Objects) (k : Nat) (x : Int) : Option (Int × List UInt8) → Objects
  | some (y, bs) => m.put k (x + y) bs
  | none => m

section

variable {c : Capn} {hs : List Ptr} {m : Objects} {p q : Ptr} {x : Int} {a : Addr} {s : Setter}

theorem SZ.pos (sz : SZ) : 0 < sz.bytes := by cases sz <;> decide

/-- **What a setter does** with an object: it stores where and what `stores` says. -/
theorem Setter.run_eq (hf : s.For q) (ha : q.data = some a) :
    s.run c q = c.stored a (s.stores q fun y => c.byte (a.add y)) := by
  cases s with
  | set sz off v =>
    obtain ⟨ht, -⟩ := hf
    simp only [run, stores, capnSet, elementAt, ht, ha]
    by_cases hlt : off < q.len
    · rw [if_neg (by omega)]
      by_cases hsz : sz.bytes ≤ q.datasz
      · rw [if_neg (by omega), if_pos ⟨hlt, hsz⟩]
        rfl
      · rw [if_pos (by omega), if_neg fun h => hsz h.2]
        rfl
    · rw [if_pos (by omega), if_neg fun h => hlt h.1]
      rfl
  | set1 off v =>
    have ht : q.type = .BIT_LIST := hf
    have hne : q.type ≠ .FAR_POINTER := by rw [ht]; decide
    simp only [run, stores, capnSet1, capnResolve_of_ne hne, bitAt, ht, ha]
    by_cases hneg : off < 0
    · rw [if_pos hneg, if_neg (by omega)]
      rfl
    · rw [if_neg hneg]
      by_cases hlt : off < q.len
      · rw [if_neg (by omega), if_pos ⟨by omega, hlt⟩]
        simp only [Option.map_some, Capn.stored, Stored.store, withBit, Capn.byte, ne_eq,
          decide_eq_true_eq]
      · rw [if_pos (by omega), if_neg (by omega)]
        rfl
  | write sz off v =>
    simp only [run, stores, capnWrite, ha]
    split <;> rfl
  | write1 off v =>
    simp only [run, stores, capnWrite1, ha]
    by_cases hlt : q.datasz * 8 ≤ off
    · rw [if_pos hlt, if_neg (by omega)]
      rfl
    · rw [if_neg hlt, if_pos (show off < q.datasz * 8 by omega)]
      rfl

/-- It stores at one place at most. -/
theorem Setter.run_cases (hf : s.For q) : s.run c q = c ∨ ∃ b bs, s.run c q = c.write b bs := by
  cases ha : q.data with
  | some a =>
    rw [s.run_eq hf ha]
    cases s.stores q _ with
    | none => exact .inl rfl
    | some b => exact .inr ⟨_, _, rfl⟩
  | none =>
    left
    cases s with
    | set sz off v => simp only [run, capnSet, elementAt, hf.1, ha, Option.map_none, ite_self]
    | set1 off v =>
      have ht : q.type = .BIT_LIST := hf
      have hne : q.type ≠ .FAR_POINTER := by rw [ht]; decide
      simp only [run, capnSet1, capnResolve_of_ne hne, bitAt, ht, ha, Option.map_none, ite_self]
    | write sz off v => simp only [run, capnWrite, ha, ite_self]
    | write1 off v => simp only [run, capnWrite1, ha, ite_self]

/-- It stores into data of the object. -/
theorem Setter.stores_dataAt (hf : s.For q) (hbits : q.type = .BIT_LIST → q.datasz = (q.len.toNat + 7) / 8 ∧ q.ptrs = 0)
    {byte : Int → UInt8} {y : Int} {bs : List UInt8} (h : s.stores q byte = some (y, bs)) :
    bs ≠ [] ∧ ∀ z, y ≤ z → z < y + bs.length → q.DataAt z := by
  cases s with
  | set sz off v =>
    obtain ⟨ht, h0⟩ := hf
    simp only [stores, Option.ite_none_right_eq_some, Option.some.injEq, Prod.mk.injEq] at h
    obtain ⟨⟨hlt, hsz⟩, rfl, rfl⟩ := h
    have := sz.pos
    refine ⟨List.ne_nil_of_length_pos (by rwa [length_toLe]), fun z h1 h2 => ?_⟩
    rw [length_toLe] at h2
    rw [Ptr.element] at h1 h2
    simp only [Ptr.DataAt, ht]
    refine ⟨off.toNat, (z - off * (q.datasz + 8 * q.ptrs)).toNat, by omega, by omega, ?_⟩
    rw [Int.toNat_of_nonneg h0]
    omega
  | set1 off v =>
    have ht : q.type = .BIT_LIST := hf
    obtain ⟨hd, hp⟩ := hbits ht
    simp only [stores, Option.ite_none_right_eq_some, Option.some.injEq, Prod.mk.injEq] at h
    obtain ⟨⟨h0, hlt⟩, rfl, rfl⟩ := h
    refine ⟨List.cons_ne_nil _ _, fun z h1 h2 => ?_⟩
    simp only [List.length_singleton] at h2
    simp only [Ptr.DataAt, ht]
    omega
  | write sz off v =>
    have ht : q.type = .STRUCT := hf
    simp only [stores, Option.ite_none_right_eq_some, Option.some.injEq, Prod.mk.injEq] at h
    obtain ⟨hle, rfl, rfl⟩ := h
    have := sz.pos
    refine ⟨List.ne_nil_of_length_pos (by rwa [length_toLe]), fun z h1 h2 => ?_⟩
    rw [length_toLe] at h2
    simp only [Ptr.DataAt, ht]
    omega
  | write1 off v =>
    have ht : q.type = .STRUCT := hf
    simp only [stores, Option.ite_none_right_eq_some, Option.some.injEq, Prod.mk.injEq] at h
    obtain ⟨hlt, rfl, rfl⟩ := h
    refine ⟨List.cons_ne_nil _ _, fun z h1 h2 => ?_⟩
    simp only [List.length_singleton] at h2
    simp only [Ptr.DataAt, ht]
    omega

/-- Of the bytes of the object, the call reads those that it stores to. -/
theorem Setter.stores_congr (hf : s.For q) (hbits : q.type = .BIT_LIST → q.datasz = (q.len.toNat + 7) / 8 ∧ q.ptrs = 0)
    {byte byte' : Int → UInt8} (hb : ∀ y, q.DataAt y → byte y = byte' y) : s.stores q byte = s.stores q byte' := by
  cases s with
  | set | write => rfl
  | set1 off v =>
    have ht : q.type = .BIT_LIST := hf
    obtain ⟨hd, hp⟩ := hbits ht
    simp only [stores]
    split
    · rw [hb _ (by simp only [Ptr.DataAt, ht]; omega)]
    · rfl
  | write1 off v =>
    have ht : q.type = .STRUCT := hf
    simp only [stores]
    split
    · rw [hb _ (by simp only [Ptr.DataAt, ht]; omega)]
    · rfl

theorem Ptr.Part.bits (h : p.Part q x) (hs : p.Shape) (ht : q.type = .BIT_LIST) :
    q.datasz = (q.len.toNat + 7) / 8 ∧ q.ptrs = 0 := by
  cases h with
  | self =>
    obtain ⟨-, -, hsh⟩ := hs
    simp only [ht] at hsh
    exact ⟨hsh.2.1, hsh.2.2.2⟩
  | element q i _ _ hq _ =>
    rw [hq.1] at ht
    cases ht

/-- **A setter** changes the bytes that it stores to. -/
theorem Pictures.set {k : Nat} (h : Pictures c hs m) (hp : hs[k]? = some p) (hq : p.Part q x) (hf : s.For q) :
    Pictures (s.run c q) hs (m.stored k x (s.stores q fun y => m.byte k (x + y))) := by
  obtain ⟨k', o, hst⟩ := h.stands p (List.mem_of_getElem? hp)
  have hbits := fun ht => hq.bits hst.shape ht
  have hbyte : ∀ y, q.DataAt y → c.byte ((Addr.add ⟨k', o⟩ x).add y) = m.byte k (x + y) := fun y hy => by
    rw [← h.shows.byte k p _ (x + y) hp hst.data (hq.dataAt hy)]
    exact congrArg c.byte (congrArg (Addr.mk k') (Int.add_assoc _ _ _))
  rw [s.run_eq hf (hq.data hst.data), s.stores_congr hf hbits hbyte]
  cases hs : s.stores q fun y => m.byte k (x + y) with
  | none => exact h
  | some b =>
    obtain ⟨y, bs⟩ := b
    obtain ⟨hne, hin⟩ := s.stores_dataAt hf hbits hs
    have hput := h.put (x := x + y) hp hst.data hne fun z h0 h1 => by
      have := hq.dataAt (hin (z - x) (by omega) (by omega))
      rwa [show x + (z - x) = z by omega] at this
    rwa [show Addr.add ⟨k', o⟩ (x + y) = (Addr.add ⟨k', o⟩ x).add y from
      congrArg (Addr.mk k') (Int.add_assoc _ _ _).symm] at hput

end

/-! ## Pointers -/

section

variable {c : Capn} {hs : List Ptr} {m : Objects} {p q t : Ptr} {k j : Nat} {x off : Int} {r : Int × World}

theorem Ptr.emptyStruct.bare {t : Ptr} (h : t.emptyStruct) : t.Bare := by
  obtain ⟨ht, hd, hp⟩ := h
  refine ⟨fun x hx => ?_, fun x hx => ?_, by rw [ht]; rintro ⟨⟩⟩
  · simp only [Ptr.DataAt, ht, hd] at hx
    omega
  · simp only [Ptr.SlotAt, ht, hp] at hx
    obtain ⟨k, hk, -⟩ := hx
    omega

/-- `write_ptr` stores a pointer to an object, or refuses it and changes nothing. -/
theorem Pictures.written {a : Addr} (h : Pictures c hs m) (ht : t ∈ hs) (ha : SlotIn c a) :
    (writePtr c a.seg a t false).1 = 0 ∨ writePtr c a.seg a t false = (-1, c) := by
  obtain ⟨s, o, hst⟩ := h.stands t ht
  by_cases hz : t.emptyStruct
  · exact .inl (congrArg Prod.fst (writePtr_empty c a false hz (by rw [hst.data]; exact Option.some_ne_none _)))
  by_cases hl : Linkable c a.seg t
  · exact .inl (writePtr_fits h.clean hst hz ha hl).1
  · exact .inr (writePtr_refused hst hz hl)

/-- And what it stores leads there. -/
theorem Pictures.leads {a : Addr} (h : Pictures c hs m) (hp : p ∈ hs) (ha : p.data = some a) (hx : p.SlotAt x)
    (ht : hs[j]? = some t) (hids : (writePtr c a.seg (a.add x) t false).2.segs.length ≤ 2 ^ 32)
    (hok : (writePtr c a.seg (a.add x) t false).1 = 0) :
    Leading (writePtr c a.seg (a.add x) t false).2 hs (a.add x) (some j) := by
  obtain ⟨s, o, hst⟩ := h.stands p hp
  cases hst.data.symm.trans ha
  have hmem := List.mem_of_getElem? ht
  obtain ⟨s', o', hst'⟩ := h.stands t hmem
  have hslot := hst.slotAt hx
  have hpoints : PointsTo (fun d q => d = q.data) c (writePtr c s ⟨s, o + x⟩ t false).2 (Front t s' o') ⟨s, o + x⟩ t := by
    by_cases hz : t.emptyStruct
    · have hlen : t.len = 0 := by
        obtain ⟨-, -, hsh⟩ := hst'.shape
        simp only [hz.1] at hsh
        exact hsh.2.2.2.2
      exact empty_points hslot hz hlen (by rw [hst'.data]; exact Option.some_ne_none _) ⟨rfl, rfl, rfl, rfl⟩ hz.bare
    · exact (link_points h.clean hst' hz hslot ⟨rfl, rfl, rfl, rfl⟩ (.inr rfl)
        (fun y hy hslot => h.front hmem hst' hy p hp (hst.slot_body hx hslot)) hids hok).1
  obtain ⟨u, cost, hu, hcopy, hfoot⟩ := hpoints
  refine ⟨t, ht, u, cost, hu, hcopy, fun k y hy => (hfoot k y hy).imp_right fun hy => ?_⟩
  rcases hy with hy | hy
  · exact h.front hmem hst' hy
  · -- new landing pads are behind all objects
    intro q hq hbody
    obtain ⟨s'', o'', hst''⟩ := h.stands q hq
    obtain ⟨rfl, -, h1⟩ := hst''.body hbody
    have := hst''.inside
    omega

/-- The pointer that stands for object `t`, or for none. -/
def handle (hs : List Ptr) (t : Option Nat) : Option Ptr := t.elim (some {}) (hs[·]?)

/-- What `capn_setp` does is what `write_ptr` does. -/
theorem Pictures.setp_write {w : World} {i : Nat} {a : Addr} {tgt : Ptr} {u : Option Nat} (h : Pictures (w i) hs m)
    (ha : PointerSlot (w i) q off a) (hu : handle hs u = some tgt) (hr : Setp w i q off i tgt r) :
    writePtr (w i) a.seg a tgt false = (r.1, r.2 i) ∧ (r.1 = 0 ∨ r = (-1, w.set i (w i))) := by
  have hstatus : (writePtr (w i) a.seg a tgt false).1 = 0 ∨ writePtr (w i) a.seg a tgt false = (-1, w i) := by
    cases u with
    | none =>
      cases hu
      exact .inl rfl
    | some j => exact h.written (List.mem_of_getElem? hu) ha.inside
  have hne : (writePtr (w i) a.seg a tgt false).1 ≠ NEED_TO_COPY := by
    rcases hstatus with e | e
    · rw [e]
      decide
    · rw [e]
      exact (by decide : (-1 : Int) ≠ NEED_TO_COPY)
  have htype : tgt.type ≠ .FAR_POINTER := by
    cases u with
    | none =>
      cases hu
      decide
    | some j =>
      obtain ⟨s, o, hst⟩ := h.stands tgt (List.mem_of_getElem? hu)
      exact hst.obj.2.1
  obtain rfl := (setp_over ha htype (setpSlot_same hne)).mp hr
  exact ⟨congrArg (Prod.mk _) (World.set_self w i _).symm, hstatus.imp id fun e => by rw [e]⟩

/-- **`capn_setp`** sets the pointer, or refuses. -/
theorem Pictures.setp {w : World} {i : Nat} {tgt : Ptr} {u : Option Nat} (h : Pictures (w i) hs m) (hp : hs[k]? = some p)
    (hq : p.Part q x) (hk : q.type = .STRUCT ∨ q.type = .PTR_LIST) (hw : Within q off) (hu : handle hs u = some tgt)
    (hr : Setp w i q off i tgt r) (hids : (r.2 i).segs.length ≤ 2 ^ 32) :
    Pictures (r.2 i) hs (if r.1 = 0 then m.point k (x + q.pointerAt off) u else m) := by
  have hmem := List.mem_of_getElem? hp
  obtain ⟨s, o, hst⟩ := h.stands p hmem
  have hslot := hst.pointerSlot hq hk hw
  have hx := hq.slotAt hst.shape hk hw
  obtain ⟨hwrite, hok⟩ := h.setp_write hslot hu hr
  have hcl := cleaner_ptr h.clean hslot.inside.inside s tgt false
  have hg := (writes_ptr (w i) s ⟨s, o + (x + q.pointerAt off)⟩ tgt false).grows
  simp only at hwrite
  rw [hwrite] at hcl hg
  rcases hok with h0 | rfl
  · rw [if_pos h0]
    refine h.point hp hst.data hx hcl hg ?_
    cases u with
    | none =>
      cases hu
      have hnull : ((w i).store64 ⟨s, o + (x + q.pointerAt off)⟩ 0).load64 ⟨s, o + (x + q.pointerAt off)⟩ = 0 := hslot.inside.null
      rwa [show (w i).store64 ⟨s, o + (x + q.pointerAt off)⟩ 0 = r.2 i from congrArg Prod.snd hwrite] at hnull
    | some j =>
      have hlead := h.leads hmem hst.data hx hu
      rw [show (Addr.mk s o).seg = s from rfl, show (Addr.mk s o).add (x + q.pointerAt off) = ⟨s, o + (x + q.pointerAt off)⟩ from rfl,
        hwrite] at hlead
      exact hlead hids h0
  · have hsame : (w.set i (w i)) i = w i := World.set_self _ _ _
    rw [if_neg (by decide : ¬ (-1 : Int) = 0)]
    show Pictures (w.set i (w i) i) hs m
    rwa [hsame]

end

/-! ## The number of segments -/

section

variable {w : World} {i j : Nat} {r : Int × World}

theorem segs_finishes {st : Step CopyState (Int × World)} {n : Nat} (h : Finishes i j r st)
    (hdone : ∀ r', st = .done r' → n ≤ (r'.2 i).segs.length) (hnext : ∀ s, st = .next s → n ≤ (s.world i).segs.length) :
    n ≤ (r.2 i).segs.length := by
  cases st with
  | done r' =>
    have e : r' = r := h
    exact e ▸ hdone r' rfl
  | next s => exact Nat.le_trans (hnext s rfl) (segs_path .refl h)

theorem segs_setpSlot {s : Nat} {d : Addr} {tgt : Ptr} (h : Finishes i j r (setpSlot w i s d j tgt)) :
    (w i).segs.length ≤ (r.2 i).segs.length := by
  have hw : (w i).segs.length ≤ (w.set i (writePtr (w i) s d tgt (i ≠ j)).2 i).segs.length := by
    rw [World.set_self]
    exact segs_ptr _ _ _ _ _
  simp only [setpSlot] at h
  split at h
  · cases h
    exact hw
  have hcopy := Nat.le_trans hw (segs_copy (j := j) s d tgt)
  split at h
  · cases h
    exact hcopy
  · exact segs_finishes h (by rintro _ ⟨⟩) (by rintro s ⟨⟩; exact hcopy)

theorem segs_setpResolved {p tgt : Ptr} {off : Int} (h : Finishes i j r (setpResolved w i p off j tgt)) :
    (w i).segs.length ≤ (r.2 i).segs.length := by
  have hdone : ∀ {n : Int}, Finishes i j r (.done (n, w)) → (w i).segs.length ≤ (r.2 i).segs.length := by
    rintro n ⟨⟩
    exact Nat.le_refl _
  simp only [setpResolved] at h
  split at h
  · split at h
    · exact hdone h
    · refine segs_finishes h (by rintro _ ⟨⟩) ?_
      rintro s ⟨⟩
      exact Nat.le_of_eq (segs_member _ _).symm
  · split at h
    · exact hdone h
    split at h
    · exact hdone h
    split at h
    · exact hdone h
    · cases h
      show _ ≤ (w.set i (setBit _ _ _ _) i).segs.length
      rw [World.set_self, setBit]
      split
      · exact Nat.le_refl _
      · rw [Capn.length_write]
  · split at h
    · exact hdone h
    split at h
    · exact segs_setpSlot h
    · exact hdone h
  · split at h
    · exact hdone h
    split at h
    · exact segs_setpSlot h
    · exact hdone h
  · exact hdone h

/-- `capn_setp` drops no segment. -/
theorem segs_setp {p tgt : Ptr} {off : Int} (h : Setp w i p off j tgt r) :
    (w i).segs.length ≤ (r.2 i).segs.length := by
  have hcount : ∀ {v : World} {k : Nat} {c : Capn}, (∃ used err, c = { v k with traversalUsed := used, decodeErr := err }) →
      (v.set k c i).segs = (v i).segs := fun e => segs_counters e
  have hw := hcount (capnResolve_capn (w i) p)
  have hfin := h.finishes
  simp only [setpStart] at hfin
  split at hfin
  · rename_i w' hfar
    cases hfin
    split at hfar
    · split at hfar
      · cases hfar
        show _ ≤ (World.set _ i _ i).segs.length
        rw [World.set_self, Capn.store64, Capn.length_write, hw]
      · cases hfar
    · cases hfar
  · have hle := segs_setpResolved hfin
    rwa [hcount (capnResolve_capn _ tgt), hw] at hle

end

/-! ## Drafts -/

theorem readCall_counters (c : Capn) (call : ReadCall) :
    ∃ used err, (call.run c).capn = { c with traversalUsed := used, decodeErr := err } := by
  cases call with
  | getp p off => exact capnGetp_capn c p off true
  | resolve p => exact capnResolve_capn c p

/-- A session, the pointers that the constructors gave, and the store that they build. -/
structure Draft where
  capn : Capn
  ptrs : List Ptr
  objects : Objects

namespace Draft

/-- The root of a new session, a list of one pointer. -/
def start : Draft :=
  ⟨(capnRoot capnInitMalloc).1, [(capnRoot capnInitMalloc).2], Objects.empty.make fun _ => 0⟩

/-- After a constructor: it gives null if there is no room. -/
def made (d : Draft) (r : Capn × Ptr) (content : List UInt8) : Draft :=
  if r.2 = {} then { d with capn := r.1 }
  else ⟨r.1, d.ptrs ++ [r.2], (d.objects.make fun _ => 0).put d.objects.count 0 content⟩

/-- A call: a constructor in a segment of the session, with sizes that the format has; a setter, or `capn_setp` of
null or of what a constructor gave, on an object or an element; or a read of anything. -/
inductive Next (d : Draft) : Draft → Prop
  | new (s : Nat) (call : NewCall) (hs : s < d.capn.segs.length) (hargs : call.like.Sane)
    (hdef : call.Defined d.capn (some s)) : Next d (d.made (call.run d.capn (some s)) call.content)
  | set (k : Nat) (p q : Ptr) (x : Int) (s : Setter) (hp : d.ptrs[k]? = some p) (hq : p.Part q x) (hs : s.For q) :
    Next d ⟨s.run d.capn q, d.ptrs, d.objects.stored k x (s.stores q fun y => d.objects.byte k (x + y))⟩
  | setp (k : Nat) (p q : Ptr) (x off : Int) (t : Option Nat) (tgt : Ptr) (r : Int × World) (hp : d.ptrs[k]? = some p)
    (hq : p.Part q x) (hk : q.type = .STRUCT ∨ q.type = .PTR_LIST) (hw : Within q off) (ht : handle d.ptrs t = some tgt)
    (hr : Setp (fun _ => d.capn) 0 q off 0 tgt r) :
    Next d ⟨r.2 0, d.ptrs, if r.1 = 0 then d.objects.point k (x + q.pointerAt off) t else d.objects⟩
  | read (call : ReadCall) : Next d { d with capn := (call.run d.capn).capn }

/-- The session holds the store. -/
def Holds (d : Draft) : Prop := Pictures d.capn d.ptrs d.objects

variable {d d' : Draft}

theorem Next.segs (h : d.Next d') : d.capn.segs.length ≤ d'.capn.segs.length := by
  cases h with
  | new s call _ _ _ =>
    have hle : d.capn.segs.length ≤ (call.run d.capn (some s)).1.segs.length := by
      rw [call.run_like]
      refine (segs_clone d.capn s call.like).trans (Nat.le_of_eq ?_)
      simp only [Capn.fill]
      split
      · split
        · rfl
        · rw [Capn.length_write]
      · rfl
    rw [made]
    split
    · exact hle
    · exact hle
  | set k p q x s _ _ hs =>
    show _ ≤ (s.run d.capn q).segs.length
    rcases s.run_cases (c := d.capn) hs with e | ⟨b, bs, e⟩
    · rw [e]
    · rw [e, Capn.length_write]
  | setp k p q x off t tgt r _ _ _ _ _ hr => exact segs_setp hr
  | read call =>
    obtain ⟨u, e, he⟩ := readCall_counters d.capn call
    show _ ≤ (call.run d.capn).capn.segs.length
    rw [he]

/-- **One call**: the session holds what the call does to the store. -/
theorem Next.holds (h : d.Next d') (hd : d.Holds) (hids : d'.capn.segs.length ≤ 2 ^ 32) : d'.Holds := by
  cases h with
  | new s call hs hargs _ =>
    rw [made]
    split
    · rename_i hnull
      exact Pictures.full hd hs hargs hnull
    · rename_i hnull
      exact Pictures.new hd hs hargs hnull
  | set k p q x s hp hq hs => exact Pictures.set hd hp hq hs
  | setp k p q x off t tgt r hp hq hk hw ht hr => exact Pictures.setp (w := fun _ => d.capn) hd hp hq hk hw ht hr hids
  | read call =>
    obtain ⟨hcl, hg, -, -⟩ := hd.clean.counters (readCall_counters d.capn call)
    exact Pictures.keeps hd hcl hg

/-- The segments stay whole words. -/
theorem Next.fit (h : d.Next d') (hd : Fit d.capn) : Fit d'.capn := by
  cases h with
  | new s call _ _ _ =>
    have hfit : Fit (call.run d.capn (some s)).1 := by
      cases call with
      | struct => exact fit_newStruct hd _ _ _
      | structList => exact fit_newStructList hd _ _ _ _
      | list => exact fit_newList hd _ _ _ _
      | list1 => exact fit_newObject hd _ _
      | ptrList => exact fit_newObject hd _ _
      | string => exact fit_newString hd _ _
    rw [made]
    split
    · exact hfit
    · exact hfit
  | set k p q x s _ _ hs =>
    show Fit (s.run d.capn q)
    rcases s.run_cases (c := d.capn) hs with e | ⟨b, bs, e⟩
    · rwa [e]
    · rw [e]
      exact fit_write hd b bs
  | setp k p q x off t tgt r _ _ _ _ _ hr => exact fit_setp (w := fun _ => d.capn) hd hr
  | read call => exact hd.counters (readCall_counters d.capn call)

/-- The root stays the first object. -/
theorem Next.ptrs (h : d.Next d') : d.ptrs <+: d'.ptrs := by
  cases h with
  | new s call _ _ _ =>
    rw [made]
    split
    · exact List.prefix_refl _
    · exact List.prefix_append _ _
  | set | setp | read => exact List.prefix_refl _

theorem start_holds : start.Holds := by
  have hempty : Pictures capnInitMalloc [] Objects.empty :=
    ⟨tidy_init.clean, rfl, by rintro _ ⟨⟩, .nil, by rintro i p a x ⟨⟩, by rintro i p a x ⟨⟩⟩
  have hzero : ∀ k, (capnInitMalloc.seg k).len = 0 := fun k => congrArg Segment.len (Capn.seg_of_ge (Nat.zero_le k))
  have hkeep : Keeps capnInitMalloc (capnRoot capnInitMalloc).1 := by
    refine ⟨fun k => ?_, fun k x h0 h1 _ => ?_⟩
    · rw [hzero]
      exact Nat.zero_le _
    · rw [hzero] at h1
      omega
  refine hempty.make (s := 0) (o := 0) ⟨tidy_init.root.clean, by decide⟩ hkeep ?_ (by decide) ?_ ?_
  · refine ⟨⟨rfl, by decide, rfl, rfl, rfl, by decide⟩, ⟨by decide, by decide, by decide⟩, rfl, rfl, by decide, by decide,
      by decide, by decide, by rintro ⟨⟩, by rintro ⟨⟩⟩
  · rintro x ⟨⟩
  · rintro x ⟨k, hk, rfl⟩
    obtain rfl : k = 0 := by
      have hk : (k : Int) < 1 := hk
      omega
    decide

theorem fit_run (hrun : Relation.ReflTransGen Next start d) : Fit d.capn := by
  induction hrun with
  | refl => exact fit_root fit_init
  | tail _ hnext ih => exact hnext.fit ih

theorem ptrs_run (hrun : Relation.ReflTransGen Next start d) : start.ptrs <+: d.ptrs := by
  induction hrun with
  | refl => exact List.prefix_refl _
  | tail _ hnext ih => exact ih.trans hnext.ptrs

theorem segs_run (hrun : Relation.ReflTransGen Next start d) : 1 ≤ d.capn.segs.length := by
  induction hrun with
  | refl => decide
  | tail _ hnext ih => exact Nat.le_trans ih hnext.segs

/-- The session holds the store, whichever calls were made. -/
theorem holds_run (hrun : Relation.ReflTransGen Next start d) (hids : d.capn.segs.length ≤ 2 ^ 32) : d.Holds := by
  induction hrun with
  | refl => exact start_holds
  | tail _ hnext ih => exact hnext.holds (ih (Nat.le_trans hnext.segs hids)) hids

end Draft

end Capnproto

import Capnproto.Rpc.Questions
import Capnproto.Rpc.Wire

/-!
# Introductions and their vines

A run keeps the introductions that peers sent, as descriptors that decode, and
logs for every step which introductions left the table and which Releases
`capn_rpc_introduction_done` sent. Nothing is lost (`Kept`) if what is sent is
in the table or was taken out, one at a time, for its nonce and with a Release
of its vine.
-/

namespace Capnproto.Rpc

open Wire

/-! ## What peers send -/

/-- The host of a vat is a text, or there is none. -/
def HostDecodes (c : Capn) (vat : Ptr) : Prop :=
  let r := capnResolve c vat
  let m := capnGetp { r.capn with decodeErr := false } r.ptr 0 true
  (m.ptr.type = .NULL ∧ m.capn.decodeErr = false) ∨ (textOf m.capn m.ptr {}).str.isSome = true

instance (c : Capn) (vat : Ptr) : Decidable (HostDecodes c vat) := inferInstanceAs (Decidable (_ ∨ _))

/-- What a descriptor leads to, as the code reads it. -/
structure Chain where
  descriptor : Capn × Wire.CapDescriptor
  hosted : Capn × ThirdPartyCapDescriptor
  id : Capn × ThirdPartyCapId
  vat : Capn × VatId

def chain (d : Capn × Ptr) : Chain :=
  let cd := readCapDescriptor d.1 d.2
  let tp := readThirdPartyCapDescriptor cd.1 cd.2.thirdPartyHosted
  let id := readThirdPartyCapId tp.1 tp.2.id
  ⟨cd, tp, id, readVatId id.1 id.2.vat⟩

/-- All that a descriptor leads to is there: its id, its vat, and the host. -/
def Whole (d : Capn × Ptr) : Prop :=
  (capnResolve d.1 d.2).ptr.type = .STRUCT ∧
  (capnResolve (chain d).descriptor.1 (chain d).descriptor.2.thirdPartyHosted).ptr.type = .STRUCT ∧
  (capnResolve (chain d).hosted.1 (chain d).hosted.2.id).ptr.type = .STRUCT ∧
  (capnResolve (chain d).id.1 (chain d).id.2.vat).ptr.type = .STRUCT ∧
  HostDecodes (chain d).id.1 (chain d).id.2.vat

instance (d : Capn × Ptr) : Decidable (Whole d) := inferInstanceAs (Decidable (_ ∧ _))

/-- The introduction that a peer sends as a descriptor, if its host fits. -/
def sentIntroduction (d : Capn × Ptr) : Option Introduction :=
  let ch := chain d
  if ch.descriptor.2.which = CapDescriptor_thirdPartyHosted ∧ Whole d ∧ ch.vat.2.host.len < CAPN_RPC_MAX_HOST then
    some ⟨ch.id.2.nonce, ch.hosted.2.vineId, ch.vat.2.port, textBytes ch.vat.1 ch.vat.2.host⟩
  else none

/-- A third party's descriptor with a slot for the vat is whole, or its host does not
fit. -/
def Legible (d : Capn × Ptr) : Prop :=
  (chain d).descriptor.2.which = CapDescriptor_thirdPartyHosted → (chain d).id.2.vat.type ≠ .NULL →
    (chain d).vat.2.host.len < CAPN_RPC_MAX_HOST → Whole d

instance (d : Capn × Ptr) : Decidable (Legible d) := inferInstanceAs (Decidable (_ → _))

/-! ## Runs -/

/-- Whether an act is a message that arrives. -/
def Act.arrives {σ : Type} : Act σ → Bool
  | .handleReturn _ => true
  | .handleCall _ => true
  | _ => false

/-- What happens to a connection: a Call or a Return arrives, or the application acts. -/
inductive Incoming (σ : Type) where
  | call (c : Capn) (cp : Ptr)
  | ret (c : Capn) (rp : Ptr) (frame : List UInt8)
  | act (a : Act σ) (h : a.arrives = false)

section

variable {σ : Type}

def Incoming.toAct : Incoming σ → Act σ
  | .call c cp => .handleCall (introductions (callDescriptors c cp))
  | .ret c rp frame => .handleReturn (decodeReturn c rp frame)
  | .act a _ => a

/-- The descriptors of a message that arrives. -/
def Incoming.descriptors : Incoming σ → List (Capn × Ptr)
  | .call c cp => callDescriptors c cp
  | .ret c rp _ => returnDescriptors c rp
  | .act .. => []

/-- The introductions in a message that arrives. -/
def Incoming.sent (i : Incoming σ) : List Introduction := i.descriptors.filterMap sentIntroduction

/-- The nonce that `capn_rpc_introduction_done` is called for. -/
def Incoming.done : Incoming σ → Option Nat
  | .act (.introductionDone nonce) _ => some nonce
  | _ => none

/-- The introductions that left the table, or were written over. -/
def lost (t t' : Table CAPN_RPC_MAX_INTRODUCTIONS Introduction) : List Introduction :=
  Table.entries fun i => if t' i = t i then none else t i

/-- What a step took out of the table, the nonce of `capn_rpc_introduction_done`, and what
that sent. -/
structure Pickup where
  lost : List Introduction
  nonce : Option Nat
  released : List Request

/-- A run: the introductions that were sent to the connection, and the log. -/
structure Vines (σ : Type) where
  client : ClientState σ := {}
  sent : List Introduction := []
  log : List Pickup := []

variable [DecidableEq σ]

def Vines.step (v : Vines σ) (e : Transport × Incoming σ) : Vines σ where
  client := v.client.step (e.1, e.2.toAct)
  sent := v.sent ++ e.2.sent
  log := v.log ++ [⟨lost v.client.conn.introductions (v.client.step (e.1, e.2.toAct)).conn.introductions, e.2.done,
    if e.2.done.isSome then (e.2.toAct.run e.1 v.client).2.sent.filter fun m => e.1.send m = 0 else []⟩]

/-- A step takes nothing out and releases nothing, or takes out one introduction for its
nonce and releases its vine. -/
def Pickup.Right (x : Pickup) : Prop :=
  (x.lost = [] ∧ x.released = []) ∨ ∃ d, x.lost = [d] ∧ x.nonce = some d.nonce ∧ x.released = [.release d.vineId 1]

/-- What was sent is in the table or was taken out, and what was taken out was released. -/
structure Vines.Kept (v : Vines σ) : Prop where
  accounted : v.sent.Perm (v.client.conn.introductions.entries ++ v.log.flatMap (·.lost))
  released : ∀ x ∈ v.log, x.Right

/-- A Return is recorded. -/
def Recorded (c : ClientConn) (r : Reply) : Prop :=
  questionFind c r.answerId ≠ none ∧ r.frame.length ≤ CAPN_RPC_MAX_ANSWER_BYTES

/-- The descriptors are legible, and there is room for the introductions among them. -/
def Room (t : Table CAPN_RPC_MAX_INTRODUCTIONS Introduction) (ds : List (Capn × Ptr)) : Prop :=
  (∀ d ∈ ds, Legible d) ∧ t.entries.length + (ds.filterMap sentIntroduction).length ≤ CAPN_RPC_MAX_INTRODUCTIONS

instance (t : Table CAPN_RPC_MAX_INTRODUCTIONS Introduction) (ds : List (Capn × Ptr)) : Decidable (Room t ds) :=
  inferInstanceAs (Decidable (_ ∧ _))

/-- There is room for what arrives, a Return with introductions is recorded, and the
Release of a vine is sent. -/
def Vines.Ok (v : Vines σ) : Transport × Incoming σ → Prop
  | (_, .call c cp) => Room v.client.conn.introductions (callDescriptors c cp)
  | (_, .ret c rp frame) =>
    (Recorded v.client.conn (decodeReturn c rp frame) ∧ Room v.client.conn.introductions (returnDescriptors c rp)) ∨
      (¬ Recorded v.client.conn (decodeReturn c rp frame) ∧ (returnDescriptors c rp).filterMap sentIntroduction = [])
  | (t, .act (.introductionDone nonce) _) => ∀ i d, v.client.conn.introductions.find (·.nonce = nonce) = some i →
    v.client.conn.introductions i = some d → Sent t (.release d.vineId 1)
  | (_, .act ..) => True

end

/-! ## Descriptors -/

/-- What the code makes of a descriptor, in the terms of its chain. -/
theorem readIntroduction_eq (d : Capn × Ptr) : (readIntroduction d.1 d.2).2 =
    if d.2.type = .NULL then none
    else if (chain d).descriptor.2.which ≠ CapDescriptor_thirdPartyHosted then none
    else if (chain d).descriptor.2.thirdPartyHosted.type = .NULL then none
    else if (chain d).hosted.2.id.type = .NULL then none
    else if (chain d).id.2.vat.type = .NULL then none
    else if CAPN_RPC_MAX_HOST ≤ (chain d).vat.2.host.len then none
    else some ⟨(chain d).id.2.nonce, (chain d).hosted.2.vineId, (chain d).vat.2.port,
      textBytes (chain d).vat.1 (chain d).vat.2.host⟩ := by
  simp only [readIntroduction, apply_ite Prod.snd]
  rfl

theorem introduction_legible {d : Capn × Ptr} (h : Legible d) : (readIntroduction d.1 d.2).2 = sentIntroduction d := by
  rw [readIntroduction_eq]
  by_cases hsent : (chain d).descriptor.2.which = CapDescriptor_thirdPartyHosted ∧ Whole d ∧
      (chain d).vat.2.host.len < CAPN_RPC_MAX_HOST
  · obtain ⟨hwhich, hwhole, hfits⟩ := hsent
    obtain ⟨h₁, h₂, h₃, h₄, -⟩ := id hwhole
    rw [if_neg (ne_null_of_struct h₁), if_neg (not_not.mpr hwhich), if_neg (ne_null_of_struct h₂),
      if_neg (ne_null_of_struct h₃), if_neg (ne_null_of_struct h₄), if_neg (Int.not_le.mpr hfits)]
    exact (if_pos ⟨hwhich, hwhole, hfits⟩).symm
  · have hnone : sentIntroduction d = none := if_neg hsent
    rw [hnone]
    split
    · rfl
    split
    · rfl
    rename_i hwhich
    split
    · rfl
    split
    · rfl
    split
    · rfl
    rename_i hvat
    split
    · rfl
    · rename_i hfits
      exact absurd ⟨not_not.mp hwhich, h (not_not.mp hwhich) hvat (Int.not_le.mp hfits), Int.not_le.mp hfits⟩ hsent

theorem introductions_legible {ds : List (Capn × Ptr)} (h : ∀ d ∈ ds, Legible d) :
    introductions ds = ds.filterMap sentIntroduction :=
  List.filterMap_congr fun d hd => introduction_legible (h d hd)

/-! ## The table -/

section

variable {t t' : Table CAPN_RPC_MAX_INTRODUCTIONS Introduction}

/-- Introductions that there is room for are noted beside those that are there. -/
theorem note_entries {ds : List Introduction} (h : t.entries.length + ds.length ≤ CAPN_RPC_MAX_INTRODUCTIONS) :
    (ds.foldl noteIntroduction t).entries.Perm (t.entries ++ ds) ∧
      ∀ i, t i ≠ none → ds.foldl noteIntroduction t i = t i := by
  induction ds generalizing t with
  | nil =>
    refine ⟨?_, fun _ _ => rfl⟩
    rw [List.append_nil]
    exact .refl _
  | cons d ds ih =>
    rw [List.length_cons] at h
    obtain ⟨j, hj⟩ := Table.free_of_entries (t := t) (by omega)
    have hnote : noteIntroduction t d = t.set j (some d) := by rw [noteIntroduction, hj]
    have hfill := Table.entries_fill (Table.free_some hj) d
    rw [List.foldl_cons, hnote]
    obtain ⟨hperm, hsame⟩ := ih (t := t.set j (some d)) (by rw [hfill.length_eq, List.length_cons]; omega)
    refine ⟨hperm.trans ?_, fun i hi => ?_⟩
    · exact (hfill.append_right ds).trans List.perm_middle.symm
    · have hij : i ≠ j := by
        rintro rfl
        exact hi (Table.free_some hj)
      have hset : t.set j (some d) i = t i := Table.set_ne _ _ hij
      rw [hsame i (by rw [hset]; exact hi), hset]

/-- Nothing is lost where every entry stays. -/
theorem lost_nil (h : ∀ i, t i ≠ none → t' i = t i) : lost t t' = [] := by
  apply List.filterMap_eq_nil_iff.mpr
  intro i _
  show (if t' i = t i then none else t i) = none
  by_cases hi : t i = none
  · rw [hi]
    split <;> rfl
  · exact if_pos (h i hi)

theorem lost_clear {i : Fin CAPN_RPC_MAX_INTRODUCTIONS} {d : Introduction} (h : t i = some d) :
    lost t (t.set i none) = [d] := by
  have hone : (fun j => if t.set i none j = t j then none else t j) = Table.set Table.empty i (some d) := by
    funext j
    by_cases hj : j = i
    · rw [hj, Table.set_same, Table.set_same, h]
      rfl
    · rw [Table.set_ne _ _ hj, if_pos rfl, Table.set_ne _ _ hj]
      rfl
  have hempty : (Table.empty : Table CAPN_RPC_MAX_INTRODUCTIONS Introduction).entries = [] :=
    List.filterMap_eq_nil_iff.mpr fun _ _ => rfl
  have hfill := Table.entries_fill (t := (Table.empty : Table CAPN_RPC_MAX_INTRODUCTIONS Introduction)) (i := i) rfl d
  rw [hempty] at hfill
  rw [lost, hone]
  exact List.perm_singleton.mp hfill

end

/-! ## What acts do to it -/

section

variable {t : Transport}

theorem ask_introductions (l : Outbox) (msg : Nat → Request) :
    (ask t l msg).2.conn.introductions = l.conn.introductions := by
  unfold ask questionClaim
  cases l.conn.questions.free with
  | none => rfl
  | some i =>
    simp only [transmit_conn]
    split
    · rfl
    · rw [transmit_conn]

theorem sendFinish_introductions (l : Outbox) (qid : Nat) :
    (capnRpcSendFinish t l qid).conn.introductions = l.conn.introductions := by
  unfold capnRpcSendFinish
  rw [transmit_conn]
  simp only
  split <;> rfl

theorem retireOldest_introductions (s : Stream) (l : Outbox) :
    (streamRetireOldest t s l).2.conn.introductions = l.conn.introductions := by
  unfold streamRetireOldest
  split
  · rfl
  · exact sendFinish_introductions l _

theorem streamRoom_introductions (s : Stream) (l : Outbox) :
    (streamRoom t s l).2.conn.introductions = l.conn.introductions := by
  unfold streamRoom
  split
  · exact retireOldest_introductions s l
  · rfl

theorem streamSend_introductions (s : Stream) (l : Outbox) (importedCap interfaceId methodId : Nat) (params : Content) :
    (capnRpcStreamSend t s l importedCap interfaceId methodId params).2.conn.introductions = l.conn.introductions := by
  unfold capnRpcStreamSend
  split
  · rfl
  · simp only
    split
    · exact streamRoom_introductions s l
    · have hask := (ask_introductions (t := t) (streamRoom t s l).2
        fun qid => .call qid importedCap interfaceId methodId params).trans (streamRoom_introductions s l)
      split
      · exact hask
      · exact hask

theorem retireAll_introductions (n : Nat) (s : Stream) (l : Outbox) :
    (retireAll t n (s, l)).2.conn.introductions = l.conn.introductions := by
  induction n generalizing s l with
  | zero => rfl
  | succ n ih => exact (ih _ (streamRetireOldest t s l).2).trans (retireOldest_introductions s l)

/-- A Return that is recorded notes its introductions; another changes nothing. -/
theorem handleReturn_introductions (c : ClientConn) (r : Reply) :
    (Recorded c r → (handleReturn c r).introductions =
      if r.results then r.introduced.foldl noteIntroduction c.introductions else c.introductions) ∧
    (¬ Recorded c r → (handleReturn c r).introductions = c.introductions) := by
  unfold handleReturn
  cases hf : questionFind c r.answerId with
  | none => exact ⟨fun h => absurd hf h.1, fun _ => rfl⟩
  | some i =>
    simp only
    split
    · rename_i hlong
      exact ⟨fun h => absurd hlong (Nat.not_lt.mpr h.2), fun _ => rfl⟩
    · rename_i hfits
      refine ⟨fun _ => ?_, fun h => absurd ⟨by rw [hf]; exact nofun, Nat.not_lt.mp hfits⟩ h⟩
      split <;> rfl

/-- **`capn_rpc_introduction_done`** takes out the first introduction with the nonce and
sends the Release of its vine. -/
theorem introductionDone_cases (c : ClientConn) (nonce : Nat) :
    (c.introductions.find (·.nonce = nonce) = none ∧
      (capnRpcIntroductionDone t { conn := c } nonce).conn = c ∧
      (capnRpcIntroductionDone t { conn := c } nonce).sent = []) ∨
    ∃ i d, c.introductions.find (·.nonce = nonce) = some i ∧ c.introductions i = some d ∧ d.nonce = nonce ∧
      (capnRpcIntroductionDone t { conn := c } nonce).conn.introductions = c.introductions.set i none ∧
      (Sent t (.release d.vineId 1) →
        (capnRpcIntroductionDone t { conn := c } nonce).sent = [.release d.vineId 1]) := by
  unfold capnRpcIntroductionDone
  cases hf : c.introductions.find (·.nonce = nonce) with
  | none => exact .inl ⟨rfl, rfl, rfl⟩
  | some i =>
    obtain ⟨d, hd, hnonce⟩ := Table.find_some hf
    refine .inr ⟨i, d, rfl, hd, of_decide_eq_true hnonce, ?_, fun hsent => ?_⟩
    · simp only [hd, capnRpcSendRelease, transmit_conn]
    · simp only [hd, capnRpcSendRelease, transmit, if_neg (Nat.not_lt.mpr hsent.1), List.nil_append]

end

section

variable {σ : Type} [DecidableEq σ]

/-- Only messages that arrive and `capn_rpc_introduction_done` change the introductions. -/
theorem act_introductions (t : Transport) (x : ClientState σ) {a : Act σ} (ha : a.arrives = false)
    (hd : ∀ nonce, a ≠ .introductionDone nonce) : (a.run t x).2.conn.introductions = x.conn.introductions := by
  cases a with
  | sendBootstrap => exact ask_introductions _ _
  | sendCall importedCap interfaceId methodId params => exact ask_introductions _ _
  | sendProvide importedCap host port nonce =>
    cases host with
    | none => rfl
    | some host => exact ask_introductions _ _
  | sendAccept nonce embargo => exact ask_introductions _ _
  | sendFinish qid => exact sendFinish_introductions _ _
  | sendRelease id count =>
    show (transmit t { conn := x.conn } (.release id count)).conn.introductions = _
    rw [transmit_conn]
  | sendDisembargoProvide provideQid =>
    show (transmit t { conn := x.conn } (.disembargo provideQid)).conn.introductions = _
    rw [transmit_conn]
  | introductionDone nonce => exact absurd rfl (hd nonce)
  | streamInit s window => rfl
  | streamSend s importedCap interfaceId methodId params => exact streamSend_introductions _ _ _ _ _ _
  | streamFinish s => exact retireAll_introductions _ _ _
  | handleReturn r => cases ha
  | handleCall introduced => cases ha

/-! ## Over a run -/

variable {v : Vines σ}

/-- A step that accounts for what was sent, and does right. -/
theorem Vines.Kept.extend (h : v.Kept) (e : Transport × Incoming σ)
    (entries gone : List Introduction) (released : List Request)
    (hentries : (v.client.step (e.1, e.2.toAct)).conn.introductions.entries = entries)
    (hgone : lost v.client.conn.introductions (v.client.step (e.1, e.2.toAct)).conn.introductions = gone)
    (hreleased : (if e.2.done.isSome then (e.2.toAct.run e.1 v.client).2.sent.filter fun m => e.1.send m = 0 else []) =
      released)
    (hperm : (v.client.conn.introductions.entries ++ e.2.sent).Perm (entries ++ gone))
    (hright : Pickup.Right ⟨gone, e.2.done, released⟩) : (v.step e).Kept := by
  have hlog : (v.step e).log = v.log ++ [⟨gone, e.2.done, released⟩] := by rw [← hgone, ← hreleased]; rfl
  refine ⟨?_, fun x hx => ?_⟩
  · show (v.sent ++ e.2.sent).Perm ((v.client.step (e.1, e.2.toAct)).conn.introductions.entries ++ _)
    rw [hentries, hlog, List.flatMap_append]
    have hmine : (v.sent ++ e.2.sent).Perm (v.client.conn.introductions.entries ++ e.2.sent ++ v.log.flatMap (·.lost)) :=
      (h.accounted.append_right _).trans (by
        rw [List.append_assoc, List.append_assoc]
        exact List.perm_append_comm.append_left _)
    refine hmine.trans ((hperm.append_right _).trans ?_)
    rw [List.append_assoc]
    refine (List.perm_append_comm.append_left _).trans (.of_eq ?_)
    rw [List.flatMap_singleton]
  · rw [hlog] at hx
    obtain hx | hx := List.mem_append.mp hx
    · exact h.released x hx
    · rw [List.mem_singleton.mp hx]
      exact hright

/-- A message that notes the introductions in it. -/
theorem Vines.Kept.note (h : v.Kept) (e : Transport × Incoming σ) (hdone : e.2.done = none)
    (hroom : Room v.client.conn.introductions e.2.descriptors)
    (hconn : (v.client.step (e.1, e.2.toAct)).conn.introductions =
      (introductions e.2.descriptors).foldl noteIntroduction v.client.conn.introductions) : (v.step e).Kept := by
  rw [introductions_legible hroom.1] at hconn
  obtain ⟨hperm, hsame⟩ := note_entries hroom.2
  have hgone := lost_nil hsame
  rw [← hconn] at hperm hgone
  refine h.extend e _ [] [] rfl hgone (by rw [hdone]; rfl) ?_ (.inl ⟨rfl, rfl⟩)
  rw [List.append_nil]
  exact hperm.symm

/-- A step that leaves the table alone, with no introduction in it. -/
theorem Vines.Kept.same (h : v.Kept) (e : Transport × Incoming σ) (hsent : e.2.sent = [])
    (hconn : (v.client.step (e.1, e.2.toAct)).conn.introductions = v.client.conn.introductions)
    (hreleased : (if e.2.done.isSome then (e.2.toAct.run e.1 v.client).2.sent.filter fun m => e.1.send m = 0 else []) =
      []) : (v.step e).Kept := by
  refine h.extend e _ [] [] rfl (by rw [hconn]; exact lost_nil fun _ _ => rfl) hreleased ?_ (.inl ⟨rfl, rfl⟩)
  rw [hsent, hconn]

/-- **A step** keeps the introductions. -/
theorem introductions_step (h : v.Kept) (e : Transport × Incoming σ) (hok : v.Ok e) : (v.step e).Kept := by
  obtain ⟨t, i⟩ := e
  cases i with
  | call c cp => exact h.note (t, .call c cp) rfl hok rfl
  | ret c rp frame =>
    obtain ⟨hrec, hroom⟩ | ⟨hrec, hnone⟩ := hok
    · by_cases hresults : (readReturn c rp).2.which = Return_results
      · refine h.note (t, .ret c rp frame) rfl hroom ?_
        exact ((handleReturn_introductions _ _).1 hrec).trans (if_pos (decide_eq_true hresults))
      · have hds : returnDescriptors c rp = [] := if_neg hresults
        refine h.same (t, .ret c rp frame) ?_ ?_ rfl
        · show (returnDescriptors c rp).filterMap sentIntroduction = []
          rw [hds]
          rfl
        · refine ((handleReturn_introductions _ _).1 hrec).trans (if_neg ?_)
          exact fun hr => hresults (of_decide_eq_true hr)
    · exact h.same (t, .ret c rp frame) hnone ((handleReturn_introductions _ _).2 hrec) rfl
  | act a ha =>
    by_cases hdone : ∃ nonce, a = .introductionDone nonce
    · obtain ⟨nonce, rfl⟩ := hdone
      obtain ⟨-, hconn, hsent⟩ | ⟨j, d, hfind, hd, hnonce, hconn, hsent⟩ :=
        introductionDone_cases (t := t) v.client.conn nonce
      · refine h.same (t, .act (.introductionDone nonce) ha) rfl (congrArg ClientConn.introductions hconn) ?_
        show List.filter _ (capnRpcIntroductionDone t { conn := v.client.conn } nonce).sent = []
        rw [hsent]
        rfl
      · have hrelease := hok j d hfind hd
        refine h.extend (t, .act (.introductionDone nonce) ha) (v.client.conn.introductions.set j none).entries [d]
          [.release d.vineId 1] (congrArg Table.entries hconn) ((congrArg (lost _) hconn).trans (lost_clear hd)) ?_ ?_ (.inr ⟨d, rfl, congrArg some hnonce.symm, rfl⟩)
        · show List.filter _ (capnRpcIntroductionDone t { conn := v.client.conn } nonce).sent = _
          rw [hsent hrelease, List.filter_singleton, decide_eq_true hrelease.2]
          rfl
        · show (v.client.conn.introductions.entries ++ []).Perm _
          rw [List.append_nil]
          exact (Table.entries_clear hd).trans (@List.perm_append_comm _ [d] _)
    · have hnone : (Incoming.act a ha).done = none := by
        cases a with
        | introductionDone nonce => exact absurd ⟨nonce, rfl⟩ hdone
        | _ => rfl
      refine h.same (t, .act a ha) rfl (act_introductions t v.client ha fun nonce e => hdone ⟨nonce, e⟩) ?_
      rw [hnone]
      rfl

/-- **Introductions lose no vine**: in a run whose descriptors are legible, with room for the
introductions and a Release that is sent for each that is done, what was sent is in the table
or was taken out, once, for its nonce and with one Release of its vine. -/
theorem introductions_kept (hrun : Runs Vines.step Vines.Ok {} v) : v.Kept :=
  hrun.inv (I := Vines.Kept) (fun _ e h hok => introductions_step h e hok) ⟨.of_eq (by rfl), nofun⟩

end

/-! ## Two runs -/

/-- A Call whose parameters have one descriptor: vine 77, nonce 9, and the vat that a pointer
word leads to, with port 5000 and no host. -/
def introducingCall (vat : List UInt8) : List UInt8 :=
  [0, 0, 0, 0, 1, 0, 1, 0] ++ [2, 0, 0, 0, 0, 0, 0, 0] ++ [0, 0, 0, 0, 3, 0, 3, 0] ++ List.replicate 32 0 ++
    [4, 0, 0, 0, 0, 0, 2, 0] ++ List.replicate 16 0 ++ [1, 0, 0, 0, 23, 0, 0, 0] ++ [4, 0, 0, 0, 1, 0, 1, 0] ++
    [5, 0, 0, 0, 0, 0, 0, 0] ++ [0, 0, 0, 0, 1, 0, 1, 0] ++ [77, 0, 0, 0, 0, 0, 0, 0] ++ [0, 0, 0, 0, 1, 0, 1, 0] ++
    [9, 0, 0, 0, 0, 0, 0, 0] ++ vat ++ [136, 19, 0, 0, 0, 0, 0, 0] ++ List.replicate 8 0

/-- The Call arrives, and the introduction is done with a transport `t`. -/
def introducedRun (vat : List UInt8) (t : Transport) : Vines Unit :=
  let m := frameMessage (oneSegment (introducingCall vat))
  [(quietTransport, .call m.1 m.2.body), (t, .act (.introductionDone 9) rfl)].foldl Vines.step {}

/-- A pointer to the vat. -/
def vatHere : List UInt8 := [0, 0, 0, 0, 1, 0, 1, 0]

theorem introductions_kept_one : ∃ v : Vines Unit, Runs Vines.step Vines.Ok {} v ∧ v.sent = [⟨9, 77, 5000, []⟩] ∧ v.Kept := by
  have hcall : Room Table.empty (callDescriptors (frameMessage (oneSegment (introducingCall vatHere))).1
      (frameMessage (oneSegment (introducingCall vatHere))).2.body) := by decide +kernel
  have hnoted : Runs Vines.step Vines.Ok {} (Vines.step ({} : Vines Unit) (quietTransport,
      .call (frameMessage (oneSegment (introducingCall vatHere))).1
        (frameMessage (oneSegment (introducingCall vatHere))).2.body)) := .tail .refl hcall
  have hdone : ∀ v : Vines Unit, v.Ok (quietTransport, .act (.introductionDone 9) rfl) :=
    fun _ _ _ _ _ => ⟨show 64 ≤ CAPN_RPC_MAX_ANSWER_BYTES by decide, rfl⟩
  have hrun := hnoted.tail (hdone _)
  exact ⟨_, hrun, by decide +kernel, introductions_kept hrun⟩

/-- A Release that cannot be sent is not kept for another try; and a null vat is recorded. -/
theorem introductions_kept_fails :
    let v := introducedRun vatHere ⟨fun _ => -1, fun _ => 64⟩
    let w := introducedRun [0, 0, 0, 0, 0, 0, 0, 0] quietTransport
    (v.log.map fun x => (x.lost, x.nonce, x.released.length)) = [([], none, 0), ([⟨9, 77, 5000, []⟩], some 9, 0)] ∧
    ¬ v.Kept ∧ w.sent = [] ∧ w.log.flatMap (·.lost) = [⟨9, 77, 0, []⟩] ∧ ¬ w.Kept := by
  intro v w
  have hlog : (v.log.map fun x => (x.lost, x.nonce, x.released.length)) =
      [([], none, 0), ([⟨9, 77, 5000, []⟩], some 9, 0)] := by decide +kernel
  have hsent : w.sent = [] := by decide +kernel
  have hlost : w.log.flatMap (·.lost) = [⟨9, 77, 0, []⟩] := by decide +kernel
  refine ⟨hlog, fun h => ?_, hsent, hlost, fun h => ?_⟩
  · obtain ⟨x, hx, hnone⟩ : ∃ x ∈ v.log, x.lost ≠ [] ∧ x.released.length = 0 := by
      have hmem : ([⟨9, 77, 5000, []⟩], some 9, 0) ∈ v.log.map fun x => (x.lost, x.nonce, x.released.length) := by
        rw [hlog]
        decide
      obtain ⟨x, hx, e⟩ := List.mem_map.mp hmem
      simp only [Prod.mk.injEq] at e
      exact ⟨x, hx, by rw [e.1]; exact List.cons_ne_nil _ _, e.2.2⟩
    obtain ⟨hl, -⟩ | ⟨d, -, -, hr⟩ := h.released x hx
    · exact hnone.1 hl
    · rw [hr] at hnone
      cases hnone.2
  · have hperm := h.accounted
    rw [hsent, hlost] at hperm
    have hlen := hperm.length_eq
    rw [List.length_append] at hlen
    simp only [List.length_nil, List.length_singleton] at hlen
    omega

end Capnproto.Rpc

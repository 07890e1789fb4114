import OpenAir.Pdcp.CountWindow
import OpenAir.Pdcp.RoundTrip

/-! Two PDCP entities, and a channel that may lose, repeat and reorder what is sent. -/

namespace OpenAir.Pdcp

open List

structure Sent where
  count : UInt32
  sdu : List Byte
  pdu : List Byte

def Sent.key (x : Sent) : UInt32 × List Byte := (x.count, x.sdu)

def Sdu.key (d : Sdu) : UInt32 × List Byte := (d.count, d.buffer)

def ByCount (a b : UInt32 × List Byte) : Prop := a.1 < b.1

instance : Std.Irrefl ByCount := ⟨fun a => UInt32.lt_irrefl a.1⟩

instance : Std.Antisymm ByCount :=
  ⟨fun _ _ hab hba => absurd (UInt32.lt_trans hab hba) (UInt32.lt_irrefl _)⟩

/-- `arrived` are the COUNTs of the PDUs that have come before `rx_deliv` passed them. -/
structure Link where
  tx : Entity
  rx : Entity
  sent : List Sent := []
  arrived : List UInt32 := []
  log : List (Op × Output) := []

namespace Entity

variable {sec : Security} {c : Config} {e e' : Entity} {sdu pdu : List Byte}

theorem rcvdCount_of_near {n : UInt32} (hlt : n.toNat < e.rxDeliv.toNat + c.windowSize)
    (hge : e.rxDeliv.toNat ≤ n.toNat + c.windowSize) :
    e.rcvdCount c (n.toNat % 2 ^ c.snSize) = n := by
  have hn := n.toNat_lt
  have hcount := toNat_rcvdCount (e := e) (c := c) (Nat.mod_lt n.toNat (Nat.two_pow_pos c.snSize))
  unfold hfnOf at hcount
  unfold Config.windowSize at hlt hge hcount
  rw [← UInt32.toNat_inj]
  rcases c.snSize_eq with h | h <;> rw [h] at hlt hge hcount ⊢ <;> norm_num at hlt hge hcount ⊢ <;>
    split_ifs at hcount <;> omega

theorem processSdu_eq {pduMaxSize : Nat}
    (h : e.processSdu sec c sdu pduMaxSize = some (e', some pdu)) :
    e' = { e with txNext := e.txNext + 1 } ∧ pdu = e.encode sec c sdu := by
  unfold processSdu at h
  split at h
  · cases h
  · split at h <;> cases h
    exact ⟨rfl, rfl⟩

theorem recvPdu_entitySuspended : (e.recvPdu sec c pdu).1.entitySuspended = e.entitySuspended := by
  rw [recvPdu_eq]
  cases e.accepted sec c pdu with
  | none => rfl
  | some d =>
    dsimp only
    unfold startTReordering stopTReordering storeDeliver
    split_ifs <;> rfl

theorem setTime_entitySuspended (now : UInt64) :
    (e.setTime c now).1.entitySuspended = e.entitySuspended := by
  rcases setTime_cases c e now with heq | ⟨-, -, heq⟩ <;> rw [heq]
  unfold expire startTReordering
  split <;> rfl

end Entity

namespace Link

def send (s : Link) (tx : Entity) (sdu pdu : List Byte) : Link :=
  { s with tx, sent := s.sent ++ [⟨s.tx.txNext, sdu, pdu⟩] }

def arrive (s : Link) (x : Sent) (rx : Entity) (out : Output) : Link :=
  { s with
    rx
    arrived := if x.count < s.rx.rxDeliv then s.arrived else x.count :: s.arrived
    log := s.log ++ [(.recvPdu x.pdu, out)] }

/-- The PDU comes less than a window before its turn, and not more than a window after it. -/
def Timely (cr : Config) (s : Link) (x : Sent) : Prop :=
  x.count.toNat < s.rx.rxDeliv.toNat + cr.windowSize ∧
    s.rx.rxDeliv.toNat ≤ x.count.toNat + cr.windowSize

inductive Step (sec : Security) (ct cr : Config) (s : Link) : Op → Link → Prop
  | send {sdu pdu : List Byte} {pduMaxSize : Nat} {tx : Entity} :
      1 + Entity.sdapHeaderSizeTx ct ≤ sdu.length → s.tx.txNext ≠ 0xffffffff →
      s.tx.processSdu sec ct sdu pduMaxSize = some (tx, some pdu) →
      Step sec ct cr s (.processSdu sdu pduMaxSize) (s.send tx sdu pdu)
  | arrive {x : Sent} {out : Output} {rx : Entity} : x ∈ s.sent → s.Timely cr x →
      Pdcp.Step sec cr s.rx (.recvPdu x.pdu, out) rx →
      Step sec ct cr s (.recvPdu x.pdu) (s.arrive x rx out)
  | setTime {now : UInt64} {out : Output} {rx : Entity} :
      Pdcp.Step sec cr s.rx (.setTime now, out) rx →
      Step sec ct cr s (.setTime now) { s with rx, log := s.log ++ [(.setTime now, out)] }

def received (s : Link) : List Sent := s.sent.filter (·.count ∈ s.arrived)

structure Inv (sec : Security) (ct cr : Config) (s : Link) : Prop where
  security : Entity.SameSecurity s.tx s.rx
  active : s.rx.entitySuspended = false
  encoded : ∀ x ∈ s.sent, 1 + Entity.sdapHeaderSizeTx ct ≤ x.sdu.length ∧
    x.pdu = Entity.encode sec ct { s.tx with txNext := x.count } x.sdu
  sorted : s.sent.Pairwise (·.count < ·.count)
  before : ∀ x ∈ s.sent, x.count < s.tx.txNext
  arrived : ∀ n ∈ s.arrived, n < s.tx.txNext
  inOrder : Entity.InOrder sec cr s.log s.rx
  accepted : ∀ k, k ∈ (acceptedSdus s.log).map Sdu.key ↔ k ∈ s.received.map Sent.key

namespace Inv

variable {sec : Security} {ct cr : Config} {s : Link} {x : Sent} {sdu pdu : List Byte}
  {out : Output} {tx rx : Entity} {now : UInt64} {pduMaxSize : Nat}

variable (h : Inv sec ct cr s)
include h

theorem send (hsize : 1 + Entity.sdapHeaderSizeTx ct ≤ sdu.length)
    (hlast : s.tx.txNext ≠ 0xffffffff)
    (hproc : s.tx.processSdu sec ct sdu pduMaxSize = some (tx, some pdu)) :
    Inv sec ct cr (s.send tx sdu pdu) := by
  obtain ⟨rfl, rfl⟩ := Entity.processSdu_eq hproc
  have hnext : s.tx.txNext < s.tx.txNext + 1 := by grind
  refine ⟨h.security, h.active,
    forall_mem_append.mpr ⟨h.encoded, forall_mem_singleton.mpr ⟨hsize, rfl⟩⟩,
    pairwise_append.mpr ⟨h.sorted, pairwise_singleton _ _,
      fun x hx => forall_mem_singleton.mpr (h.before x hx)⟩,
    forall_mem_append.mpr ⟨fun x hx => UInt32.lt_trans (h.before x hx) hnext,
      forall_mem_singleton.mpr hnext⟩,
    fun n hn => UInt32.lt_trans (h.arrived n hn) hnext, h.inOrder, ?_⟩
  -- the new PDU has not arrived
  have hnew : s.tx.txNext ∉ s.arrived := fun hn => UInt32.lt_irrefl _ (h.arrived _ hn)
  have hsame :
      (s.send { s.tx with txNext := s.tx.txNext + 1 } sdu (s.tx.encode sec ct sdu)).received =
      s.received := by
    rw [received, Link.send, filter_append, filter_cons_of_neg (by simpa using hnew), filter_nil,
      append_nil]
    rfl
  rw [hsame]
  exact h.accepted

theorem setTime (hs : Pdcp.Step sec cr s.rx (.setTime now, out) rx) :
    Inv sec ct cr { s with rx, log := s.log ++ [(.setTime now, out)] } := by
  have hinOrder := h.inOrder.step hs rfl rfl
  cases hs
  refine ⟨h.security.trans (Entity.sameSecurity_setTime _ _),
    (Entity.setTime_entitySuspended now).trans h.active, h.encoded, h.sorted, h.before, h.arrived,
    hinOrder, fun k => ?_⟩
  simpa [acceptedSdus, received] using h.accepted k

variable (hm : Matches ct cr) (hdec : sec.Inverts)
include hm hdec

theorem accepts (hx : x ∈ s.sent) (ht : s.Timely cr x) :
    (s.rx.accepted sec cr x.pdu = none ∧ (x.count < s.rx.rxDeliv ∨ x.count ∈ s.arrived)) ∨
      ∃ d, s.rx.accepted sec cr x.pdu = some d ∧ d.key = x.key ∧ ¬ x.count < s.rx.rxDeliv := by
  obtain ⟨hsize, hpdu⟩ := h.encoded x hx
  by_cases hlt : x.count < s.rx.rxDeliv
  · refine .inl ⟨Option.eq_none_iff_forall_ne_some.mpr fun d hd => ?_, .inl hlt⟩
    obtain ⟨hdecode, hle, -⟩ := Entity.accepted_eq_some.mp hd
    obtain ⟨data, hdata⟩ : ∃ data, x.pdu = pduHeader cr (x.count.toNat % 2 ^ cr.snSize) ++ data :=
      hpdu ▸ Entity.encode_header hm _ _
    rw [Entity.decode_count hdecode, hdata, setDcBit_pduHeader,
      rcvdSn_pduHeader (Nat.mod_lt _ (Nat.two_pow_pos _)),
      Entity.rcvdCount_of_near ht.1 ht.2] at hle
    exact UInt32.not_lt.mpr hle hlt
  · obtain ⟨d, hd, hcount, hbuffer⟩ := Entity.decode_encode hm
      (show Entity.SameSecurity { s.tx with txNext := x.count } s.rx from h.security) hdec
      hsize h.active (UInt32.not_lt.mp hlt) ht.1
    rw [← hpdu] at hd
    cases hin : sduInList s.rx.rxList x.count with
    | false =>
      exact .inr ⟨d, Entity.accepted_eq_some.mpr ⟨hd, hcount ▸ UInt32.not_lt.mp hlt, hcount ▸ hin⟩,
        Prod.ext hcount hbuffer, hlt⟩
    | true =>
      refine .inl ⟨Option.eq_none_iff_forall_ne_some.mpr fun d' hd' => ?_, .inr ?_⟩
      · obtain ⟨hdecode, -, hnot⟩ := Entity.accepted_eq_some.mp hd'
        cases hd.symm.trans hdecode
        rw [hcount, hin] at hnot
        cases hnot
      · obtain ⟨d', hd', heq⟩ := any_eq_true.mp hin
        have hmem := h.inOrder.perm.mem_iff.mp (mem_append_right _ hd')
        obtain ⟨y, hy, hkey⟩ := mem_map.mp ((h.accepted _).mp (mem_map_of_mem hmem))
        have hcount : y.count = x.count := (congrArg Prod.fst hkey).trans (of_decide_eq_true heq)
        exact hcount ▸ of_decide_eq_true (mem_filter.mp hy).2

theorem arrive (hx : x ∈ s.sent) (ht : s.Timely cr x)
    (hs : Pdcp.Step sec cr s.rx (.recvPdu x.pdu, out) rx) : Inv sec ct cr (s.arrive x rx out) := by
  have hacc := h.accepts hm hdec hx ht
  have hwrap : s.rx.noWrap sec cr (.recvPdu x.pdu) := by
    rcases hacc with ⟨hnone, -⟩ | ⟨d, hsome, hkey, -⟩
    · simp [Entity.noWrap, hnone]
    · have hcount : d.count = x.count := congrArg Prod.fst hkey
      have hmax : x.count ≠ 0xffffffff := UInt32.ne_of_lt (by have := h.before x hx; grind)
      simp [Entity.noWrap, hsome, hcount, hmax]
  have hinOrder := h.inOrder.step hs rfl hwrap
  cases hs
  refine ⟨h.security.trans (Entity.sameSecurity_recvPdu _ _),
    Entity.recvPdu_entitySuspended.trans h.active,
    h.encoded, h.sorted, h.before, fun n hn => ?_, hinOrder, fun k => ?_⟩
  · have hold := h.arrived n
    have hnow := h.before x hx
    simp only [Link.arrive] at hn ⊢
    grind
  · have hlog : acceptedSdus (s.arrive x (s.rx.recvPdu sec cr x.pdu).1
        { delivered := (s.rx.recvPdu sec cr x.pdu).2, accepted :=
          s.rx.accepted sec cr x.pdu }).log =
        acceptedSdus s.log ++ (s.rx.accepted sec cr x.pdu).toList := by
        simp [acceptedSdus, Link.arrive]
    rw [hlog, map_append, mem_append, h.accepted]
    rcases hacc with ⟨hnone, hold⟩ | ⟨d, hsome, hkey, hlt⟩
    · have hsame : ∀ n, n ∈ (if x.count < s.rx.rxDeliv then s.arrived else x.count :: s.arrived) ↔
          n ∈ s.arrived := by
        grind
      simp [hnone, received, Link.arrive, hsame]
    · have hone : ∀ y ∈ s.sent, y.count = x.count → y = x := fun y hy =>
        inj_on_of_nodup_map (pairwise_map.mpr (h.sorted.imp UInt32.ne_of_lt)) hy hx
      simp only [hsome, Option.toList_some, map_cons, map_nil, hkey, received,
        Link.arrive, if_neg hlt, mem_map, mem_filter, mem_cons, decide_eq_true_eq]
      grind

end Inv

/-- In every run what is delivered, followed by what waits in `rx_list`, are the SDUs whose PDUs
have arrived, each once and in the order in which they were sent. -/
theorem delivered_eq_received {sec : Security} {ct cr : Config} {s : Link} (hm : Matches ct cr)
    (hdec : sec.Inverts) {parameters : SecurityKeysAndAlgos} {e : Entity}
    (hnew : Entity.new parameters = some e)
    {ops : List Op} (h : Run (Step sec ct cr) { tx := e, rx := e } ops s) :
    (delivered s.log ++ s.rx.rxList).map Sdu.key = s.received.map Sent.key := by
  have hinv : Inv sec ct cr s := by
    refine h.invariant (Inv sec ct cr) ?_ fun s op t hi hs => ?_
    · have hre := Entity.reordering_new hnew
      obtain ⟨_, _, _, rfl⟩ := Entity.setSecurity_eq hnew
      exact ⟨.refl _, rfl, by simp, .nil, by simp, by simp,
        ⟨hre, .nil, by simp [delivered], .refl _, by simp⟩, by simp [acceptedSdus, received]⟩
    · cases hs with
      | send hsize hlast hproc => exact hi.send hsize hlast hproc
      | arrive hx ht hstep => exact hi.arrive hm hdec hx ht hstep
      | setTime hstep => exact hi.setTime hstep
  refine List.Pairwise.eq_of_mem_iff (r := ByCount) ?_ ?_ fun k => ?_
  · refine pairwise_map.mpr
      (pairwise_append.mpr ⟨hinv.inOrder.sorted, hinv.inOrder.reordering.sorted, ?_⟩)
    exact fun a ha b hb => UInt32.lt_trans (hinv.inOrder.before a ha)
      (hinv.inOrder.reordering.between b hb).1
  · exact pairwise_map.mpr (hinv.sorted.filter _)
  · rw [← hinv.accepted k]
    exact (hinv.inOrder.perm.map Sdu.key).mem_iff

/-- The PDU with COUNT 1 arrives before the one with COUNT 0, and the latter again. -/
theorem delivered_eq_received_reordered : ∃ ops s,
    Run (Step .small (.small true) (.small false)) { tx := .small, rx := .small } ops s ∧
      s.arrived = [0, 1] ∧ (delivered s.log ++ s.rx.rxList).map Sdu.key =
        [(0, [7, 11]), (1, [7, 12])] := by
  have hrun : Run (Step .small (.small true) (.small false)) { tx := .small, rx := .small }
      [.processSdu [7, 11] 100, .processSdu [7, 12] 100, .recvPdu _, .recvPdu _, .recvPdu _] _ :=
    .cons (.send (by decide) (by decide) rfl) <| .cons (.send (by decide) (by decide) rfl) <|
      .cons (.arrive (.tail _ (.head _)) ⟨by decide, by decide⟩ rfl) <|
        .cons (.arrive (.head _) ⟨by decide, by decide⟩ rfl) <|
          .cons (.arrive (.head _) ⟨by decide, by decide⟩ rfl) .nil
  have hnew : Entity.new .small = some .small := by decide
  have hall := delivered_eq_received Entity.matches_small Entity.inverts_small hnew hrun
  exact ⟨_, _, hrun, by decide, hall.trans (by decide)⟩

end Link

end OpenAir.Pdcp

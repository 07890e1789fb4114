import OpenAir.Gtpu.Consistency
import Mathlib.Data.List.Sort

namespace OpenAir.Gtpu

open List

structure ErrorIndication where
  teidI : Teid
  gtpuPeerAddress : TransportLayerAddr

/-- `gtpv1u_error_indication_ind_t` -/
structure ErrorIndicationInd extends ErrorIndication where
  gtpInstance : Int
  ueId : UeId
  incomingRbId : BitVec 16
  pdusessionId : BitVec 16
  udpPeer : InAddr

namespace Tables

variable (s : Tables)

def gtpv1uFindTunnelByOutgoingTeid (outgoingTeid : Teid) : Option UeidData :=
  -- `std::map` is walked by its keys
  (s.te2ue.keys.insertionSort fun k k' => k.toNat ≤ k'.toNat).findSome? fun k =>
    (s.te2ue.lookup k).filter (·.outgoingTeid = outgoingTeid)

/-- `Gtpv1uHandleError` of a well-formed message: what it returns, and which callback it calls. -/
def gtpv1uHandleError (inst : EndPoint) (indication : ErrorIndication) (udpPeer : InAddr) :
    Int × Option (Nat × ErrorIndicationInd) :=
  match s.gtpv1uFindTunnelByOutgoingTeid indication.teidI with
  | none => (0, none)
  | some tunnel =>
    match tunnel.errorIndicationCallBack with
    | none => (-1, none)
    | some errorCb =>
      (0, some (errorCb,
        { toErrorIndication := indication
          gtpInstance := inst.handle
          ueId := tunnel.ueId
          incomingRbId := tunnel.incomingRbId
          pdusessionId := tunnel.pdusessionId
          udpPeer }))

end Tables

def LeadsTo (s : Tables) (peer : InAddr) (teid : Teid) (ue : UeId) (id : BearerKey) : Prop :=
  ∃ b, s.bearer ue id = some b ∧ b.ip.addr = peer ∧ b.teidOutgoing = teid

structure ReportsRight (inst : EndPoint) (s : Tables) (indication : ErrorIndication)
    (peer : InAddr) : Prop where
  reported : ∀ ue id, LeadsTo s peer indication.teidI ue id →
    ∃ errorCb ind, (s.gtpv1uHandleError inst indication peer).2 = some (errorCb, ind) ∧
      ind.ueId = ue ∧ ind.pdusessionId = pdusessionOf id
  silent : (∀ ue id, ¬ LeadsTo s peer indication.teidI ue id) →
    (s.gtpv1uHandleError inst indication peer).2 = none

structure First (s : Tables) (teid : Teid) (ue : UeId) (id : BearerKey) (b : Bearer) : Prop where
  bearer : s.bearer ue id = some b
  outgoing : b.teidOutgoing = teid
  le : ∀ ue' id' b', s.bearer ue' id' = some b' → b'.teidOutgoing = teid →
    b.teidIncoming.toNat ≤ b'.teidIncoming.toNat

/-- The first tunnel with the TEID, if there is one, is reported as the only one that leads to the
peer with it. -/
def FirstIsMeant (s : Tables) (peer : InAddr) (teid : Teid) : Prop :=
  ∀ ue id b, First s teid ue id b → (∃ ue' id', LeadsTo s peer teid ue' id') ∧
    ∀ ue' id', LeadsTo s peer teid ue' id' → ue' = ue ∧ pdusessionOf id' = pdusessionOf id

def Listens (ls : List Event) : Prop :=
  ∀ l ∈ ls, ∀ c, l.1.callbacks = some c → c.errorIndicationCallBack.isSome

def Named (s : Tables) : Prop :=
  ∀ ue id b d, s.bearer ue id = some b → s.te2ue.lookup b.teidIncoming = some d →
    d.pdusessionId = pdusessionOf id

variable {g : Teid → Option Callbacks} {s t : Tables} {ueId oldUeId newUeId : UeId}
  {key : BearerKey}
  {old new : Bearer} {data d : UeidData} {P : UeId → BearerKey → Prop} {teid : Teid}

namespace Named

theorem added (hn : Named s) (hc : Consistent g s) (he : Added s t ueId key new data)
    (hdata : data.pdusessionId = pdusessionOf key) : Named t := by
  intro ue id b d hb hd
  rw [he.bearer] at hb
  rw [he.entry] at hd
  split at hb
  · next heq =>
    cases hb
    rw [if_pos rfl] at hd
    cases hd
    rw [heq.2, hdata]
  · rw [if_neg (hc.teid_ne_of_fresh he.fresh hb)] at hd
    exact hn _ _ _ _ hb hd

theorem removed (hn : Named s) (he : Removed s t P) : Named t := fun _ _ _ _ hb hd =>
  hn _ _ _ _ (Consistent.removed_bearer he hb).2 (Consistent.removed_entry he hd).1

theorem renamed (hn : Named s) (hc : Consistent g s) (he : Renamed s t oldUeId newUeId) :
    Named t := by
  intro ue id b d hb hd
  rcases Consistent.renamed_bearer he hb with ⟨_, hb⟩ | ⟨hold, _, hb⟩
  · rw [he.entry_moved _ _ hb] at hd
    obtain ⟨d', hd', rfl⟩ := Option.map_eq_some_iff.mp hd
    exact hn _ _ _ d' hb hd'
  · rw [hc.renamed_lookup he hold hb] at hd
    exact hn _ _ _ _ hb hd

theorem readdressed (hn : Named s) (he : Readdressed s t ueId key old new) : Named t := by
  intro ue id b d hb hd
  obtain ⟨b', hb', hin, _⟩ := Consistent.readdressed_bearer he hb
  rw [he.entry, hin] at hd
  exact hn _ _ _ _ hb' hd

theorem step {inst : EndPoint} {l : Event} (hn : Named s) (hc : Consistent g s)
    (h : GoodStep inst s l t) : Named t := by
  cases h.effect hc with
  | added he _ _ _ _ _ _ hid => exact hn.added hc he hid
  | removed he => exact hn.removed he
  | renamed he => exact hn.renamed hc he
  | readdressed he => exact hn.readdressed he

end Named

theorem agree_of_run {inst : EndPoint} {ls : List Event} (hrun : Run (GoodStep inst) {} ls s) :
    Consistent (given ls) s ∧ Named s :=
  hrun.trace_invariant (fun ls s => Consistent (given ls) s ∧ Named s)
    ⟨.empty _, by rintro _ _ _ _ ⟨⟩⟩ fun _ _ _ _ h hstep => ⟨(h.1.step hstep).1, h.2.step h.1 hstep⟩

theorem Listens.isSome_of_given {ls : List Event} (hl : Listens ls) {c : Callbacks}
    (h : given ls teid = some c) : c.errorIndicationCallBack.isSome := by
  induction ls using List.reverseRecOn with
  | nil => cases h
  | append_singleton ls l ih =>
    rw [given_append] at h
    split at h
    · exact hl l (by simp) c h
    · exact ih (fun l' hl' => hl l' (mem_append_left _ hl')) h

section Lookup

theorem lookup_of_find (h : s.gtpv1uFindTunnelByOutgoingTeid teid = some d) :
    ∃ k, s.te2ue.lookup k = some d ∧ d.outgoingTeid = teid ∧
      ∀ k' d', s.te2ue.lookup k' = some d' → d'.outgoingTeid = teid → k.toNat ≤ k'.toNat := by
  obtain ⟨l₁, k, l₂, hl, hk, hbefore⟩ := List.findSome?_eq_some_iff.mp h
  obtain ⟨hd, hout⟩ := Option.filter_eq_some_iff.mp hk
  refine ⟨k, hd, of_decide_eq_true hout, fun k' d' hd' hout' => ?_⟩
  have : Std.Total fun k k' : Teid => k.toNat ≤ k'.toNat := ⟨fun _ _ => Nat.le_total _ _⟩
  have : IsTrans Teid fun k k' => k.toNat ≤ k'.toNat := ⟨fun _ _ _ => Nat.le_trans⟩
  have hsorted := pairwise_insertionSort (fun k k' : Teid => k.toNat ≤ k'.toNat) s.te2ue.keys
  have hmem := (mem_insertionSort fun k k' : Teid => k.toNat ≤ k'.toNat).mpr
    (StdMap.mem_keys_iff.mpr ⟨d', hd'⟩)
  rw [hl] at hsorted hmem
  rcases mem_append.mp hmem with hk' | hk'
  · have := hbefore k' hk'
    simp [hd', hout'] at this
  · rcases mem_cons.mp hk' with rfl | hk'
    · exact le_refl _
    · exact (pairwise_cons.mp (pairwise_append.mp hsorted).2.1).1 k' hk'

theorem ne_of_find (h : s.gtpv1uFindTunnelByOutgoingTeid teid = none) {k : Teid}
    (hd : s.te2ue.lookup k = some d) : d.outgoingTeid ≠ teid := by
  have hk := List.findSome?_eq_none_iff.mp h k
    ((mem_insertionSort _).mpr (StdMap.mem_keys_iff.mpr ⟨d, hd⟩))
  simpa [hd] using hk

variable (hc : Consistent g s)

include hc

theorem Consistent.first_of_find (h : s.gtpv1uFindTunnelByOutgoingTeid teid = some d) :
    ∃ ue id b, First s teid ue id b ∧ s.te2ue.lookup b.teidIncoming = some d ∧ d.ueId = ue := by
  obtain ⟨k, hd, hout, hle⟩ := lookup_of_find h
  obtain ⟨ue, id, b, hb, rfl⟩ := hc.bearer_of_entry _ _ hd
  obtain ⟨d', hd', hue, hout'⟩ := hc.entry_of_bearer _ _ _ hb
  obtain rfl : d = d' := Option.some.inj (hd.symm.trans hd')
  refine ⟨ue, id, b, ⟨hb, hout'.symm.trans hout, fun _ _ _ hb₁ hout₁ => ?_⟩, hd, hue⟩
  obtain ⟨d₁, hd₁, _, hcopy⟩ := hc.entry_of_bearer _ _ _ hb₁
  exact hle _ _ hd₁ (hcopy.trans hout₁)

theorem First.unique {ue ue' : UeId} {id id' : BearerKey} {b b' : Bearer} (h : First s teid ue id b)
    (h' : First s teid ue' id' b') : ue = ue' ∧ id = id' :=
  hc.injective _ _ _ _ _ _ h.bearer h'.bearer (BitVec.eq_of_toNat_eq
    (Nat.le_antisymm (h.le _ _ _ h'.bearer h'.outgoing) (h'.le _ _ _ h.bearer h.outgoing)))

theorem Consistent.no_bearer_of_find (h : s.gtpv1uFindTunnelByOutgoingTeid teid = none) {ue : UeId}
    {id : BearerKey} {b : Bearer} (hb : s.bearer ue id = some b) : b.teidOutgoing ≠ teid := by
  obtain ⟨d, hd, _, hcopy⟩ := hc.entry_of_bearer _ _ _ hb
  exact hcopy ▸ ne_of_find h hd

end Lookup

theorem errorReport_right_iff (inst : EndPoint) (ls : List Event) (s : Tables)
    (hrun : Run (GoodStep inst) {} ls s) (hl : Listens ls) (indication : ErrorIndication)
    (peer : InAddr) :
    ReportsRight inst s indication peer ↔ FirstIsMeant s peer indication.teidI := by
  obtain ⟨hc, hn⟩ := agree_of_run hrun
  cases hfind : s.gtpv1uFindTunnelByOutgoingTeid indication.teidI with
  | none =>
    constructor
    · intro _ ue id b hfirst
      exact absurd hfirst.outgoing (hc.no_bearer_of_find hfind hfirst.bearer)
    · refine fun _ => ⟨?_, fun _ => by rw [Tables.gtpv1uHandleError, hfind]⟩
      rintro ue id ⟨b, hb, _, hout⟩
      exact absurd hout (hc.no_bearer_of_find hfind hb)
  | some d =>
    obtain ⟨ue, id, b, hfirst, hd, hue⟩ := hc.first_of_find hfind
    obtain ⟨errorCb, hcb⟩ := Option.isSome_iff_exists.mp (hl.isSome_of_given (hc.callbacks _ _ hd))
    obtain ⟨ind, hcall, hind, hid⟩ : ∃ ind,
        (s.gtpv1uHandleError inst indication peer).2 = some (errorCb, ind) ∧
          ind.ueId = ue ∧ ind.pdusessionId = pdusessionOf id := by
      rw [Tables.gtpv1uHandleError, hfind]
      dsimp only
      rw [hcb]
      exact ⟨_, rfl, hue, hn _ _ _ _ hfirst.bearer hd⟩
    constructor
    · intro h ue₁ id₁ b₁ hfirst₁
      obtain ⟨rfl, rfl⟩ := hfirst.unique hc hfirst₁
      constructor
      · by_contra hnone
        push Not at hnone
        rw [h.silent hnone] at hcall
        cases hcall
      · intro ue' id' hleads
        obtain ⟨errorCb', ind', hcall', hue', hid'⟩ := h.reported ue' id' hleads
        rw [hcall] at hcall'
        cases hcall'
        exact ⟨hue'.symm.trans hind, hid'.symm.trans hid⟩
    · intro h
      obtain ⟨⟨ue', id', hleads⟩, hsame⟩ := h ue id b hfirst
      constructor
      · intro ue₁ id₁ hleads₁
        obtain ⟨rfl, hid₁⟩ := hsame _ _ hleads₁
        exact ⟨errorCb, ind, hcall, hind, hid.trans hid₁.symm⟩
      · exact fun hnone => absurd hleads (hnone _ _)

def peerB : TransportLayerAddr where
  length := 32
  buffer := .ofFn fun i => if i.val = 0 then 127 else if i.val = 3 then 2 else 0

def createBoth : List Op :=
  [.createTunnel 1 1 1 9 loopback { errorIndicationCallBack := some 0 }
      [⟨⟨4, by decide⟩, ⟨0, by decide⟩⟩],
    .createTunnel 2 1 1 9 peerB { errorIndicationCallBack := some 0 }
      [⟨⟨6, by decide⟩, ⟨0, by decide⟩⟩]]

theorem createBoth_run : Run (GoodStep localEndPoint) {}
    (createBoth.zip [.teid 5, .teid 7]) (after 0 createBoth) :=
  .cons (t := after 0 (createBoth.take 1)) ⟨⟨0, rfl⟩, rfl⟩ (.cons ⟨⟨0, rfl⟩, rfl⟩ .nil)

theorem createBoth_listens : Listens (createBoth.zip [.teid 5, .teid 7]) := by
  intro l hl c hc
  simp only [createBoth, zip_cons_cons, zip_nil_right, mem_cons, not_mem_nil,
    or_false] at hl
  rcases hl with rfl | rfl <;> cases hc <;> rfl

theorem createBoth_bearer {ue : UeId} {id : BearerKey} {b : Bearer}
    (h : (after 0 createBoth).bearer ue id = some b) :
    (ue = 2 ∧ id = 1 ∧ b.ip.addr = peerB.inAddr ∧ b.teidIncoming = 7) ∨
      (ue = 1 ∧ id = 1 ∧ b.ip.addr = loopback.inAddr ∧ b.teidIncoming = 5) := by
  have hlast := Tables.bearer_setBearer.symm.trans h
  split at hlast
  · next heq =>
    cases hlast
    exact .inl ⟨heq.1, heq.2, rfl, rfl⟩
  · have hfirst := Tables.bearer_setBearer.symm.trans hlast
    split at hfirst
    · next heq =>
      cases hfirst
      exact .inr ⟨heq.1, heq.2, rfl, rfl⟩
    · cases hfirst

theorem errorReport_right_iff_first :
    ReportsRight localEndPoint (after 0 createBoth) ⟨9, loopback⟩ loopback.inAddr := by
  have hmeant : FirstIsMeant (after 0 createBoth) loopback.inAddr 9 := by
    intro ue id b hfirst
    rcases createBoth_bearer hfirst.bearer with ⟨_, _, _, hin⟩ | ⟨rfl, rfl, _⟩
    · have := hfirst.le 1 1 _ rfl rfl
      rw [hin] at this
      exact absurd this (by decide)
    · refine ⟨⟨1, 1, _, rfl, rfl, rfl⟩, ?_⟩
      rintro ue' id' ⟨b', hb', haddr, _⟩
      rcases createBoth_bearer hb' with ⟨_, _, haddr', _⟩ | ⟨rfl, rfl, _⟩
      · exact absurd (haddr.symm.trans haddr') (by decide)
      · exact ⟨rfl, rfl⟩
  exact (errorReport_right_iff _ _ _ createBoth_run createBoth_listens _ _).mpr hmeant

/-- The second peer's Error Indication for its TEID 9 is reported for UE 1. -/
theorem not_forall_errorReport_right : ¬ ∀ (inst : EndPoint) (ls : List Event) (s : Tables),
    Run (Step inst) {} ls s → Listens ls →
    ∀ indication peer, ReportsRight inst s indication peer := by
  intro hclaim
  have hright := hclaim _ _ _ (createBoth_run.mono fun _ _ _ h => h.1) createBoth_listens ⟨9, peerB⟩
    peerB.inAddr
  obtain ⟨errorCb, ind, hcall, hue, _⟩ := hright.reported 2 1 ⟨_, rfl, by decide, rfl⟩
  have hone : ((after 0 createBoth).gtpv1uHandleError localEndPoint ⟨9, peerB⟩ peerB.inAddr).2.map
      (·.2.ueId) = some 1 := by decide
  rw [hcall] at hone
  exact absurd (hue.symm.trans (Option.some.inj hone)) (by decide)

end OpenAir.Gtpu

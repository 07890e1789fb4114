import OpenAir.Pdcp.Link
import OpenAir.Rlc.Um.RoundTrip

/-! A DRB over RLC UM: the PDUs of PDCP are the SDUs of RLC. -/

namespace OpenAir.Pdcp

namespace Entity

variable (sec : Security) (c : Config)

/-- `nr_pdcp_data_req_drb` for one SDU after the other; no PDU is handed to RLC where `process_sdu`
returns -1. -/
def dataReqDrb : Entity → List (List Byte) → Option (Entity × List (List Byte))
  | e, [] => some (e, [])
  | e, sdu :: sdus => do
    let (e, pdu) ← e.processSdu sec c sdu (maxPdcpPduSize sdu.length)
    let (e, pdus) ← e.dataReqDrb sdus
    return (e, pdu.toList ++ pdus)

/-- `do_pdcp_data_ind` for one PDU after the other. -/
def dataInd : Entity → List (List Byte) → Entity × List Sdu
  | e, [] => (e, [])
  | e, pdu :: pdus =>
    let r := e.recvPdu sec c pdu
    let r' := r.1.dataInd pdus
    (r'.1, r.2 ++ r'.2)

structure InSync (et er : Entity) : Prop where
  security : SameSecurity et er
  active : et.entitySuspended = false ∧ er.entitySuspended = false
  next : er.rxDeliv = et.txNext
  empty : er.rxList = []

variable {sec c} {ct cr : Config} {et er et' : Entity} {sdu : List Byte}
  {sdus pdus : List (List Byte)}

variable (hm : Matches ct cr) (hdec : sec.Inverts)
include hm hdec

theorem InSync.recvPdu (h : InSync et er) (hsize : 1 + sdapHeaderSizeTx ct ≤ sdu.length) :
    InSync { et with txNext := et.txNext + 1 } (er.recvPdu sec cr (et.encode sec ct sdu)).1 ∧
      (er.recvPdu sec cr (et.encode sec ct sdu)).2.map (·.buffer) = [sdu] := by
  have hwindow : 0 < cr.windowSize := Nat.two_pow_pos _
  obtain ⟨s, hs, hcount, hbuffer⟩ := decode_encode hm h.security hdec hsize h.active.2
    (UInt32.le_of_eq h.next) (by rw [h.next]; omega)
  have hturn : s.count = er.rxDeliv := hcount.trans h.next.symm
  have hacc : er.accepted sec cr (et.encode sec ct sdu) = some s :=
    accepted_eq_some.mpr ⟨hs, UInt32.le_of_eq hturn.symm, by rw [h.empty]; rfl⟩
  have hdeliver : er.storeDeliver s =
      ({ er.store s with rxList := [], rxDeliv := er.rxDeliv + 1 }, [s]) := by
    simp [storeDeliver, store, deliver, h.empty, sduListAdd, deliverFrom, hturn]
  refine ⟨⟨h.security.trans (sameSecurity_recvPdu _ _),
    ⟨h.active.1, recvPdu_entitySuspended.trans h.active.2⟩,
    ?_, ?_⟩, ?_⟩ <;> simp [recvPdu_eq, hacc, hdeliver, h.next, hbuffer]

theorem InSync.dataInd (h : InSync et er)
    (hsize : ∀ sdu ∈ sdus, 1 + sdapHeaderSizeTx ct ≤ sdu.length)
    (hreq : et.dataReqDrb sec ct sdus = some (et', pdus)) :
    InSync et' (er.dataInd sec cr pdus).1 ∧ (er.dataInd sec cr pdus).2.map (·.buffer) = sdus := by
  induction sdus generalizing et er pdus with
  | nil =>
    cases hreq
    exact ⟨h, rfl⟩
  | cons sdu sdus ih =>
    have hproc : et.processSdu sec ct sdu (maxPdcpPduSize sdu.length) =
        some ({ et with txNext := et.txNext + 1 }, some (et.encode sec ct sdu)) := by
      simp [processSdu, h.active.1]
    obtain ⟨⟨e, rest⟩, hrest, heq⟩ :
      ∃ r, dataReqDrb sec ct { et with txNext := et.txNext + 1 } sdus = some r ∧
        (r.1, et.encode sec ct sdu :: r.2) = (et', pdus) := by
      simpa [dataReqDrb, hproc, Option.bind_eq_some_iff] using hreq
    cases heq
    obtain ⟨hnext, hone⟩ := h.recvPdu hm hdec (hsize sdu (by simp))
    obtain ⟨hend, hall⟩ := ih hnext (fun d hd => hsize d (by simp [hd])) hrest
    exact ⟨hend, by simp [Entity.dataInd, hone, hall]⟩

end Entity

open Rlc.Um.Entity (deliveries receiverConfig)

/-- Over a channel that neither loses nor reorders the SDUs given to one side of the bearer are
those the other side delivers, whatever the sizes RLC is given for its PDUs. -/
theorem um_bearer_delivers {sec : Security} {ct cr : Config} {et er et' : Entity}
    {sdus pdus : List (List Byte)} {c c' : Rlc.Um.Config} {ls rs : List (Rlc.Um.Op × Rlc.Um.Output)}
    {e r : Rlc.Um.Entity} (hm : Matches ct cr) (hdec : sec.Inverts) (hsync : Entity.InSync et er)
    (hsize : ∀ sdu ∈ sdus, 1 + Entity.sdapHeaderSizeTx ct ≤ sdu.length)
    (hreq : et.dataReqDrb sec ct sdus = some (et', pdus))
    (hsn : c.snFieldLength = c'.snFieldLength) (hmax : (Rlc.sduMax : Int) ≤ c'.rxMaxsize)
    (ht : Run (fun s l t => Rlc.Um.Step c s l t ∧
      (s.transmits l.1 = true ∧ s.keepsTxSize c l.1 = true)) (.new c) ls e)
    (hempty : e.tx.txList = []) (hsdus : Rlc.Um.Entity.sdus ls = pdus)
    (hr : Run (fun s l t => Rlc.Um.Step c' s l t ∧ l.1.receives = true) (.new c') rs r)
    (hpdus : Rlc.Um.Entity.received rs = Rlc.Um.Entity.pdus ls) :
    (er.dataInd sec cr ((deliveries rs).map (·.sdu))).2.map (·.buffer) = sdus := by
  have hdelivered := (Rlc.Um.Entity.delivers_of_txList hsn hmax ht hempty).2 rs r hr hpdus
  rw [hdelivered, hsdus]
  exact (hsync.dataInd hm hdec hsize hreq).2

/-- An SDU whose PDU goes through RLC in two segments. -/
theorem um_bearer_delivers_segments : ∃ rs r,
    Run (fun s l t => Rlc.Um.Step receiverConfig s l t ∧ l.1.receives = true)
      (.new receiverConfig) rs r ∧
    (Entity.small.dataInd .small (.small false) ((deliveries rs).map (·.sdu))).2.map (·.buffer) =
      [[7, 11]] := by
  let pdu : List Byte := [128, 0, 7, 81, 200, 200, 200, 200]
  have hreq : Entity.small.dataReqDrb .small (.small true) [[7, 11]] =
      some ({ Entity.small with txNext := 1 }, [pdu]) := by decide
  have hobs : (Rlc.Um.execAll .twelve 5
      (fun e op => e.transmits op && e.keepsTxSize .twelve op) (.new .twelve)
      [.recvSdu pdu 7, .generatePdu 5, .generatePdu 10]).map
        (fun r => (r.1.tx.txList, Rlc.Um.Entity.sdus r.2)) = some ([], [pdu]) := by decide
  obtain ⟨⟨e, ls⟩, hrun, heq⟩ := Option.map_eq_some_iff.mp hobs
  obtain ⟨hempty, hsdus⟩ := Prod.mk.inj heq
  have ht : Run (fun s l t => Rlc.Um.Step .twelve s l t ∧ (s.transmits l.1 = true ∧
      s.keepsTxSize .twelve l.1 = true)) (.new .twelve) ls e :=
    (Rlc.Um.execAll_run hrun).mono fun _ _ _ hs => ⟨hs.1, Bool.and_eq_true_iff.mp hs.2⟩
  have hsn : Rlc.Um.Config.twelve.snFieldLength = receiverConfig.snFieldLength := rfl
  obtain ⟨⟨rs, r, hr, hpdus⟩, -⟩ := Rlc.Um.Entity.delivers_of_txList hsn (by decide) ht hempty
  exact ⟨rs, r, hr, um_bearer_delivers Entity.matches_small Entity.inverts_small
    ⟨.refl _, ⟨rfl, rfl⟩, rfl, rfl⟩ (by decide) hreq hsn (by decide) ht hempty hsdus hr hpdus⟩

end OpenAir.Pdcp

import OpenAir.Pdcp.Delivery

namespace OpenAir.Pdcp

open List

variable {sec : Security} {c ct cr : Config} {s : Sdu} {l : List Sdu} {n : UInt32} {sn : Nat}
  {sdu pdu data : List Byte}

theorem deliverFrom_append (n : UInt32) (l : List Sdu) :
    (deliverFrom n l).1 ++ (deliverFrom n l).2.1 = l := by
  induction l generalizing n with
  | nil => rfl
  | cons s l ih =>
    rw [deliverFrom]
    split
    · exact congrArg (s :: ·) (ih _)
    · rfl

def Security.Inverts (sec : Security) : Prop := ∀ ctx buffer bearer count direction,
  sec.decipher ctx (sec.cipher ctx buffer bearer count direction) bearer count direction = buffer

structure Matches (ct cr : Config) : Prop where
  type : cr.type = ct.type
  rbId : cr.rbId = ct.rbId
  snSize : cr.snSize = ct.snSize
  isGnb : cr.isGnb = !ct.isGnb
  hasSdap : cr.hasSdapRx = ct.hasSdapTx

namespace Matches

variable (h : Matches ct cr)
include h

theorem headerSize : cr.headerSize = ct.headerSize := by
  simp only [Config.headerSize, h.snSize]

theorem direction : cr.rxDirection = ct.txDirection := by
  unfold Config.rxDirection Config.txDirection
  rw [h.isGnb]
  cases ct.isGnb <;> rfl

theorem pduHeader : pduHeader cr = pduHeader ct := by
  funext sn
  simp only [Pdcp.pduHeader, h.type, h.snSize]

theorem sdapHeaderSize : Entity.sdapHeaderSizeRx cr = Entity.sdapHeaderSizeTx ct := by
  simp only [Entity.sdapHeaderSizeRx, Entity.sdapHeaderSizeTx, h.hasSdap]

end Matches

namespace Entity

variable {e et er et' : Entity}

theorem mem_of_accepted (h : e.accepted sec c pdu = some s) :
    s ∈ (e.recvPdu sec c pdu).2 ∨ s ∈ (e.recvPdu sec c pdu).1.rxList := by
  have hmem : s ∈ (e.store s).rxList := mem_sduListAdd.mpr (.inl rfl)
  rw [recvPdu_eq, h]
  dsimp only
  rw [startTReordering_rxList, stopTReordering_rxList]
  unfold storeDeliver
  split
  · rw [← deliverFrom_append (e.store s).rxDeliv (e.store s).rxList] at hmem
    exact mem_append.mp hmem
  · exact .inr hmem

def plain (sec : Security) (c : Config) (e : Entity) (sdu : List Byte) : List Byte :=
  pduHeader c (e.txNext &&& .ofNat c.snMax).toNat ++ sdu ++
    e.macI sec c (pduHeader c (e.txNext &&& .ofNat c.snMax).toNat ++ sdu)

theorem length_macI (e : Entity) (buffer : List Byte) :
    (e.macI sec c buffer).length = e.integritySize c := by
  unfold macI integritySize
  cases e.hasIntegrity with
  | true => simp [sec.length_integrity]
  | false => simp

theorem length_plain (e : Entity) (sdu : List Byte) :
    (e.plain sec c sdu).length = c.headerSize + sdu.length + e.integritySize c := by
  simp only [plain, length_append, length_pduHeader, length_macI]

theorem ciphered_eq_append (e : Entity) (header data : List Byte)
    (hlen : header.length ≤ c.headerSize + sdapHeaderSizeTx c) :
    ∃ data', e.ciphered sec c (header ++ data) = header ++ data' := by
  unfold ciphered
  split
  · dsimp only
    rw [take_append, take_of_length_le hlen, append_assoc]
    exact ⟨_, rfl⟩
  · exact ⟨data, rfl⟩

theorem length_ciphered (e : Entity) (buffer : List Byte) :
    (e.ciphered sec c buffer).length = buffer.length := by
  unfold ciphered
  split
  · simp only [length_append, sec.length_cipher, length_take, length_drop]
    omega
  · rfl

section

variable (hm : Matches ct cr) (hs : SameSecurity et er)
include hm hs

theorem integritySize_eq : er.integritySize cr = et.integritySize ct := by
  simp only [integritySize, hs.2.1, hm.type]

theorem deciphered_ciphered (hdec : sec.Inverts)
    {buffer : List Byte} (hlen : ct.headerSize + sdapHeaderSizeTx ct ≤ buffer.length) :
    er.deciphered sec cr et.txNext (et.ciphered sec ct buffer) = buffer := by
  unfold deciphered ciphered
  rw [hs.1]
  split
  · dsimp only
    have htake : (buffer.take (ct.headerSize + sdapHeaderSizeTx ct)).length =
        ct.headerSize + sdapHeaderSizeTx ct := length_take_of_le hlen
    rw [hm.headerSize, hm.sdapHeaderSize, hm.direction, hm.rbId, hs.2.2.1,
      take_left' htake, drop_left' htake, hdec, take_append_drop]
  · rfl

omit hs in
theorem encode_header (et : Entity) (sdu : List Byte) : ∃ data, et.encode sec ct sdu =
    pduHeader cr (et.txNext.toNat % 2 ^ cr.snSize) ++ data := by
  have hmask : (et.txNext &&& .ofNat ct.snMax).toNat = et.txNext.toNat % 2 ^ cr.snSize := by
    rw [Config.snMax, toNat_snMask _ ct.snSize_lt, hm.snSize]
  unfold encode
  dsimp only
  rw [hm.pduHeader, hmask, append_assoc]
  exact ciphered_eq_append et _ _ (by rw [length_pduHeader]; omega)

theorem macPasses_plain : er.macPasses sec cr et.txNext (et.plain sec ct sdu) := by
  unfold macPasses
  cases hi : er.hasIntegrity with
  | false => rfl
  | true =>
    have hlen : (et.plain sec ct sdu).length - er.integritySize cr =
        (pduHeader ct (et.txNext &&& .ofNat ct.snMax).toNat ++ sdu).length := by
      rw [length_plain, integritySize_eq hm hs, length_append, length_pduHeader]
      omega
    rw [hlen, plain, take_left, drop_left, macI, ← hs.2.1, hi, hm.rbId, hm.direction,
      hs.2.2.2]
    simp

theorem decode_encode (hdec : sec.Inverts)
    (hsize : 1 + sdapHeaderSizeTx ct ≤ sdu.length) (hactive : er.entitySuspended = false)
    (hle : er.rxDeliv ≤ et.txNext) (hlt : et.txNext.toNat < er.rxDeliv.toNat + cr.windowSize) :
    ∃ s, er.decode sec cr (et.encode sec ct sdu) = some s ∧ s.count = et.txNext ∧
      s.buffer = sdu := by
  have hplain : et.encode sec ct sdu = et.ciphered sec ct (et.plain sec ct sdu) := rfl
  have hlen : (et.encode sec ct sdu).length = ct.headerSize + sdu.length + et.integritySize ct := by
    rw [hplain, length_ciphered, length_plain]
  have hheader : ∃ data, et.encode sec ct sdu =
    pduHeader cr (et.txNext.toNat % 2 ^ cr.snSize) ++ data := encode_header hm et sdu
  have hdc : setDcBit cr (et.encode sec ct sdu) = et.encode sec ct sdu := by
    obtain ⟨data, hdata⟩ := hheader
    rw [hdata, setDcBit_pduHeader]
  have hcount : er.rcvdCount cr (rcvdSn cr (et.encode sec ct sdu)) = et.txNext := by
    obtain ⟨data, hdata⟩ := hheader
    rw [hdata, rcvdSn_pduHeader (Nat.mod_lt _ (Nat.two_pow_pos _)), rcvdCount_eq hle hlt]
  have hdeciphered :
      er.deciphered sec cr et.txNext (et.encode sec ct sdu) = et.plain sec ct sdu := by
    rw [hplain]
    exact deciphered_ciphered hm hs hdec (by rw [length_plain]; omega)
  unfold decode
  rw [hactive, if_neg Bool.false_ne_true, if_neg (by omega)]
  dsimp only
  rw [hdc, hcount, hdeciphered, hm.headerSize, hm.sdapHeaderSize, integritySize_eq hm hs,
    if_neg (by omega), macPasses_plain hm hs, if_pos rfl]
  refine ⟨_, rfl, rfl, ?_⟩
  dsimp only
  have htake : (et.plain sec ct sdu).length - et.integritySize ct =
      (pduHeader ct (et.txNext &&& .ofNat ct.snMax).toNat ++ sdu).length := by
    rw [length_plain, length_append, length_pduHeader]
    omega
  rw [htake, plain, take_left, drop_left' (length_pduHeader ct _)]

/-- A receiver that is not suspended stores or delivers the SDU of a PDU whose COUNT is in its
window and new. -/
theorem recvPdu_processSdu {pduMaxSize : Nat} (hdec : sec.Inverts)
    (hsize : 1 + sdapHeaderSizeTx ct ≤ sdu.length) (hle : er.rxDeliv ≤ et.txNext)
    (hlt : et.txNext.toNat < er.rxDeliv.toNat + cr.windowSize)
    (hnew : sduInList er.rxList et.txNext = false)
    (hproc : et.processSdu sec ct sdu pduMaxSize = some (et', some pdu))
    (hactive : er.entitySuspended = false) :
    ∃ s, er.accepted sec cr pdu = some s ∧ s.count = et.txNext ∧ s.buffer = sdu ∧
      er.Authentic sec cr pdu s ∧
      (s ∈ (er.recvPdu sec cr pdu).2 ∨ s ∈ (er.recvPdu sec cr pdu).1.rxList) := by
  have hpdu : pdu = et.encode sec ct sdu := by
    unfold processSdu at hproc
    split at hproc
    · cases hproc
    · split at hproc
      · cases hproc
      · cases hproc
        rfl
  obtain ⟨s, hs', hcount, hbuffer⟩ := decode_encode hm hs hdec hsize hactive hle hlt
  rw [← hpdu] at hs'
  have hacc : er.accepted sec cr pdu = some s :=
    accepted_eq_some.mpr ⟨hs', hcount ▸ hle, hcount ▸ hnew⟩
  exact ⟨s, hacc, hcount, hbuffer, authentic_of_decode hs', mem_of_accepted hacc⟩

end

theorem inverts_small : Security.small.Inverts := by
  intro ctx buffer bearer count direction
  have hxor (b k n : Byte) : b ^^^ k ^^^ n ^^^ k ^^^ n = b := by
    rw [BitVec.xor_assoc (b ^^^ k), BitVec.xor_assoc (b ^^^ k), BitVec.xor_comm n k,
      BitVec.xor_assoc k, BitVec.xor_self, BitVec.xor_zero, BitVec.xor_assoc, BitVec.xor_self,
      BitVec.xor_zero]
  simp only [Security.small, map_map]
  exact (map_congr_left fun b _ => hxor b _ _).trans (map_id _)

theorem matches_small : Matches (.small true) (.small false) := ⟨rfl, rfl, rfl, rfl, rfl⟩

theorem recvPdu_processSdu_stored :
    ∃ et' pdu s, processSdu .small (.small true) { small with txNext := 1 } [7, 11] 100 =
        some (et', some pdu) ∧
      small.accepted .small (.small false) pdu = some s ∧ s.count = 1 ∧ s.buffer = [7, 11] ∧
      (s ∈ (small.recvPdu .small (.small false) pdu).2 ∨
        s ∈ (small.recvPdu .small (.small false) pdu).1.rxList) := by
  have hproc : processSdu .small (.small true) { small with txNext := 1 } [7, 11] 100 = some
      ({ small with txNext := 2 }, some [128, 1, 7, 80, 207, 207, 207, 207]) := by decide
  obtain ⟨s, hacc, hcount, hbuffer, -, hmem⟩ := recvPdu_processSdu matches_small
    (show SameSecurity { small with txNext := 1 } small from .refl small) inverts_small (by decide)
    (by decide) (by decide) rfl hproc rfl
  exact ⟨_, _, s, hproc, hacc, hcount, hbuffer, hmem⟩

/-- A suspended receiver drops the PDU. -/
theorem not_forall_recvPdu_processSdu :
    ¬ ∀ (sec : Security) (ct cr : Config) (et er et' : Entity) (sdu pdu : List Byte)
      (pduMaxSize : Nat), Matches ct cr → SameSecurity et er →
      sec.Inverts → 1 + sdapHeaderSizeTx ct ≤ sdu.length → er.rxDeliv ≤ et.txNext →
      et.txNext.toNat < er.rxDeliv.toNat + cr.windowSize →
      sduInList er.rxList et.txNext = false →
      et.processSdu sec ct sdu pduMaxSize = some (et', some pdu) →
      ∃ s, s.count = et.txNext ∧ s.buffer = sdu ∧
        (s ∈ (er.recvPdu sec cr pdu).2 ∨ s ∈ (er.recvPdu sec cr pdu).1.rxList) := by
  intro h
  have hproc : processSdu .small (.small true) small [7, 11] 100 = some
      ({ small with txNext := 1 }, some [128, 0, 7, 81, 200, 200, 200, 200]) := by decide
  obtain ⟨s, -, -, hmem⟩ := h .small (.small true) (.small false) small small.suspend.1 _ _ _ 100
    matches_small (.refl small) inverts_small (by decide) (by decide) (by decide) rfl hproc
  have hdrop : small.suspend.1.recvPdu .small (.small false) [128, 0, 7, 81, 200, 200, 200, 200] =
      (small.suspend.1, []) := by decide
  rw [hdrop] at hmem
  rcases hmem with hmem | hmem <;> cases hmem

end Entity

end OpenAir.Pdcp

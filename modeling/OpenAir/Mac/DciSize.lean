import OpenAir.Lib.BitFields
import OpenAir.Mac.DciConfig

/-! The size of a DCI and the widths of its fields (`nr_dci_size`), and the packing of the formats
0_1 and 1_1 (`fill_dci_pdu_rel15`).  The size is a sum of some thirty bytes, far from the limit of
`uint16_t`. -/

namespace OpenAir.Mac

/-- `dci_pdu_rel15_t` -/
structure DciPdu where
  formatIndicator : Nat
  mcs : Nat
  ndi : Nat
  rv : Nat
  tpc : Nat
  pucchResourceIndicator : Nat
  ulschIndicator : Nat
  harqPid : BitField
  mcs2 : BitField
  ndi2 : BitField
  rv2 : BitField
  frequencyDomainAssignment : BitField
  timeDomainAssignment : BitField
  frequencyHoppingFlag : BitField
  vrbToPrbMapping : BitField
  dai0 : BitField
  dai1 : BitField
  pdschToHarqFeedbackTimingIndicator : BitField
  carrierIndicator : BitField
  bwpIndicator : BitField
  prbBundlingSizeIndicator : BitField
  rateMatchingIndicator : BitField
  zpCsiRsTrigger : BitField
  transmissionConfigurationIndication : BitField
  srsRequest : BitField
  cbgti : BitField
  cbgfi : BitField
  srsResourceIndicator : BitField
  precodingInformation : BitField
  csiRequest : BitField
  ptrsDmrsAssociation : BitField
  betaOffsetIndicator : BitField
  ulSulIndicator : BitField
  antennaPorts : BitField
  dmrsSequenceInitialization : BitField

namespace DciPdu

def variableFields (p : DciPdu) : List BitField :=
  [p.harqPid, p.mcs2, p.ndi2, p.rv2, p.frequencyDomainAssignment, p.timeDomainAssignment,
    p.frequencyHoppingFlag, p.vrbToPrbMapping, p.dai0, p.dai1,
    p.pdschToHarqFeedbackTimingIndicator, p.carrierIndicator, p.bwpIndicator,
    p.prbBundlingSizeIndicator, p.rateMatchingIndicator, p.zpCsiRsTrigger,
    p.transmissionConfigurationIndication, p.srsRequest, p.cbgti, p.cbgfi, p.srsResourceIndicator,
    p.precodingInformation, p.csiRequest, p.ptrsDmrsAssociation, p.betaOffsetIndicator,
    p.ulSulIndicator, p.antennaPorts, p.dmrsSequenceInitialization]

/-- The structure as the schedulers pass it: zeroed, and then given values only. -/
def Cleared (p : DciPdu) : Prop := ∀ f ∈ p.variableFields, f.width = 0

end DciPdu

namespace DciConfig

variable (c : DciConfig)

def nRb (format : DciFormat) : Option Nat :=
  match c.dlBwp with
  | none => some c.cset0BwpSize
  | some dl => do
    let ul ← c.ulBwp
    let sc ← c.scInfo
    return getRbBwpDci format c.ssType c.cset0BwpSize ul.bwpSize dl.bwpSize sc.initialUlBwpSize
      sc.initialDlBwpSize

def pdschConfig : Option PdschConfig := c.dlBwp.bind (·.pdschConfig)

def puschConfig : Option PuschConfig := c.ulBwp.bind (·.puschConfig)

def dlHarqBits (format : DciFormat) : Option Nat := do
  let numHarq ← getNrofHarqProcessesForPdsch c.scInfo
  getNrofHarqBits (format = .dl11 ∧ c.pdschConfig.any (·.harqProcessNumberSizeDCI11)) numHarq

def ulHarqBits (format : DciFormat) : Option Nat :=
  getNrofHarqBits (format = .ul01 ∧ c.puschConfig.any (·.harqProcessNumberSizeDCI01))
    (getNrofHarqProcessesForPusch c.scInfo)

end DciConfig

def puschFreqBits (ul : UlBwp) (nRb : Nat) : Option Nat :=
  match ul.puschConfig with
  | none => some (rivBits nRb)
  | some pusch => do
    let numRBG ← getNRBG ul.bwpSize ul.bwpStart pusch.rbgSize
    return freqDomainBits pusch.resourceAllocation numRBG (rivBits nRb)

def pdschFreqBits (dl : DlBwp) (nRb : Nat) : Option Nat := do
  let numRBG ← getNRBG dl.bwpSize dl.bwpStart (dl.pdschConfig.any (·.rbgSize))
  return freqDomainBits ((dl.pdschConfig.map (·.resourceAllocation)).getD .type1) numRBG
    (rivBits nRb)

def puschAntennaBits (pusch : Option PuschConfig) (transformPrecoder : TransformPrecoder) :
    Option Nat := do
  let bits (d : Option DmrsUplinkConfig) : Option Nat :=
    match d with
    | none => some 0
    | some d => ulAntBits d transformPrecoder
  let xa ← bits (pusch.bind (·.dmrsUplinkForPUSCHMappingTypeA))
  let xb ← bits (pusch.bind (·.dmrsUplinkForPUSCHMappingTypeB))
  return if xa > xb then xa else xb

/-- The PTRS - DMRS association of format 0_1; of the two DMRS configurations the last one
counts. -/
def ptrsDmrsBits (pusch : Option PuschConfig) (transformPrecoder : TransformPrecoder) : Nat :=
  let dmrs := (pusch.bind (·.dmrsUplinkForPUSCHMappingTypeB)).orElse fun _ =>
    pusch.bind (·.dmrsUplinkForPUSCHMappingTypeA)
  if (dmrs.any (!·.phaseTrackingRS) ∧ transformPrecoder = .disabled) ∨
      transformPrecoder = .enabled ∨ pusch.bind (·.maxRank) = some 1 then 0
  else 2

def dynamicBetaOffset (pusch : Option PuschConfig) : Option Bool :=
  match pusch.bind (·.uciOnPUSCH) with
  | none => some false
  | some betaOffsets => do return (← betaOffsets) = .dynamic

structure Ul01Bits where
  freqDomain : Nat
  sri : Nat
  precoding : Nat
  antenna : Nat
  dynamicBeta : Bool

def ul01Bits (c : DciConfig) (sc : ServingCellInfo) (ul : UlBwp) (nRb sriVal : Nat) :
    Option Ul01Bits := do
  let freqDomain ← puschFreqBits ul nRb
  let sri ← computeSrsResourceIndicatorSize sc.maxMIMOLayersPUSCH ul.puschConfig ul.srsConfig
  let precoding ← computePrecodingInfoSize c.phyTest ul.puschConfig ul.srsConfig sri sriVal
  let antenna ← puschAntennaBits ul.puschConfig (getTransformPrecoding ul .ul01)
  let dynamicBeta ← dynamicBetaOffset ul.puschConfig
  return ⟨freqDomain, sri, precoding, antenna, dynamicBeta⟩

namespace UlBwp

variable (ul : UlBwp)

def hopping : Bool :=
  ul.puschConfig.any fun pusch => pusch.frequencyHopping ∧ pusch.resourceAllocation ≠ .type0

def precoderDisabled : Bool := getTransformPrecoding ul .ul01 = .disabled

end UlBwp

def ul01Pdu (c : DciConfig) (sc : ServingCellInfo) (ul : UlBwp) (b : Ul01Bits) (numHarqbits : Nat)
    (p : DciPdu) : DciPdu :=
  let tda := tdaEntries c.dedicatedTda (ul.puschConfig.bind (·.timeDomainAllocationList))
    ul.tdaListCommon
  { p with
    harqPid := p.harqPid.withWidth numHarqbits
    -- the branch of the supplementary uplink writes here, not to the UL/SUL indicator
    carrierIndicator := (p.carrierIndicator.widthIf sc.crossCarrierSchedulingConfig 3).widthIf
      sc.supplementaryUplink 1
    bwpIndicator := p.bwpIndicator.withWidth (if sc.nUlBwp < 2 then sc.nUlBwp else 2)
    frequencyDomainAssignment := p.frequencyDomainAssignment.withWidth b.freqDomain
    timeDomainAssignment := p.timeDomainAssignment.withWidth (ceilLog2U32 tda)
    frequencyHoppingFlag := p.frequencyHoppingFlag.widthIf ul.hopping 1
    dai0 := p.dai0.withWidth (if c.pdschHARQACKCodebook = .dynamic then 2 else 1)
    dai1 := p.dai1.widthIf sc.pdschCgbTransmission.isSome 2
    srsResourceIndicator := p.srsResourceIndicator.withWidth b.sri
    precodingInformation := p.precodingInformation.withWidth b.precoding
    antennaPorts := p.antennaPorts.withWidth b.antenna
    srsRequest := p.srsRequest.withWidth (if sc.supplementaryUplink then 3 else 2)
    csiRequest := p.csiRequest.widthIf sc.reportTriggerSize.isSome
      (u8 (sc.reportTriggerSize.getD 0))
    cbgti := p.cbgti.widthIf sc.puschCgbTransmission.isSome
      (u8 (2 + sc.puschCgbTransmission.getD 0 * 2))
    ptrsDmrsAssociation := p.ptrsDmrsAssociation.withWidth
      (ptrsDmrsBits ul.puschConfig (getTransformPrecoding ul .ul01))
    betaOffsetIndicator := p.betaOffsetIndicator.widthIf b.dynamicBeta 2
    dmrsSequenceInitialization := p.dmrsSequenceInitialization.widthIf ul.precoderDisabled 1 }

def ul01Size (sc : ServingCellInfo) (ul : UlBwp) (b : Ul01Bits) (p p' : DciPdu) : Nat :=
  -- format identifier 1, MCS 5, NDI 1, RV 2, PUSCH TPC 2, UL-SCH indicator 1
  12 + p'.harqPid.width
    + (if sc.crossCarrierSchedulingConfig then 3 else 0)
    + (if sc.supplementaryUplink then p.ulSulIndicator.width else 0)
    + p'.bwpIndicator.width + p'.frequencyDomainAssignment.width + p'.timeDomainAssignment.width
    + (if ul.hopping then 1 else 0)
    + p'.dai0.width
    + (if sc.pdschCgbTransmission.isSome then p'.dai1.width else 0)
    + p'.srsResourceIndicator.width + p'.precodingInformation.width + p'.antennaPorts.width
    + p'.srsRequest.width
    + (if sc.reportTriggerSize.isSome then p'.csiRequest.width else 0)
    + (if sc.puschCgbTransmission.isSome then p'.cbgti.width else 0)
    + p'.ptrsDmrsAssociation.width
    + (if b.dynamicBeta then p'.betaOffsetIndicator.width else 0)
    + (if ul.precoderDisabled then p'.dmrsSequenceInitialization.width else 0)

def nrDciSizeUl01 (c : DciConfig) (ul : UlBwp) (nRb numHarqbits : Nat) (p : DciPdu) :
    Option (Nat × DciPdu) := do
  let sc ← c.scInfo
  let b ← ul01Bits c sc ul nRb p.srsResourceIndicator.val
  let p' := ul01Pdu c sc ul b numHarqbits p
  return (ul01Size sc ul b p p', p')

def rateMatchingBits (pdsch : PdschConfig) : Nat :=
  (if pdsch.rateMatchPatternGroup1 then 1 else 0) + if pdsch.rateMatchPatternGroup2 then 1 else 0

def dlCbgtiBits (pdsch : PdschConfig) (cgb : PdschCgbTransmission) : Nat :=
  let maxCBGperTB := u8 ((cgb.maxCodeBlockGroupsPerTransportBlock + 1) * 2)
  let maxCW := (pdsch.maxNrofCodeWordsScheduledByDCI.map CodeWords.toNat).getD 1
  u8 (maxCBGperTB * maxCW)

def PdschConfig.twoCodeWords (pdsch : PdschConfig) : Bool :=
  pdsch.maxNrofCodeWordsScheduledByDCI = some .n2

def PdschConfig.interleaved (pdsch : PdschConfig) : Bool :=
  pdsch.resourceAllocation = .type1 ∧ pdsch.vrbToPRBInterleaver

def ServingCellInfo.flushIndicator (sc : ServingCellInfo) : Bool :=
  sc.pdschCgbTransmission.any (·.codeBlockGroupFlushIndicator)

def dl11Pdu (c : DciConfig) (sc : ServingCellInfo) (dl : DlBwp) (pdsch : PdschConfig)
    (freqBits numHarqbits : Nat) (p : DciPdu) : DciPdu :=
  let tda := tdaEntries c.dedicatedTda (dl.pdschConfig.bind (·.timeDomainAllocationList))
    dl.tdaListCommon
  { p with
    carrierIndicator := p.carrierIndicator.widthIf sc.crossCarrierSchedulingConfig 3
    bwpIndicator := p.bwpIndicator.withWidth (if sc.nDlBwp < 2 then sc.nDlBwp else 2)
    frequencyDomainAssignment := p.frequencyDomainAssignment.withWidth freqBits
    timeDomainAssignment := p.timeDomainAssignment.withWidth (ceilLog2U32 tda)
    vrbToPrbMapping := p.vrbToPrbMapping.widthIf pdsch.interleaved 1
    prbBundlingSizeIndicator := p.prbBundlingSizeIndicator.widthIf pdsch.dynamicBundling 1
    rateMatchingIndicator := p.rateMatchingIndicator.widthIf (rateMatchingBits pdsch ≠ 0)
      (rateMatchingBits pdsch)
    zpCsiRsTrigger := p.zpCsiRsTrigger.widthIf
      pdsch.aperiodicZpCsiRsResourceSetsToAddModList.isSome
      (ceilLog2U32 (pdsch.aperiodicZpCsiRsResourceSetsToAddModList.getD 0 + 1))
    harqPid := p.harqPid.withWidth numHarqbits
    dai0 := p.dai0.widthIf (c.pdschHARQACKCodebook = .dynamic) 2
    pdschToHarqFeedbackTimingIndicator := p.pdschToHarqFeedbackTimingIndicator.withWidth
      (ceilLog2U32 ((c.ulBwp.bind (·.dlDataToULACK)).getD 8))
    antennaPorts := p.antennaPorts.withWidth (getAntPortBitWidth
      pdsch.dmrsDownlinkForPDSCHMappingTypeA pdsch.dmrsDownlinkForPDSCHMappingTypeB)
    transmissionConfigurationIndication :=
      p.transmissionConfigurationIndication.widthIf c.coreset.tciPresentInDCI 3
    srsRequest := p.srsRequest.withWidth (if sc.supplementaryUplink then 3 else 2)
    cbgti := p.cbgti.widthIf sc.pdschCgbTransmission.isSome
      ((sc.pdschCgbTransmission.map (dlCbgtiBits pdsch)).getD 0)
    cbgfi := p.cbgfi.widthIf sc.flushIndicator 1 }

def dl11Size (c : DciConfig) (sc : ServingCellInfo) (pdsch : PdschConfig) (p' : DciPdu) : Nat :=
  -- format identifier
  1 + (if sc.crossCarrierSchedulingConfig then p'.carrierIndicator.width else 0)
    + p'.bwpIndicator.width + p'.frequencyDomainAssignment.width + p'.timeDomainAssignment.width
    + (if pdsch.interleaved then p'.vrbToPrbMapping.width else 0)
    + (if pdsch.dynamicBundling then p'.prbBundlingSizeIndicator.width else 0)
    + p'.rateMatchingIndicator.width + p'.zpCsiRsTrigger.width
    -- MCS 5, NDI 1, RV 2 of each transport block
    + 8 + (if pdsch.twoCodeWords then 8 else 0)
    + p'.harqPid.width
    + (if c.pdschHARQACKCodebook = .dynamic then p'.dai0.width else 0)
    -- PUCCH TPC 2, PUCCH resource indicator 3
    + 2 + 3
    + p'.pdschToHarqFeedbackTimingIndicator.width + p'.antennaPorts.width
    + (if c.coreset.tciPresentInDCI then p'.transmissionConfigurationIndication.width else 0)
    + p'.srsRequest.width
    + (if sc.pdschCgbTransmission.isSome then p'.cbgti.width else 0)
    + (if sc.flushIndicator then p'.cbgfi.width else 0)
    -- DMRS sequence initialization
    + 1

/-- `nr_dci_size` for format 1_1.  A DMRS configuration is asserted, so the PDSCH configuration is
there. -/
def nrDciSizeDl11 (c : DciConfig) (dl : DlBwp) (nRb numHarqbits : Nat) (p : DciPdu) :
    Option (Nat × DciPdu) := do
  let sc ← c.scInfo
  let freqBits ← pdschFreqBits dl nRb
  let pdsch ← dl.pdschConfig
  if pdsch.dmrsDownlinkForPDSCHMappingTypeA.isSome ∨
      pdsch.dmrsDownlinkForPDSCHMappingTypeB.isSome then
    let p' := dl11Pdu c sc dl pdsch freqBits numHarqbits p
    return (dl11Size c sc pdsch p', p')
  else none

/-- `nr_dci_size` for format 0_0; the size is aligned with the one of format 1_0. -/
def nrDciSizeUl00 (c : DciConfig) (nRb altSize : Nat) (p : DciPdu) : Nat × DciPdu :=
  let size := 20 + rivBits nRb
  let p' := { p with
    harqPid := p.harqPid.withWidth 4
    frequencyDomainAssignment := p.frequencyDomainAssignment.withWidth (rivBits nRb) }
  if altSize = 0 then (size, p')
  else if altSize ≥ size then (altSize, p')
  else if c.ssType = .common then
    (altSize, { p' with
      frequencyDomainAssignment := p.frequencyDomainAssignment.withWidth
        ((((rivBits nRb : Nat) : Int) - (size - altSize : Nat)) % 256).toNat })
  else (size, p')

/-- `nr_dci_size` for format 1_0; in a UE specific search space the size is aligned with the one of
format 0_0. -/
def nrDciSizeDl10 (c : DciConfig) (nRb altSize : Nat) (p : DciPdu) : Nat × DciPdu :=
  let size := 28 + rivBits nRb
  let p' := { p with
    harqPid := p.harqPid.withWidth 4
    frequencyDomainAssignment := p.frequencyDomainAssignment.withWidth (rivBits nRb)
    timeDomainAssignment := p.timeDomainAssignment.withWidth 4
    vrbToPrbMapping := p.vrbToPrbMapping.withWidth 1 }
  (if c.ssType = .ueSpecific ∧ altSize ≥ size then altSize else size, p')

def nrDciSize (c : DciConfig) (p : DciPdu) (format : DciFormat) (altSize : Nat) :
    Option (Nat × DciPdu) := do
  let nRb ← c.nRb format
  let numDlharqbits ← c.dlHarqBits format
  let numUlharqbits ← c.ulHarqBits format
  match format with
  | .ul00 => return nrDciSizeUl00 c nRb altSize p
  | .ul01 =>
    match c.ulBwp with
    | none => return (0, p)
    | some ul => nrDciSizeUl01 c ul nRb numUlharqbits p
  | .dl10 => return nrDciSizeDl10 c nRb altSize p
  | .dl11 =>
    match c.dlBwp with
    | none => return (0, p)
    | some dl => nrDciSizeDl11 c dl nRb numDlharqbits p
  | .dl20 | .dl21 | .dl22 | .dl23 => return (0, p)
  | .dciNone => none

inductive FormatX1
  | ul01 | dl11
  deriving DecidableEq

namespace FormatX1

def format : FormatX1 → DciFormat
  | ul01 => .ul01
  | dl11 => .dl11

def fields (p : DciPdu) : FormatX1 → List BitField
  | ul01 =>
    [⟨1, p.formatIndicator⟩, p.carrierIndicator, p.ulSulIndicator, p.bwpIndicator,
      p.frequencyDomainAssignment, p.timeDomainAssignment, p.frequencyHoppingFlag,
      ⟨5, p.mcs⟩, ⟨1, p.ndi⟩, ⟨2, p.rv⟩, p.harqPid, p.dai0, p.dai1, ⟨2, p.tpc⟩,
      p.srsResourceIndicator, p.precodingInformation, p.antennaPorts, p.srsRequest, p.csiRequest,
      p.cbgti, p.ptrsDmrsAssociation, p.betaOffsetIndicator, p.dmrsSequenceInitialization,
      ⟨1, p.ulschIndicator⟩]
  | dl11 =>
    [⟨1, p.formatIndicator⟩, p.carrierIndicator, p.bwpIndicator, p.frequencyDomainAssignment,
      p.timeDomainAssignment, p.vrbToPrbMapping, p.prbBundlingSizeIndicator,
      p.rateMatchingIndicator, p.zpCsiRsTrigger, ⟨5, p.mcs⟩, ⟨1, p.ndi⟩, ⟨2, p.rv⟩, p.mcs2, p.ndi2,
      p.rv2, p.harqPid, p.dai0, ⟨2, p.tpc⟩, ⟨3, p.pucchResourceIndicator⟩,
      p.pdschToHarqFeedbackTimingIndicator, p.antennaPorts, p.transmissionConfigurationIndication,
      p.srsRequest, p.cbgti, p.cbgfi, ⟨1, p.dmrsSequenceInitialization.val⟩]

end FormatX1

def prepareDciX1 (c : DciConfig) (p : DciPdu) (srsRequest : Nat) : FormatX1 → Option DciPdu
  | .ul01 => do
    let sc ← c.scInfo
    if sc.crossCarrierSchedulingConfig ∨ sc.supplementaryUplink then none
    else
      return { p with
        formatIndicator := 0
        srsRequest := p.srsRequest.withVal srsRequest
        ulschIndicator := 1 }
  | .dl11 => do
    let sc ← c.scInfo
    let pdsch ← c.pdschConfig
    if sc.crossCarrierSchedulingConfig ∨ pdsch.dynamicBundling ∨
        pdsch.aperiodicZpCsiRsResourceSetsToAddModList.isSome ∨ c.coreset.tciPresentInDCI ∨
        sc.carrierSwitching = some (some .typeA) ∨ sc.carrierSwitching = some (some .typeB) ∨
        sc.pdschCgbTransmission.isSome then none
    else
      return { p with
        formatIndicator := 1
        vrbToPrbMapping := p.vrbToPrbMapping.withVal (if pdsch.vrbToPRBInterleaver then 1 else 0)
        rateMatchingIndicator := p.rateMatchingIndicator.withVal
          ((if pdsch.rateMatchPatternGroup2 then 1 else 0) +
            if pdsch.rateMatchPatternGroup1 then 2 else 0)
        srsRequest := p.srsRequest.withVal 0 }

structure DciPayload where
  payloadSizeBits : Nat
  pos : Nat
  payload : Nat
  deriving DecidableEq

/-- `fill_dci_pdu_rel15` for the formats 0_1 with a C-RNTI and 1_1; no payload at size 0. -/
def fillDciPduRel15 (c : DciConfig) (p : DciPdu) (srsRequest : Nat) (f : FormatX1) :
    Option (Option DciPayload) := do
  let (size, p) ← nrDciSize c p f.format 0
  if size = 0 then return none
  else if size ≤ 64 then
    let p ← prepareDciX1 c p srsRequest f
    let (pos, payload) ← packFields size (f.fields p)
    return some ⟨size, pos, payload⟩
  else none

end OpenAir.Mac

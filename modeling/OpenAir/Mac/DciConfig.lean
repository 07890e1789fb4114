import OpenAir.Lib.Rounding

/-! What `nr_dci_size` reads of the RRC configuration, and the widths it computes from it.  A
pointer of which only the presence is read is a `Bool`, a list of which only the length is read is
its length.  `none` stands for a failed assertion or a read through a null pointer. -/

namespace OpenAir.Mac

/-- What is left of a number that is stored into `uint8_t`. -/
def u8 (x : Nat) : Nat := x % 2 ^ 8

inductive DciFormat
  | dl10 | dl11 | dl20 | dl21 | dl22 | dl23 | ul00 | ul01 | dciNone
  deriving DecidableEq

inductive RntiType
  | c | cs | tc | p | si | ra | msgb | spCsi | sfi | int | tpcPusch | tpcPucch | tpcSrs | mcsC
  deriving DecidableEq

inductive SearchSpaceType
  | nothing | common | ueSpecific
  deriving DecidableEq

inductive ResourceAllocation
  | type0 | type1 | dynamicSwitch
  deriving DecidableEq

inductive CodeWords
  | n1 | n2
  deriving DecidableEq

def CodeWords.toNat : CodeWords → Nat
  | n1 => 0
  | n2 => 1

inductive TransformPrecoder
  | enabled | disabled
  deriving DecidableEq

inductive TxConfig
  | codebook | nonCodebook
  deriving DecidableEq

inductive CodebookSubset
  | fullyAndPartialAndNonCoherent | partialAndNonCoherent | nonCoherent
  deriving DecidableEq

inductive FullPowerTransmission
  | fullpower | fullpowerMode1 | fullpowerMode2
  deriving DecidableEq

inductive SrsUsage
  | beamManagement | codebook | nonCodebook | antennaSwitching
  deriving DecidableEq

inductive BetaOffsets
  | dynamic | semiStatic
  deriving DecidableEq

inductive HarqAckCodebook
  | semiStatic | dynamic
  deriving DecidableEq

structure DmrsDownlinkConfig where
  dmrsType : Bool := false
  maxLength : Bool := false

structure DmrsUplinkConfig where
  dmrsType : Bool := false
  maxLength : Bool := false
  phaseTrackingRS : Bool := false

structure PdschConfig where
  /-- `rbg_Size` is `config2`. -/
  rbgSize : Bool := false
  resourceAllocation : ResourceAllocation := .type1
  timeDomainAllocationList : Option Nat := none
  vrbToPRBInterleaver : Bool := false
  dynamicBundling : Bool := false
  rateMatchPatternGroup1 : Bool := false
  rateMatchPatternGroup2 : Bool := false
  aperiodicZpCsiRsResourceSetsToAddModList : Option Nat := none
  maxNrofCodeWordsScheduledByDCI : Option CodeWords := none
  dmrsDownlinkForPDSCHMappingTypeA : Option DmrsDownlinkConfig := none
  dmrsDownlinkForPDSCHMappingTypeB : Option DmrsDownlinkConfig := none
  harqProcessNumberSizeDCI11 : Bool := false

structure PuschConfig where
  rbgSize : Bool := false
  resourceAllocation : ResourceAllocation := .type1
  timeDomainAllocationList : Option Nat := none
  frequencyHopping : Bool := false
  txConfig : Option TxConfig := none
  maxRank : Option Nat := none
  codebookSubset : Option CodebookSubset := none
  ulFullPowerTransmission : Option FullPowerTransmission := none
  transformPrecoder : Option TransformPrecoder := none
  dmrsUplinkForPUSCHMappingTypeA : Option DmrsUplinkConfig := none
  dmrsUplinkForPUSCHMappingTypeB : Option DmrsUplinkConfig := none
  /-- `uci_OnPUSCH`, and in it the pointer to its `betaOffsets`. -/
  uciOnPUSCH : Option (Option BetaOffsets) := none
  harqProcessNumberSizeDCI01 : Bool := false

structure SrsConfig where
  srsResourceSetToAddModList : Option (List SrsUsage) := none
  /-- The `nrofSRS_Ports` of each resource. -/
  srsResourceToAddModList : Option (List Nat) := none

structure DlBwp where
  bwpSize : Nat
  bwpStart : Nat
  tdaListCommon : Option Nat := none
  pdschConfig : Option PdschConfig := none

structure UlBwp where
  bwpSize : Nat
  bwpStart : Nat
  msg3TransformPrecoder : Bool := false
  tdaListCommon : Option Nat := none
  puschConfig : Option PuschConfig := none
  /-- The `dl_DataToUL_ACK` of `pucch_Config`. -/
  dlDataToULACK : Option Nat := none
  srsConfig : Option SrsConfig := none

/-- `NR_SRS_CarrierSwitching` -/
inductive SrsTpcPdcchGroup
  | nothing | typeA | typeB
  deriving DecidableEq

structure PdschCgbTransmission where
  maxCodeBlockGroupsPerTransportBlock : Nat
  codeBlockGroupFlushIndicator : Bool

structure ServingCellInfo where
  crossCarrierSchedulingConfig : Bool := false
  carrierSwitching : Option (Option SrsTpcPdcchGroup) := none
  supplementaryUplink : Bool := false
  pdschCgbTransmission : Option PdschCgbTransmission := none
  nrofHARQProcessesForPDSCH : Option Nat := none
  /-- `maxCodeBlockGroupsPerTransportBlock` of `pusch_CGB_Transmission`. -/
  puschCgbTransmission : Option Nat := none
  maxMIMOLayersPUSCH : Option Nat := none
  /-- The `reportTriggerSize` of `csi_MeasConfig`. -/
  reportTriggerSize : Option Nat := none
  initialDlBwpSize : Nat := 0
  initialUlBwpSize : Nat := 0
  nDlBwp : Nat := 0
  nUlBwp : Nat := 0
  nrofHARQProcessesForPDSCHv1700 : Bool := false
  nrofHARQProcessesForPUSCHr17 : Bool := false

structure Coreset where
  controlResourceSetId : Nat := 0
  tciPresentInDCI : Bool := false

structure DciConfig where
  dlBwp : Option DlBwp
  ulBwp : Option UlBwp
  scInfo : Option ServingCellInfo
  pdschHARQACKCodebook : HarqAckCodebook := .semiStatic
  rntiType : RntiType := .c
  coreset : Coreset := {}
  ssType : SearchSpaceType := .ueSpecific
  cset0BwpSize : Nat := 0
  phyTest : Bool := false

def getRBGSize (bwpSize : Nat) (rbgSizeConfig : Bool) : Option Nat :=
  if bwpSize < 276 then
    some <|
      if bwpSize < 37 then (if rbgSizeConfig then 4 else 2)
      else if bwpSize < 73 then (if rbgSizeConfig then 8 else 4)
      else if bwpSize < 145 then (if rbgSizeConfig then 16 else 8)
      else 16
  else none

/-- `getNRBG`; the quotient is exact as a float, since the divisor is a power of two. -/
def getNRBG (bwpSize bwpStart : Nat) (rbgSizeConfig : Bool) : Option Nat := do
  let rbgSize ← getRBGSize bwpSize rbgSizeConfig
  return u8 (ceilDiv (bwpSize + bwpStart % rbgSize) rbgSize)

def rivBits (nRb : Nat) : Nat := ceilLog2U32 (nRb * (nRb + 1) / 2)

def freqDomainBits (allocation : ResourceAllocation) (numRBG val : Nat) : Nat :=
  match allocation with
  | .type0 => numRBG
  | .type1 => val
  | .dynamicSwitch => u8 (if val > numRBG then val + 1 else numRBG + 1)

def DmrsDownlinkConfig.antPortBits (d : DmrsDownlinkConfig) : Nat :=
  (if d.dmrsType then 2 else 1) + (if d.maxLength then 2 else 1) + 2

def getAntPortBitWidth : Option DmrsDownlinkConfig → Option DmrsDownlinkConfig → Nat
  | some a, none => a.antPortBits
  | none, some b => b.antPortBits
  | some a, some b => max a.antPortBits b.antPortBits
  | none, none => 0

def ulAntBits (d : DmrsUplinkConfig) (transformPrecoder : TransformPrecoder) : Option Nat :=
  let type := if d.dmrsType then 2 else 1
  let maxl := if d.maxLength then 2 else 1
  match transformPrecoder with
  | .disabled => some (maxl + type + 1)
  | .enabled => if type = 1 then some (maxl * 2) else none

/-- `get_transformPrecoding` for a grant that is not a configured one. -/
def getTransformPrecoding (ul : UlBwp) (format : DciFormat) : TransformPrecoder :=
  let msg3 := if ul.msg3TransformPrecoder then .enabled else .disabled
  if format = .ul00 then msg3 else (ul.puschConfig.bind (·.transformPrecoder)).getD msg3

def getPuschNbAntennaPorts (phyTest : Bool) (pusch : Option PuschConfig) (srs : Option SrsConfig)
    (sriBits sriVal : Nat) : Option Nat :=
  if phyTest then do
    let maxRank ← (← pusch).maxRank
    return u8 maxRank
  else
    match srs with
    | none => some 1
    | some srs => do
      if .codebook ∈ (← srs.srsResourceSetToAddModList) then
        let ports ← (← srs.srsResourceToAddModList)[if sriBits > 0 then u8 sriVal else 0]?
        return u8 (1 <<< ports)
      else return 1

/-- `binomial`: one factor of the numerator and one of the denominator a round; 0 when the next
product would not fit. -/
def binomial (n k : Nat) : Nat :=
  ((List.range (min k (n - k))).foldlM (fun c j =>
    if c / (j + 1) > (2 ^ 32 - 1) / (n - j) then none
    else some (c / (j + 1) * (n - j) + c % (j + 1) * (n - j) / (j + 1))) 1).getD 0

def srsBinomialSum (count lmax : Nat) : Nat :=
  ((List.range (min count lmax)).map fun k => binomial count (k + 1)).sum

def computeSrsResourceIndicatorSize (maxMIMOLayers : Option Nat) (pusch : Option PuschConfig)
    (srs : Option SrsConfig) : Option Nat :=
  match srs, pusch.bind (·.txConfig) with
  | some srs, some .codebook => do
    return ceilLog2U32 ((← srs.srsResourceSetToAddModList).count .codebook)
  | some srs, some .nonCodebook => do
    let lmax ← maxMIMOLayers
    return ceilLog2U32 (srsBinomialSum ((← srs.srsResourceSetToAddModList).count .nonCodebook) lmax)
  | _, _ => some 0

def precodingBits (pusch : PuschConfig) (ports maxRank : Nat) : Nat :=
  let mode1 := pusch.ulFullPowerTransmission = some .fullpowerMode1
  let nonCoherent := pusch.codebookSubset = some .nonCoherent
  let partialCoherent := pusch.codebookSubset = some .partialAndNonCoherent
  if ports = 2 then
    if maxRank = 1 then
      if mode1 then 2 else if nonCoherent then 1 else 3
    else
      if mode1 then 2 else if nonCoherent then 2 else 4
  else if ports = 4 then
    if maxRank = 1 then
      if mode1 then (if nonCoherent then 3 else 4)
      else if nonCoherent then 2 else if partialCoherent then 4 else 5
    else
      if mode1 then
        if maxRank = 2 then (if nonCoherent then 4 else 5) else (if nonCoherent then 4 else 6)
      else if nonCoherent then 4 else if partialCoherent then 5 else 6
  else 0

def computePrecodingInfoSize (phyTest : Bool) (pusch : Option PuschConfig)
    (srs : Option SrsConfig) (sriBits sriVal : Nat) : Option Nat := do
  let ports ← getPuschNbAntennaPorts phyTest pusch srs sriBits sriVal
  match pusch with
  | none => return 0
  | some pusch =>
    if pusch.txConfig = some .nonCodebook ∨ ports = 1 then return 0
    else return precodingBits pusch ports (← pusch.maxRank)

/-- The RNTI types and search spaces for which the lists of the dedicated configuration count
(`get_dl_tdalist`, `get_ul_tdalist`). -/
def DciConfig.dedicatedTda (c : DciConfig) : Bool :=
  (c.rntiType = .cs ∨ c.rntiType = .c ∨ c.rntiType = .mcsC) ∧
    ¬ (c.ssType = .common ∧ c.coreset.controlResourceSetId = 0)

def tdaEntries (dedicated : Bool) (list common : Option Nat) : Nat :=
  ((if dedicated then list.orElse fun _ => common else common)).getD 16

def getRbBwpDci (format : DciFormat) (ssType : SearchSpaceType)
    (cset0BwpSize ulBwpSize dlBwpSize initialUlBwpSize initialDlBwpSize : Nat) : Nat :=
  match format with
  | .ul00 => if ssType = .common then initialUlBwpSize else ulBwpSize
  | .ul01 => ulBwpSize
  | .dl10 =>
    if ssType = .common then (if cset0BwpSize ≠ 0 then cset0BwpSize else initialDlBwpSize)
    else dlBwpSize
  | _ => dlBwpSize

def getNrofHarqProcessesForPdsch : Option ServingCellInfo → Option Nat
  | none => some 8
  | some sc =>
    if sc.nrofHARQProcessesForPDSCHv1700 then some 32
    else
      match sc.nrofHARQProcessesForPDSCH with
      | none => some 8
      | some i => [2, 4, 6, 10, 12, 16][i]?

def getNrofHarqProcessesForPusch (sc : Option ServingCellInfo) : Nat :=
  if sc.any (·.nrofHARQProcessesForPUSCHr17) then 32 else 16

/-- `get_nrofHARQ_bits_PDSCH` and `get_nrofHARQ_bits_PUSCH`: a fifth bit needs 32 processes. -/
def getNrofHarqBits (extended : Bool) (numHarq : Nat) : Option Nat :=
  if extended then (if numHarq = 32 then some 5 else none) else some 4

end OpenAir.Mac

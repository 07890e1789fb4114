import OpenAir.Oru.Extensions

namespace OpenAir.Oru

structure Mbuf where
  id : Nat
  data : List Byte
  behind : Nat → Byte

namespace Mbuf

variable (p : Mbuf)

/-- A byte counted from the start of the data, which may lie behind their end. -/
def byte (i : Nat) : Byte := p.data[i]?.getD (p.behind (i - p.data.length))

def after (n : Nat) : Mbuf := { p with data := p.data.drop n }

/-- `rte_pktmbuf_adj` -/
def adj (n : Nat) : Option Mbuf := if n ≤ p.data.length then some (p.after n) else none

def be16 (i : Nat) : Nat := (p.byte i).toNat * 2 ^ 8 + (p.byte (i + 1)).toNat

def be32 (i : Nat) : Nat := p.be16 i * 2 ^ 16 + p.be16 (i + 2)

theorem after_after (m n : Nat) : (p.after m).after n = p.after (m + n) := by
  rw [after, after, after, List.drop_drop]

variable {p} {n : Nat}

theorem length_after : (p.after n).data.length = p.data.length - n := List.length_drop

theorem adj_of_le (h : n ≤ p.data.length) : p.adj n = some (p.after n) := if_pos h

theorem adj_of_lt (h : p.data.length < n) : p.adj n = none := if_neg (by omega)

end Mbuf

def bitField (word lo width : Nat) : Nat := word / 2 ^ lo % 2 ^ width

/-- `struct xran_eaxcid_config` -/
structure EaxcidConfig where
  maskCuPortId : Nat
  maskBandSectorId : Nat
  maskCcId : Nat
  maskRuPortId : Nat
  bitCuPortId : Nat
  bitBandSectorId : Nat
  bitCcId : Nat
  bitRuPortId : Nat

def eaxcidConfig : EaxcidConfig where
  maskCuPortId := 0xF000
  maskBandSectorId := 0x0F00
  maskCcId := 0x00F0
  maskRuPortId := 0x000F
  bitCuPortId := 12
  bitBandSectorId := 8
  bitCcId := 4
  bitRuPortId := 0

/-- `xran_decompose_cid`, as far as its callers use the result: component carrier and antenna. -/
def xranDecomposeCid (conf : EaxcidConfig) (cid : Nat) : Nat × Nat :=
  ((cid &&& conf.maskCcId) >>> conf.bitCcId, (cid &&& conf.maskRuPortId) >>> conf.bitRuPortId)

structure UplaneHeader where
  ccId : Nat
  antId : Nat
  frameId : Nat
  subframeId : Nat
  slotId : Nat
  symbId : Nat
  filterId : Nat
  seqId : Nat
  numPrbu : Nat
  startPrbu : Nat
  symInc : Nat
  rb : Nat
  sectId : Nat
  compMeth : Nat := 0
  iqWidth : Nat := 0
  deriving DecidableEq

namespace Mbuf

def uplaneHeader (ecpri radio section_ : Mbuf) : UplaneHeader :=
  let cid := xranDecomposeCid eaxcidConfig (ecpri.be16 4)
  let sfSlotSym := radio.be16 2
  let fields := section_.be32 0
  { ccId := cid.1
    antId := cid.2
    frameId := (radio.byte 1).toNat
    subframeId := bitField sfSlotSym 12 4
    slotId := bitField sfSlotSym 6 6
    symbId := bitField sfSlotSym 0 6
    filterId := bitField (radio.byte 0).toNat 0 4
    seqId := (ecpri.byte 6).toNat
    numPrbu := bitField fields 0 8
    startPrbu := bitField fields 8 10
    symInc := bitField fields 18 1
    rb := bitField fields 19 1
    sectId := bitField fields 20 12 }

/-- `xran_extract_iq_samples`: the headers, each read before the next is stripped, and the buffer
that starts with the IQ data. -/
def xranExtractIqSamples (expectComp : Bool) (ecpri : Mbuf) : Option (UplaneHeader × Mbuf) := do
  let radio ← ecpri.adj 8
  let section_ ← radio.adj 4
  let h := uplaneHeader ecpri radio section_
  if expectComp then
    let comp ← section_.adj 4
    let iq ← comp.adj 2
    return ({ h with
      compMeth := bitField (comp.byte 0).toNat 0 4
      iqWidth := bitField (comp.byte 0).toNat 4 4 }, iq)
  else
    let iq ← section_.adj 4
    return (h, iq)

end Mbuf

/-- `struct xran_cp_radioapp_common_header` -/
structure CplaneHeader where
  dataDirection : Nat
  payloadVer : Nat
  filterIndex : Nat
  frameId : Nat
  subframeId : Nat
  slotId : Nat
  startSymbolId : Nat
  numOfSections : Nat
  sectionType : Nat
  deriving DecidableEq

/-- `struct xran_radioapp_udComp_header` -/
structure UdCompHeader where
  udCompMeth : Nat
  udIqWidth : Nat
  deriving DecidableEq

structure SectionHeader where
  sectionId : Nat
  rb : Nat
  symInc : Nat
  startPrbc : Nat
  numPrbc : Nat
  reMask : Nat
  numSymbol : Nat
  ef : Bool
  beamId : Nat
  deriving DecidableEq

namespace Mbuf

variable (p : Mbuf)

def cplaneHeader : CplaneHeader :=
  let bits := p.be32 0
  { dataDirection := bitField bits 31 1
    payloadVer := bitField bits 28 3
    filterIndex := bitField bits 24 4
    frameId := bitField bits 16 8
    subframeId := bitField bits 12 4
    slotId := bitField bits 6 6
    startSymbolId := bitField bits 0 6
    numOfSections := (p.byte 4).toNat
    sectionType := (p.byte 5).toNat }

/-- At byte 6 of the header of section type 1 and at byte 11 of the one of type 3. -/
def udComp (i : Nat) : UdCompHeader where
  udCompMeth := bitField (p.byte i).toNat 0 4
  udIqWidth := bitField (p.byte i).toNat 4 4

def sectionHeader : SectionHeader :=
  let u1 := p.be32 0
  let u := p.be32 4
  { sectionId := bitField u1 20 12
    rb := bitField u1 19 1
    symInc := bitField u1 18 1
    startPrbc := bitField u1 8 10
    numPrbc := bitField u1 0 8
    reMask := bitField u 20 12
    numSymbol := bitField u 16 4
    ef := bitField u 15 1 = 1
    beamId := bitField u 0 15 }

end Mbuf

end OpenAir.Oru

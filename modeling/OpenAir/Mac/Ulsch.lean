import Mathlib.Data.List.Sort
import Mathlib.Logic.Function.Basic
import OpenAir.Mac.Bsr
import OpenAir.Mac.SubPdu

namespace OpenAir.Mac

/-- `RA_gNB_state_t` -/
inductive RaState
  | idle
  | msg2
  | waitMsgAPusch
  | waitMsg3
  | msg3Retransmission
  | msg4
  | msgB
  | waitMsg4MsgBAck
  deriving DecidableEq

structure LcConfig where
  lcid : Nat
  suspended : Bool := false
  priority : Int := 0
  deriving DecidableEq

structure UlStats where
  totalSduBytes : Nat := 0
  lcBytes : Nat → Nat := fun _ => 0
  numMacSdu : Nat := 0

/-- The context of a UE.  `cellGroup` tells whether it has a CellGroup, `srb0` whether RLC has its
SRB0. -/
structure UeInfo where
  cellGroup : Bool := false
  srb0 : Bool := false
  uid : Nat := 0
  isRedcap : Bool := false
  ra : Option RaState := none
  lcConfig : List LcConfig := []
  estimatedUlBuffer : Int := 0
  schedUlBytes : Int := 0
  ph : Int := 0
  pcmax : Int := 0
  stats : UlStats := {}

/-- What the decoder takes from the cell and the MAC instance: the UID the allocator has, the
initial CellGroup for a UID, and the normalised power headroom. -/
structure Cell where
  newUid : Nat
  initialCellGroup : Nat → Bool → Bool
  normalizedPh : Int → Int

def maxMobilesPerGnb : Nat := 16

def maxNumDataInd : Nat := 1024

inductive UlschAssertion
  | noCellGroup (lcid : Nat)
  | numDataInd
  | crntiWithoutRa
  deriving DecidableEq

structure DataInd where
  ch : Nat
  buf : Nat
  len : Nat
  deriving DecidableEq

inductive ControlElement
  | singleEntryPhr (ph pcmax : Nat)
  | shortBsr (truncated : Bool) (lcgId bufferSize : Nat)
  | longBsr (truncated : Bool) (entries : List (Nat × Byte))
  deriving DecidableEq

namespace UeInfo

def getLcConfig (ue : UeInfo) (lcid : Nat) : Option LcConfig := ue.lcConfig.find? (·.lcid = lcid)

def addLcid (ue : UeInfo) (c : LcConfig) : UeInfo :=
  let l :=
    if ue.lcConfig.any (·.lcid = c.lcid) then
      ue.lcConfig.map fun x => if x.lcid = c.lcid then c else x
    else ue.lcConfig ++ [c]
  { ue with lcConfig := l.insertionSort fun a b => a.priority ≤ b.priority }

def prepareInitialUlRrcMessage (cell : Cell) (ue : UeInfo) : Bool × UeInfo :=
  if ue.srb0 then (false, ue)
  else
    let ue := { ue with srb0 := true }
    let ue := if ue.uid ≥ maxMobilesPerGnb then { ue with uid := cell.newUid } else ue
    -- the UE list is full, RRC is to reject the UE
    if ue.uid ≥ maxMobilesPerGnb then (true, { ue with cellGroup := false })
    else
      let ue := { ue with cellGroup := cell.initialCellGroup ue.uid ue.isRedcap }
      if !ue.cellGroup then (true, ue)
      else (true, ue.addLcid { lcid := 1, priority := 1 })

/-- `handle_single_entry_phr`, with the tables of 38.133. -/
def handleSingleEntryPhr (cell : Cell) (harqPid : Int) (ue : UeInfo) (ph pcmax : Nat) : UeInfo :=
  if harqPid < 0 then ue
  else
    let PH : Int := if ph < 55 then ph - 32 else if ph < 63 then 24 + (ph - 55) * 2 else 38
    { ue with ph := cell.normalizedPh PH, pcmax := pcmax - 29 }

def takesSdus (ue : UeInfo) (lcid : Nat) : Bool :=
  match ue.getLcConfig lcid with
  | none => false
  | some c => !c.suspended

def countSdu (ue : UeInfo) (lcid macLen : Nat) : UeInfo :=
  { ue with stats := { ue.stats with
      totalSduBytes := ue.stats.totalSduBytes + macLen
      lcBytes := Function.update ue.stats.lcBytes lcid (ue.stats.lcBytes lcid + macLen) } }

def drain (ue : UeInfo) (macLen : Nat) : UeInfo :=
  { ue with estimatedUlBuffer :=
      if ue.estimatedUlBuffer ≥ macLen then ue.estimatedUlBuffer - macLen else 0 }

def setEstimate (ue : UeInfo) (size : Int) : UeInfo :=
  { ue with estimatedUlBuffer := size, schedUlBytes := 0 }

end UeInfo

structure SubPdu where
  pos : Nat
  lcid : Lcid
  subheaderLen : Nat
  macLen : Nat
  deriving DecidableEq

namespace SubPdu

def payload (p : SubPdu) : Nat := p.pos + p.subheaderLen

def ofHeader (pos : Nat) (h : SubHeader) : SubPdu := ⟨pos, h.lcid, h.subheaderLen, h.macLen⟩

/-- What the decoder steps over: padding and what it does not know reach to the end, in 16 bits. -/
def stride (p : SubPdu) (pduLen : Nat) : Nat :=
  match p.lcid with
  | .padding | .unknown => p.subheaderLen + (pduLen - p.subheaderLen) % 2 ^ 16
  | _ => p.subheaderLen + p.macLen

end SubPdu

structure Decoder where
  ue : UeInfo
  dataInd : List DataInd := []
  sdus : Nat := 0
  ces : List ControlElement := []

namespace Decoder

def addDataInd (d : Decoder) (ind : DataInd) : Except (Fault UlschAssertion) Decoder :=
  let dataInd := d.dataInd ++ [ind]
  if dataInd.length < maxNumDataInd then .ok { d with dataInd }
  else .error (.assertion .numDataInd)

/-- The `switch` of `nr_process_mac_pdu`. -/
def process (cell : Cell) (harqPid : Int) (pdu : Nat → Byte) (d : Decoder) (p : SubPdu) :
    Except (Fault UlschAssertion) Decoder :=
  let ce := seek pdu p.payload
  match p.lcid with
  | .ccch64Bits | .ccch48BitsRedcap | .ccch48Bits =>
    let ue := if p.lcid = .ccch48BitsRedcap then { d.ue with isRedcap := true } else d.ue
    match ue.prepareInitialUlRrcMessage cell with
    | (true, ue) => addDataInd { d with ue } ⟨0, p.payload, p.macLen⟩
    | (false, ue) => .ok { d with ue }
  | .srb lcid =>
    if !d.ue.cellGroup then .error (.assertion (.noCellGroup lcid))
    else if !d.ue.takesSdus lcid then .ok d
    else addDataInd { d with ue := d.ue.countSdu lcid p.macLen } ⟨lcid, p.payload, p.macLen⟩
  | .dtch lcid =>
    if !d.ue.takesSdus lcid then .ok d
    else addDataInd
      { d with ue := (d.ue.countSdu lcid p.macLen).drain p.macLen, sdus := d.sdus + 1 }
      ⟨lcid, p.payload, p.macLen⟩
  | .singleEntryPhr =>
    let ph := (ce 0).toNat % 64
    let pcmax := (ce 1).toNat % 64
    .ok { d with
      ue := d.ue.handleSingleEntryPhr cell harqPid ph pcmax
      ces := d.ces ++ [.singleEntryPhr ph pcmax] }
  | .cRnti =>
    if d.ue.ra = some .idle then .error (.assertion .crntiWithoutRa) else .ok d
  | .sTruncatedBsr | .sBsr =>
    .ok { d with
      ue := d.ue.setEstimate (estimateUlBufferShortBsr (ce 0))
      ces := d.ces ++
        [.shortBsr (p.lcid = .sTruncatedBsr) ((ce 0).toNat / 32) ((ce 0).toNat % 32)] }
  | .lTruncatedBsr | .lBsr =>
    .ok { d with
      ue := d.ue.setEstimate (estimateUlBufferLongBsr (lcgEntries ce))
      ces := d.ces ++ [.longBsr (p.lcid = .lTruncatedBsr) (lcgEntries ce)] }
  | .recommendedBitrateQuery | .multiEntryPhr4Oct | .configuredGrantConfirmation
  | .multiEntryPhr1Oct | .padding | .unknown => .ok d

/-- The end of `nr_process_mac_pdu`. -/
def finish (d : Decoder) : Decoder :=
  { d with ue := { d.ue with stats := { d.ue.stats with
      numMacSdu := d.ue.stats.numMacSdu + d.sdus } } }

end Decoder

def isEmptyCcch (pdu : Nat → Byte) (p : SubPdu) : Bool :=
  decide (p.lcid = .ccch64Bits) &&
    (List.range (p.subheaderLen + p.macLen)).all fun i => pdu (p.pos + i) = 0

def ulschRound (cell : Cell) (harqPid : Int) (pdu : Nat → Byte) (st : Nat × Nat × Decoder) :
    Except (Fault UlschAssertion) ((Nat × Nat × Decoder) ⊕ Decoder) :=
  if st.2.1 = 0 then .ok (.inr st.2.2.finish)
  else
    let p := SubPdu.ofHeader st.1 (decodeUlMacSubPduHeader (seek pdu st.1))
    if p.subheaderLen + p.macLen > st.2.1 then .ok (.inr st.2.2.finish)
    else if isEmptyCcch pdu p then .ok (.inr st.2.2)
    else do
      let d ← st.2.2.process cell harqPid pdu p
      pure (.inl (st.1 + p.stride st.2.1, st.2.1 - p.stride st.2.1, d))

def processMacPdu (cell : Cell) (ue : UeInfo) (pdu : Nat → Byte) (pduLen : Nat) (harqPid : Int) :
    Except (Fault UlschAssertion) Decoder :=
  loop (ulschRound cell harqPid pdu) (pduLen + 1) (0, pduLen, { ue })

end OpenAir.Mac

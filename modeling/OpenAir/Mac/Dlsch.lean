import OpenAir.Mac.Ulsch

namespace OpenAir.Mac

inductive DlLcid
  | ccch
  | lc (lcid : Nat)
  | recommendedBitrate
  | spZpCsiRsResSetAct
  | pucchSpatialRelationAct
  | spSrsActivation
  | spCsiRepPucchAct
  | tciStateIndUeSpecPdcch
  | tciStateActUeSpecPdsch
  | aperiodicCsiTriStateSubsel
  | spCsiRsCsiImResSetAct
  | duplicationAct
  | sCellAct4Oct
  | sCellAct1Oct
  | lDrx
  | drx
  | taCommand
  | conResId
  | padding
  | unknown
  deriving DecidableEq

def DlLcid.ofNat (lcid : Nat) : DlLcid :=
  if lcid = 0x00 then .ccch
  else if lcid ≤ 32 then .lc lcid
  else if lcid = 0x2F then .recommendedBitrate
  else if lcid = 0x30 then .spZpCsiRsResSetAct
  else if lcid = 0x31 then .pucchSpatialRelationAct
  else if lcid = 0x32 then .spSrsActivation
  else if lcid = 0x33 then .spCsiRepPucchAct
  else if lcid = 0x34 then .tciStateIndUeSpecPdcch
  else if lcid = 0x35 then .tciStateActUeSpecPdsch
  else if lcid = 0x36 then .aperiodicCsiTriStateSubsel
  else if lcid = 0x37 then .spCsiRsCsiImResSetAct
  else if lcid = 0x38 then .duplicationAct
  else if lcid = 0x39 then .sCellAct4Oct
  else if lcid = 0x3A then .sCellAct1Oct
  else if lcid = 0x3B then .lDrx
  else if lcid = 0x3C then .drx
  else if lcid = 0x3D then .taCommand
  else if lcid = 0x3E then .conResId
  else if lcid = 0x3F then .padding
  else .unknown

structure MacLen where
  ok : Bool
  macLen : Nat
  subheaderLen : Nat

/-- `get_mac_len`: the length announced is compared with the bytes left, subheader included. -/
def getMacLen (pdu : Nat → Byte) (pduLen : Nat) : MacLen :=
  let f := (pdu 0).getLsbD 6
  if pduLen < 2 then ⟨false, 0, 1⟩
  else if f && pduLen < 3 then ⟨false, 0, 1⟩
  else
    let macLen := if f then (pdu 1).toNat * 256 + (pdu 2).toNat else (pdu 1).toNat
    ⟨macLen ≤ pduLen, macLen, if f then 3 else 2⟩

/-- What the parser uses of the MAC instance of the UE (`IS_SOFTMODEM_IQPLAYER` does without the
identity of contention resolution). -/
structure DlMac where
  tagId : Int := 0
  rbSuspended : Nat → Bool := fun _ => false
  iqPlayer : Bool := false
  contResId : Nat → Byte := fun _ => 0
  raWaiting : Bool := false
  raActive : Bool := false

inductive DlEvent
  | timeAlignment (ta : Nat)
  | contentionTimerStop
  | raSucceeded
  | contentionFailed
  deriving DecidableEq

inductive DlAction
  | leave
  | skip (n : Nat)
  | sdu (lcid subheaderLen macLen : Nat)
  | timeAlignment (ta tag : Nat)
  | contentionResolution
  deriving DecidableEq

def DlLcid.action (cur : Nat → Byte) (len : Nat) (lcid : DlLcid) : DlAction :=
  let m := getMacLen cur len
  match lcid with
  | .ccch =>
    if !m.ok then .leave
    else if (List.range (m.subheaderLen + m.macLen)).all fun i => cur i = 0 then .leave
    else if m.macLen > 0 then .sdu 0 m.subheaderLen m.macLen
    else .skip (m.subheaderLen + m.macLen)
  | .tciStateActUeSpecPdsch | .aperiodicCsiTriStateSubsel | .spCsiRsCsiImResSetAct
  | .spSrsActivation => .skip (m.subheaderLen + m.macLen)
  | .recommendedBitrate => .skip 3
  | .spZpCsiRsResSetAct => .skip 3
  | .pucchSpatialRelationAct => .skip 4
  | .spCsiRepPucchAct => .skip 3
  | .tciStateIndUeSpecPdcch => .skip 3
  | .duplicationAct => .skip 2
  | .sCellAct4Oct => .skip 5
  | .sCellAct1Oct => .skip 2
  | .lDrx => .skip 1
  | .drx => .skip 1
  | .taCommand => .timeAlignment ((cur 1).toNat % 64) ((cur 1).toNat / 64)
  | .conResId => .contentionResolution
  | .padding => .leave
  | .lc lcid => if !m.ok then .leave else .sdu lcid m.subheaderLen m.macLen
  | .unknown => .skip 1

def dlAction (cur : Nat → Byte) (len : Nat) : DlAction :=
  (DlLcid.ofNat ((cur 0).toNat % 64)).action cur len

structure DlDecoder where
  mac : DlMac
  events : List DlEvent := []
  dataInd : List DataInd := []

inductive DlAssertion
  | numDataInd
  deriving DecidableEq

inductive DlStep
  | leave (d : DlDecoder)
  | discard (d : DlDecoder)
  | next (d : DlDecoder) (n : Nat)

/-- CCCH is never suspended. -/
def DlMac.drops (mac : DlMac) (lcid : Nat) : Bool := decide (lcid ≠ 0) && mac.rbSuspended lcid

def DlMac.checkRaContentionResolution (mac : DlMac) (ce : Nat → Byte) : Bool :=
  mac.iqPlayer || (List.range 6).all fun i => ce i = mac.contResId i

def DlDecoder.addDataInd (d : DlDecoder) (ind : DataInd) : Except (Fault DlAssertion) DlDecoder :=
  let dataInd := d.dataInd ++ [ind]
  if dataInd.length < maxNumDataInd then .ok { d with dataInd }
  else .error (.assertion .numDataInd)

def DlDecoder.perform (d : DlDecoder) (pos : Nat) (cur : Nat → Byte) :
    DlAction → Except (Fault DlAssertion) DlStep
  | .leave => .ok (.leave d)
  | .skip n => .ok (.next d n)
  | .sdu lcid subheaderLen macLen =>
    if d.mac.drops lcid then .ok (.next d (subheaderLen + macLen))
    else
      match d.addDataInd ⟨lcid, pos + subheaderLen, macLen⟩ with
      | .error e => .error e
      | .ok d => .ok (.next d (subheaderLen + macLen))
  | .timeAlignment ta tag =>
    if (tag : Int) ≠ d.mac.tagId then .ok (.leave d)
    else .ok (.next { d with events := d.events ++ [.timeAlignment ta] } 2)
  | .contentionResolution =>
    if d.mac.raWaiting then
      let d := { d with events := d.events ++ [.contentionTimerStop] }
      let success := d.mac.checkRaContentionResolution (seek cur 1)
      if d.mac.raActive && success then
        .ok (.next { d with
          mac := { d.mac with raWaiting := false, raActive := false }
          events := d.events ++ [.raSucceeded] } 7)
      else if !success then .ok (.discard { d with events := d.events ++ [.contentionFailed] })
      else .ok (.next d 7)
    else .ok (.next d 7)

def dlschRound (pdu : Nat → Byte) (st : Nat × Nat × DlDecoder) :
    Except (Fault DlAssertion) ((Nat × Nat × DlDecoder) ⊕ DlDecoder) :=
  if st.2.1 = 0 then .ok (.inr st.2.2)
  else
    let cur := seek pdu st.1
    match st.2.2.perform st.1 cur (dlAction cur st.2.1) with
    | .error e => .error e
    | .ok (.leave d) => .ok (.inr d)
    -- the SDUs before a failed contention resolution are dropped with it
    | .ok (.discard d) => .ok (.inr { d with dataInd := [] })
    | .ok (.next d n) =>
      if n < st.2.1 then .ok (.inl (st.1 + n, st.2.1 - n, d)) else .ok (.inr d)

/-- `nr_ue_process_mac_pdu` outside of a MsgB RAR; `dataInd` of the result is what RLC gets. -/
def ueProcessMacPdu (mac : DlMac) (pdu : Nat → Byte) (pduLen : Nat) :
    Except (Fault DlAssertion) DlDecoder :=
  loop (dlschRound pdu) (pduLen + 1) (0, pduLen, { mac })

end OpenAir.Mac

import OpenAir.Lib.Loop
import OpenAir.Lib.Bits

/-! The subPDUs of an UL MAC PDU.  A PDU is read through a pointer, as the bytes from it on; what
lies behind the end of the PDU is there too. -/

namespace OpenAir.Mac

inductive Lcid
  | ccch64Bits
  | srb (lcid : Nat)
  | dtch (lcid : Nat)
  | ccch48BitsRedcap
  | ccch48Bits
  | recommendedBitrateQuery
  | multiEntryPhr4Oct
  | configuredGrantConfirmation
  | multiEntryPhr1Oct
  | singleEntryPhr
  | cRnti
  | sTruncatedBsr
  | lTruncatedBsr
  | sBsr
  | lBsr
  | padding
  | unknown
  deriving DecidableEq

def Lcid.ofNat (lcid : Nat) : Lcid :=
  if lcid = 0x00 then .ccch64Bits
  else if lcid = 0x01 ∨ lcid = 0x02 then .srb lcid
  else if 0x04 ≤ lcid ∧ lcid ≤ 0x04 + 28 then .dtch lcid
  else if lcid = 0x23 then .ccch48BitsRedcap
  else if lcid = 0x34 then .ccch48Bits
  else if lcid = 0x35 then .recommendedBitrateQuery
  else if lcid = 0x36 then .multiEntryPhr4Oct
  else if lcid = 0x37 then .configuredGrantConfirmation
  else if lcid = 0x38 then .multiEntryPhr1Oct
  else if lcid = 0x39 then .singleEntryPhr
  else if lcid = 0x3A then .cRnti
  else if lcid = 0x3B then .sTruncatedBsr
  else if lcid = 0x3C then .lTruncatedBsr
  else if lcid = 0x3D then .sBsr
  else if lcid = 0x3E then .lBsr
  else if lcid = 0x3F then .padding
  else .unknown

structure SubHeader where
  lcid : Lcid
  subheaderLen : Nat
  macLen : Nat
  deriving DecidableEq

def decodeUlMacSubPduHeader (pdu : Nat → Byte) : SubHeader :=
  let lcid := Lcid.ofNat ((pdu 0).toNat % 64)
  match lcid with
  | .ccch64Bits => ⟨lcid, 1, 8⟩
  | .srb _ | .dtch _ | .lTruncatedBsr | .lBsr =>
    -- the F bit
    if (pdu 0).getLsbD 6 then ⟨lcid, 3, (pdu 1).toNat * 256 + (pdu 2).toNat⟩
    else ⟨lcid, 2, (pdu 1).toNat⟩
  | .ccch48BitsRedcap | .ccch48Bits => ⟨lcid, 1, 6⟩
  | .singleEntryPhr | .cRnti => ⟨lcid, 1, 2⟩
  | .sTruncatedBsr | .sBsr => ⟨lcid, 1, 1⟩
  | _ => ⟨lcid, 1, 0⟩

def seek (pdu : Nat → Byte) (pos : Nat) : Nat → Byte := fun i => pdu (pos + i)

def crntiRound (pdu : Nat → Byte) (st : Nat × Nat) : Except (Fault Empty) ((Nat × Nat) ⊕ Nat) :=
  if st.2 = 0 then .ok (.inr 0)
  else
    let cur := seek pdu st.1
    let h := decodeUlMacSubPduHeader cur
    if h.subheaderLen + h.macLen > st.2 then .ok (.inr 0)
    else if h.lcid = .cRnti then .ok (.inr ((cur 1).toNat * 256 + (cur 2).toNat))
    else if h.lcid = .padding then .ok (.inr 0)
    else .ok (.inl (st.1 + (h.macLen + h.subheaderLen), st.2 - (h.macLen + h.subheaderLen)))

def lcidCrntiLookahead (pdu : Nat → Byte) (pduLen : Nat) : Except (Fault Empty) Nat :=
  loop (crntiRound pdu) (pduLen + 1) (0, pduLen)

end OpenAir.Mac

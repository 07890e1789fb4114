import OpenAir.Rlc.Pdu

/-! What the AM and the UM receiver ask of the PDUs of one SN. -/

namespace OpenAir.Rlc

def processed : List Pdu → Bool
  | [] => false
  | l :: _ => l.data.isNone

def fullFrom : List Pdu → Int → Bool
  | [], _ => false
  | l :: ls, lastByte =>
    if (l.so : Int) > lastByte + 1 then false
    else if l.isLast then true
    else fullFrom ls (max lastByte (l.so + l.size - 1))

def missingFrom : List Pdu → Int → Bool
  | [], _ => false
  | l :: ls, lastByte =>
    if (l.so : Int) > lastByte + 1 then true
    else missingFrom ls (max lastByte (l.so + l.size - 1))

def reassemble : List Pdu → List Byte → Bool → List Byte × Bool
  | [], sdu, bad => (sdu, bad)
  | p :: ps, sdu, bad =>
    let so := sdu.length
    let bad := bad || decide (p.so > so)
    let len : Int := p.size - (so - p.so)
    let bad := bad || decide (so + len > sduMax)
    if !bad && decide (len > 0) then
      reassemble ps (sdu ++ ((p.data.getD []).drop (so - p.so)).take len.toNat) bad
    else reassemble ps sdu bad

end OpenAir.Rlc

import OpenAir.Rlc.Pdu
import Mathlib.Logic.Function.Basic

namespace OpenAir.Rlc

/-- Only the slots below `size` are used. -/
structure RxManager where
  rxList : Nat → List Pdu
  size : Nat
  start : Nat
  snStart : Nat

namespace RxManager

def new (size : Nat) : RxManager := { rxList := fun _ => [], size, start := 0, snStart := 0 }

def clear (m : RxManager) : RxManager := { m with rxList := fun _ => [], start := 0, snStart := 0 }

def getPos (m : RxManager) (sn : Nat) : Nat := (m.start + (sn + m.size * 2 - m.snStart)) % m.size

def getPduFromSn (m : RxManager) (sn : Nat) : List Pdu := m.rxList (m.getPos sn)

def setSlot (m : RxManager) (sn : Nat) (l : List Pdu) : RxManager :=
  { m with rxList := Function.update m.rxList (m.getPos sn) l }

def clearPdu (m : RxManager) (sn : Nat) : RxManager := m.setSlot sn []

def advance (m : RxManager) (count : Nat) : RxManager :=
  { m with start := (m.start + count) % m.size }

def setStart (m : RxManager) (snStart : Nat) : RxManager := { m with snStart }

/-- Order by `so`, after the PDUs of the same `so`. -/
def insertPdu (pdu : Pdu) : List Pdu → List Pdu
  | [] => [pdu]
  | cur :: l => if cur.so > pdu.so then pdu :: cur :: l else cur :: insertPdu pdu l

def addPdu (m : RxManager) (pdu : Pdu) : RxManager :=
  m.setSlot pdu.sn (insertPdu pdu (m.getPduFromSn pdu.sn))

end RxManager

end OpenAir.Rlc

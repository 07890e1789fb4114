import OpenAir.Lib.Loop
import OpenAir.Rlc.Am.Entity
import OpenAir.Rlc.Reassembly

namespace OpenAir.Rlc.Am

variable (c : Config)

namespace Rx

def modulusRx (e : Rx) (a : Nat) : Nat := Cyclic.dist c.snModulus e.rxNext a

def snInRecvWindow (e : Rx) (sn : Nat) : Bool := e.modulusRx c sn < c.windowSize

def snCompareRx (e : Rx) (a b : Nat) : Int := e.modulusRx c a - e.modulusRx c b

def coveredBy : List Pdu → Nat → Nat → Bool
  | [], _, size => size ≤ 0
  | l :: ls, so, size =>
    if size = 0 then true
    else if l.so ≤ so ∧ so < l.so + l.size then
      coveredBy ls (so + (l.size - (so - l.so))) (size - (l.size - (so - l.so)))
    else if l.so ≤ so + size - 1 ∧ so + size - 1 < l.so + l.size then
      coveredBy ls so (size - (size - (l.so - so)))
    else coveredBy ls so size

def segmentAlreadyReceived (e : Rx) (sn so size : Nat) : Bool :=
  coveredBy (e.rx.getPduFromSn sn) so size

def sduFull (e : Rx) (sn : Nat) : Bool :=
  let l := e.rx.getPduFromSn sn
  !processed l && fullFrom l (-1)

def sduDelivered (e : Rx) (sn : Nat) : Bool := processed (e.rx.getPduFromSn sn)

def sduHasMissingBytes (e : Rx) (sn : Nat) : Bool :=
  let l := e.rx.getPduFromSn sn
  !processed l && missingFrom l (-1)

def reassembleAndDeliver (e : Rx) (sn : Nat) : Rx × List Event :=
  let l := e.rx.getPduFromSn sn
  let r := reassemble l [] false
  ({ e with
      rx := e.rx.setSlot sn (l.map fun p => { p with data := none })
      rxSize := e.rxSize - (l.map fun p => (p.size : Int)).sum },
   if r.2 then [] else [.deliverSdu sn r.1])

def updateRxNextHighest (e : Rx) (x : Nat) : Rx :=
  if e.snCompareRx c x e.rxNextHighest ≥ 0 then
    { e with rxNextHighest := (x + 1) % c.snModulus }
  else e

def nextUndelivered (fuel : Nat) (e : Rx) (sn : Nat) : Option Nat :=
  whileLoop (fun sn => e.sduDelivered sn) (fun sn => (sn + 1) % c.snModulus) fuel sn

def advanceHighestStatus (fuel : Nat) (e : Rx) (x : Nat) : Option Rx :=
  if x = e.rxHighestStatus then
    (nextUndelivered c fuel e e.rxHighestStatus).map fun sn => { e with rxHighestStatus := sn }
  else some e

structure Passing where
  rxNext : Nat
  count : Nat
  rx : RxManager
  passed : List Event

def Passing.step (s : Passing) : Passing :=
  { rxNext := (s.rxNext + 1) % c.snModulus
    count := s.count + 1
    rx := s.rx.clearPdu s.rxNext
    passed := s.passed ++ [.rxNextPassed s.rxNext] }

def passDelivered (fuel : Nat) (e : Rx) : Option Passing :=
  whileLoop (fun s => processed (s.rx.getPduFromSn s.rxNext)) (Passing.step c) fuel
    { rxNext := e.rxNext, count := 0, rx := e.rx, passed := [] }

def advanceRxNext (fuel : Nat) (e : Rx) (x : Nat) : Option (Rx × List Event) :=
  if x = e.rxNext then
    (passDelivered c fuel e).map fun s =>
      ({ e with rxNext := s.rxNext, rx := (s.rx.advance s.count).setStart s.rxNext }, s.passed)
  else some (e, [])

def deliverActions (fuel : Nat) (e : Rx) (x : Nat) : Option (Rx × List Event) :=
  if e.sduFull x then
    let r := e.reassembleAndDeliver x
    (advanceHighestStatus c fuel r.1 x).bind fun e =>
      (advanceRxNext c fuel e x).map fun s => (s.1, r.2 ++ s.2)
  else some (e, [])

def stopTReassembly (e : Rx) : Rx :=
  if e.tReassemblyStart ≠ 0 ∧
      (e.rxNextStatusTrigger = e.rxNext ∨
        (e.rxNextStatusTrigger = (e.rxNext + 1) % c.snModulus ∧
          e.sduHasMissingBytes e.rxNext = false) ∨
        (e.snInRecvWindow c e.rxNextStatusTrigger = false ∧
          e.rxNextStatusTrigger ≠ (e.rxNext + c.windowSize) % c.snModulus)) then
    { e with tReassemblyStart := 0 }
  else e

def startTReassembly (now : UInt64) (e : Rx) : Rx :=
  if e.tReassemblyStart = 0 ∧
      (e.snCompareRx c e.rxNextHighest ((e.rxNext + 1) % c.snModulus) > 0 ∨
        (e.rxNextHighest = (e.rxNext + 1) % c.snModulus ∧
          e.sduHasMissingBytes e.rxNext = true)) then
    { e with tReassemblyStart := now, rxNextStatusTrigger := e.rxNextHighest }
  else e

def receptionActions (fuel : Nat) (now : UInt64) (e : Rx) (x : Nat) : Option (Rx × List Event) :=
  (deliverActions c fuel (e.updateRxNextHighest c x) x).map fun r =>
    (startTReassembly c now (stopTReassembly c r.1), r.2)

end Rx

/-- The data PDU behind the D/C and P bits. -/
def decodeDataPdu (d : Decoder) : Option Pdu := do
  let (si, d) ← d.getBits 2
  decodeSegment (c.snFieldLength = 18) c.snFieldLength (si &&& 2 = 0) (si &&& 1 = 0) d

namespace Rx

/-- A poll triggers a status report, whether its PDU is stored or discarded. -/
def poll (e : Rx) (p : Bool) : Rx := if p then { e with statusTriggered := true } else e

def accepts (e : Rx) (pdu : Pdu) : Bool :=
  decide (0 < pdu.size) && decide (e.rxSize + pdu.size ≤ e.rxMaxsize) &&
    e.snInRecvWindow c pdu.sn && !e.segmentAlreadyReceived pdu.sn pdu.so pdu.size

def store (fuel : Nat) (now : UInt64) (e : Rx) (pdu : Pdu) : Option (Rx × List Event) :=
  receptionActions c fuel now
    { e with rxSize := e.rxSize + pdu.size, rx := e.rx.addPdu pdu } pdu.sn

/-- `nr_rlc_entity_am_recv_pdu` -/
def recvDataPdu (fuel : Nat) (now : UInt64) (e : Rx) (d : Decoder) : Option (Rx × List Event) :=
  match d.getBits 1 with
  | none => some (e, [])
  | some (p, d) =>
    match decodeDataPdu c d with
    | none => some (e.poll (p = 1), [])
    | some pdu =>
      if e.accepts c pdu then
        (e.store c fuel now pdu).map fun r => (r.1.poll (p = 1), r.2)
      else some (e.poll (p = 1), [])

def checkTReassembly (fuel : Nat) (now : UInt64) (e : Rx) : Option Rx :=
  if e.tReassemblyStart = 0 ∨ now ≤ e.tReassemblyStart + c.tReassembly then some e
  else
    (nextUndelivered c fuel e e.rxNextStatusTrigger).map fun sn =>
      let e := { e with tReassemblyStart := 0, rxHighestStatus := sn, statusTriggered := true }
      if e.snCompareRx c e.rxNextHighest ((sn + 1) % c.snModulus) > 0 ∨
          (e.rxNextHighest = (sn + 1) % c.snModulus ∧ e.sduHasMissingBytes sn = true) then
        { e with tReassemblyStart := now, rxNextStatusTrigger := e.rxNextHighest }
      else e

end Rx

end OpenAir.Rlc.Am

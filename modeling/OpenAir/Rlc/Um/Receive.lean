import OpenAir.Lib.Cyclic
import OpenAir.Lib.Loop
import OpenAir.Rlc.Reassembly
import OpenAir.Rlc.Um.Entity

namespace OpenAir.Rlc

/-- `nr_rlc_pdu_list_add`: order by `sn`, then by `so`. -/
def pduListAdd (snCompare : Nat → Nat → Int) (pdu : Pdu) : List Pdu → List Pdu
  | [] => [pdu]
  | cur :: l =>
    if snCompare cur.sn pdu.sn > 0 ∨ (cur.sn = pdu.sn ∧ cur.so > pdu.so) then pdu :: cur :: l
    else cur :: pduListAdd snCompare pdu l

namespace Um

variable (c : Config)

namespace Rx

/-- The modulus base is `rx_next_highest - window_size`. -/
def modulusRx (e : Rx) (a : Nat) : Int :=
  let r : Int := a - (e.rxNextHighest - c.windowSize)
  (if r < 0 then r + c.snModulus else r) % c.snModulus

def snCompareRx (e : Rx) (a b : Nat) : Int := e.modulusRx c a - e.modulusRx c b

def segments (e : Rx) (sn : Nat) : List Pdu :=
  (e.rxList.dropWhile (·.sn ≠ sn)).takeWhile (·.sn = sn)

def sduFull (e : Rx) (sn : Nat) : Bool :=
  !processed (e.segments sn) && fullFrom (e.segments sn) (-1)

def sduDelivered (e : Rx) (sn : Nat) : Bool := processed (e.segments sn)

def sduHasMissingBytes (e : Rx) (sn : Nat) : Bool :=
  !processed (e.segments sn) && missingFrom (e.segments sn) (-1)

def reassembleAndDeliver (e : Rx) (sn : Nat) : Rx × List Delivery :=
  let l := e.segments sn
  let r := reassemble l [] false
  ({ e with
      rxList :=
        e.rxList.takeWhile (·.sn ≠ sn) ++ l.map (fun p => { p with data := none, size := 0 }) ++
        (e.rxList.dropWhile (·.sn ≠ sn)).dropWhile (·.sn = sn)
      rxSize := e.rxSize - (l.map fun p => (p.size : Int)).sum },
   if r.2 then [] else [{ sn := some sn, sdu := r.1 }])

def nextUndelivered (fuel : Nat) (e : Rx) (sn : Nat) : Option Nat :=
  whileLoop (fun sn => e.sduDelivered sn) (fun sn => (sn + 1) % c.snModulus) fuel sn

def deliverActions (fuel : Nat) (e : Rx) (x : Nat) : Option (Rx × List Delivery) :=
  let r := e.reassembleAndDeliver x
  if x = r.1.rxNextReassembly then
    (nextUndelivered c fuel r.1 r.1.rxNextReassembly).map fun sn =>
      ({ r.1 with rxNextReassembly := sn }, r.2)
  else some r

def discardOutOfWindow (e : Rx) : Rx :=
  let out (p : Pdu) : Bool := decide (e.snCompareRx c p.sn e.rxNextHighest ≥ 0)
  { e with
    rxList := e.rxList.dropWhile out
    rxSize := e.rxSize - ((e.rxList.takeWhile out).map fun p => (p.size : Int)).sum }

def advanceWindow (fuel : Nat) (e : Rx) (x : Nat) : Option Rx :=
  if e.snCompareRx c x e.rxNextHighest ≥ 0 then
    let e := { e with rxNextHighest := (x + 1) % c.snModulus }
    let e := e.discardOutOfWindow c
    if e.snCompareRx c e.rxNextReassembly e.rxNextHighest ≥ 0 then
      (nextUndelivered c fuel e
        ((e.rxNextHighest + c.snModulus - c.windowSize) % c.snModulus)).map fun sn =>
          { e with rxNextReassembly := sn }
    else some e
  else some e

def stopTReassembly (e : Rx) : Rx :=
  if e.tReassemblyStart ≠ 0 ∧
      (e.snCompareRx c e.rxTimerTrigger e.rxNextReassembly ≤ 0 ∨
        e.snCompareRx c e.rxTimerTrigger e.rxNextHighest > 0 ∨
        (e.rxNextHighest = (e.rxNextReassembly + 1) % c.snModulus ∧
          e.sduHasMissingBytes e.rxNextReassembly = false)) then
    { e with tReassemblyStart := 0 }
  else e

def startTReassembly (now : UInt64) (e : Rx) : Rx :=
  if e.tReassemblyStart = 0 ∧
      (e.snCompareRx c e.rxNextHighest ((e.rxNextReassembly + 1) % c.snModulus) > 0 ∨
        (e.rxNextHighest = (e.rxNextReassembly + 1) % c.snModulus ∧
          e.sduHasMissingBytes e.rxNextReassembly = true)) then
    { e with tReassemblyStart := now, rxTimerTrigger := e.rxNextHighest }
  else e

def receptionActions (fuel : Nat) (now : UInt64) (e : Rx) (x : Nat) :
    Option (Rx × List Delivery) :=
  (if e.sduFull x then e.deliverActions c fuel x
    else (e.advanceWindow c fuel x).map fun e => (e, [])).map fun r =>
      (startTReassembly c now (stopTReassembly c r.1), r.2)

def accepts (e : Rx) (pdu : Pdu) : Bool :=
  decide (0 < pdu.size) && decide (e.rxSize + pdu.size ≤ e.rxMaxsize) &&
    decide (e.snCompareRx c pdu.sn e.rxNextReassembly ≥ 0)

def store (fuel : Nat) (now : UInt64) (e : Rx) (pdu : Pdu) : Option (Rx × List Delivery) :=
  receptionActions c fuel now
    { e with rxSize := e.rxSize + pdu.size
             rxList := pduListAdd (e.snCompareRx c) pdu e.rxList } pdu.sn

def recvPdu (fuel : Nat) (now : UInt64) (e : Rx) (buffer : List Byte) :
    Option (Rx × List Delivery) :=
  match (Decoder.init buffer).getBits 2 with
  | none => some (e, [])
  | some (si, d) =>
    let isFirst : Bool := si &&& 2 = 0
    let isLast : Bool := si &&& 1 = 0
    if isFirst && isLast then
      some (e, if buffer.length < 2 then [] else [{ sn := none, sdu := buffer.drop 1 }])
    else
      match decodeSegment (c.snFieldLength = 12) c.snFieldLength isFirst isLast d with
      | none => some (e, [])
      | some pdu => if e.accepts c pdu then e.store c fuel now pdu else some (e, [])

/-- `check_t_reassembly`.  The test for a restart does not reduce `rx_next_reassembly + 1`, and
`rx_size` keeps counting the discarded PDUs. -/
def checkTReassembly (fuel : Nat) (now : UInt64) (e : Rx) : Option Rx :=
  if e.tReassemblyStart = 0 ∨ now ≤ e.tReassemblyStart + c.tReassembly then some e
  else
    (nextUndelivered c fuel e e.rxTimerTrigger).map fun sn =>
      let e := { e with tReassemblyStart := 0, rxNextReassembly := sn }
      let e := { e with
        rxList := e.rxList.dropWhile fun p => decide (e.snCompareRx c p.sn sn < 0) }
      if e.snCompareRx c e.rxNextHighest ((sn + 1) % c.snModulus) > 0 ∨
          (e.rxNextHighest = sn + 1 ∧ e.sduHasMissingBytes sn = true) then
        { e with tReassemblyStart := now, rxTimerTrigger := e.rxNextHighest }
      else e

end Rx

end Um

end OpenAir.Rlc

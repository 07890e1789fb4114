import OpenAir.Rlc.Am.Receive

/-! Status reporting: the walk over the received PDUs and the status PDU written from it.
A pointer to a received PDU is the list that starts at it in its slot, a null pointer `[]`. -/

namespace OpenAir.Rlc.Am

variable (c : Config)

structure MissingData where
  snStart : Nat
  soStart : Nat
  snEnd : Nat
  soEnd : Nat
  next : List Pdu

namespace Rx

def firstStored (e : Rx) (lastSn : Nat) : Nat → Nat → List Pdu
  | 0, sn => e.rx.getPduFromSn sn
  | n + 1, sn =>
    if sn = lastSn then e.rx.getPduFromSn sn
    else
      match e.rx.getPduFromSn sn with
      | [] => firstStored e lastSn n ((sn + 1) % c.snModulus)
      | ret => ret

def getFirstRxPdu (e : Rx) : List Pdu :=
  e.firstStored c e.rxHighestStatus c.snModulus e.rxNext

def getNextRxPdu (e : Rx) (cur : Pdu) : List Pdu → List Pdu
  | [] =>
    if cur.sn = e.rxHighestStatus then []
    else e.firstStored c e.rxHighestStatus c.snModulus ((cur.sn + 1) % c.snModulus)
  | next => next

/-- "don't report if out of reporting window" -/
def outOfReportingWindow (e : Rx) (sn : Nat) : Bool :=
  decide (e.snCompareRx c e.rxHighestStatus sn ≤ 0)

def beforeHighestStatus (e : Rx) : Nat :=
  (e.rxHighestStatus + c.snModulus - 1) % c.snModulus

def setEndDifferentSdu (e : Rx) (snStart soStart : Nat) (cur : Pdu) (next : List Pdu) :
    MissingData :=
  let snEnd := if cur.isFirst then (cur.sn + c.snModulus - 1) % c.snModulus else cur.sn
  let soEnd := if cur.isFirst then 0xffff else cur.so - 1
  if e.outOfReportingWindow c snEnd then
    { snStart, soStart, snEnd := e.beforeHighestStatus c, soEnd := 0xffff, next := [] }
  else { snStart, soStart, snEnd, soEnd, next }

/-- `next_missing` when no PDU follows `cur`. -/
def missingAtEnd (e : Rx) (cur : Pdu) (maxSo : Nat) (lastReached : Bool) : Option MissingData :=
  let snStart :=
    if cur.data.isNone || lastReached then (cur.sn + 1) % c.snModulus else cur.sn
  let soStart := if cur.data.isNone || lastReached then 0 else maxSo + 1
  if e.outOfReportingWindow c snStart then none
  else some { snStart, soStart, snEnd := e.beforeHighestStatus c, soEnd := 0xffff, next := [] }

/-- The label `next_pdu`.  The outer `none` is an empty fuel; the inner one is `sn_start = -1`. -/
def nextPdu (e : Rx) : Nat → Pdu → List Pdu → Nat → Bool → Option (Option MissingData)
  | 0, _, _, _, _ => none
  | fuel + 1, cur, rest, maxSo, lastReached =>
    let maxSo := max maxSo (cur.so + cur.size - 1)
    let lastReached := lastReached || cur.isLast
    match e.getNextRxPdu c cur rest with
    | [] => some (e.missingAtEnd c cur maxSo lastReached)
    | next :: rest' =>
      -- no discontinuity in data
      if next.sn = cur.sn ∧ maxSo + 1 ≥ next.so then e.nextPdu fuel next rest' maxSo lastReached
      else if next.sn = (cur.sn + 1) % c.snModulus ∧ lastReached ∧ next.isFirst then
        e.nextPdu fuel next rest' 0 false
      -- discontinuity in same SDU
      else if next.sn = cur.sn then
        if e.outOfReportingWindow c cur.sn then some none
        else some (some { snStart := cur.sn, soStart := maxSo + 1, snEnd := cur.sn
                          soEnd := next.so - 1, next := next :: rest' })
      -- discontinuity between different SDUs
      else
        let snStart := if lastReached then (cur.sn + 1) % c.snModulus else cur.sn
        let soStart := if lastReached then 0 else maxSo + 1
        if e.outOfReportingWindow c snStart then some none
        else some (some (e.setEndDifferentSdu c snStart soStart next (next :: rest')))

def nextMissing (fuel : Nat) (e : Rx) (cur : Pdu) (rest : List Pdu) (checkHead : Bool) :
    Option (Option MissingData) :=
  if checkHead ∧ (cur.sn ≠ e.rxNext ∨ cur.isFirst = false) then
    if e.outOfReportingWindow c e.rxNext then some none
    else some (some (e.setEndDifferentSdu c e.rxNext 0 cur (cur :: rest)))
  else e.nextPdu c fuel cur rest 0 false

end Rx

/-- A block to write: no SO fields for whole SDUs, no range for a single SN. -/
structure NackBlock where
  snStart : Nat
  soStart : Nat
  snEnd : Nat
  soEnd : Nat
  deriving DecidableEq

namespace NackBlock

def hasSo (n : NackBlock) : Bool := !(decide (n.soStart = 0) && decide (n.soEnd = 0xffff))

def hasRange (n : NackBlock) : Bool := decide (n.snStart ≠ n.snEnd)

def size (n : NackBlock) : Nat :=
  2 + (if c.snFieldLength = 18 then 1 else 0) + (if n.hasSo then 4 else 0) +
    (if n.hasRange then 1 else 0)

end NackBlock

/-- With the position of the E1 bit to set if a NACK follows, and of the SO_END of the last NACK. -/
structure StatusEncoder where
  encoder : Encoder
  e1Byte : Nat
  e1Bit : Nat
  soEndAddress : Option Nat

namespace StatusEncoder

def putNack (w : StatusEncoder) (n : NackBlock) (count : Nat) : Option StatusEncoder := do
  let encoder := w.encoder.orByte w.e1Byte (1 <<< w.e1Bit)
  let e1Byte := encoder.byte + if c.snFieldLength = 18 then 2 else 1
  let e1Bit := if c.snFieldLength = 18 then 5 else 3
  let encoder ← encoder.putBits n.snStart c.snFieldLength
  let encoder ← encoder.putBits 0 1
  let encoder ← encoder.putBits n.hasSo.toNat 1
  let encoder ← encoder.putBits n.hasRange.toNat 1
  let encoder ← encoder.putBits 0 (if c.snFieldLength = 18 then 3 else 1)
  let (encoder, soEndAddress) ←
    (if n.hasSo then do
      let encoder ← encoder.putBits n.soStart 16
      let soEndAddress := some encoder.byte
      let encoder ← encoder.putBits n.soEnd 16
      pure (encoder, soEndAddress)
    else some (encoder, none))
  let encoder ← (if n.hasRange then encoder.putBits count 8 else some encoder)
  return { encoder, e1Byte, e1Bit, soEndAddress }

end StatusEncoder

structure MissingLoop where
  writer : StatusEncoder
  lastNack : Option Nat
  truncated : Bool

/-- `while (sn_count)`; a range is limited to 255 SNs. -/
def generateMissingLoop (m : MissingData) :
    Nat → Nat → Nat → MissingLoop → Option MissingLoop
  | 0, _, _, s => some s
  | fuel + 1, snCount, snStart, s =>
    if snCount = 0 then some s
    else
      let curSnCount := min snCount 255
      let last : Bool := curSnCount = snCount
      let n : NackBlock :=
        { snStart
          soStart := if snStart = m.snStart then m.soStart else 0
          snEnd := if last then m.snEnd else (snStart + 254) % c.snModulus
          soEnd := if last then m.soEnd else 0xffff }
      if s.writer.encoder.byte + n.size c > s.writer.encoder.size then
        some { s with truncated := true }
      else do
        let writer ← s.writer.putNack c n curSnCount
        let lastNack := some (snStart + if n.hasRange then curSnCount - 1 else 0)
        generateMissingLoop m fuel (snCount - curSnCount) ((snStart + curSnCount) % c.snModulus)
          { s with writer, lastNack }

def generateMissing (w : StatusEncoder) (m : MissingData) : Option MissingLoop :=
  let snCount := (m.snEnd + c.snModulus - m.snStart) % c.snModulus + 1
  generateMissingLoop c m snCount snCount m.snStart
    { writer := w, lastNack := none, truncated := false }

namespace Rx

def patchSoEnd (s : MissingLoop) : StatusEncoder :=
  match s.truncated, s.writer.soEndAddress with
  | true, some a =>
    { s.writer with encoder := (s.writer.encoder.setByte a 0xff).setByte (a + 1) 0xff }
  | _, _ => s.writer

/-- The loop over the missing parts, with `last_nack`.  The result is `none` when the fuel is empty
or the encoder exits. -/
def statusLoop (e : Rx) : Nat → List Pdu → Bool → StatusEncoder → Nat → Option (StatusEncoder × Nat)
  | 0, _, _, _, _ => none
  | _ + 1, [], _, w, lastNack => some (w, lastNack)
  | fuel + 1, cur :: rest, checkHead, w, lastNack =>
    match e.nextMissing c fuel cur rest checkHead with
    | none => none
    | some none => some (w, lastNack)
    | some (some m) =>
      match generateMissing c w m with
      | none => none
      | some s =>
        statusLoop e fuel (if s.truncated then [] else m.next) false (patchSoEnd s)
          (s.lastNack.getD lastNack)

def putAck (ackSn : Nat) (e : Encoder) : Encoder :=
  if c.snFieldLength = 12 then (e.setByte 0 (ackSn / 256)).setByte 1 (ackSn % 256)
  else ((e.setByte 0 (ackSn / 2 ^ 14)).setByte 1 (ackSn / 2 ^ 6 % 256)).orByte 2 (ackSn % 64 * 4)

/-- `generate_status`; the size of the PDU is the value the source returns. -/
def generateStatus (fuel : Nat) (now : UInt64) (e : Rx) (size : Nat) :
    Option (Rx × List Byte) :=
  if size < 3 then some (e, [])
  else do
    let encoder ← (Encoder.init size).putBits 0 (8 * 3)
    let w := { encoder, e1Byte := 2, e1Bit := if c.snFieldLength = 18 then 1 else 7
               soEndAddress := none }
    let lastNack := (e.rxNext + c.snModulus - 1) % c.snModulus
    let (w, lastNack) ← e.statusLoop c fuel (e.getFirstRxPdu c) true w lastNack
    let ackSn := (lastNack + 1) % c.snModulus
    return ({ e with statusTriggered := false, tStatusProhibitStart := now },
      (putAck c ackSn w.encoder).bytes)

end Rx

def NackBlock.countedSize (n : NackBlock) : Nat :=
  (c.snFieldLength + 3 + (if c.snFieldLength = 18 then 3 else 1) + (if n.hasSo then 16 * 2 else 0) +
    (if n.hasRange then 8 else 0)) / 8

/-- The variables of the loop of `missing_size`; `truncated` is `m->next = NULL`. -/
structure SizeLoop where
  size : Nat
  rangeCount : Nat
  truncated : Bool

/-- `while (sn_count)` of `missing_size` -/
def missingSizeLoop (maxsize : Nat) (m : MissingData) : Nat → Nat → Nat → SizeLoop → SizeLoop
  | 0, _, _, s => s
  | fuel + 1, snCount, snStart, s =>
    if snCount = 0 then s
    else
      let curSnCount := min snCount 255
      let last : Bool := curSnCount = snCount
      let n : NackBlock :=
        { snStart
          soStart := if snStart = m.snStart then m.soStart else 0
          snEnd := if last then m.snEnd else (snStart + 254) % c.snModulus
          soEnd := if last then m.soEnd else 0xffff }
      if s.size + n.size c > maxsize then { s with truncated := true }
      else
        missingSizeLoop maxsize m fuel (snCount - curSnCount) ((snStart + curSnCount) % c.snModulus)
          { s with size := s.size + n.countedSize c, rangeCount := s.rangeCount + 1 }

def missingSize (maxsize : Nat) (m : MissingData) (size : Nat) : SizeLoop :=
  let snCount := (m.snEnd + c.snModulus - m.snStart) % c.snModulus + 1
  missingSizeLoop c maxsize m snCount snCount m.snStart
    { size, rangeCount := 0, truncated := false }

namespace Rx

/-- The loop of `status_size`; `none` is an empty fuel. -/
def statusSizeLoop (e : Rx) (maxsize : Nat) : Nat → List Pdu → Nat → Nat → Option Nat
  | 0, _, _, _ => none
  | _ + 1, [], _, size => some size
  | fuel + 1, cur :: rest, nackCount, size =>
    match e.nextMissing c fuel cur rest (nackCount = 0) with
    | none => none
    | some none => some size
    | some (some m) =>
      let s := missingSize c maxsize m size
      statusSizeLoop e maxsize fuel (if s.truncated then [] else m.next) (nackCount + s.rangeCount)
        s.size

def statusSize (fuel : Nat) (e : Rx) (maxsize : Nat) : Option Nat :=
  if maxsize < 3 then some 0 else e.statusSizeLoop c maxsize fuel (e.getFirstRxPdu c) 0 3

def statusToReport (now : UInt64) (e : Rx) : Bool :=
  e.statusTriggered &&
    (e.tStatusProhibitStart = 0 || decide (now - e.tStatusProhibitStart > c.tStatusProhibit))

end Rx

end OpenAir.Rlc.Am

import OpenAir.Rlc.Am.Control
import OpenAir.Rlc.Am.Status

namespace OpenAir.Rlc.Am

variable (c : Config)

namespace Tx

def sduSegmentListAdd (e : Tx) : List Segment → Segment → List Segment
  | [], s => [s]
  | cur :: l, s =>
    if e.snCompareTx c (e.snOf cur) (e.snOf s) > 0 ∨
        (e.snOf cur = e.snOf s ∧ cur.so > s.so) then s :: cur :: l
    else cur :: sduSegmentListAdd e l s

def includePoll (now : UInt64) (e : Tx) : Tx :=
  { e with
    pduWithoutPoll := 0
    byteWithoutPoll := 0
    pollSn := (e.txNext + c.snModulus - 1) % c.snModulus
    tPollRetransmitStart := now }

def checkPollAfterPduAssembly (e : Tx) : Bool :=
  (e.txList.isEmpty && e.retransmitList.isEmpty) || e.isWindowStalling c

/-- The PDU header, the P bit left at 0.  `none` is the encoder's fatal exit. -/
def serializeHeader (e : Tx) (s : Segment) (bufsize : Nat) : Option Encoder := do
  let encoder ← (Encoder.init bufsize).putBits 1 1
  let encoder ← encoder.putBits 0 1
  let encoder ← encoder.putBits (1 - s.isFirst.toNat) 1
  let encoder ← encoder.putBits (1 - s.isLast.toNat) 1
  let encoder ← (if c.snFieldLength = 18 then encoder.putBits 0 2 else some encoder)
  let encoder ← encoder.putBits (e.snOf s) c.snFieldLength
  (if s.isFirst then some encoder else encoder.putBits s.so 16)

def serializeSdu (now : UInt64) (e : Tx) (s : Segment) (bufsize : Nat) (p : Bool) :
    Option (Tx × List Byte) := do
  let encoder ← e.serializeHeader c s bufsize
  let data := ((e.heap.sdu s.sdu).data.drop s.so).take s.size
  some (if p then (e.includePoll c now, (encoder.orByte 0 0x40).bytes ++ data)
    else (e, encoder.bytes ++ data))

def resegment (e : Tx) (s : Segment) (pduSize : Nat) : Tx × Segment × Segment :=
  let overSize := computePduHeaderSize c s + s.size - pduSize
  let heap := e.heap.modify s.sdu fun sdu => { sdu with refCount := sdu.refCount + 1 }
  let sdu := { s with size := s.size - overSize, isLast := false }
  let next := { s with id := heap.fresh, size := overSize, so := s.so + sdu.size, isFirst := false }
  ({ e with heap := { heap with fresh := heap.fresh + 1 } }, sdu, next)

def comesLast (e : Tx) (s : Segment) : Bool :=
  match e.waitEnd with
  | none => true
  | some w =>
    decide (e.snCompareTx c (e.snOf s) (e.snOf w) > 0) ||
      (decide (e.snCompareTx c (e.snOf s) (e.snOf w) = 0) && decide (s.so > w.so))

/-- Put SDU/SDU segment in the wait list.  `none` for a bad tail pointer. -/
def putInWaitList (e : Tx) (s : Segment) : Option Tx :=
  if e.comesLast c s then
    (sduSegmentListAppend e.waitList e.waitEnd s).map fun r =>
      { e with waitList := r.1, waitEnd := r.2 }
  else
    let l := e.sduSegmentListAdd c e.waitList s
    some { e with waitList := l, waitEnd := if l.tail = [] then l.head? else e.waitEnd }

/-- `force_poll` overrides the decision to poll, once. -/
def takeForcePoll (e : Tx) (p : Bool) : Tx × Bool :=
  ({ e with forcePoll := false }, p || e.forcePoll)

def takeRetx (e : Tx) (s : Segment) (rest : List Segment) (size : Nat) : Tx × Segment :=
  let e := { e with retransmitList := rest, bstatusRetxSize := e.bstatusRetxSize - pduSize c s }
  if computePduHeaderSize c s + s.size > size then
    let r := e.resegment c s size
    ({ r.1 with
        retransmitList := r.2.2 :: rest
        bstatusRetxSize := r.1.bstatusRetxSize + pduSize c r.2.2 }, r.2.1)
  else (e, s)

def generateRetxPdu (now : UInt64) (e : Tx) (size : Nat) : Option (Tx × List Byte) :=
  match e.retransmitList with
  | [] => some (e, [])
  | s :: rest =>
    if computePduHeaderSize c s + 1 > size then some (e, [])
    else
      let r := e.takeRetx c s rest size
      (r.1.putInWaitList c r.2).bind fun e =>
        let f := e.takeForcePoll (e.checkPollAfterPduAssembly c)
        f.1.serializeSdu c now r.2 size f.2

def assignSn (e : Tx) (s : Segment) : Tx :=
  if (e.heap.sdu s.sdu).sn = none then
    { e with
      heap := e.heap.modify s.sdu fun sdu => { sdu with sn := some e.txNext }
      txNext := (e.txNext + 1) % c.snModulus }
  else e

def takeTx (e : Tx) (s : Segment) (rest : List Segment) (size : Nat) : Tx × Segment :=
  let e := { e with
    txList := rest
    txEnd := if rest = [] then none else e.txEnd
    bstatusTxSize := e.bstatusTxSize - pduSize c s }
  let e := e.assignSn c s
  if computePduHeaderSize c s + s.size > size then
    let r := e.resegment c s size
    ({ r.1 with
        txList := r.2.2 :: rest
        txEnd := match r.1.txEnd with
          | none => some r.2.2
          | some t => some t
        bstatusTxSize := r.1.bstatusTxSize + pduSize c r.2.2 }, r.2.1)
  else (e, s)

def countPdu (e : Tx) (s : Segment) : Tx :=
  { e with
    pduWithoutPoll := e.pduWithoutPoll + 1
    byteWithoutPoll := e.byteWithoutPoll + s.size }

def pollForNewPdu (e : Tx) : Bool :=
  (decide (c.pollPdu ≠ -1) && decide (e.pduWithoutPoll ≥ c.pollPdu)) ||
    (decide (c.pollByte ≠ -1) && decide (e.byteWithoutPoll ≥ c.pollByte)) ||
    e.checkPollAfterPduAssembly c

def generateTxPdu (now : UInt64) (e : Tx) (size : Nat) : Option (Tx × List Byte) :=
  if e.isWindowStalling c then some (e, [])
  else
    match e.txList with
    | [] => some (e, [])
    | s :: rest =>
      if computePduHeaderSize c s + 1 > size then some (e, [])
      else
        let r := e.takeTx c s rest size
        (r.1.putInWaitList c r.2).bind fun e =>
          let e := e.countPdu r.2
          let f := e.takeForcePoll (e.pollForNewPdu c)
          f.1.serializeSdu c now r.2 size f.2

/-- `nr_rlc_entity_am_recv_sdu`; `none` is the assertion on the size, or a bad tail pointer. -/
def recvSdu (e : Tx) (buffer : List Byte) (sduId : Int) : Option Tx :=
  if buffer.length > sduMax then none
  else if e.txSize + buffer.length > e.txMaxsize then some e
  else
    let r := newSdu e.heap buffer sduId
    (sduSegmentListAppend e.txList e.txEnd r.2).map fun l =>
      { e with
        heap := r.1
        txList := l.1
        txEnd := l.2
        txSize := e.txSize + buffer.length
        bstatusTxSize := e.bstatusTxSize + pduSize c r.2 }

/-- The `do`/`while` loop that moves the segments of one SN from the head of `wait_list` to
`retransmit_list`. -/
def retransmitSn (sn : Nat) : List Segment → Tx → Tx
  | [], e => e
  | cur :: rest, e =>
    let e := { e with
      waitList := rest
      waitEnd := if rest = [] then none else e.waitEnd
      bstatusRetxSize := e.bstatusRetxSize + pduSize c cur
      retransmitList := e.sduSegmentListAdd c e.retransmitList cur }
    match rest with
    | [] => e
    | s :: _ => if e.snOf s = sn then retransmitSn sn rest e else e

def tPollRetransmitExpired (now : UInt64) (e : Tx) : Bool :=
  !(e.tPollRetransmitStart = 0 || decide (now ≤ e.tPollRetransmitStart + c.tPollRetransmit))

/-- `none` is the null pointer dereference of an empty `wait_list`. -/
def checkTPollRetransmit (now : UInt64) (e : Tx) : Option (Tx × List Event) :=
  if !e.tPollRetransmitExpired c now then some (e, [])
  else
    let e := { e with tPollRetransmitStart := 0, forcePoll := true }
    if !e.checkPollAfterPduAssembly c then some (e, [])
    else
      match e.waitList with
      | [] => none
      | cur :: rest =>
        let heap := e.heap.modify cur.sdu fun sdu => { sdu with retxCount := sdu.retxCount + 1 }
        let e := { e with heap }
        some (retransmitSn c (e.snOf cur) (cur :: rest) e,
          if (heap.sdu cur.sdu).retxCount ≥ c.maxRetxThreshold then [.maxRetxReached] else [])

def discardSdu (e : Tx) (sduId : Int) : Tx :=
  let found (s : Segment) : Bool := (e.heap.sdu s.sdu).upperLayerId = sduId
  match e.txList.find? found with
  | none => e
  | some cur =>
    if !cur.isFirst || !cur.isLast then e
    else
      let before := e.txList.takeWhile fun s => !found s
      { e with
        txList := before ++ (e.txList.dropWhile fun s => !found s).tail
        txEnd := if e.txEnd.map Segment.id = some cur.id then before.getLast? else e.txEnd
        bstatusTxSize := e.bstatusTxSize - pduSize c cur
        txSize := e.txSize - (e.heap.sdu cur.sdu).size
        heap := (freeSduSegment e.heap cur).1 }

end Tx

namespace Entity

def recvPdu (fuel : Nat) (e : Entity) (buffer : List Byte) : Option (Entity × List Event) :=
  match (Decoder.init buffer).getBits 1 with
  | none => some (e, [])
  | some (dc, d) =>
    if dc = 0 then
      let r := e.tx.processControlPdu c buffer
      some ({ e with tx := r.1 }, r.2)
    else (e.rx.recvDataPdu c fuel e.tCurrent d).map fun r => ({ e with rx := r.1 }, r.2)

def generateDataPdu (e : Entity) (size : Nat) : Option (Entity × List Byte) := do
  let (tx, pdu) ← e.tx.generateRetxPdu c e.tCurrent size
  let (tx, pdu) ← (if pdu ≠ [] then some (tx, pdu) else tx.generateTxPdu c e.tCurrent size)
  return ({ e with tx }, pdu)

def generatePdu (fuel : Nat) (e : Entity) (size : Nat) : Option (Entity × List Byte) :=
  if e.rx.statusToReport c e.tCurrent then
    match e.rx.generateStatus c fuel e.tCurrent size with
    | none => none
    | some (rx, pdu) =>
      let e := { e with rx }
      if pdu ≠ [] then some (e, pdu) else e.generateDataPdu c size
  else e.generateDataPdu c size

/-- `clear_entity` -/
def reestablishment (e : Entity) : Entity :=
  let heap := freeSduSegmentList e.tx.heap e.tx.txList
  let heap := freeSduSegmentList heap e.tx.waitList
  let heap := freeSduSegmentList heap e.tx.retransmitList
  { rx := { rx := e.rx.rx.clear, rxMaxsize := e.rx.rxMaxsize }
    tx := { txMaxsize := e.tx.txMaxsize, heap } }

end Entity

end OpenAir.Rlc.Am

import OpenAir.Rlc.Um.Entity

namespace OpenAir.Rlc.Um

variable (c : Config)

def computePduHeaderSize (s : Segment) : Nat :=
  1 + (if !(s.isFirst && s.isLast) && c.snFieldLength = 12 then 1 else 0) +
    (if s.isFirst then 0 else 2)

def pduSize (s : Segment) : Int := computePduHeaderSize c s + s.size

namespace Tx

/-- `s->sdu->sn` -/
def snOf (e : Tx) (s : Segment) : Nat := (e.heap.sdu s.sdu).sn.getD 0

/-- `none` is the encoder's fatal exit. -/
def serializeHeader (e : Tx) (s : Segment) (bufsize : Nat) : Option Encoder := do
  let encoder ← (Encoder.init bufsize).putBits (1 - s.isFirst.toNat) 1
  let encoder ← encoder.putBits (1 - s.isLast.toNat) 1
  let encoder ←
    (if s.isFirst && s.isLast then encoder.putBits 0 6
    else do
      let encoder ← (if c.snFieldLength = 12 then encoder.putBits 0 2 else some encoder)
      encoder.putBits (e.snOf s) c.snFieldLength)
  (if s.isFirst then some encoder else encoder.putBits s.so 16)

def serializeSdu (e : Tx) (s : Segment) (bufsize : Nat) : Option (List Byte) :=
  (e.serializeHeader c s bufsize).map fun encoder =>
    encoder.bytes ++ ((e.heap.sdu s.sdu).data.drop s.so).take s.size

/-- The segment resized for a PDU of `pduSize` bytes, and a segment with the remaining bytes.  The
SDU counts one more segment, also when no byte fits and there is none. -/
def resegment (e : Tx) (s : Segment) (pduSize : Nat) : Tx × Option (Segment × Segment) :=
  let heap := e.heap.modify s.sdu fun sdu => { sdu with refCount := sdu.refCount + 1 }
  let headerSize := computePduHeaderSize c { s with isLast := false }
  if headerSize + 1 > pduSize then ({ e with heap }, none)
  else
    let overSize := headerSize + s.size - pduSize
    let sdu := { s with size := s.size - overSize, isLast := false }
    let next :=
      { s with id := heap.fresh, size := overSize, so := s.so + sdu.size, isFirst := false }
    ({ e with heap := { heap with fresh := heap.fresh + 1 } }, some (sdu, next))

def takeTx (e : Tx) (s : Segment) (rest : List Segment) : Tx :=
  { e with
    txList := rest
    txEnd := if rest = [] then none else e.txEnd
    heap := e.heap.modify s.sdu fun sdu => { sdu with sn := some e.txNext }
    bstatusTxSize := e.bstatusTxSize - pduSize c s }

def putBack (e : Tx) (s : Segment) : Tx :=
  { e with
    txList := s :: e.txList
    txEnd := match e.txEnd with
      | none => some s
      | some t => some t
    bstatusTxSize := e.bstatusTxSize + pduSize c s }

/-- `tx_next` moves on with the last segment of an SDU. -/
def nextSn (e : Tx) (s : Segment) : Tx :=
  if !s.isFirst && s.isLast then { e with txNext := (e.txNext + 1) % c.snModulus } else e

def sendSegment (e : Tx) (s : Segment) (size : Nat) : Option (Tx × List Byte) :=
  let e := e.nextSn c s
  (e.serializeSdu c s size).map fun pdu =>
    ({ e with txSize := e.txSize - s.size, heap := (freeSduSegment e.heap s).1 }, pdu)

def generateTxPdu (e : Tx) (size : Nat) : Option (Tx × List Byte) :=
  match e.txList with
  | [] => some (e, [])
  | s :: rest =>
    if computePduHeaderSize c s + 1 > size then some (e, [])
    else
      let e := e.takeTx c s rest
      if computePduHeaderSize c s + s.size > size then
        match e.resegment c s size with
        | (e, none) => some (e, [])
        | (e, some (s, next)) => (e.putBack c next).sendSegment c s size
      else e.sendSegment c s size

/-- `nr_rlc_entity_um_recv_sdu`; `none` is the exit on an SDU that is too big, or a bad tail
pointer. -/
def recvSdu (e : Tx) (buffer : List Byte) (sduId : Int) : Option Tx :=
  if buffer.length > sduMax then none
  else if e.txSize + buffer.length > e.txMaxsize then some e
  else
    let r := newSdu e.heap buffer sduId
    (sduSegmentListAppend e.txList e.txEnd r.2).map fun l =>
      { e with
        heap := r.1
        txList := l.1
        txEnd := l.2
        txSize := e.txSize + buffer.length
        bstatusTxSize := e.bstatusTxSize + pduSize c r.2 }

def found (e : Tx) (sduId : Int) (s : Segment) : Bool := (e.heap.sdu s.sdu).upperLayerId = sduId

/-- `nr_rlc_entity_um_discard_sdu`; `tx_size` keeps counting the SDU. -/
def discardSdu (e : Tx) (sduId : Int) : Tx :=
  match e.txList.find? (e.found sduId) with
  | none => e
  | some cur =>
    if !cur.isFirst || !cur.isLast then e
    else
      let before := e.txList.takeWhile fun s => !e.found sduId s
      { e with
        txList := before ++ (e.txList.dropWhile fun s => !e.found sduId s).tail
        txEnd := if e.txEnd.map Segment.id = some cur.id then before.getLast? else e.txEnd
        bstatusTxSize := e.bstatusTxSize - pduSize c cur
        heap := (freeSduSegment e.heap cur).1 }

end Tx

/-- `clear_entity` -/
def Entity.reestablishment (e : Entity) : Entity :=
  { rx := { rxMaxsize := e.rx.rxMaxsize }
    tx := { txMaxsize := e.tx.txMaxsize, heap := freeSduSegmentList e.tx.heap e.tx.txList } }

end OpenAir.Rlc.Um

import OpenAir.Rlc.Am.Entity

namespace OpenAir.Rlc.Am

variable (c : Config)

def computePduHeaderSize (s : Segment) : Nat :=
  2 + (if c.snFieldLength = 18 then 1 else 0) + (if s.isFirst then 0 else 2)

namespace Tx

def modulusTx (e : Tx) (a : Nat) : Nat := Cyclic.dist c.snModulus e.txNextAck a

def snCompareTx (e : Tx) (a b : Nat) : Int := e.modulusTx c a - e.modulusTx c b

/-- `s->sdu->sn` -/
def snOf (e : Tx) (s : Segment) : Nat := (e.heap.sdu s.sdu).sn.getD 0

def pduSize (s : Segment) : Int := computePduHeaderSize c s + s.size

def isWindowStalling (e : Tx) : Bool :=
  !(decide (e.snCompareTx c e.txNextAck e.txNext ≤ 0) &&
    decide (e.snCompareTx c e.txNext ((e.txNextAck + c.windowSize) % c.snModulus) < 0))

end Tx

/-- A NACK block of a status PDU.  No `soEnd` stands for the special value 0xffff. -/
structure Nack where
  nackSn : Nat
  soStart : Nat
  soEnd : Option Nat
  range : Nat
  deriving DecidableEq

structure SnNack where
  sn : Nat
  soStart : Nat
  soEnd : Option Nat
  deriving DecidableEq

def Nack.sns (n : Nack) : List SnNack :=
  (List.range n.range).map fun i =>
    { sn := (n.nackSn + i) % c.snModulus
      soStart := if i = 0 then n.soStart else 0
      soEnd := if i = n.range - 1 then n.soEnd else none }

def soEndOf (v : Nat) : Option Nat := if v = 0xffff then none else some v

def decodeNack (d : Decoder) : Option (Nack × Bool × Decoder) := do
  let (nackSn, d) ← d.getBits c.snFieldLength
  let (e1, d) ← d.getBits 1
  let (e2, d) ← d.getBits 1
  let (e3, d) ← d.getBits 1
  let (_, d) ← d.getBits (if c.snFieldLength = 18 then 3 else 1)
  let (soStart, soEnd, d) ←
    (if e2 = 1 then do
      let (soStart, d) ← d.getBits 16
      let (soEnd, d) ← d.getBits 16
      pure (soStart, soEnd, d)
    else some (0, 0xffff, d))
  let (range, d) ← (if e3 = 1 then d.getBits 8 else some (1, d))
  return ({ nackSn, soStart, soEnd := soEndOf soEnd, range }, e1 = 1, d)

/-- `while (e1)`; each block takes at least one bit, so the fuel is never short. -/
def decodeNacks : Nat → Bool → Decoder → Option (List Nack)
  | _, false, _ => some []
  | 0, true, _ => none
  | fuel + 1, true, d => do
    let (n, e1, d) ← decodeNack c d
    let ns ← decodeNacks fuel e1 d
    return n :: ns

def decodeControl (buffer : List Byte) : Option (Nat × List Nack) := do
  let (_, d) ← (Decoder.init buffer).getBits 1
  let (cpt, d) ← d.getBits 3
  let (ackSn, d) ← (if cpt ≠ 0 then none else d.getBits c.snFieldLength)
  let (e1, d) ← d.getBits 1
  let (_, d) ← d.getBits (if c.snFieldLength = 18 then 1 else 7)
  let ns ← decodeNacks c (8 * buffer.length) (e1 = 1) d
  return (ackSn, ns)

namespace Tx

/-- The test of one NACK against `prev` and `ack_sn`. -/
def badNack (e : Tx) (ackSn : Nat) (prev : Option SnNack) (n : SnNack) : Bool :=
  (match prev with
    | none => false
    | some p =>
      let cmp := e.snCompareTx c n.sn p.sn
      decide (cmp < 0) || (decide (cmp = 0) &&
        match p.soEnd with
        | none => true
        | some soEnd => decide (n.soStart ≤ soEnd))) ||
  decide (e.snCompareTx c n.sn ackSn > 0)

/-- `prev_nack_sn` is set only while a PDU is processed: it still is -1 in this loop, so NACKs are
never compared with each other. -/
def validateControl (e : Tx) (buffer : List Byte) : Option (Nat × List Nack) :=
  match decodeControl c buffer with
  | none => none
  | some (ackSn, ns) =>
    if e.snCompareTx c ackSn e.txNext > 0 then none
    else if (ns.flatMap (Nack.sns c)).any (e.badNack c ackSn none) then none
    else some (ackSn, ns)

end Tx

/-- Ranges of bytes, ends included; no `e₁` is the end of the SDU. -/
def soOverlap (s₁ : Nat) (e₁ : Option Nat) (s₂ : Nat) (e₂ : Int) : Bool :=
  if s₁ < s₂ then
    match e₁ with
    | none => true
    | some e₁ => e₁ ≥ s₂
  else e₂ = -1 || (s₁ : Int) ≤ e₂

/-- `so_overlap` -/
def SnNack.overlaps (n : SnNack) (sn : Nat) (s : Segment) : Bool :=
  sn = n.sn && soOverlap n.soStart n.soEnd s.so (s.so + s.size - 1)

/-- `kept` is the wait list up to `prev_wait_list`; `newRetx` is the new retransmit list up to
`new_retransmit_list`, and `newRetxNext` the `next` of that node. -/
structure Merge where
  tx : Tx
  kept : List Segment
  curWait : List Segment
  endWait : Option (Option Segment)
  newRetx : List Segment
  newRetxNext : List Segment
  curRetx : List Segment
  events : List Event

inductive Goto
  | processNextPdu
  | doneNack
  | listsOver
  deriving DecidableEq

namespace Merge

def snCompareTx (m : Merge) (a b : Nat) : Int := m.tx.snCompareTx c a b

/-- `if (cur_wait_list == entity->wait_end) end_wait_list = prev_wait_list`; `some none` is the
address of the list head. -/
def unlinkWait (m : Merge) (s : Segment) (rest : List Segment) : Merge :=
  { m with
    curWait := rest
    endWait := if m.tx.waitEnd.map Segment.id = some s.id then some m.kept.getLast? else m.endWait }

def release (m : Merge) (s : Segment) : Merge :=
  let sdu := m.tx.heap.sdu s.sdu
  let r := freeSduSegment m.tx.heap s
  { m with
    tx := { m.tx with
      heap := r.1
      txSize := if r.2 then m.tx.txSize - sdu.size else m.tx.txSize }
    events := m.events ++
      .freeSegment s :: if r.2 then [.sduSuccessfulDelivery sdu.upperLayerId] else [] }

def releaseWait (m : Merge) (s : Segment) (rest : List Segment) : Merge :=
  (m.unlinkWait s rest).release s

def releaseRetx (m : Merge) (s : Segment) (rest : List Segment) : Merge :=
  ({ m with
      curRetx := rest
      tx := { m.tx with bstatusRetxSize := m.tx.bstatusRetxSize - Tx.pduSize c s } }).release s

def pushRetx (m : Merge) (s : Segment) : Merge :=
  { m with newRetx := m.newRetx ++ [s], newRetxNext := [] }

def nackWait (m : Merge) (s : Segment) (rest : List Segment) : Merge :=
  let m := (m.unlinkWait s rest).pushRetx s
  let heap := m.tx.heap.modify s.sdu fun sdu => { sdu with retxCount := sdu.retxCount + 1 }
  let sdu := heap.sdu s.sdu
  { m with
    tx := { m.tx with heap, bstatusRetxSize := m.tx.bstatusRetxSize + Tx.pduSize c s }
    events := m.events ++
      if sdu.retxCount ≥ c.maxRetxThreshold * sdu.refCount then [.maxRetxReached] else [] }

/-- The segment comes after the start of the NACK, we can't classify it yet. -/
def isAfter (m : Merge) (n : SnNack) (s : Segment) : Bool :=
  let cmp := m.snCompareTx c (m.tx.snOf s) n.sn
  decide (cmp > 0) || (decide (cmp = 0) && decide (s.so > n.soStart))

def processWaitListHead (ackSn : Nat) (n : SnNack) (m : Merge) (s : Segment)
    (rest : List Segment) : Merge × Goto :=
  if n.overlaps (m.tx.snOf s) s then (m.nackWait c s rest, .processNextPdu)
  else if m.isAfter c n s then (m, .doneNack)
  else if m.snCompareTx c (m.tx.snOf s) ackSn < 0 then (m.releaseWait s rest, .processNextPdu)
  else if m.snCompareTx c (m.tx.snOf s) ackSn > 0 then
    -- the rest of the wait list stays linked behind `prev_wait_list`
    ({ m with kept := m.kept ++ s :: rest, curWait := [] }, .processNextPdu)
  else ({ m with kept := m.kept ++ [s], curWait := rest }, .processNextPdu)

def processRetransmitListHead (ackSn : Nat) (n : SnNack) (m : Merge) (s : Segment)
    (rest : List Segment) : Merge × Goto :=
  if n.overlaps (m.tx.snOf s) s then ({ m with curRetx := rest }.pushRetx s, .processNextPdu)
  else if m.isAfter c n s then (m, .doneNack)
  else if m.snCompareTx c (m.tx.snOf s) ackSn < 0 then (m.releaseRetx c s rest, .processNextPdu)
  else if m.curWait = [] then
    -- `new_retransmit_list` is not moved to the end of what is linked here
    ({ m with newRetxNext := s :: rest, curRetx := [] }, .listsOver)
  else ({ m with curRetx := rest }.pushRetx s, .processNextPdu)

def processNextPdu (ackSn : Nat) (n : SnNack) (m : Merge) : Merge × Goto :=
  match m.curWait, m.curRetx with
  | [], [] => (m, .listsOver)
  | [], r :: rs => m.processRetransmitListHead c ackSn n r rs
  | w :: ws, [] => m.processWaitListHead c ackSn n w ws
  | w :: ws, r :: rs =>
    let cmp := m.snCompareTx c (m.tx.snOf w) (m.tx.snOf r)
    if cmp < 0 ∨ (cmp = 0 ∧ w.so < r.so) then m.processWaitListHead c ackSn n w ws
    else m.processRetransmitListHead c ackSn n r rs

/-- One NACK of one SN.  Each round takes a segment off one of the two lists. -/
def nackLoop (ackSn : Nat) (n : SnNack) : Nat → Merge → Merge × Goto
  | 0, m => (m, .listsOver)
  | fuel + 1, m =>
    match m.processNextPdu c ackSn n with
    | (m, .processNextPdu) => nackLoop ackSn n fuel m
    | r => r

/-- The `for` loop over the SNs of a NACK block, left when both lists are over. -/
def snLoop (ackSn : Nat) : List SnNack → Merge → Merge
  | [], m => m
  | n :: ns, m =>
    match m.nackLoop c ackSn n (m.curWait.length + m.curRetx.length + 1) with
    | (m, .listsOver) => m
    | (m, _) => snLoop ackSn ns m

/-- Stop `t_poll_retransmit` on a NACK for `poll_sn`. -/
def stopPoll (n : Nack) (m : Merge) : Merge :=
  if m.snCompareTx c n.nackSn m.tx.pollSn ≤ 0 ∧
      m.snCompareTx c m.tx.pollSn ((n.nackSn + n.range) % c.snModulus) < 0 then
    { m with tx := { m.tx with tPollRetransmitStart := 0 } }
  else m

def nacksLoop (ackSn : Nat) : List Nack → Merge → Merge
  | [], m => m
  | n :: ns, m => nacksLoop ackSn ns ((m.snLoop c ackSn (n.sns c)).stopPoll c n)

def ackWaitLoop (ackSn : Nat) : List Segment → Merge → Merge
  | [], m => m
  | s :: rest, m =>
    if m.snCompareTx c (m.tx.snOf s) ackSn < 0 then ackWaitLoop ackSn rest (m.releaseWait s rest)
    else m

def ackRetxLoop (ackSn : Nat) : List Segment → Merge → Merge
  | [], m => m
  | s :: rest, m =>
    if m.snCompareTx c (m.tx.snOf s) ackSn < 0 then ackRetxLoop ackSn rest (m.releaseRetx c s rest)
    else m

def ackLoops (ackSn : Nat) (m : Merge) : Merge :=
  let m := m.ackWaitLoop c ackSn m.curWait
  let m := m.ackRetxLoop c ackSn m.curRetx
  { m with newRetxNext := m.curRetx }

end Merge

namespace Tx

def lowestSn (e : Tx) (a : Nat) : List Segment → Nat
  | [] => a
  | s :: _ => if e.snCompareTx c (e.snOf s) a < 0 then e.snOf s else a

def nextAck (e : Tx) (ackSn : Nat) : Nat :=
  let a := e.lowestSn c (e.lowestSn c e.txNext e.waitList) e.retransmitList
  if e.snCompareTx c ackSn a < 0 then ackSn else a

def mergeStart (e : Tx) (ackSn : Nat) : Merge :=
  { tx := if e.snCompareTx c e.pollSn ackSn < 0 then { e with tPollRetransmitStart := 0 } else e
    kept := [], curWait := e.waitList, endWait := none
    newRetx := [], newRetxNext := [], curRetx := e.retransmitList, events := [] }

def merge (e : Tx) (ackSn : Nat) (ns : List Nack) : Merge :=
  ((e.mergeStart c ackSn).nacksLoop c ackSn ns).ackLoops c ackSn

def mergeEnd (m : Merge) : Tx :=
  { m.tx with
    waitList := m.kept ++ m.curWait
    retransmitList := m.newRetx ++ m.newRetxNext
    waitEnd := match m.endWait with
      | none => m.tx.waitEnd
      | some s => s }

/-- The lists of the merge, and `tx_next_ack` from them. -/
def finishControl (m : Merge) (ackSn : Nat) : Tx :=
  let e := mergeEnd m
  { e with txNextAck := e.nextAck c ackSn }

def processControlPdu (e : Tx) (buffer : List Byte) : Tx × List Event :=
  match e.validateControl c buffer with
  | none => (e, [])
  | some (ackSn, ns) =>
    let m := e.merge c ackSn ns
    (finishControl c m ackSn, m.events)

end Tx

end OpenAir.Rlc.Am

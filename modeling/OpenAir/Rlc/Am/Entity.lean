import OpenAir.Lib.Cyclic
import OpenAir.Rlc.RxManager
import OpenAir.Rlc.Sdu

/-! The state of an acknowledged mode entity, receiving side and transmitting side. -/

namespace OpenAir.Rlc.Am

/-- The timer lengths are used only after conversion to `uint64_t`; -1 stands for infinity in
`pollPdu` and `pollByte`. -/
structure Config where
  rxMaxsize : Int
  txMaxsize : Int
  tPollRetransmit : UInt64
  tReassembly : UInt64
  tStatusProhibit : UInt64
  pollPdu : Int
  pollByte : Int
  maxRetxThreshold : Int
  snFieldLength : Nat
  snFieldLength_eq : snFieldLength = 12 ∨ snFieldLength = 18

namespace Config

def snModulus (c : Config) : Nat := 2 ^ c.snFieldLength

def windowSize (c : Config) : Nat := c.snModulus / 2

end Config

/-- Timers hold the time of their start, 0 when they do not run. -/
structure Rx where
  rxNext : Nat := 0
  rxNextStatusTrigger : Nat := 0
  rxHighestStatus : Nat := 0
  rxNextHighest : Nat := 0
  statusTriggered : Bool := false
  tReassemblyStart : UInt64 := 0
  tStatusProhibitStart : UInt64 := 0
  rx : RxManager
  rxSize : Int := 0
  rxMaxsize : Int

structure Tx where
  txNext : Nat := 0
  txNextAck : Nat := 0
  pollSn : Nat := 0
  pduWithoutPoll : Int := 0
  byteWithoutPoll : Int := 0
  forcePoll : Bool := false
  tPollRetransmitStart : UInt64 := 0
  heap : Heap := {}
  txList : List Segment := []
  txEnd : Option Segment := none
  txSize : Int := 0
  txMaxsize : Int
  waitList : List Segment := []
  waitEnd : Option Segment := none
  retransmitList : List Segment := []
  bstatusTxSize : Int := 0
  bstatusRetxSize : Int := 0

structure Entity where
  tCurrent : UInt64 := 0
  rx : Rx
  tx : Tx

/-- `new_nr_rlc_entity_am` -/
def Entity.new (c : Config) : Entity :=
  { rx := { rx := .new (2 ^ (c.snFieldLength - 1)), rxMaxsize := c.rxMaxsize * 5 }
    tx := { txMaxsize := c.txMaxsize * 5 } }

/-- The callbacks in the order of their calls; the last two events record what the entity does to
its own lists. -/
inductive Event
  | deliverSdu (sn : Nat) (sdu : List Byte)
  | sduSuccessfulDelivery (sduId : Int)
  | maxRetxReached
  | freeSegment (s : Segment)
  | rxNextPassed (sn : Nat)
  deriving DecidableEq

end OpenAir.Rlc.Am

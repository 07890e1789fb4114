import OpenAir.Rlc.Sdu

/-! The state of an unacknowledged mode entity, receiving side and transmitting side. -/

namespace OpenAir.Rlc.Um

/-- The parameters of `new_nr_rlc_entity_um`. -/
structure Config where
  rxMaxsize : Int
  txMaxsize : Int
  tReassembly : UInt64
  snFieldLength : Nat
  snFieldLength_eq : snFieldLength = 6 ∨ snFieldLength = 12

namespace Config

def snModulus (c : Config) : Nat := 2 ^ c.snFieldLength

def windowSize (c : Config) : Nat := c.snModulus / 2

end Config

/-- The timer holds the time of its start, 0 when it does not run. -/
structure Rx where
  rxNextHighest : Nat := 0
  rxNextReassembly : Nat := 0
  rxTimerTrigger : Nat := 0
  tReassemblyStart : UInt64 := 0
  rxList : List Pdu := []
  rxSize : Int := 0
  rxMaxsize : Int

structure Tx where
  txNext : Nat := 0
  heap : Heap := {}
  txList : List Segment := []
  txEnd : Option Segment := none
  txSize : Int := 0
  txMaxsize : Int
  bstatusTxSize : Int := 0

structure Entity where
  tCurrent : UInt64 := 0
  rx : Rx
  tx : Tx

/-- `new_nr_rlc_entity_um` -/
def Entity.new (c : Config) : Entity :=
  { rx := { rxMaxsize := c.rxMaxsize }, tx := { txMaxsize := c.txMaxsize } }

structure Delivery where
  sn : Option Nat
  sdu : List Byte
  deriving DecidableEq

end OpenAir.Rlc.Um

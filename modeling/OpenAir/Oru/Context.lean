import Mathlib.Logic.Function.Basic
import OpenAir.Oru.Compression

namespace OpenAir.Oru

open Function

def maxBfWeights : Nat := 64

def symbolsPerSlot : Nat := 14

def maxAntennas : Nat := 4

/-- `XRAN_IQ_BITS_UNCOMPRESSED`, which a width of 0 on the wire stands for. -/
def iqBitsUncompressed : Nat := 16

/-- What `init_packet_processor` and `set_num_bf_weights` put into the context.  The bit masks are
functions of the symbol in the TDD pattern. -/
structure Config where
  numerology : Nat
  numPrb : Int
  t2aMinCpSymDiff : BitVec 32
  t2aMaxCpSymDiff : BitVec 32
  t2aMinUpDlSymDiff : BitVec 32
  t2aMaxUpDlSymDiff : BitVec 32
  dlSymbolBitmask : Nat → Bool
  ulSymbolBitmask : Nat → Bool
  symbolBitmaskLength : Nat
  mtu : Nat
  prachEaxcOffset : Int
  dlCompMethod : FhCompMethod
  prachKbar : Nat
  numBfWeights : Nat
  numBfWeights_le : numBfWeights ≤ maxBfWeights
  prachKbar_le : prachKbar + 139 * 2 ≤ 12 * 24

namespace Config

variable (c : Config)

def ext11MaxBundles : Int := c.numPrb + 63

def symbolsPerFrame : Nat := 10 * 2 ^ c.numerology * symbolsPerSlot

def isDlSymbol (symbol : Nat) : Bool := c.dlSymbolBitmask (symbol % c.symbolBitmaskLength)

def isUlSymbol (symbol : Nat) : Bool := c.ulSymbolBitmask (symbol % c.symbolBitmaskLength)

/-- Zero PRBs on the wire stand for the whole band. -/
def effectiveNumPrb (num : Nat) : Int := if num = 0 then c.numPrb else num

end Config

structure InitArgs where
  numerology : Nat
  numPrb : Int
  t2aCpMinUs : BitVec 32
  t2aCpMaxUs : BitVec 32
  t2aUpMinUs : BitVec 32
  t2aUpMaxUs : BitVec 32
  numDlSlots : Nat
  numUlSlots : Nat
  numDlSymbols : Nat
  numUlSymbols : Nat
  tddPatternLengthSlots : Nat
  mtu : Nat
  prachEaxcOffset : Int
  dlCompMethod : FhCompMethod
  prachKbar : Nat

theorem zero_le_maxBfWeights : 0 ≤ maxBfWeights := Nat.zero_le _

/-- `init_packet_processor`.  A symbol of less than a microsecond divides by zero. -/
def InitArgs.config (a : InitArgs) : Option Config :=
  let symbolDuration := BitVec.ofNat 32 (1000 / 2 ^ a.numerology / symbolsPerSlot)
  let length := a.tddPatternLengthSlots * symbolsPerSlot
  if h : a.prachKbar + 139 * 2 ≤ 12 * 24 then
    if symbolDuration = 0 then none
    else some
      { numerology := a.numerology
        numPrb := a.numPrb
        t2aMinCpSymDiff := a.t2aCpMinUs / symbolDuration
        t2aMaxCpSymDiff := a.t2aCpMaxUs / symbolDuration
        t2aMinUpDlSymDiff := a.t2aUpMinUs / symbolDuration
        t2aMaxUpDlSymDiff := a.t2aUpMaxUs / symbolDuration
        dlSymbolBitmask := fun i => i < a.numDlSlots * symbolsPerSlot + a.numDlSymbols
        ulSymbolBitmask := fun i =>
          i < length ∧ length ≤ i + (a.numUlSlots * symbolsPerSlot + a.numUlSymbols)
        symbolBitmaskLength := length
        mtu := a.mtu
        prachEaxcOffset := a.prachEaxcOffset
        dlCompMethod := a.dlCompMethod
        prachKbar := a.prachKbar
        numBfWeights := 0
        numBfWeights_le := zero_le_maxBfWeights
        prachKbar_le := h }
  else none

def Config.setNumBfWeights (c : Config) (n : Nat) (h : n ≤ maxBfWeights) : Config :=
  { c with numBfWeights := n, numBfWeights_le := h }

inductive Counter
  | totalCplane
  | cplaneReceivedDl
  | cplaneReceivedUl
  | cplaneReceivedPrach
  | cplaneReceivedOther
  | totalUplaneReceived
  | cplaneErrHdr
  | cplaneErrVer
  | cplaneErrEarly
  | cplaneErrLate
  | cplaneErrDup
  | cplaneErrDupDl
  | cplaneErrDupPrach
  | ulCplaneErrInvalidNumSymbols
  | cplaneExt1Received
  | cplaneExt11Received
  | cplaneErrSectExt1
  | cplaneErrSectExt11
  | cplaneErrSectExtChain
  | cplaneErrSectExtOther
  | uplaneErrLate
  | uplaneErrEarly
  | uplaneErrPrbRange
  | uplaneErrShortPayload
  | uplaneMissingCplane
  | dlStreamPoolExhausted
  | dlStreamSectionsExhausted
  | dlFragmentsPoolExhausted
  | invalidEaxcId
  | applicationTooSlow
  | dlTddMismatch
  | ulTddMismatch
  deriving DecidableEq

inductive Hist
  | dlUplane
  | dlCplane
  | ulCplane
  | prachCplane
  deriving DecidableEq

/-- `txrx_histogram_t` -/
structure TxrxHistogram where
  hist : Nat → Nat := fun _ => 0
  sum : Int := 0
  count : Nat := 0

def histSize : Nat := 64

/-- `txrx_window_histogram_count` -/
def TxrxHistogram.add (h : TxrxHistogram) (diff : Int) : TxrxHistogram :=
  let bin := diff + histSize / 2
  let bin := if bin < 0 then 0 else if bin > histSize - 1 then histSize - 1 else bin.toNat
  { hist := update h.hist bin (h.hist bin + 1), sum := h.sum + diff, count := h.count + 1 }

structure Stats where
  counter : Counter → Nat := fun _ => 0
  histogram : Hist → TxrxHistogram := fun _ => {}

namespace Stats

def bump (s : Stats) (k : Counter) : Stats :=
  { s with counter := update s.counter k (s.counter k + 1) }

def observe (s : Stats) (h : Hist) (diff : Int) : Stats :=
  { s with histogram := update s.histogram h ((s.histogram h).add diff) }

variable {s : Stats} {k k' : Counter}

@[simp] theorem counter_bump_self : (s.bump k).counter k = s.counter k + 1 := update_self ..

@[simp] theorem counter_bump_of_ne (h : k' ≠ k) : (s.bump k).counter k' = s.counter k' :=
  update_of_ne h ..

end Stats

end OpenAir.Oru

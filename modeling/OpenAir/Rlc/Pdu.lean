import OpenAir.Lib.Bits

namespace OpenAir.Rlc

def sduMax : Nat := 16000

/-- A stored PDU, without its header.  `data` is `none` once the SDU has been processed. -/
structure Pdu where
  sn : Nat
  data : Option (List Byte)
  size : Nat
  so : Nat
  isFirst : Bool
  isLast : Bool
  deriving DecidableEq

def newPdu (sn so : Nat) (isFirst isLast : Bool) (data : List Byte) : Pdu :=
  { sn, data := some data, size := data.length, so, isFirst, isLast }

structure Decoder where
  buffer : List Byte
  byte : Nat := 0
  bit : Nat := 0

namespace Decoder

def init (buffer : List Byte) : Decoder := { buffer }

/-- `none` is the decoder's error flag, which every caller tests after each read. -/
def getBit (d : Decoder) : Option (Bool × Decoder) :=
  match d.buffer[d.byte]? with
  | none => none
  | some b =>
    some (b.getMsbD d.bit,
      if d.bit + 1 = 8 then { d with byte := d.byte + 1, bit := 0 }
      else { d with bit := d.bit + 1 })

def getBitsFrom (d : Decoder) (ret : Nat) : Nat → Option (Nat × Decoder)
  | 0 => some (ret, d)
  | count + 1 =>
    match d.getBit with
    | none => none
    | some (b, d) => getBitsFrom d (2 * ret + b.toNat) count

def getBits (d : Decoder) (count : Nat) : Option (Nat × Decoder) := d.getBitsFrom 0 count

end Decoder

/-- A data PDU behind its SI field.  `none` for a PDU that is too short, and for a segment offset 0
on a segment that is not the first. -/
def decodeSegment (reserved : Bool) (snFieldLength : Nat) (isFirst isLast : Bool) (d : Decoder) :
    Option Pdu := do
  let (_, d) ← (if reserved then d.getBits 2 else some (0, d))
  let (sn, d) ← d.getBits snFieldLength
  let (so, d) ← (if isFirst then some (0, d) else d.getBits 16)
  (if !isFirst && so = 0 then none
    else some (newPdu sn so isFirst isLast (d.buffer.drop d.byte)))

structure Encoder where
  bits : List Bool := []
  size : Nat

namespace Encoder

def init (size : Nat) : Encoder := { size }

def byte (e : Encoder) : Nat := e.bits.length / 8

/-- `none` is the fatal exit on a full buffer. -/
def putBit (e : Encoder) (b : Bool) : Option Encoder :=
  if e.byte = e.size then none else some { e with bits := e.bits ++ [b] }

def putBitList (e : Encoder) : List Bool → Option Encoder
  | [] => some e
  | b :: bs => (e.putBit b).bind fun e => putBitList e bs

def putBits (e : Encoder) (value count : Nat) : Option Encoder :=
  e.putBitList (Bits.ofNat count value)

/-- `buffer[i] = v` -/
def setByte (e : Encoder) (i v : Nat) : Encoder :=
  { e with bits := e.bits.take (8 * i) ++ Bits.ofNat 8 v ++ e.bits.drop (8 * i + 8) }

/-- `buffer[i] |= v` -/
def orByte (e : Encoder) (i v : Nat) : Encoder :=
  { e with bits := e.bits.take (8 * i) ++
      List.zipWith (· || ·) ((e.bits.drop (8 * i)).take 8) (Bits.ofNat 8 v) ++
      e.bits.drop (8 * i + 8) }

def bytes (e : Encoder) : List Byte := Bits.pack e.bits

end Encoder

end OpenAir.Rlc

import Mathlib.Logic.Function.Basic
import OpenAir.Lib.Loop
import OpenAir.Mac.Bsr

/-! The UL MAC PDU of a UE: logical channel prioritisation and control elements.

A PDU is built from its start on; the write pointer is the length of what is there. -/

namespace OpenAir.Mac

def numLcgWithData (lcgBytes : Nat → Nat) : Nat := ((List.range 8).filter (lcgBytes · ≠ 0)).length

/-- `type_bsr_t` -/
inductive Bsr
  | none
  | long (lcgBsr : Nat → Byte)
  | short (lcgId bufferSize : Nat)
  | shortTrunc (lcgId bufferSize : Nat)
  | longTrunc (lcgBsr : Nat → Byte)

def longBsrEntries (room : Nat) (lcgBsr : Nat → Byte) : List (Nat × Byte) :=
  (List.range 8).foldl (fun entries lcg =>
    if lcgBsr lcg ≠ 0 ∧ entries.length < room then entries ++ [(lcg, lcgBsr lcg)] else entries) []

def longBsrBytes (lcid : Byte) (entries : List (Nat × Byte)) : List Byte :=
  [lcid, .ofNat 8 (1 + entries.length), .ofNat 8 ((entries.map fun x => 2 ^ x.1).sum)] ++
    entries.map (·.2)

def phrBytes : Option (Nat × Nat) → List Byte
  | some (ph, pcmax) => [0x39, .ofNat 8 ph, .ofNat 8 pcmax]
  | none => []

def bsrBytes (room : Nat) : Bsr → List Byte
  | .short lcgId bufferSize => [0x3D, .ofNat 8 (lcgId * 32 + bufferSize)]
  | .shortTrunc lcgId bufferSize => [0x3B, .ofNat 8 (lcgId * 32 + bufferSize)]
  | .long lcgBsr => longBsrBytes 0x3E (longBsrEntries room lcgBsr)
  | .longTrunc lcgBsr => longBsrBytes 0x3C (longBsrEntries room lcgBsr)
  | .none => []

def writeCeUlschPdu (phr : Option (Nat × Nat)) (bsr : Bsr) (room : Nat) : List Byte :=
  phrBytes phr ++ bsrBytes (room - (phrBytes phr).length - 3) bsr

end OpenAir.Mac

import OpenAir.Lib.Simd

/-! Bit interleaving of LDPC rate matching, in the variants for registers of 128 bits.

The `Qm` streams of the interleaver are one behind the other; the other side has a group of `Qm`
elements for each of them in turn. -/

namespace OpenAir.Phy

open M128

structure Interleaver where
  i : Nat
  e : Nat → Nat
  f : Nat
  mem : Nat → Byte

def interleave2 (e : Nat → M128) : List M128 := [unpacklo 1 (e 0) (e 1), unpackhi 1 (e 0) (e 1)]

def interleave4 (e : Nat → M128) : List M128 :=
  let tmp0 := unpacklo 1 (e 0) (e 1)
  let tmp1 := unpacklo 1 (e 2) (e 3)
  let low := [unpacklo 2 tmp0 tmp1, unpackhi 2 tmp0 tmp1]
  let tmp0 := unpackhi 1 (e 0) (e 1)
  let tmp1 := unpackhi 1 (e 2) (e 3)
  low ++ [unpacklo 2 tmp0 tmp1, unpackhi 2 tmp0 tmp1]

def interleave8 (e : Nat → M128) : List M128 :=
  let tmp0 := unpacklo 1 (e 0) (e 1)
  let tmp1 := unpacklo 1 (e 2) (e 3)
  let tmp2 := unpacklo 2 tmp0 tmp1
  let tmp3 := unpackhi 2 tmp0 tmp1
  let tmp4 := unpacklo 1 (e 4) (e 5)
  let tmp5 := unpacklo 1 (e 6) (e 7)
  let tmp6 := unpacklo 2 tmp4 tmp5
  let tmp7 := unpackhi 2 tmp4 tmp5
  let low :=
    [unpacklo 4 tmp2 tmp6, unpackhi 4 tmp2 tmp6, unpacklo 4 tmp3 tmp7, unpackhi 4 tmp3 tmp7]
  let tmp0 := unpackhi 1 (e 0) (e 1)
  let tmp1 := unpackhi 1 (e 2) (e 3)
  let tmp2 := unpacklo 2 tmp0 tmp1
  let tmp3 := unpackhi 2 tmp0 tmp1
  let tmp4 := unpackhi 1 (e 4) (e 5)
  let tmp5 := unpackhi 1 (e 6) (e 7)
  let tmp6 := unpacklo 2 tmp4 tmp5
  let tmp7 := unpackhi 2 tmp4 tmp5
  low ++ [unpacklo 4 tmp2 tmp6, unpackhi 4 tmp2 tmp6, unpacklo 4 tmp3 tmp7, unpackhi 4 tmp3 tmp7]

namespace Interleaver

variable (e : Nat → Byte)

def vectorRound (shuffle : (Nat → M128) → List M128) (s : Interleaver) : Interleaver :=
  let regs := shuffle fun k => loadu e (s.e k)
  ⟨s.i + 16, fun k => s.e k + 16, s.f + 16 * regs.length, storeAll s.mem s.f regs⟩

def scalarRound (qm : Nat) (s : Interleaver) : Interleaver :=
  ⟨s.i + 1, fun k => s.e k + 1, s.f + qm,
    (List.range qm).foldl (fun mem k => Function.update mem (s.f + k) (e (s.e k))) s.mem⟩

/-- `for (; i < (EQm & ~15); i += 16)` -/
def vectorLoop (shuffle : (Nat → M128) → List M128) (eqm : Nat) (s : Interleaver) : Interleaver :=
  (vectorRound e shuffle)^[(eqm / 16 * 16 - s.i) / 16] s

/-- `for (; i < EQm; i++)` -/
def scalarLoop (qm eqm : Nat) (s : Interleaver) : Interleaver := (scalarRound e qm)^[eqm - s.i] s

end Interleaver

/-- `nr_interleaving_ldpc`: the array `f` afterwards; there is an assertion for other `Qm`. -/
def nrInterleavingLdpc (E Qm : Nat) (e f : Nat → Byte) : Option (Nat → Byte) :=
  let eqm := E / Qm
  let s : Interleaver := ⟨0, fun k => k * eqm, 0, fun q => if q < E then 0 else f q⟩
  match Qm with
  | 2 => some ((s.vectorLoop e interleave2 eqm).scalarLoop e 2 eqm).mem
  | 4 => some ((s.vectorLoop e interleave4 eqm).scalarLoop e 4 eqm).mem
  | 6 => some (s.scalarLoop e 6 eqm).mem
  | 8 => some ((s.vectorLoop e interleave8 eqm).scalarLoop e 8 eqm).mem
  | _ => none

structure Deinterleaver where
  i : Nat
  e : Nat → Nat
  f : Nat
  mem : Nat → BitVec 16

def shuf4 : M128 := .ofList [0, 1, 4, 5, 8, 9, 12, 13, 2, 3, 6, 7, 10, 11, 14, 15]

def shuf16 : M128 := .ofList [0, 1, 8, 9, 2, 3, 10, 11, 4, 5, 12, 13, 6, 7, 14, 15]

def deinterleave2 (f : Nat → M128) : List M128 :=
  let tmp0 := shuffleEpi8 (f 0) shuf4
  let tmp1 := shuffleEpi8 (f 1) shuf4
  [unpacklo 8 tmp0 tmp1, unpackhi 8 tmp0 tmp1]

def deinterleave4 (f : Nat → M128) : List M128 :=
  let tmp0 := shuffleEpi8 (f 0) shuf16
  let tmp1 := shuffleEpi8 (f 1) shuf16
  let tmp2 := shuffleEpi8 (f 2) shuf16
  let tmp3 := shuffleEpi8 (f 3) shuf16
  let tmp4 := unpacklo 4 tmp0 tmp1
  let tmp5 := unpacklo 4 tmp2 tmp3
  let low := [unpacklo 8 tmp4 tmp5, unpackhi 8 tmp4 tmp5]
  let tmp4 := unpackhi 4 tmp0 tmp1
  let tmp5 := unpackhi 4 tmp2 tmp3
  low ++ [unpacklo 8 tmp4 tmp5, unpackhi 8 tmp4 tmp5]

def deinterleave8 (f : Nat → M128) : List M128 :=
  let tmp0 := unpacklo 2 (f 0) (f 1)
  let tmp1 := unpacklo 2 (f 2) (f 3)
  let tmp2 := unpacklo 2 (f 4) (f 5)
  let tmp3 := unpacklo 2 (f 6) (f 7)
  let tmp4 := unpacklo 4 tmp0 tmp1
  let tmp5 := unpacklo 4 tmp2 tmp3
  let e01 := [unpacklo 8 tmp4 tmp5, unpackhi 8 tmp4 tmp5]
  let tmp4 := unpackhi 4 tmp0 tmp1
  let tmp5 := unpackhi 4 tmp2 tmp3
  let e23 := [unpacklo 8 tmp4 tmp5, unpackhi 8 tmp4 tmp5]
  let tmp0 := unpackhi 2 (f 0) (f 1)
  let tmp1 := unpackhi 2 (f 2) (f 3)
  let tmp2 := unpackhi 2 (f 4) (f 5)
  let tmp3 := unpackhi 2 (f 6) (f 7)
  let tmp4 := unpacklo 4 tmp0 tmp1
  let tmp5 := unpacklo 4 tmp2 tmp3
  let e45 := [unpacklo 8 tmp4 tmp5, unpackhi 8 tmp4 tmp5]
  let tmp4 := unpackhi 4 tmp0 tmp1
  let tmp5 := unpackhi 4 tmp2 tmp3
  e01 ++ e23 ++ e45 ++ [unpacklo 8 tmp4 tmp5, unpackhi 8 tmp4 tmp5]

namespace Deinterleaver

variable (f : Nat → BitVec 16)

def storeStreams (e : Nat → Nat) (mem : Nat → BitVec 16) : Nat → List M128 → Nat → BitVec 16
  | _, [] => mem
  | k, r :: rs => storeStreams e (storeu16 mem (e k) r) (k + 1) rs

/-- A round for eight groups of `qm` elements. -/
def vectorRound (qm : Nat) (shuffle : (Nat → M128) → List M128) (s : Deinterleaver) :
    Deinterleaver :=
  ⟨s.i + 8, fun k => s.e k + 8, s.f + 8 * qm,
    storeStreams s.e s.mem 0 (shuffle fun v => loadu16 f (s.f + 8 * v))⟩

def scalarRound (qm : Nat) (s : Deinterleaver) : Deinterleaver :=
  ⟨s.i + 1, fun k => s.e k + 1, s.f + qm,
    (List.range qm).foldl (fun mem k => Function.update mem (s.e k) (f (s.f + k))) s.mem⟩

/-- `for (i = 0; i < (EQm & ~7); i += 8)` -/
def vectorLoop (qm : Nat) (shuffle : (Nat → M128) → List M128) (eqm : Nat) (s : Deinterleaver) :
    Deinterleaver :=
  (vectorRound f qm shuffle)^[eqm / 8] { s with i := 0 }

/-- `for (; i < EQm; i++)` -/
def scalarLoop (qm eqm : Nat) (s : Deinterleaver) : Deinterleaver :=
  (scalarRound f qm)^[eqm - s.i] s

end Deinterleaver

/-- `nr_deinterleaving_ldpc`: the array `e` afterwards; there are assertions for other `Qm` and for
lengths that are no multiple of it. -/
def nrDeinterleavingLdpc (E Qm : Nat) (e f : Nat → BitVec 16) : Option (Nat → BitVec 16) :=
  let eqm := E / Qm
  let s : Deinterleaver := ⟨0, fun k => k * eqm, 0, e⟩
  if E % Qm ≠ 0 then none
  else
    match Qm with
    | 2 => some ((s.vectorLoop f 2 deinterleave2 eqm).scalarLoop f 2 eqm).mem
    | 4 => some ((s.vectorLoop f 4 deinterleave4 eqm).scalarLoop f 4 eqm).mem
    | 6 => some (s.scalarLoop f 6 eqm).mem
    | 8 => some ((s.vectorLoop f 8 deinterleave8 eqm).scalarLoop f 8 eqm).mem
    | _ => none

end OpenAir.Phy

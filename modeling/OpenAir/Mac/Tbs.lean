import Mathlib
import OpenAir.Lib.Loop

namespace OpenAir.Mac

/-- Arithmetic of `uint32_t`. -/
def u32 (x : Nat) : Nat := x % 2 ^ 32

def ceilidiv (a b : Nat) : Nat := u32 (a + b - 1) / b

def roundidiv (a b : Nat) : Nat := u32 (a * 2 + b) / u32 (b * 2)

structure TbsParams where
  qm : UInt16
  /-- The code rate, in units of 1/10240. -/
  r : UInt16
  nbSymbSch : UInt16
  nbDmrsPrb : UInt16
  nbRbOh : UInt16
  tbScaling : UInt8
  nl : UInt8
  deriving DecidableEq

def tbstableNr : List Nat :=
  [24, 32, 40, 48, 56, 64, 72, 80, 88, 96, 104, 112, 120, 128, 136, 144, 152, 160, 168, 176, 184,
   192, 208, 224, 240, 256, 272, 288, 304, 320, 336, 352, 368, 384, 408, 432, 456, 480, 504, 528,
   552, 576, 608, 640, 672, 704, 736, 768, 808, 848, 888, 928, 984, 1032, 1064, 1128, 1160, 1192,
   1224, 1256, 1288, 1320, 1352, 1416, 1480, 1544, 1608, 1672, 1736, 1800, 1864, 1928, 2024, 2088,
   2152, 2216, 2280, 2408, 2472, 2536, 2600, 2664, 2728, 2792, 2856, 2976, 3104, 3240, 3368, 3496,
   3624, 3752, 3824]

namespace TbsParams

variable (p : TbsParams)

/-- Resource elements of one resource block.  The difference is an `int` and kept as a
`uint32_t`. -/
def nbpRe : Nat :=
  (((12 * p.nbSymbSch.toNat : Int) - p.nbDmrsPrb.toNat - p.nbRbOh.toNat) % 2 ^ 32).toNat

def nbRe (nbRb : Nat) : Nat := u32 (min 156 p.nbpRe * nbRb)

def ninfo (nbRb : Nat) : Nat :=
  u32 (u32 (u32 (p.nbRe nbRb * (p.r.toNat / 5)) * p.qm.toNat) * p.nl.toNat) / 2 ^ 11 /
    2 ^ p.tbScaling.toNat

end TbsParams

def tableTbs (ninfo : Nat) : Nat :=
  let n := max 3 (ninfo.log2 - 6)
  let npInfo := max 24 (u32 (ninfo / 2 ^ n * 2 ^ n))
  (tbstableNr.find? (npInfo ≤ ·)).getD 0

/-- The quantised number of bits above `NR_MAX_PDSCH_TBS`; the cast of `log2` is read as the
floor. -/
def npInfo (ninfo : Nat) : Nat :=
  let n := (ninfo - 24).log2 - 5
  max 3840 (u32 (roundidiv (ninfo - 24) (2 ^ n) * 2 ^ n))

def blocksTbs (d npInfo : Nat) : Nat :=
  let c := ceilidiv (npInfo + 24) d
  u32 (u32 (u32 (c * 8) * ceilidiv (npInfo + 24) (u32 (c * 8))) + 2 ^ 32 - 24)

def formulaTbs (r npInfo : Nat) : Nat :=
  if r ≤ 2560 then blocksTbs 3816 npInfo
  else if npInfo > 8424 then blocksTbs 8424 npInfo
  else u32 (u32 (ceilidiv (npInfo + 24) 8 * 8) + 2 ^ 32 - 24)

/-- In bits. -/
def nrComputeTbs (p : TbsParams) (nbRb : Nat) : Nat :=
  if p.qm = 0 ∨ p.r = 0 ∨ nbRb = 0 ∨ p.nl = 0 then 0
  else if p.ninfo nbRb ≤ 3824 then tableTbs (p.ninfo nbRb)
  else formulaTbs p.r.toNat (npInfo (p.ninfo nbRb))

/-- The call of `nr_find_nb_rb`: no overhead and no scaling.  In octets. -/
def tbsBytes (p : TbsParams) (nbRb : Nat) : Nat :=
  nrComputeTbs { p with nbRbOh := 0, tbScaling := 0 } nbRb / 2 ^ 3

structure NbRb where
  ok : Bool
  tbs : Nat
  nbRb : Nat
  deriving DecidableEq

def findNbRbRound (p : TbsParams) (bytes : Nat) (s : Nat × Nat) :
    Except (Fault Empty) ((Nat × Nat) ⊕ Nat) :=
  let mid := (s.2 + s.1) / 2
  if s.1 + 1 < s.2 then
    if mid = s.2 then .ok (.inr s.2)
    else if bytes = tbsBytes p mid then .ok (.inr mid)
    else if bytes < tbsBytes p mid then .ok (.inl (s.1, mid))
    else .ok (.inl (mid, s.2))
  else .ok (.inr s.2)

def nrFindNbRb (fuel : Nat) (p : TbsParams) (bytes nbRbMin nbRbMax : Nat) :
    Except (Fault Empty) NbRb :=
  let tbsMax := tbsBytes p nbRbMax
  if bytes > tbsMax then .ok ⟨false, tbsMax, nbRbMax⟩
  else if bytes = tbsMax then .ok ⟨true, tbsMax, nbRbMax⟩
  else
    let tbsMin := tbsBytes p nbRbMin
    if bytes ≤ tbsMin then .ok ⟨true, tbsMin, nbRbMin⟩
    else do
      let hi ← loop (findNbRbRound p bytes) fuel (nbRbMin, nbRbMax)
      let tbs := tbsBytes p hi
      .ok ⟨decide (tbs ≥ bytes) && decide (hi ≤ nbRbMax), tbs, hi⟩

def table51311 : List (Nat × Nat) :=
  [(2, 1200), (2, 1570), (2, 1930), (2, 2510), (2, 3080), (2, 3790), (2, 4490), (2, 5260),
    (2, 6020), (2, 6790), (4, 3400), (4, 3780), (4, 4340), (4, 4900), (4, 5530), (4, 6160),
    (4, 6580), (6, 4380), (6, 4660), (6, 5170), (6, 5670), (6, 6160), (6, 6660), (6, 7190),
    (6, 7720), (6, 8220), (6, 8730), (6, 9100), (6, 9480), (2, 0), (4, 0), (6, 0)]

def table51312 : List (Nat × Nat) :=
  [(2, 1200), (2, 1930), (2, 3080), (2, 4490), (2, 6020), (4, 3780), (4, 4340), (4, 4900),
    (4, 5530), (4, 6160), (4, 6580), (6, 4660), (6, 5170), (6, 5670), (6, 6160), (6, 6660),
    (6, 7190), (6, 7720), (6, 8220), (6, 8730), (8, 6825), (8, 7110), (8, 7540), (8, 7970),
    (8, 8410), (8, 8850), (8, 9165), (8, 9480), (2, 0), (4, 0), (6, 0), (8, 0)]

def table51313 : List (Nat × Nat) :=
  [(2, 300), (2, 400), (2, 500), (2, 640), (2, 780), (2, 990), (2, 1200), (2, 1570),
    (2, 1930), (2, 2510), (2, 3080), (2, 3790), (2, 4490), (2, 5260), (2, 6020), (4, 3400),
    (4, 3780), (4, 4340), (4, 4900), (4, 5530), (4, 6160), (6, 4380), (6, 4660), (6, 5170),
    (6, 5670), (6, 6160), (6, 6660), (6, 7190), (6, 7720), (2, 0), (4, 0), (6, 0)]

def table61411 : List (Nat × Nat) :=
  [(2, 1200), (2, 1570), (2, 1930), (2, 2510), (2, 3080), (2, 3790), (2, 4490), (2, 5260),
    (2, 6020), (2, 6790), (4, 3400), (4, 3780), (4, 4340), (4, 4900), (4, 5530), (4, 6160),
    (4, 6580), (6, 4660), (6, 5170), (6, 5670), (6, 6160), (6, 6660), (6, 7190), (6, 7720),
    (6, 8220), (6, 8730), (6, 9100), (6, 9480), (2, 0), (2, 0), (4, 0), (6, 0)]

def table61412 : List (Nat × Nat) :=
  [(2, 300), (2, 400), (2, 500), (2, 640), (2, 780), (2, 990), (2, 1200), (2, 1570),
    (2, 1930), (2, 2510), (2, 3080), (2, 3790), (2, 4490), (2, 5260), (2, 6020), (2, 6790),
    (4, 3780), (4, 4340), (4, 4900), (4, 5530), (4, 6160), (4, 6580), (4, 6990), (4, 7720),
    (6, 5670), (6, 6160), (6, 6660), (6, 7720), (2, 0), (2, 0), (4, 0), (6, 0)]

def mcsEntry (tables : List (List (Nat × Nat))) (imcs tableIdx : Nat) : Nat × Nat :=
  ((tables[tableIdx]?.bind (·[imcs]?)).getD (0, 0))

def dlTables : List (List (Nat × Nat)) := [table51311, table51312, table51313]

def ulTables : List (List (Nat × Nat)) := dlTables ++ [table61411, table61412]

def nrGetQmDl (imcs tableIdx : Nat) : Nat := (mcsEntry dlTables imcs tableIdx).1

def nrGetCodeRateDl (imcs tableIdx : Nat) : Nat := (mcsEntry dlTables imcs tableIdx).2

def nrGetQmUl (imcs tableIdx : Nat) : Nat := (mcsEntry ulTables imcs tableIdx).1

def nrGetCodeRateUl (imcs tableIdx : Nat) : Nat := (mcsEntry ulTables imcs tableIdx).2

def updateUlUeRQm (mcs mcsTable : Nat) (tpPi2Bpsk : Bool) : Nat × Nat :=
  let r := nrGetCodeRateUl mcs mcsTable
  let qm := nrGetQmUl mcs mcsTable
  if tpPi2Bpsk ∧ (mcsTable = 3 ∧ mcs < 2 ∨ mcsTable = 4 ∧ mcs < 6) then (qm * 2, r / 2)
  else (qm, r)

end OpenAir.Mac

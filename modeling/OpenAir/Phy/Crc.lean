import OpenAir.Lib.BitPolynomial
import OpenAir.Lib.Memory

/-! The cyclic redundancy checks of the transport channels, byte by byte from tables. -/

namespace OpenAir.Phy

open Polynomial Function Finset

def poly24a : BitVec 32 := 0x864cfb00
def poly24b : BitVec 32 := 0x80006300
def poly24c : BitVec 32 := 0xb2b11700
def poly16 : BitVec 32 := 0x10210000
def poly12 : BitVec 32 := 0x80F00000
def poly8 : BitVec 32 := 0x9B000000
def poly6 : BitVec 32 := 0x84000000
def poly11 : BitVec 32 := 0xc4200000

def crcbitStep (poly : BitVec 32) (s : BitVec 32 × BitVec 32) : BitVec 32 × BitVec 32 :=
  (if (s.2 ^^^ s.1).msb then (s.1 <<< 1) ^^^ poly else s.1 <<< 1, s.2 <<< 1)

def byteAtTop (b : Byte) : BitVec 32 := b.setWidth 32 <<< 24

def crcbit (input : List Byte) (poly : BitVec 32) : BitVec 32 :=
  input.foldl (fun crc b => ((crcbitStep poly)^[8] (crc, byteAtTop b)).1) 0

def crcTable (poly : BitVec 32) (shift : Nat) (c : Byte) : BitVec 32 := crcbit [c] poly >>> shift

def crc24aTable := crcTable poly24a 0
def crc24bTable := crcTable poly24b 0
def crc24cTable := crcTable poly24c 0
def crc16Table := crcTable poly16 16
def crc12Table := crcTable poly12 16
def crc11Table := crcTable poly11 16
def crc8Table := crcTable poly8 24
def crc6Table := crcTable poly6 24

def lutStep (table : Byte → BitVec 32) (shift : Nat) (crc : BitVec 32) (b : Byte) : BitVec 32 :=
  (crc <<< 8) ^^^ (table (b ^^^ (crc >>> 24).setWidth 8) <<< shift)

def lutStepShort (table : Byte → BitVec 32) (shift : Nat) (crc : BitVec 32) (b : Byte) :
    BitVec 32 :=
  table (b ^^^ (crc >>> 24).setWidth 8) <<< shift

def lutLast (table : Byte → BitVec 32) (shift resbit : Nat) (crc : BitVec 32) (b : Byte) :
    BitVec 32 :=
  (crc <<< resbit) ^^^
    (table ((b >>> (8 - resbit)) ^^^ (crc >>> (32 - resbit)).setWidth 8) <<< shift)

def crcLut (step : BitVec 32 → Byte → BitVec 32) (last : Nat → BitVec 32 → Byte → BitVec 32)
    (inptr : Memory) (bitlen : Int) : BitVec 32 :=
  let octetlen := (bitlen.tdiv 8).toNat
  let resbit := bitlen.tmod 8
  let crc := (List.range octetlen).foldl (fun crc i => step crc (inptr i)) 0
  if resbit > 0 then last resbit.toNat crc (inptr octetlen) else crc

/-- `crc24a` and `crc24b` on the path of the tables. -/
def crc24a := crcLut (lutStep crc24aTable 0) (lutLast crc24aTable 0)
def crc24b := crcLut (lutStep crc24bTable 0) (lutLast crc24bTable 0)
def crc24c := crcLut (lutStep crc24cTable 0) (lutLast crc24cTable 0)
def crc16 := crcLut (lutStep crc16Table 16) (lutLast crc16Table 16)
def crc12 := crcLut (lutStep crc12Table 16) (lutLast crc12Table 16)
def crc11 := crcLut (lutStep crc11Table 16) (lutLast crc11Table 16)
def crc8 := crcLut (lutStepShort crc8Table 24) (lutLast crc8Table 24)
def crc6 := crcLut (lutStepShort crc6Table 24) (lutLast crc6Table 24)

inductive CrcName
  | crc24a
  | crc24b
  | crc24c
  | crc16
  | crc12
  | crc11
  | crc8
  | crc6

namespace CrcName

def compute : CrcName → Memory → Int → BitVec 32
  | crc24a => Phy.crc24a
  | crc24b => Phy.crc24b
  | crc24c => Phy.crc24c
  | crc16 => Phy.crc16
  | crc12 => Phy.crc12
  | crc11 => Phy.crc11
  | crc8 => Phy.crc8
  | crc6 => Phy.crc6

def length : CrcName → Nat
  | crc24a | crc24b | crc24c => 24
  | crc16 => 16
  | crc12 => 12
  | crc11 => 11
  | crc8 => 8
  | crc6 => 6

/-- The generators of 38.212 and 36.212. -/
noncomputable def generator : CrcName → (ZMod 2)[X]
  | crc24a =>
    X ^ 24 + X ^ 23 + X ^ 18 + X ^ 17 + X ^ 14 + X ^ 11 + X ^ 10 + X ^ 7 + X ^ 6 + X ^ 5 + X ^ 4 +
      X ^ 3 + X + 1
  | crc24b => X ^ 24 + X ^ 23 + X ^ 6 + X ^ 5 + X + 1
  | crc24c =>
    X ^ 24 + X ^ 23 + X ^ 21 + X ^ 20 + X ^ 17 + X ^ 15 + X ^ 13 + X ^ 12 + X ^ 8 + X ^ 4 +
      X ^ 2 + X + 1
  | crc16 => X ^ 16 + X ^ 12 + X ^ 5 + 1
  | crc12 => X ^ 12 + X ^ 11 + X ^ 3 + X ^ 2 + X + 1
  | crc11 => X ^ 11 + X ^ 10 + X ^ 9 + X ^ 5 + 1
  | crc8 => X ^ 8 + X ^ 7 + X ^ 4 + X ^ 3 + X + 1
  | crc6 => X ^ 6 + X ^ 5 + 1

def poly : CrcName → BitVec 32
  | crc24a => poly24a
  | crc24b => poly24b
  | crc24c => poly24c
  | crc16 => poly16
  | crc12 => poly12
  | crc11 => poly11
  | crc8 => poly8
  | crc6 => poly6

end CrcName

def crcTypes : List CrcName := [.crc24a, .crc24b, .crc16, .crc8]

/-- `oldcrc` in `check_crc`; the index into the block is unsigned. -/
def oldCrc (decodedBytes : Memory) (n : BitVec 32) (crcLen : Nat) : BitVec 32 :=
  (List.range crcLen).foldl (fun oldcrc i =>
    let index := (n >>> 3) - BitVec.ofNat 32 crcLen + BitVec.ofNat 32 i
    oldcrc ||| ((decodedBytes index.toNat).setWidth 32 <<< (8 * (crcLen - 1 - i)))) 0

/-- `check_crc`.  Its `AssertFatal(1, ..)` never fails: a type it does not know passes, 0 being
0. -/
def checkCrc (decodedBytes : Memory) (n : BitVec 32) (crcType : BitVec 8) : Bool :=
  match crcTypes[crcType.toNat]? with
  | some c =>
    let oldcrc := oldCrc decodedBytes n (c.length / 8) &&& BitVec.ofNat 32 (2 ^ c.length - 1)
    c.compute decodedBytes (n - BitVec.ofNat 32 c.length).toInt >>> (32 - c.length) == oldcrc
  | none => true

namespace CrcName

theorem crcModulus_poly (c : CrcName) : crcModulus c.poly = X ^ (32 - c.length) * c.generator := by
  have hone : C (gf2 true) = (1 : (ZMod 2)[X]) := rfl
  cases c <;>
    simp [crcModulus, bitPoly, sum_range_succ, poly, length, generator, poly24a, poly24b, poly24c,
      poly16, poly12, poly11, poly8, poly6, hone] <;>
    ring

end CrcName

/-- The first `len` bits of a memory, the highest of a byte first, as a polynomial. -/
noncomputable def message (m : Memory) (len : Nat) : (ZMod 2)[X] :=
  ∑ p ∈ range len, C (gf2 ((m (p / 8)).getLsbD (7 - p % 8))) * X ^ (len - 1 - p)

theorem message_succ (m : Memory) (len : Nat) :
    message m (len + 1) = X * message m len + C (gf2 ((m (len / 8)).getLsbD (7 - len % 8))) := by
  rw [message, sum_range_succ, message, mul_sum]
  refine congrArg₂ (· + ·) ?_ ?_
  · refine sum_congr rfl fun p hp => ?_
    have hexp : len + 1 - 1 - p = len - 1 - p + 1 := by
      have := mem_range.mp hp
      omega
    rw [hexp]
    ring
  · simp

theorem message_add (m : Memory) (k : Nat) {r : Nat} (hr : r ≤ 8) :
    message m (8 * k + r) = X ^ r * message m (8 * k) + bitPoly (m k >>> (8 - r)) := by
  induction r with
  | zero =>
    have hgone : m k >>> 8 = 0 := BitVec.ushiftRight_eq_zero (le_refl 8)
    simp [hgone]
  | succ r ih =>
    have hbyte : (8 * k + r) / 8 = k := by omega
    have hbit : (8 * k + r) % 8 = r := by omega
    have hnext : bitPoly (m k >>> (8 - (r + 1))) =
        X * bitPoly (m k >>> (8 - r)) + C (gf2 ((m k).getLsbD (7 - r))) := by
      ext j
      cases j with
      | zero =>
        have hplace : 8 - (r + 1) = 7 - r := by omega
        simp [hplace]
      | succ j =>
        have hplace : 7 - r + (j + 1) = 8 - r + j := by omega
        simp [hplace]
    rw [← Nat.add_assoc, message_succ, ih (by omega), hbyte, hbit, hnext]
    ring

section Lut

variable {poly crc : BitVec 32} {m : Memory} {msg : (ZMod 2)[X]} {b c : Byte} {shift r k : Nat}

theorem crcbitStep_iterate (poly : BitVec 32) (k : Nat) (s : BitVec 32 × BitVec 32) :
    ((crcbitStep poly)^[k] s).2 = s.2 <<< k ∧
      ((crcbitStep poly)^[k] s).2 ^^^ ((crcbitStep poly)^[k] s).1 =
        (crcShift poly)^[k] (s.2 ^^^ s.1) := by
  induction k with
  | zero => simp
  | succ k ih =>
    rw [iterate_succ_apply', iterate_succ_apply', ← ih.2, crcbitStep, crcShift]
    refine ⟨by rw [ih.1, BitVec.shiftLeft_add], ?_⟩
    dsimp only
    split
    · rw [BitVec.shiftLeft_xor_distrib, BitVec.xor_assoc]
    · rw [BitVec.shiftLeft_xor_distrib]

theorem crcbit_singleton (poly : BitVec 32) (c : Byte) :
    crcbit [c] poly = (crcShift poly)^[8] (byteAtTop c) := by
  obtain ⟨hc, hjoin⟩ := crcbitStep_iterate poly 8 (0, byteAtTop c)
  have hgone : byteAtTop c <<< 8 = 0 := by
    rw [byteAtTop, ← BitVec.shiftLeft_add]
    exact BitVec.shiftLeft_eq_zero (by decide)
  rw [hc, hgone] at hjoin
  simpa [crcbit] using hjoin

theorem crcModulus_dvd_crcbit (poly : BitVec 32) (c : Byte) :
    crcModulus poly ∣ X ^ 32 * bitPoly c - bitPoly (crcbit [c] poly) := by
  have htop : bitPoly (byteAtTop c) = X ^ 24 * bitPoly c := bitPoly_setWidth_shiftLeft c (by decide)
  have hsteps := crcModulus_dvd_iterate_crcShift poly (byteAtTop c) (by decide) 8
  rw [htop, ← mul_assoc, ← pow_add] at hsteps
  rwa [crcbit_singleton]

theorem getLsbD_iterate_crcShift (hpoly : ∀ i < shift, poly.getLsbD i = false) {x : BitVec 32}
    (hx : ∀ i < shift, x.getLsbD i = false) (k : Nat) :
    ∀ i < shift, ((crcShift poly)^[k] x).getLsbD i = false := by
  induction k with
  | zero => exact hx
  | succ k ih =>
    intro i hi
    rw [iterate_succ_apply', crcShift]
    have hshifted : (((crcShift poly)^[k] x) <<< 1).getLsbD i = false := by
      rw [BitVec.getLsbD_shiftLeft, ih (i - 1) (by omega), Bool.and_false]
    split
    · rw [BitVec.getLsbD_xor, hshifted, hpoly i hi]
      rfl
    · exact hshifted

theorem crcTable_shiftLeft (hpoly : ∀ i < shift, poly.getLsbD i = false) (hshift : shift ≤ 24)
    (c : Byte) : crcTable poly shift c <<< shift = crcbit [c] poly := by
  have hlow : ∀ i < shift, (crcbit [c] poly).getLsbD i = false := by
    rw [crcbit_singleton]
    refine getLsbD_iterate_crcShift hpoly (fun i hi => ?_) 8
    have : i < 24 := by omega
    simp [byteAtTop, this]
  refine BitVec.eq_of_getLsbD_eq fun i hi => ?_
  rw [crcTable, BitVec.getLsbD_shiftLeft, BitVec.getLsbD_ushiftRight]
  rcases lt_or_ge i shift with h | h
  · simp [h, hlow i h]
  · simp [hi, not_lt.mpr h, Nat.add_sub_cancel' h]

theorem crcModulus_dvd_lutLast (hpoly : ∀ i < shift, poly.getLsbD i = false) (hshift : shift ≤ 24)
    (hr : r ≤ 8) (hcrc : crcModulus poly ∣ msg * X ^ 32 - bitPoly crc) :
    crcModulus poly ∣ (X ^ r * msg + bitPoly (b >>> (8 - r))) * X ^ 32 -
      bitPoly (lutLast (crcTable poly shift) shift r crc b) := by
  have hindex : bitPoly ((crc >>> (32 - r)).setWidth 8) = bitPoly (crc >>> (32 - r)) := by
    refine bitPoly_setWidth fun j hj => ?_
    rw [BitVec.getLsbD_ushiftRight, BitVec.getLsbD_of_ge crc _ (by omega)]
  have htable := crcModulus_dvd_crcbit poly ((b >>> (8 - r)) ^^^ (crc >>> (32 - r)).setWidth 8)
  have hshifted := X_pow_mul_bitPoly crc (k := r) (by omega)
  rw [bitPoly_xor, hindex] at htable
  rw [lutLast, crcTable_shiftLeft hpoly hshift, bitPoly_xor]
  generalize bitPoly (crcbit _ poly) = t at htable ⊢
  have hsplit : (X ^ r * msg + bitPoly (b >>> (8 - r))) * X ^ 32 - (bitPoly (crc <<< r) + t) =
      X ^ r * (msg * X ^ 32 - bitPoly crc) +
        (X ^ 32 * (bitPoly (b >>> (8 - r)) + bitPoly (crc >>> (32 - r))) - t) := by
    linear_combination hshifted
  rw [hsplit]
  exact dvd_add (hcrc.mul_left _) htable

theorem lutStep_eq_lutLast (table : Byte → BitVec 32) :
    lutStep table shift crc b = lutLast table shift 8 crc b := by
  simp [lutStep, lutLast]

theorem crcModulus_dvd_foldl (hpoly : ∀ i < shift, poly.getLsbD i = false)
    (hshift : shift ≤ 24) (k : Nat) :
    crcModulus poly ∣ message m (8 * k) * X ^ 32 -
      bitPoly
        ((List.range k).foldl (fun crc i => lutStep (crcTable poly shift) shift crc (m i)) 0) := by
  induction k with
  | zero => simp [message]
  | succ k ih =>
    have hnext := message_add m k (le_refl 8)
    rw [List.range_succ, List.foldl_append, List.foldl_cons, List.foldl_nil, lutStep_eq_lutLast,
      Nat.mul_succ, hnext]
    exact crcModulus_dvd_lutLast hpoly hshift (le_refl 8) ih

theorem crcModulus_dvd_crcLut (shift : Nat) (hpoly : ∀ i < shift, poly.getLsbD i = false)
    (hshift : shift ≤ 24) (len : Nat) :
    crcModulus poly ∣ message m len * X ^ 32 -
      bitPoly (crcLut (lutStep (crcTable poly shift) shift)
        (lutLast (crcTable poly shift) shift) m len) := by
  have hfold := crcModulus_dvd_foldl (m := m) hpoly hshift (len / 8)
  have hoctets : ((len : Int).tdiv 8).toNat = len / 8 := by simp [Int.tdiv_eq_ediv_of_nonneg]; omega
  have hres : (len : Int).tmod 8 = (len % 8 : Nat) := by simp [Int.tmod_eq_emod_of_nonneg]
  simp only [crcLut, hoctets, hres]
  have hlen : 8 * (len / 8) + len % 8 = len := Nat.div_add_mod len 8
  split
  · have hmsg := message_add m (len / 8) (r := len % 8) (by omega)
    rw [hlen] at hmsg
    rw [hmsg, Int.toNat_natCast]
    exact crcModulus_dvd_lutLast hpoly hshift (by omega) hfold
  · have hzero : len % 8 = 0 := by omega
    rw [hzero, Nat.add_zero] at hlen
    rwa [hlen] at hfold

theorem foldl_lutStepShort (table : Byte → BitVec 32) (l : List Nat) (hcrc : crc <<< 8 = 0#32) :
    l.foldl (fun crc i => lutStepShort table 24 crc (m i)) crc =
      l.foldl (fun crc i => lutStep table 24 crc (m i)) crc := by
  induction l generalizing crc with
  | nil => rw [List.foldl_nil, List.foldl_nil]
  | cons i l ih =>
    have hstep : lutStep table 24 crc (m i) = lutStepShort table 24 crc (m i) := by
      rw [lutStep, hcrc, lutStepShort, BitVec.zero_xor]
    rw [List.foldl_cons, List.foldl_cons, hstep]
    refine ih ?_
    rw [lutStepShort, ← BitVec.shiftLeft_add]
    exact BitVec.shiftLeft_eq_zero (by decide)

theorem crcLut_lutStepShort (table : Byte → BitVec 32) :
    crcLut (lutStepShort table 24) (lutLast table 24) = crcLut (lutStep table 24)
      (lutLast table 24) := by
  funext m bitlen
  have hfold : ∀ l : List Nat, l.foldl (fun crc i => lutStepShort table 24 crc (m i)) 0 =
      l.foldl (fun crc i => lutStep table 24 crc (m i)) 0 :=
      fun l => foldl_lutStepShort table l (by simp)
  simp only [crcLut, hfold]

end Lut

namespace CrcName

theorem crcModulus_dvd_compute (c : CrcName) (m : Memory) (len : Nat) :
    crcModulus c.poly ∣ message m len * X ^ 32 - bitPoly (c.compute m len) := by
  cases c with
  | crc24a => exact crcModulus_dvd_crcLut 0 (by decide) (by decide) len
  | crc24b => exact crcModulus_dvd_crcLut 0 (by decide) (by decide) len
  | crc24c => exact crcModulus_dvd_crcLut 0 (by decide) (by decide) len
  | crc16 => exact crcModulus_dvd_crcLut 16 (by decide) (by decide) len
  | crc12 => exact crcModulus_dvd_crcLut 16 (by decide) (by decide) len
  | crc11 => exact crcModulus_dvd_crcLut 16 (by decide) (by decide) len
  | crc8 =>
    rw [compute, Phy.crc8, crcLut_lutStepShort]
    exact crcModulus_dvd_crcLut 24 (by decide) (by decide) len
  | crc6 =>
    rw [compute, Phy.crc6, crcLut_lutStepShort]
    exact crcModulus_dvd_crcLut 24 (by decide) (by decide) len

theorem bitPoly_compute (c : CrcName) (m : Memory) (len : Nat) :
    bitPoly (c.compute m len) =
      X ^ (32 - c.length) * ((message m len * X ^ c.length) %ₘ c.generator) :=
  bitPoly_eq_of_crcModulus_dvd (by cases c <;> decide) c.crcModulus_poly
    (c.crcModulus_dvd_compute m len)

end CrcName

section Check

variable {m : Memory} {len : Nat}

theorem message_tail (m : Memory) (k len : Nat) :
    message m (8 * (k + len)) = X ^ (8 * len) * message m (8 * k) +
      ∑ i ∈ range len, X ^ (8 * (len - 1 - i)) * bitPoly (m (k + i)) := by
  induction len with
  | zero => simp
  | succ len ih =>
    have hnext := message_add m (k + len) (le_refl 8)
    have hterms : ∑ i ∈ range len, X ^ (8 * (len + 1 - 1 - i)) * bitPoly (m (k + i)) =
        X ^ 8 * ∑ i ∈ range len, X ^ (8 * (len - 1 - i)) * bitPoly (m (k + i)) := by
      rw [mul_sum]
      refine sum_congr rfl fun i hi => ?_
      have hexp : 8 * (len + 1 - 1 - i) = 8 + 8 * (len - 1 - i) := by
        have := mem_range.mp hi
        omega
      rw [hexp, pow_add, mul_assoc]
    rw [← Nat.add_assoc, Nat.mul_succ, hnext, ih, sum_range_succ, hterms]
    simp
    ring

theorem bitPoly_foldl_or (b : Nat → Byte) (hlen : len ≤ 4) {j : Nat} (hj : j ≤ len) :
    let x : BitVec 32 :=
  (List.range j).foldl (fun x i => x ||| ((b i).setWidth 32 <<< (8 * (len - 1 - i)))) 0
    bitPoly x = ∑ i ∈ range j, X ^ (8 * (len - 1 - i)) * bitPoly (b i) ∧
      ∀ t, x.getLsbD t → 8 * (len - j) ≤ t ∧ t < 8 * len := by
  induction j with
  | zero => simp
  | succ j ih =>
    obtain ⟨hpoly, hbits⟩ := ih (by omega)
    rw [List.range_succ, List.foldl_append, List.foldl_cons, List.foldl_nil]
    generalize (List.range j).foldl (fun x i => x ||| ((b i).setWidth 32 <<< (8 * (len - 1 - i))))
      (0 : BitVec 32) = x
      at hpoly hbits ⊢
    have hnew : ∀ t, ((b j).setWidth 32 <<< (8 * (len - 1 - j))).getLsbD t →
        8 * (len - 1 - j) ≤ t ∧ t < 8 * (len - j) := by
      intro t ht
      rw [BitVec.getLsbD_shiftLeft, BitVec.getLsbD_setWidth] at ht
      simp only [Bool.and_eq_true, decide_eq_true_eq, Bool.not_eq_true', decide_eq_false_iff_not,
        not_lt] at ht
      have := BitVec.lt_of_getLsbD ht.2.2
      omega
    refine ⟨?_, fun t ht => ?_⟩
    · rw [bitPoly_or, hpoly, sum_range_succ, bitPoly_setWidth_shiftLeft _ (by omega)]
      intro t
      by_contra hboth
      simp only [not_or, Bool.not_eq_false] at hboth
      have := hbits t hboth.1
      have := hnew t hboth.2
      omega
    · rw [BitVec.getLsbD_or, Bool.or_eq_true] at ht
      rcases ht with ht | ht
      · have := hbits t ht
        omega
      · have := hnew t ht
        omega

theorem oldCrc_eq {n : BitVec 32} {k : Nat} (hn : n.toNat = 8 * (k + len)) :
    oldCrc m n len = (List.range len).foldl
      (fun x i => x ||| ((m (k + i)).setWidth 32 <<< (8 * (len - 1 - i)))) 0 := by
  refine List.foldl_ext _ _ _ fun x i hi => ?_
  have hi := List.mem_range.mp hi
  have hindex : ((n >>> 3) - BitVec.ofNat 32 len + BitVec.ofNat 32 i).toNat = k + i := by
    have hbytes : (n >>> 3).toNat = k + len := by
      rw [BitVec.toNat_ushiftRight, hn, Nat.shiftRight_eq_div_pow]
      omega
    rw [BitVec.toNat_add, BitVec.toNat_sub, hbytes, BitVec.toNat_ofNat, BitVec.toNat_ofNat]
    omega
  dsimp only
  rw [hindex]

theorem CrcName.generator_monic (c : CrcName) : c.generator.Monic :=
  (monic_X_pow (32 - c.length)).of_mul_monic_left (c.crcModulus_poly ▸ crcModulus_monic c.poly)

theorem CrcName.degree_generator (c : CrcName) : c.generator.degree = c.length := by
  have hdegree := natDegree_crcModulus c.poly
  rw [c.crcModulus_poly, (monic_X_pow (32 - c.length)).natDegree_mul c.generator_monic,
    natDegree_X_pow] at hdegree
  rw [degree_eq_natDegree c.generator_monic.ne_zero]
  have hle : c.length ≤ 32 := by cases c <;> decide
  exact_mod_cast (by omega : c.generator.natDegree = c.length)

theorem CrcName.generator_dvd_iff (c : CrcName) {a b : (ZMod 2)[X]} (hb : b.degree < c.length) :
    c.generator ∣ a + b ↔ a %ₘ c.generator = b := by
  have hself : b %ₘ c.generator = b :=
    (modByMonic_eq_self_iff c.generator_monic).mpr (by rwa [c.degree_generator])
  rw [← modByMonic_eq_zero_iff_dvd c.generator_monic, add_modByMonic, hself, CharTwo.add_eq_zero]

theorem CrcName.bitPoly_compute_ushiftRight (c : CrcName) (m : Memory) (len : Nat) :
    bitPoly (c.compute m len >>> (32 - c.length)) =
      (message m len * X ^ c.length) %ₘ c.generator := by
  ext j
  have hcoeff := congrArg (coeff · (32 - c.length + j)) (c.bitPoly_compute m len)
  simp only [coeff_bitPoly, Nat.add_comm (32 - c.length) j, coeff_X_pow_mul] at hcoeff
  rw [coeff_bitPoly, BitVec.getLsbD_ushiftRight, Nat.add_comm, hcoeff]

theorem checkCrc_iff {n : BitVec 32} {crcType : BitVec 8} {c : CrcName}
    (hc : crcTypes[crcType.toNat]? = some c)
    (hn : 8 ∣ n.toNat) (hlong : c.length ≤ n.toNat) (hint : n.toNat - c.length < 2 ^ 31) :
    checkCrc m n crcType ↔ c.generator ∣ message m n.toNat := by
  obtain ⟨len, hlen, hlength⟩ : ∃ len ≤ 4, c.length = 8 * len := by
    have hmem := List.mem_of_getElem? hc
    simp only [crcTypes, List.mem_cons, List.not_mem_nil, or_false] at hmem
    rcases hmem with rfl | rfl | rfl | rfl
    · exact ⟨3, by decide, rfl⟩
    · exact ⟨3, by decide, rfl⟩
    · exact ⟨2, by decide, rfl⟩
    · exact ⟨1, by decide, rfl⟩
  obtain ⟨k, hk⟩ : ∃ k, n.toNat = 8 * (k + len) := ⟨n.toNat / 8 - len, by omega⟩
  have hbitlen : (n - BitVec.ofNat 32 c.length).toInt = (8 * k : Nat) := by
    have hof : (BitVec.ofNat 32 c.length).toNat = c.length := by
      rw [BitVec.toNat_ofNat]
      omega
    have hdiff : (n - BitVec.ofNat 32 c.length).toNat = 8 * k := by
      rw [BitVec.toNat_sub_of_le (by rw [BitVec.le_def, hof]; exact hlong), hof]
      omega
    rw [BitVec.toInt_eq_toNat_of_lt (by omega), hdiff]
  obtain ⟨hold, hbits⟩ := bitPoly_foldl_or (fun i => m (k + i)) hlen (le_refl len)
  rw [← oldCrc_eq hk] at hold hbits
  have hmask : oldCrc m n len &&& BitVec.ofNat 32 (2 ^ c.length - 1) = oldCrc m n len := by
    refine BitVec.eq_of_getLsbD_eq fun t ht => ?_
    rw [BitVec.getLsbD_and, BitVec.getLsbD_ofNat, Nat.testBit_two_pow_sub_one]
    cases hbit : (oldCrc m n len).getLsbD t with
    | false => rfl
    | true => simp [ht, hlength, (hbits t hbit).2]
  have hdegree : (bitPoly (oldCrc m n len)).degree < c.length := by
    refine (degree_lt_iff_coeff_zero _ _).mpr fun t ht => ?_
    rw [coeff_bitPoly]
    cases hbit : (oldCrc m n len).getLsbD t with
    | false => rfl
    | true =>
      have := (hbits t hbit).2
      omega
  have hdiv : c.length / 8 = len := by omega
  have hmessage :
      message m n.toNat = message m (8 * k) * X ^ c.length + bitPoly (oldCrc m n len) := by
    rw [hk, message_tail, ← hold, hlength, mul_comm]
  rw [checkCrc, hc, hmessage, c.generator_dvd_iff hdegree, ← c.bitPoly_compute_ushiftRight]
  simp only [hdiv, hmask, hbitlen, beq_iff_eq]
  exact bitPoly_injective.eq_iff.symm

end Check

/-- The registers hold the remainder at their top, and `check_crc` accepts the multiples of the
generator. -/
theorem crc_correct (m : Memory) :
    (∀ (c : CrcName) (len : Nat),
      bitPoly (c.compute m len) =
        X ^ (32 - c.length) * ((message m len * X ^ c.length) %ₘ c.generator)) ∧
    ∀ (n : BitVec 32) (crcType : BitVec 8) (c : CrcName), crcTypes[crcType.toNat]? = some c →
    8 ∣ n.toNat →
      c.length ≤ n.toNat → n.toNat - c.length < 2 ^ 31 →
      (checkCrc m n crcType = true ↔ c.generator ∣ message m n.toNat) :=
  ⟨fun c len => c.bitPoly_compute m len, fun _ _ _ => checkCrc_iff⟩

/-- The byte 1 with its CRC, and with a CRC in which one bit is wrong. -/
theorem crc_correct_byte :
    CrcName.crc8.generator ∣ message (fun a => if a = 0 then 0x01 else 0x9b) 16 ∧
      ¬ CrcName.crc8.generator ∣ message (fun a => if a = 0 then 0x01 else 0x9a) 16 := by
  have h (crc : Byte) := (crc_correct fun a => if a = 0 then 0x01 else crc).2 16 3 .crc8 rfl
    (by decide) (by decide) (by decide)
  exact ⟨(h 0x9b).mp (by decide), fun hdvd => absurd ((h 0x9a).mpr hdvd) (by decide)⟩

/-- A block of one byte 0 is compared with bytes outside. -/
theorem not_forall_checkCrc : ¬ ∀ (m : Memory) (n : BitVec 32) (crcType : BitVec 8) (c : CrcName),
    crcTypes[crcType.toNat]? = some c → 8 ∣ n.toNat →
    (checkCrc m n crcType = true ↔ c.generator ∣ message m n.toNat) := by
  intro h
  have hblock := h (fun a => if a = 0 then 0 else 1) 8 0 .crc24a rfl (by decide)
  have hzero : message (fun a => if a = 0 then 0 else 1) (8 : BitVec 32).toNat = 0 := by
    refine sum_eq_zero fun p hp => ?_
    have hp : p < 8 := mem_range.mp hp
    rw [Nat.div_eq_of_lt hp]
    simp
  rw [hzero] at hblock
  exact absurd (hblock.mpr (dvd_zero _)) (by decide)

def blockBit (m : Memory) (p : Nat) : Bool := (m (p / 8)).getLsbD (7 - p % 8)

theorem coeff_message (m : Memory) (len j : Nat) :
    (message m len).coeff j = if j < len then gf2 (blockBit m (len - 1 - j)) else 0 := by
  simp only [message, finsetSum_coeff, coeff_C_mul, coeff_X_pow, mul_ite, mul_one, mul_zero]
  split
  · rw [sum_eq_single (len - 1 - j)]
    · rw [if_pos (by omega), blockBit]
    · intro p hp hne
      have := mem_range.mp hp
      exact if_neg (by omega)
    · intro hout
      exact absurd (mem_range.mpr (by omega)) hout
  · refine sum_eq_zero fun p hp => if_neg ?_
    have := mem_range.mp hp
    omega

theorem CrcName.isCoprime_generator (c : CrcName) (k : Nat) : IsCoprime c.generator (X ^ k) := by
  have hconst : c.generator.coeff 0 = 1 := by cases c <;> simp [generator, coeff_X, coeff_one]
  refine IsCoprime.pow_right ((irreducible_X.coprime_iff_not_dvd).mpr ?_).symm
  rw [X_dvd_iff, hconst]
  exact one_ne_zero

/-- A block and its copy in which a burst that is not longer than the CRC has changed bits are not
both accepted. -/
theorem checkCrc_detects_burst {m m' : Memory} {n : BitVec 32} {crcType : BitVec 8} {c : CrcName}
    (hc : crcTypes[crcType.toNat]? = some c) (hn : 8 ∣ n.toNat) (hint : n.toNat - c.length < 2 ^ 31)
    {start : Nat} (hstart : start + c.length ≤ n.toNat)
    (hsame : ∀ p < n.toNat, ¬ (start ≤ p ∧ p < start + c.length) → blockBit m' p = blockBit m p)
    (hdiff : ∃ p < n.toNat, blockBit m' p ≠ blockBit m p) (h : checkCrc m n crcType = true) :
    checkCrc m' n crcType = false := by
  have hlong : c.length ≤ n.toNat := by omega
  by_contra h'
  rw [Bool.not_eq_false, checkCrc_iff hc hn hlong hint] at h'
  rw [checkCrc_iff hc hn hlong hint] at h
  have herror (j : Nat) : (message m' n.toNat - message m n.toNat).coeff j = 0 ↔
      (j < n.toNat → blockBit m' (n.toNat - 1 - j) = blockBit m (n.toNat - 1 - j)) := by
    rw [coeff_sub, coeff_message, coeff_message, sub_eq_zero]
    split <;> simp_all [gf2_injective.eq_iff]
  -- the error is a polynomial of less than the generator's degree, moved to the place of the burst
  obtain ⟨r, hr⟩ : X ^ (n.toNat - start - c.length) ∣ message m' n.toNat - message m n.toNat :=
    X_pow_dvd_iff.mpr fun j hj => (herror j).mpr fun hlt => hsame _ (by omega) (by omega)
  have hdegree : r.degree < c.generator.degree := by
    rw [c.degree_generator]
    refine (degree_lt_iff_coeff_zero _ _).mpr fun j hj => ?_
    rw [← coeff_X_pow_mul r (n.toNat - start - c.length), ← hr]
    exact (herror _).mpr fun hlt => hsame _ (by omega) (by omega)
  have hdvd : c.generator ∣ r :=
    (c.isCoprime_generator (n.toNat - start - c.length)).dvd_of_dvd_mul_left (hr ▸ dvd_sub h' h)
  obtain ⟨p, hp, hne⟩ := hdiff
  rw [eq_zero_of_dvd_of_degree_lt hdvd hdegree, mul_zero] at hr
  have hzero := (herror (n.toNat - 1 - p)).mp (by rw [hr, coeff_zero]) (by omega)
  rw [show n.toNat - 1 - (n.toNat - 1 - p) = p by omega] at hzero
  exact hne hzero

theorem checkCrc_detects_burst_bit : checkCrc (fun _ => 0) 16 3 = true ∧
    checkCrc (fun a => if a = 0 then 1 else 0) 16 3 = false := by
  have haccepted : checkCrc (fun _ => 0) 16 3 = true := by decide
  have hbits : ∀ p < (16 : BitVec 32).toNat, ¬ (7 ≤ p ∧ p < 7 + CrcName.crc8.length) →
      blockBit (fun a => if a = 0 then 1 else 0) p = blockBit (fun _ => 0) p := by decide
  exact ⟨haccepted, checkCrc_detects_burst rfl (by decide) (by decide) (by decide) hbits
    ⟨7, by decide, by decide⟩ haccepted⟩

end OpenAir.Phy

import Mathlib

/-! Words as polynomials over the field of two elements, and the registers of cyclic codes. -/

namespace OpenAir

open Polynomial Function

def gf2 (b : Bool) : ZMod 2 := if b then 1 else 0

@[simp] theorem gf2_false : gf2 false = 0 := rfl

@[simp] theorem gf2_xor (a b : Bool) : gf2 (a ^^ b) = gf2 a + gf2 b := by
  cases a <;> cases b <;> decide

theorem gf2_injective : Injective gf2 := by
  intro a b
  cases a <;> cases b <;> decide

variable {w v k n : Nat}

noncomputable def bitPoly (x : BitVec w) : (ZMod 2)[X] :=
  ∑ i ∈ Finset.range w, C (gf2 (x.getLsbD i)) * X ^ i

@[simp] theorem coeff_bitPoly (x : BitVec w) (j : Nat) :
    (bitPoly x).coeff j = gf2 (x.getLsbD j) := by
  simp only [bitPoly, finsetSum_coeff, coeff_C_mul, coeff_X_pow, mul_ite, mul_one, mul_zero]
  rw [Finset.sum_ite_eq]
  split
  · rfl
  · rename_i hj
    rw [BitVec.getLsbD_of_ge x j (not_lt.mp (fun h => hj (Finset.mem_range.mpr h))), gf2_false]

@[simp] theorem bitPoly_zero : bitPoly (0#w) = 0 := by
  ext j
  simp

@[simp] theorem bitPoly_xor (x y : BitVec w) : bitPoly (x ^^^ y) = bitPoly x + bitPoly y := by
  ext j
  simp

theorem bitPoly_injective : Injective (bitPoly (w := w)) := by
  intro x y h
  refine BitVec.eq_of_getLsbD_eq fun j _ => gf2_injective ?_
  rw [← coeff_bitPoly, ← coeff_bitPoly, h]

theorem degree_bitPoly_lt (x : BitVec w) : (bitPoly x).degree < w := by
  refine (degree_lt_iff_coeff_zero _ _).mpr fun j hj => ?_
  rw [coeff_bitPoly, BitVec.getLsbD_of_ge x j hj, gf2_false]

theorem bitPoly_setWidth {x : BitVec w} (h : ∀ j, v ≤ j → x.getLsbD j = false) :
    bitPoly (x.setWidth v) = bitPoly x := by
  ext j
  rw [coeff_bitPoly, coeff_bitPoly, BitVec.getLsbD_setWidth]
  rcases lt_or_ge j v with hj | hj
  · simp [hj]
  · simp [h j hj]

theorem X_pow_mul_bitPoly (x : BitVec w) (hk : k ≤ w) :
    X ^ k * bitPoly x = bitPoly (x <<< k) + X ^ w * bitPoly (x >>> (w - k)) := by
  ext j
  simp only [coeff_add, coeff_X_pow_mul', coeff_bitPoly, BitVec.getLsbD_shiftLeft,
    BitVec.getLsbD_ushiftRight]
  rcases lt_or_ge j w with hjw | hjw
  · rw [if_neg (not_le.mpr hjw), add_zero]
    by_cases hkj : k ≤ j
    · simp [hkj, hjw, not_lt.mpr hkj]
    · simp [hkj, not_le.mp hkj]
  · have hplace : w - k + (j - w) = j - k := by omega
    rw [if_pos hjw, if_pos (by omega), hplace]
    simp [not_lt.mpr hjw]

theorem bitPoly_or {x y : BitVec w} (h : ∀ j, x.getLsbD j = false ∨ y.getLsbD j = false) :
    bitPoly (x ||| y) = bitPoly x + bitPoly y := by
  ext j
  rw [coeff_add, coeff_bitPoly, coeff_bitPoly, coeff_bitPoly, BitVec.getLsbD_or]
  rcases h j with h | h <;> simp [h]

theorem bitPoly_setWidth_shiftLeft (x : BitVec v) (hk : v + k ≤ w) :
    bitPoly (x.setWidth w <<< k) = X ^ k * bitPoly x := by
  ext j
  rw [coeff_bitPoly, BitVec.getLsbD_shiftLeft, BitVec.getLsbD_setWidth, coeff_X_pow_mul',
    coeff_bitPoly]
  rcases lt_or_ge j k with hj | hj
  · simp [hj, not_le.mpr hj]
  · rcases lt_or_ge j w with hj' | hj'
    · have hlow : j - k < w := by omega
      simp [hj, not_lt.mpr hj, hj', hlow]
    · rw [BitVec.getLsbD_of_ge x (j - k) (by omega)]
      simp

section Register

variable (poly : BitVec w)

noncomputable def crcModulus : (ZMod 2)[X] := X ^ w + bitPoly poly

theorem crcModulus_monic : (crcModulus poly).Monic := monic_X_pow_add (degree_bitPoly_lt poly)

theorem natDegree_crcModulus : (crcModulus poly).natDegree = w := by
  refine natDegree_eq_of_degree_eq_some ?_
  rw [crcModulus, degree_add_eq_left_of_degree_lt, degree_X_pow]
  rw [degree_X_pow]
  exact degree_bitPoly_lt poly

def crcShift (x : BitVec w) : BitVec w := if x.msb then (x <<< 1) ^^^ poly else x <<< 1

theorem crcModulus_dvd_crcShift (x : BitVec w) (hw : 0 < w) :
    crcModulus poly ∣ X * bitPoly x - bitPoly (crcShift poly x) := by
  have hshift := X_pow_mul_bitPoly x hw
  have htop : bitPoly (x >>> (w - 1)) = C (gf2 x.msb) := by
    ext j
    rw [coeff_bitPoly, BitVec.getLsbD_ushiftRight, coeff_C]
    cases j with
    | zero => simp [BitVec.msb_eq_getLsbD_last]
    | succ j =>
      rw [BitVec.getLsbD_of_ge x _ (by omega)]
      simp
  rw [pow_one, htop] at hshift
  rw [hshift, crcShift]
  cases x.msb with
  | false => simp
  | true =>
    have hsum : bitPoly (x <<< 1) + X ^ w * C (gf2 true) - bitPoly ((x <<< 1) ^^^ poly) =
        crcModulus poly := by
      have hone : C (gf2 true) = (1 : (ZMod 2)[X]) := rfl
      rw [bitPoly_xor, hone, mul_one, crcModulus, ← CharTwo.sub_eq_add (X ^ w) (bitPoly poly)]
      ring
    simp only [if_true]
    exact hsum.symm.dvd

theorem crcModulus_dvd_iterate_crcShift (x : BitVec w) (hw : 0 < w) (k : Nat) :
    crcModulus poly ∣ X ^ k * bitPoly x - bitPoly ((crcShift poly)^[k] x) := by
  induction k with
  | zero => simp
  | succ k ih =>
    rw [iterate_succ_apply']
    have hstep := crcModulus_dvd_crcShift poly ((crcShift poly)^[k] x) hw
    have hsplit : X ^ (k + 1) * bitPoly x - bitPoly (crcShift poly ((crcShift poly)^[k] x)) =
        X * (X ^ k * bitPoly x - bitPoly ((crcShift poly)^[k] x)) +
          (X * bitPoly ((crcShift poly)^[k] x) - bitPoly
            (crcShift poly ((crcShift poly)^[k] x))) := by
      ring
    rw [hsplit]
    exact dvd_add (ih.mul_left X) hstep

variable {poly}

theorem bitPoly_eq_of_crcModulus_dvd {g m : (ZMod 2)[X]} {x : BitVec w} (hn : n ≤ w)
    (hg : crcModulus poly = X ^ (w - n) * g) (hx : crcModulus poly ∣ m * X ^ w - bitPoly x) :
    bitPoly x = X ^ (w - n) * ((m * X ^ n) %ₘ g) := by
  have hmonic : g.Monic := (monic_X_pow (w - n)).of_mul_monic_left (hg ▸ crcModulus_monic poly)
  have hdegree : g.natDegree = n := by
    have := natDegree_crcModulus poly
    rw [hg, (monic_X_pow (w - n)).natDegree_mul hmonic, natDegree_X_pow] at this
    omega
  have hmod : (m * X ^ w) %ₘ crcModulus poly = bitPoly x := by
    obtain ⟨q, hq⟩ := hx
    refine (div_modByMonic_unique q _ (crcModulus_monic poly) ⟨by rw [← hq]; ring, ?_⟩).2
    rw [degree_eq_natDegree (crcModulus_monic poly).ne_zero, natDegree_crcModulus]
    exact degree_bitPoly_lt x
  have hrest : ((m * X ^ n) %ₘ g).degree < n := by
    rw [← hdegree, ← degree_eq_natDegree hmonic.ne_zero]
    exact degree_modByMonic_lt _ hmonic
  rw [← hmod]
  refine (div_modByMonic_unique ((m * X ^ n) /ₘ g) _ (crcModulus_monic poly) ⟨?_, ?_⟩).2
  · calc X ^ (w - n) * ((m * X ^ n) %ₘ g) + crcModulus poly * ((m * X ^ n) /ₘ g)
        = X ^ (w - n) * ((m * X ^ n) %ₘ g + g * ((m * X ^ n) /ₘ g)) := by rw [hg]; ring
      _ = X ^ (w - n) * (m * X ^ n) := by rw [modByMonic_add_div]
      _ = m * X ^ w := by rw [mul_left_comm, ← pow_add, Nat.sub_add_cancel hn]
  · rw [degree_eq_natDegree (crcModulus_monic poly).ne_zero, natDegree_crcModulus,
      degree_lt_iff_coeff_zero]
    intro j hj
    rw [coeff_X_pow_mul', if_pos (by omega)]
    exact (degree_lt_iff_coeff_zero _ _).mp hrest _ (by omega)

end Register

end OpenAir

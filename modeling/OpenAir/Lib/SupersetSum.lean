import Mathlib

/-! The sum of a function over all numbers whose set bits include those of a given one, computed in
place by one stage of butterflies for each bit. -/

namespace OpenAir

open Finset

/-- The set bits of `j` are set in `i`. -/
def BitSubset (j i : Nat) : Prop := j &&& i = j

instance (j i : Nat) : Decidable (BitSubset j i) := inferInstanceAs (Decidable (_ = _))

section

variable {i j k h n : Nat}

theorem bitSubset_iff : BitSubset j i ↔ ∀ t, j.testBit t → i.testBit t := by
  constructor
  · intro hsub t ht
    rw [BitSubset] at hsub
    rw [← hsub, Nat.testBit_and, Bool.and_eq_true] at ht
    exact ht.2
  · intro hsub
    refine Nat.eq_of_testBit_eq fun t => ?_
    rw [Nat.testBit_and]
    cases hj : j.testBit t with
    | false => rfl
    | true => rw [hsub t hj]; rfl

theorem BitSubset.refl (i : Nat) : BitSubset i i := Nat.and_self i

theorem BitSubset.le (hsub : BitSubset j i) : j ≤ i := hsub ▸ Nat.and_le_right

theorem bitSubset_two_pow_mul_add (hj : j < 2 ^ n) (hi : i < 2 ^ n) :
    BitSubset (2 ^ n * h + j) (2 ^ n * k + i) ↔ BitSubset h k ∧ BitSubset j i := by
  simp only [bitSubset_iff, Nat.testBit_two_pow_mul_add _ hj, Nat.testBit_two_pow_mul_add _ hi]
  constructor
  · intro hall
    refine ⟨fun t ht => ?_, fun t ht => ?_⟩
    · have := hall (n + t)
      simp only [Nat.not_lt.mpr (Nat.le_add_right n t), if_false, Nat.add_sub_cancel_left] at this
      exact this ht
    · have htn : t < n := by
        by_contra hle
        rw [Nat.testBit_lt_two_pow
          (hj.trans_le (Nat.pow_le_pow_right (by decide) (Nat.not_lt.mp hle)))] at ht
        cases ht
      have := hall t
      simp only [htn, if_true] at this
      exact this ht
  · rintro ⟨hhigh, hlow⟩ t
    split
    · exact hlow t
    · exact hhigh (t - n)

theorem add_two_pow_lt (hj : j < 2 ^ n) (hk : k < n) (hbit : j.testBit k = false) :
    j + 2 ^ k < 2 ^ n := by
  rw [Nat.testBit_eq_decide_div_mod_eq, decide_eq_false_iff_not] at hbit
  obtain ⟨d, rfl⟩ := Nat.exists_eq_add_of_lt hk
  have hpow : 2 ^ (k + d + 1) = 2 ^ k * (2 * 2 ^ d) := by ring
  rw [hpow] at hj ⊢
  have hquot : j / 2 ^ k + 2 ≤ 2 * 2 ^ d := by
    have := Nat.div_lt_of_lt_mul hj
    omega
  calc j + 2 ^ k = 2 ^ k * (j / 2 ^ k) + j % 2 ^ k + 2 ^ k := by rw [Nat.div_add_mod]
    _ < 2 ^ k * (j / 2 ^ k) + 2 ^ k + 2 ^ k := by have := Nat.mod_lt j (Nat.two_pow_pos k); omega
    _ = 2 ^ k * (j / 2 ^ k + 2) := by ring
    _ ≤ 2 ^ k * (2 * 2 ^ d) := Nat.mul_le_mul_left _ hquot

end

section

variable {R : Type*} [AddCommMonoid R]

def butterfly (s : Nat) (f : Nat → R) (p : Nat) : R :=
  if p.testBit s then f p else f p + f (p + 2 ^ s)

def butterflies : Nat → (Nat → R) → Nat → R
  | 0, f => f
  | n + 1, f => butterfly n (butterflies n f)

/-- The sum over the numbers of `n` bits that include `p`, in the block `b` of `2 ^ n` numbers. -/
def supersetSum (n : Nat) (f : Nat → R) (b p : Nat) : R :=
  ∑ i ∈ range (2 ^ n), if BitSubset p i then f (2 ^ n * b + i) else 0

variable {f g : Nat → R} {n b p s : Nat}

theorem butterfly_congr (hfg : ∀ q < 2 ^ n, f q = g q) (hs : s < n) (hp : p < 2 ^ n) :
    butterfly s f p = butterfly s g p := by
  unfold butterfly
  cases hbit : p.testBit s with
  | true => exact hfg p hp
  | false =>
    simp only [Bool.false_eq_true, if_false]
    rw [hfg p hp, hfg _ (add_two_pow_lt hp hs hbit)]

theorem supersetSum_half {h : Nat} (hp : p < 2 ^ n) (k : Nat) :
    (∑ i ∈ range (2 ^ n),
      if BitSubset (2 ^ n * h + p) (2 ^ n * k + i) then f (2 ^ (n + 1) * b + (2 ^ n * k + i))
      else 0) =
      if BitSubset h k then supersetSum n f (2 * b + k) p else 0 := by
  by_cases hk : BitSubset h k
  · rw [if_pos hk, supersetSum]
    refine sum_congr rfl fun i hi => ?_
    have hplace : 2 ^ (n + 1) * b + (2 ^ n * k + i) = 2 ^ n * (2 * b + k) + i := by ring
    simp only [bitSubset_two_pow_mul_add hp (mem_range.mp hi), hk, true_and, hplace]
  · rw [if_neg hk]
    refine sum_eq_zero fun i hi => if_neg ?_
    rw [bitSubset_two_pow_mul_add hp (mem_range.mp hi)]
    exact fun hsub => hk hsub.1

theorem supersetSum_succ {h : Nat} (hp : p < 2 ^ n) :
    supersetSum (n + 1) f b (2 ^ n * h + p) =
      (if BitSubset h 0 then supersetSum n f (2 * b) p else 0) +
        (if BitSubset h 1 then supersetSum n f (2 * b + 1) p else 0) := by
  have hrange : range (2 ^ (n + 1)) = range (2 ^ n + 2 ^ n) := by rw [Nat.pow_succ, Nat.mul_two]
  rw [supersetSum, hrange, sum_range_add]
  congr 1
  · simpa using supersetSum_half (f := f) (b := b) (h := h) hp 0
  · simpa using supersetSum_half (f := f) (b := b) (h := h) hp 1

theorem butterflies_eq_supersetSum (hp : p < 2 ^ n) :
    butterflies n f (2 ^ n * b + p) = supersetSum n f b p := by
  induction n generalizing b p with
  | zero =>
    obtain rfl : p = 0 := by omega
    simp [butterflies, supersetSum, BitSubset]
  | succ n ih =>
    -- the top bit `h` of `p` decides between the two kinds of butterfly outputs
    obtain ⟨h, q, hq, hh, rfl⟩ : ∃ h q, q < 2 ^ n ∧ h < 2 ∧ p = 2 ^ n * h + q :=
      ⟨p / 2 ^ n, p % 2 ^ n, Nat.mod_lt _ (Nat.two_pow_pos n),
        Nat.div_lt_of_lt_mul (by rwa [Nat.pow_succ] at hp), (Nat.div_add_mod p (2 ^ n)).symm⟩
    have hplace : 2 ^ (n + 1) * b + (2 ^ n * h + q) = 2 ^ n * (2 * b + h) + q := by ring
    have hbit : (2 ^ n * (2 * b + h) + q).testBit n = decide (h = 1) := by
      rw [Nat.testBit_two_pow_mul_add _ hq, if_neg (lt_irrefl n), Nat.sub_self, Nat.testBit_zero]
      congr 1
      rw [eq_iff_iff]
      omega
    rw [hplace, butterflies, butterfly, hbit, supersetSum_succ hq]
    obtain rfl | rfl : h = 0 ∨ h = 1 := by omega
    · have hnext : 2 ^ n * (2 * b + 0) + q + 2 ^ n = 2 ^ n * (2 * b + 1) + q := by ring
      rw [hnext, ih hq, ih hq]
      simp [BitSubset]
    · rw [ih hq]
      simp [BitSubset]

end

end OpenAir

import Mathlib
import OpenAir.Lib.Rounding

namespace OpenAir.Phy

/-- `nr_polar_output_length`.  The comparison with `9.0 / 8 * pow(2, ceil_log2_u32(E) - 1)` and the
logarithm of `8 K` are exact in `double`; `K / E` is a division of integers. -/
def nrPolarOutputLength (k e nMax : Nat) : Nat :=
  let n1 := if 16 * e ≤ 9 * 2 ^ ceilLog2U32 e ∧ 16 * (k / e) < 9 then
    ceilLog2U32 e - 1 else ceilLog2U32 e
  let n2 := ceilLog2U32 (8 * k)
  let nMin := 5
  let n := nMax
  let n := if n > n1 then n1 else n
  let n := if n > n2 then n2 else n
  let n := if n < nMin then nMin else n
  2 ^ n

def ShortLowRate (k e : Nat) : Prop :=
  (e : ℚ) ≤ 9 / 8 * 2 ^ (Nat.clog 2 e - 1) ∧ (k : ℚ) / e < 9 / 16

instance (k e : Nat) : Decidable (ShortLowRate k e) := inferInstanceAs (Decidable (_ ∧ _))

/-- The length of the polar code in section 5.3.1 of 38.212. -/
def polarCodeLength (k e nMax : Nat) : Nat :=
  let n1 := if ShortLowRate k e then Nat.clog 2 e - 1 else Nat.clog 2 e
  2 ^ max 5 (min (min n1 (Nat.clog 2 (8 * k))) nMax)

def RateTruncated (k e nMax : Nat) : Prop :=
  16 * e ≤ 9 * 2 ^ ceilLog2U32 e ∧ 9 * e ≤ 16 * k ∧ k < e ∧ 6 ≤ ceilLog2U32 e ∧ ceilLog2U32 e ≤ nMax

instance (k e nMax : Nat) :
    Decidable (RateTruncated k e nMax) := inferInstanceAs (Decidable (_ ∧ _))

section

variable {k e nMax : Nat}

theorem ceilLog2U32_eq_clog (n : Nat) : ceilLog2U32 n = Nat.clog 2 n :=
  le_antisymm (ceilLog2U32_le (Nat.le_pow_clog Nat.one_lt_two n))
    (Nat.clog_le_of_le_pow (le_two_pow_ceilLog2U32 n))

theorem two_le_ceilLog2U32 (he : 3 ≤ e) : 2 ≤ ceilLog2U32 e := by
  by_contra h
  have hpow : 2 ^ ceilLog2U32 e ≤ 2 ^ 1 := Nat.pow_le_pow_right (by decide) (by omega)
  have := le_two_pow_ceilLog2U32 e
  omega

theorem shortLowRate_iff (he : 3 ≤ e) :
    ShortLowRate k e ↔ 16 * e ≤ 9 * 2 ^ ceilLog2U32 e ∧ 16 * k < 9 * e := by
  obtain ⟨c, hc⟩ : ∃ c, ceilLog2U32 e = c + 1 :=
    ⟨ceilLog2U32 e - 1, by have := two_le_ceilLog2U32 he; omega⟩
  have hpos : (0 : ℚ) < e := by exact_mod_cast (by omega : 0 < e)
  rw [ShortLowRate, ← ceilLog2U32_eq_clog, hc, Nat.add_sub_cancel,
    div_lt_div_iff₀ hpos (by norm_num)]
  refine and_congr ?_ ?_
  · rw [← Nat.cast_le (α := ℚ)]
    push_cast
    constructor <;> intro h <;> linarith [pow_succ (2 : ℚ) c]
  · rw [← Nat.cast_lt (α := ℚ)]
    push_cast
    constructor <;> intro h <;> linarith

theorem nrPolarOutputLength_eq (he : 0 < e) :
    nrPolarOutputLength k e nMax = 2 ^ max 5 (min (min
      (if 16 * e ≤ 9 * 2 ^ ceilLog2U32 e ∧ k < e then ceilLog2U32 e - 1 else ceilLog2U32 e)
      (ceilLog2U32 (8 * k))) nMax) := by
  have hquot : 16 * (k / e) < 9 ↔ k < e := by
    rw [← Nat.div_eq_zero_iff_lt he]
    omega
  simp only [nrPolarOutputLength, hquot]
  generalize (if 16 * e ≤ 9 * 2 ^ ceilLog2U32 e ∧ k < e then ceilLog2U32 e - 1
    else ceilLog2U32 e) = n1
  congr 1
  split_ifs <;> omega

theorem polarCodeLength_eq (he : 3 ≤ e) :
    polarCodeLength k e nMax = 2 ^ max 5 (min (min
      (if 16 * e ≤ 9 * 2 ^ ceilLog2U32 e ∧ 16 * k < 9 * e then ceilLog2U32 e - 1 else ceilLog2U32 e)
      (ceilLog2U32 (8 * k))) nMax) := by
  simp only [polarCodeLength, shortLowRate_iff he, ceilLog2U32_eq_clog]

theorem ceilLog2U32_le_of_rate (he : 3 ≤ e) (hrate : 9 * e ≤ 16 * k) :
    ceilLog2U32 e ≤ ceilLog2U32 (8 * k) := by
  apply ceilLog2U32_le
  have := le_two_pow_ceilLog2U32 (8 * k)
  omega

theorem le_polarCodeLength (hk : 3 ≤ k) (hke : k ≤ e) (hmax : k ≤ 2 ^ nMax) :
    k ≤ polarCodeLength k e nMax := by
  have hc := two_le_ceilLog2U32 (hk.trans hke)
  have he := le_two_pow_ceilLog2U32 e
  have h8 := le_two_pow_ceilLog2U32 (8 * k)
  have hn1 : k ≤ 2 ^ (if 16 * e ≤ 9 * 2 ^ ceilLog2U32 e ∧ 16 * k < 9 * e then ceilLog2U32 e - 1
      else ceilLog2U32 e) := by
    split <;> rename_i h
    · have hpow : 2 ^ ceilLog2U32 e = 2 * 2 ^ (ceilLog2U32 e - 1) := by
        rw [← Nat.pow_succ', Nat.succ_eq_add_one, Nat.sub_add_cancel (by omega)]
      omega
    · omega
  rw [polarCodeLength_eq (hk.trans hke)]
  generalize (if 16 * e ≤ 9 * 2 ^ ceilLog2U32 e ∧ 16 * k < 9 * e then ceilLog2U32 e - 1
    else ceilLog2U32 e) = n1 at hn1 ⊢
  have hmin : k ≤ 2 ^ min (min n1 (ceilLog2U32 (8 * k))) nMax := by
    rcases min_choice (min n1 (ceilLog2U32 (8 * k))) nMax with h | h
    · rw [h]
      rcases min_choice n1 (ceilLog2U32 (8 * k)) with h' | h'
      · rwa [h']
      · rw [h']
        omega
    · rwa [h]
  exact hmin.trans (Nat.pow_le_pow_right (by decide) (le_max_right _ _))

theorem nrPolarOutputLength_eq_polarCodeLength_iff (hk : 3 ≤ k) (hke : k ≤ e) :
    nrPolarOutputLength k e nMax = polarCodeLength k e nMax ↔ ¬ RateTruncated k e nMax := by
  rw [nrPolarOutputLength_eq (by omega), polarCodeLength_eq (by omega),
    Nat.pow_right_inj (by decide), RateTruncated]
  have hn2 := ceilLog2U32_le_of_rate (k := k) (hk.trans hke)
  have hc := two_le_ceilLog2U32 (hk.trans hke)
  generalize ceilLog2U32 (8 * k) = n2 at *
  generalize ceilLog2U32 e = c at *
  generalize 9 * 2 ^ c = p at *
  split <;> split <;> omega

end

/-- The length is that of the standard for every rate, except that the integer division takes every
rate below 1 for a low one. -/
theorem nrPolarOutputLength_correct_iff (k e nMax : Nat) (hk : 12 ≤ k) (hke : k ≤ e) :
    (nrPolarOutputLength k e nMax = polarCodeLength k e nMax ∧
      (k ≤ 2 ^ nMax → k ≤ nrPolarOutputLength k e nMax)) ↔ ¬ RateTruncated k e nMax := by
  rw [← nrPolarOutputLength_eq_polarCodeLength_iff (by omega) hke]
  refine ⟨And.left, fun h => ⟨h, fun hmax => ?_⟩⟩
  rw [h]
  exact le_polarCodeLength (by omega) hke hmax

theorem nrPolarOutputLength_correct_iff_dci :
    nrPolarOutputLength 40 108 9 = polarCodeLength 40 108 9 ∧
      (40 ≤ 2 ^ 9 → 40 ≤ nrPolarOutputLength 40 108 9) :=
  (nrPolarOutputLength_correct_iff 40 108 9 (by decide) (by decide)).mpr (by decide)

/-- 35 bits in a code of 32. -/
theorem not_forall_nrPolarOutputLength_correct :
    ¬ ∀ k e nMax : Nat, 12 ≤ k → k ≤ e → e ≤ 8192 → nMax = 9 ∨ nMax = 10 →
      nrPolarOutputLength k e nMax = polarCodeLength k e nMax ∧
        (k ≤ 2 ^ nMax → k ≤ nrPolarOutputLength k e nMax) := by
  intro h
  have hle := (h 35 36 10 (by decide) (by decide) (by decide) (.inr rfl)).2 (by decide)
  exact absurd hle (by decide)

end OpenAir.Phy

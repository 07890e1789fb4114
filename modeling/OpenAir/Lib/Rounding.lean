import Mathlib.Algebra.BigOperators.Intervals
import Mathlib.Algebra.Group.Action.Defs
import Mathlib.Order.Monotone.Basic
import Mathlib.Algebra.Order.Ring.Nat
import Mathlib.Tactic.Ring

/-! Rounding to multiples of a power of two that grows with the number, and up to whole blocks; even
splits. -/

namespace OpenAir

structure IsRounding (round : Nat → Nat → Nat) : Prop where
  mono : ∀ n, Monotone (round n)
  pow : ∀ {n k}, n ≤ k → round n (2 ^ k) = 2 ^ k

theorem IsRounding.le_of_le {round : Nat → Nat → Nat} (h : IsRounding round)
    (level : Nat → Nat) {a b : Nat} (ha : a ≠ 0) (hab : a ≤ b)
    (hlevel : level a.log2 = level b.log2 ∨ level a.log2 ≤ b.log2 ∧ level b.log2 ≤ b.log2) :
    round (level a.log2) a ≤ round (level b.log2) b := by
  rcases hlevel with heq | ⟨hle, hle'⟩
  · rw [heq]
    exact h.mono _ hab
  · by_cases hlt : a < 2 ^ b.log2
    · calc round (level a.log2) a ≤ round (level a.log2) (2 ^ b.log2) := h.mono _ hlt.le
        _ = round (level b.log2) (2 ^ b.log2) := by rw [h.pow hle, h.pow hle']
        _ ≤ round (level b.log2) b := h.mono _ (Nat.log2_self_le (by omega))
    · have heq : a.log2 = b.log2 := by
        have hup : a.log2 < b.log2 + 1 := (Nat.log2_lt ha).mpr (hab.trans_lt Nat.lt_log2_self)
        have hdown : ¬ a.log2 < b.log2 := fun hl => hlt ((Nat.log2_lt ha).mp hl)
        omega
      rw [heq]
      exact h.mono _ hab

def roundDown (n x : Nat) : Nat := x / 2 ^ n * 2 ^ n

theorem isRounding_roundDown : IsRounding roundDown where
  mono _ _ _ h := Nat.mul_le_mul_right _ (Nat.div_le_div_right h)
  pow h := Nat.div_mul_cancel (Nat.pow_dvd_pow 2 h)

def roundNearest (n x : Nat) : Nat := (x * 2 + 2 ^ n) / (2 ^ n * 2) * 2 ^ n

theorem isRounding_roundNearest : IsRounding roundNearest where
  mono n _ _ h := Nat.mul_le_mul_right _ (Nat.div_le_div_right (by omega))
  pow {n k} h := by
    obtain ⟨j, rfl⟩ := Nat.exists_eq_add_of_le h
    have hpos : 0 < 2 ^ n := Nat.two_pow_pos n
    have hsplit : 2 ^ (n + j) * 2 + 2 ^ n = 2 ^ n * 2 * 2 ^ j + 2 ^ n := by ring
    rw [roundNearest, hsplit, Nat.mul_add_div (by omega), Nat.div_eq_of_lt (by omega), Nat.add_zero,
      Nat.pow_add, Nat.mul_comm]

def ceilDiv (a b : Nat) : Nat := (a + b - 1) / b

section Blocks

variable {a b m d x y : Nat}

theorem ceilDiv_le_iff (hb : 0 < b) : ceilDiv a b ≤ m ↔ a ≤ b * m := by
  rw [ceilDiv, ← Nat.lt_succ_iff, Nat.div_lt_iff_lt_mul hb, Nat.succ_mul, Nat.mul_comm m b]
  omega

theorem le_mul_ceilDiv (hb : 0 < b) : a ≤ b * ceilDiv a b := (ceilDiv_le_iff hb).mp le_rfl

theorem ceilDiv_mono (hb : 0 < b) (h : x ≤ y) : ceilDiv x b ≤ ceilDiv y b :=
  (ceilDiv_le_iff hb).mpr (h.trans (le_mul_ceilDiv hb))

theorem ceilDiv_pos (hb : 0 < b) (ha : 0 < a) : 0 < ceilDiv a b := by
  by_contra h
  have := le_mul_ceilDiv (a := a) hb
  rw [Nat.eq_zero_of_not_pos h, Nat.mul_zero] at this
  omega

def evenBlocks (u d x : Nat) : Nat :=
  ceilDiv x d * u * ceilDiv x (ceilDiv x d * u)

variable {u : Nat}

theorem le_evenBlocks (hu : 0 < u) (hd : 0 < d) (hx : 0 < x) : x ≤ evenBlocks u d x :=
  le_mul_ceilDiv (Nat.mul_pos (ceilDiv_pos hd hx) hu)

theorem evenBlocks_le (hu : 0 < u) (hud : u ∣ d) (hd : 0 < d) (hx : 0 < x) :
    evenBlocks u d x ≤ d * ceilDiv x d := by
  obtain ⟨q, rfl⟩ := hud
  have hpos := Nat.mul_pos (ceilDiv_pos hd hx) hu
  have hle : ceilDiv x (ceilDiv x (u * q) * u) ≤ q := by
    rw [ceilDiv_le_iff hpos]
    calc x ≤ u * q * ceilDiv x (u * q) := le_mul_ceilDiv hd
      _ = ceilDiv x (u * q) * u * q := by ring
  calc evenBlocks u (u * q) x ≤ ceilDiv x (u * q) * u * q := Nat.mul_le_mul_left _ hle
    _ = u * q * ceilDiv x (u * q) := by ring

theorem evenBlocks_mono (hu : 0 < u) (hud : u ∣ d) (hd : 0 < d) (hx : 0 < x) (h : x ≤ y) :
    evenBlocks u d x ≤ evenBlocks u d y := by
  rcases Nat.lt_or_eq_of_le (ceilDiv_mono hd h) with hlt | heq
  · -- one block more: what was there fits into the blocks of before
    calc evenBlocks u d x ≤ d * ceilDiv x d := evenBlocks_le hu hud hd hx
      _ ≤ y := by
        by_contra hy
        have hle : ceilDiv y d ≤ ceilDiv x d := (ceilDiv_le_iff hd).mpr (by omega)
        omega
      _ ≤ evenBlocks u d y := le_evenBlocks hu hd (by omega)
  · unfold evenBlocks
    rw [← heq]
    exact Nat.mul_le_mul_left _ (ceilDiv_mono (Nat.mul_pos (ceilDiv_pos hd hx) hu) h)

end Blocks

def evenPart (m c r : Nat) : Nat := if r < c - m % c then m / c else m / c + 1

section Parts

variable {m c r s : Nat}

theorem evenPart_mono (h : r ≤ s) : evenPart m c r ≤ evenPart m c s := by
  unfold evenPart
  split <;> split <;> omega

theorem evenPart_le_succ : evenPart m c s ≤ evenPart m c r + 1 := by
  unfold evenPart
  split <;> split <;> omega

theorem evenPart_eq_of_ne (h : evenPart m c r ≠ evenPart m c 0) (hrs : r ≤ s) :
    evenPart m c s = evenPart m c r := by
  unfold evenPart at *
  split at h <;> split at h <;> split <;> omega

theorem sum_evenPart (hc : 0 < c) : ∑ r ∈ Finset.range c, evenPart m c r = m := by
  have hpart : ∀ r, evenPart m c r = m / c + if c - m % c ≤ r then 1 else 0 := by
    intro r
    unfold evenPart
    split <;> split <;> omega
  have hlong : {r ∈ Finset.range c | c - m % c ≤ r} = Finset.Ico (c - m % c) c := by
    ext r
    simp only [Finset.mem_filter, Finset.mem_range, Finset.mem_Ico]
    omega
  have hmod : m % c < c := Nat.mod_lt m hc
  simp only [hpart, Finset.sum_add_distrib, Finset.sum_const, Finset.card_range, smul_eq_mul]
  rw [← Finset.card_filter, hlong, Nat.card_Ico, Nat.sub_sub_self hmod.le, Nat.div_add_mod]

theorem evenPart_last (hc : 0 < c) : evenPart m c (c - 1) = ceilDiv m c := by
  have hmod : m % c < c := Nat.mod_lt m hc
  have hdiv : m = c * (m / c) + m % c := (Nat.div_add_mod m c).symm
  have hceil : ceilDiv m c = m / c + (m % c + c - 1) / c := by
    conv_lhs => rw [ceilDiv, hdiv]
    rw [Nat.add_assoc, Nat.add_sub_assoc (by omega), Nat.mul_add_div hc]
  rw [hceil, evenPart]
  split
  · have hshort : (m % c + c - 1) / c = 0 := Nat.div_eq_of_lt (by omega)
    rw [hshort, Nat.add_zero]
  · have hlong : (m % c + c - 1) / c = 1 := Nat.div_eq_of_lt_le (by omega) (by omega)
    rw [hlong]

end Parts

def ceilLog2U32 (n : Nat) : Nat := if n ≤ 1 then 0 else Nat.log2 (n - 1) + 1

theorem le_two_pow_ceilLog2U32 (n : Nat) : n ≤ 2 ^ ceilLog2U32 n := by
  unfold ceilLog2U32
  split
  · simpa using ‹n ≤ 1›
  · have := Nat.lt_log2_self (n := n - 1)
    omega

theorem ceilLog2U32_le {n k : Nat} (h : n ≤ 2 ^ k) : ceilLog2U32 n ≤ k := by
  unfold ceilLog2U32
  split
  · exact Nat.zero_le k
  · have := (Nat.log2_lt (by omega)).mpr (show n - 1 < 2 ^ k by omega)
    omega

end OpenAir

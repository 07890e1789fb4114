import Mathlib.Algebra.Ring.Int.Parity
import Mathlib.Tactic.Linarith
import OpenAir.Lib.Rounding

namespace OpenAir.Mac

def nrRiv2Bw (locationAndBandwidth nRb : Int) : Int :=
  let tmp := locationAndBandwidth.tdiv nRb
  let tmp2 := locationAndBandwidth.tmod nRb
  if tmp ≤ nRb / 2 + 1 ∧ tmp + tmp2 < nRb then tmp + 1 else nRb + 1 - tmp

def nrRiv2PrbOffset (locationAndBandwidth nRb : Int) : Int :=
  let tmp := locationAndBandwidth.tdiv nRb
  let tmp2 := locationAndBandwidth.tmod nRb
  if tmp ≤ nRb / 2 + 1 ∧ tmp + tmp2 < nRb then tmp2 else nRb - 1 - tmp2

/-- `PRBalloc_to_locationandbandwidth0`; nothing where it asserts. -/
def prbAllocToLocationAndBandwidth0 (nPrb rbStart bwpSize : Int) : Option Int :=
  if nPrb > 0 ∧ nPrb + rbStart ≤ bwpSize then
    if nPrb ≤ 1 + bwpSize / 2 then some (bwpSize * (nPrb - 1) + rbStart)
    else some (bwpSize * (bwpSize + 1 - nPrb) + (bwpSize - 1 - rbStart))
  else none

/-- A contiguous allocation in a bandwidth part of `n` resource blocks. -/
@[ext] structure Allocation (n : Int) where
  nPrb : Int
  rbStart : Int
  nPrb_pos : 1 ≤ nPrb
  rbStart_nonneg : 0 ≤ rbStart
  fits : nPrb + rbStart ≤ n

section

variable {n t r : Int}

theorem mul_add_lt_triangle_iff (hr : 0 ≤ r) (hrn : r < n) :
    n * t + r < n * (n + 1) / 2 ↔ 2 * t < n ∨ 2 * t = n ∧ 2 * r < n := by
  have htwice : n * (n + 1) / 2 * 2 = n * (n + 1) :=
    Int.ediv_two_mul_two_of_even (Int.even_mul_succ_self n)
  have hlt : n * t + r < n * (n + 1) / 2 ↔ n * (2 * t) + 2 * r < n * n + n := by
    constructor <;> intro h <;> linarith only [h, htwice]
  rw [hlt]
  rcases lt_trichotomy (2 * t) n with h | h | h
  · have hrow : n * (2 * t) ≤ n * (n - 1) := mul_le_mul_of_nonneg_left (by omega) (by omega)
    exact iff_of_true (by linarith only [hrow, hrn]) (.inl h)
  · rw [h]
    omega
  · have hrow : n * (n + 1) ≤ n * (2 * t) := mul_le_mul_of_nonneg_left (by omega) (by omega)
    refine iff_of_false ?_ (by omega)
    linarith only [hrow, hr]

theorem tdiv_mul_add (ht : 0 ≤ t) (hr : 0 ≤ r) (hrn : r < n) : (n * t + r).tdiv n = t := by
  have hnonneg : 0 ≤ n * t := mul_nonneg (by omega) ht
  rw [Int.tdiv_eq_ediv_of_nonneg (by omega), Int.mul_add_ediv_left _ _ (by omega),
    Int.ediv_eq_zero_of_lt hr hrn, Int.add_zero]

theorem tmod_mul_add (ht : 0 ≤ t) (hr : 0 ≤ r) (hrn : r < n) : (n * t + r).tmod n = r := by
  have hnonneg : 0 ≤ n * t := mul_nonneg (by omega) ht
  rw [Int.tmod_eq_emod_of_nonneg (by omega), Int.mul_add_emod_self_left, Int.emod_eq_of_lt hr hrn]

end

namespace Allocation

variable {n : Int}

def cell (a : Allocation n) : Int × Int :=
  if a.nPrb ≤ 1 + n / 2 then (a.nPrb - 1, a.rbStart) else (n + 1 - a.nPrb, n - 1 - a.rbStart)

def riv (a : Allocation n) : Int := n * a.cell.1 + a.cell.2

theorem prbAlloc_eq_riv (a : Allocation n) :
    prbAllocToLocationAndBandwidth0 a.nPrb a.rbStart n = some a.riv := by
  have hlegal : a.nPrb > 0 ∧ a.nPrb + a.rbStart ≤ n := ⟨a.nPrb_pos, a.fits⟩
  rw [prbAllocToLocationAndBandwidth0, if_pos hlegal, riv, cell]
  split <;> rfl

theorem cell_bounds (a : Allocation n) : 0 ≤ a.cell.1 ∧ 0 ≤ a.cell.2 ∧ a.cell.2 < n := by
  have := a.nPrb_pos
  have := a.rbStart_nonneg
  have := a.fits
  rw [cell]
  split <;> dsimp only <;> omega

theorem riv_tdiv (a : Allocation n) : a.riv.tdiv n = a.cell.1 :=
  tdiv_mul_add a.cell_bounds.1 a.cell_bounds.2.1 a.cell_bounds.2.2

theorem riv_tmod (a : Allocation n) : a.riv.tmod n = a.cell.2 :=
  tmod_mul_add a.cell_bounds.1 a.cell_bounds.2.1 a.cell_bounds.2.2

theorem riv_nonneg (a : Allocation n) : 0 ≤ a.riv := by
  obtain ⟨hrow, hplace, hlt⟩ := a.cell_bounds
  exact add_nonneg (mul_nonneg (by omega) hrow) hplace

theorem riv_lt (a : Allocation n) : a.riv < n * (n + 1) / 2 := by
  rw [riv, mul_add_lt_triangle_iff a.cell_bounds.2.1 a.cell_bounds.2.2]
  have := a.fits
  rw [cell]
  split <;> dsimp only <;> omega

theorem nrRiv2Bw_riv (a : Allocation n) : nrRiv2Bw a.riv n = a.nPrb := by
  have := a.fits
  rw [nrRiv2Bw, riv_tdiv, riv_tmod, cell]
  split <;> dsimp only <;> split <;> omega

theorem nrRiv2PrbOffset_riv (a : Allocation n) : nrRiv2PrbOffset a.riv n = a.rbStart := by
  have := a.fits
  rw [nrRiv2PrbOffset, riv_tdiv, riv_tmod, cell]
  split <;> dsimp only <;> split <;> omega

theorem riv_injective {a b : Allocation n} (h : a.riv = b.riv) : a = b := by
  apply Allocation.ext
  · rw [← a.nrRiv2Bw_riv, h, b.nrRiv2Bw_riv]
  · rw [← a.nrRiv2PrbOffset_riv, h, b.nrRiv2PrbOffset_riv]

theorem exists_cell_eq {t r : Int} (ht : 0 ≤ t) (hr : 0 ≤ r) (hrn : r < n)
    (hhalf : 2 * t < n ∨ 2 * t = n ∧ 2 * r < n) : ∃ a : Allocation n, a.cell = (t, r) := by
  by_cases hshort : t + r < n
  · refine ⟨⟨t + 1, r, by omega, hr, by omega⟩, ?_⟩
    rw [cell, if_pos (by dsimp only; omega)]
    simp
  · refine ⟨⟨n + 1 - t, n - 1 - r, by omega, by omega, by omega⟩, ?_⟩
    rw [cell, if_neg (by dsimp only; omega)]
    simp

theorem exists_riv_eq {v : Int} (hv : 0 ≤ v) (hlt : v < n * (n + 1) / 2) (hn : 0 < n) :
    ∃ a : Allocation n, a.riv = v := by
  have hsplit : n * (v / n) + v % n = v := Int.mul_ediv_add_emod v n
  have hplace := Int.emod_nonneg v hn.ne'
  have hplace' := Int.emod_lt_of_pos v hn
  rw [← hsplit, mul_add_lt_triangle_iff hplace hplace'] at hlt
  obtain ⟨a, ha⟩ := exists_cell_eq (Int.ediv_nonneg hv hn.le) hplace hplace' hlt
  exact ⟨a, by rw [riv, ha, hsplit]⟩

end Allocation

/-- The resource indication values number the allocations of a bandwidth part.  An `int`
of the code holds them, and the products they are sums of, as long as `n` is below 65536; a
bandwidth part has at most 275 blocks. -/
theorem prbAlloc_numbers_allocations (n : Nat) :
    (∀ a : Allocation n, ∃ riv : Nat,
      prbAllocToLocationAndBandwidth0 a.nPrb a.rbStart n = some (riv : Int) ∧
      riv < n * (n + 1) / 2 ∧ riv < 2 ^ ceilLog2U32 (n * (n + 1) / 2) ∧
      nrRiv2Bw riv n = a.nPrb ∧ nrRiv2PrbOffset riv n = a.rbStart) ∧
    ∀ riv : Fin (n * (n + 1) / 2), ∃! a : Allocation n,
      prbAllocToLocationAndBandwidth0 a.nPrb a.rbStart n = some (riv.val : Int) := by
  have hcast : ((n * (n + 1) / 2 : Nat) : Int) = (n : Int) * (n + 1) / 2 := by push_cast; rfl
  constructor
  · intro a
    obtain ⟨riv, hriv⟩ := Int.eq_ofNat_of_zero_le a.riv_nonneg
    have hlt : riv < n * (n + 1) / 2 := by
      have := a.riv_lt
      rw [hriv, ← hcast] at this
      exact Int.ofNat_lt.mp this
    refine ⟨riv, hriv ▸ a.prbAlloc_eq_riv, hlt, hlt.trans_le (le_two_pow_ceilLog2U32 _),
      hriv ▸ a.nrRiv2Bw_riv, hriv ▸ a.nrRiv2PrbOffset_riv⟩
  · intro riv
    have hpos : 0 < n := by
      rcases Nat.eq_zero_or_pos n with rfl | h
      · exact riv.elim0
      · exact h
    have hlt : (riv.val : Int) < (n : Int) * (n + 1) / 2 := hcast ▸ Int.ofNat_lt.mpr riv.isLt
    obtain ⟨a, ha⟩ := Allocation.exists_riv_eq (Int.natCast_nonneg _) hlt (Int.ofNat_lt.mpr hpos)
    refine ⟨a, ha ▸ a.prbAlloc_eq_riv, fun b hb => ?_⟩
    have hriv : b.riv = riv.val := Option.some.inj (b.prbAlloc_eq_riv.symm.trans hb)
    exact Allocation.riv_injective (hriv.trans ha.symm)

end OpenAir.Mac

import Mathlib.Algebra.BigOperators.Fin
import Mathlib.Algebra.Order.BigOperators.Group.Finset
import OpenAir.Mac.Bsr

namespace OpenAir.Mac

open Function Finset

def lcgs (bsr : Nat → Byte) : List Nat := (List.range 8).filter fun n => (bsr 0).getLsbD n

theorem length_lcgs_le (bsr : Nat → Byte) : (lcgs bsr).length ≤ 8 :=
  (List.length_filter_le _ _).trans_eq List.length_range

theorem lcgEntries_eq (bsr : Nat → Byte) :
    lcgEntries bsr = (lcgs bsr).zipIdx.map fun x => (x.1, bsr (1 + x.2)) := rfl

def longBsrLen (bsr : Nat → Byte) : Nat := 1 + (lcgs bsr).length

theorem lcgEntries_congr {bsr bsr' : Nat → Byte} (h : ∀ i < longBsrLen bsr, bsr' i = bsr i) :
    lcgEntries bsr' = lcgEntries bsr := by
  have h₀ : lcgs bsr' = lcgs bsr := by rw [lcgs, lcgs, h 0 (by unfold longBsrLen; omega)]
  rw [lcgEntries_eq, lcgEntries_eq, h₀]
  refine List.map_congr_left fun x hx => ?_
  have := List.snd_lt_of_mem_zipIdx hx
  rw [h (1 + x.2) (by unfold longBsrLen; omega)]

/-- What an index adds to the estimate.  The last value of the table is -1 as an `int`. -/
def indexValue (idx : Byte) : Int :=
  toInt32 (getLongBsrValue (min (overestimBsrIndex idx.toNat) 255))

theorem indexValue_bounds (idx : Byte) : -1 ≤ indexValue idx ∧ indexValue idx ≤ 162676736 := by
  have h : ∀ i < 256, -1 ≤ toInt32 (getLongBsrValue (min (overestimBsrIndex i) 255)) ∧
      toInt32 (getLongBsrValue (min (overestimBsrIndex i) 255)) ≤ 162676736 := by decide +kernel
  exact h _ idx.isLt

theorem toInt32_add (x : Int) (n : Nat) (h : -2 ^ 31 ≤ x + toInt32 n ∧ x + toInt32 n < 2 ^ 31) :
    toInt32 (x + n) = x + toInt32 n := by
  unfold toInt32 at *
  omega

theorem foldl_estimate (entries : List (Nat × Byte)) (acc : Int) (k : Nat)
    (hk : k + entries.length ≤ 8) (hacc : -k ≤ acc ∧ acc ≤ k * 162676736) :
    entries.foldl (fun estimSize x =>
      toInt32 (estimSize + getLongBsrValue (min (overestimBsrIndex x.2.toNat) 255))) acc =
      acc + (entries.map fun x => indexValue x.2).sum := by
  induction entries generalizing acc k with
  | nil => simp
  | cons x entries ih =>
    have hx := indexValue_bounds x.2
    rw [List.length_cons] at hk
    have hadd : toInt32 (acc + getLongBsrValue (min (overestimBsrIndex x.2.toNat) 255)) =
        acc + indexValue x.2 := by
      rw [indexValue] at hx ⊢
      exact toInt32_add _ _ (by omega)
    rw [List.foldl_cons, hadd, ih _ (k + 1) (by omega) (by push_cast; omega), List.map_cons,
      List.sum_cons]
    ring

theorem sum_zipIdx (l : List Nat) (f : Nat → Int) :
    (l.zipIdx.map fun x => f x.2).sum = ∑ t ∈ range l.length, f t := by
  have h : (l.zipIdx.map fun x => f x.2) = (List.range l.length).map f := by
    rw [List.range_eq_range', ← List.zipIdx_map_snd 0 l, List.map_map]
    rfl
  rw [h]
  rfl

theorem estimate_eq_sum (bsr : Nat → Byte) : estimateUlBufferLongBsr (lcgEntries bsr) =
    ∑ t ∈ range (lcgs bsr).length, indexValue (bsr (1 + t)) := by
  have hlen : (lcgEntries bsr).length = (lcgs bsr).length := by
    rw [lcgEntries_eq, List.length_map, List.length_zipIdx]
  have hle := length_lcgs_le bsr
  rw [estimateUlBufferLongBsr, foldl_estimate (lcgEntries bsr) 0 0 (by omega) (by simp), zero_add,
    lcgEntries_eq, List.map_map, ← sum_zipIdx]
  rfl

theorem estimate_update {bsr : Nat → Byte} {t : Nat} (ht : t < (lcgs bsr).length) (a b : Byte) :
    estimateUlBufferLongBsr (lcgEntries (update bsr (1 + t) a)) =
      estimateUlBufferLongBsr (lcgEntries (update bsr (1 + t) b)) +
        (indexValue a - indexValue b) := by
  have hl : ∀ c, lcgs (update bsr (1 + t) c) = lcgs bsr := by
    intro c
    rw [lcgs, lcgs, update_of_ne (by omega)]
  have hval : ∀ c i, indexValue (update bsr (1 + t) c (1 + i)) =
      if i = t then indexValue c else indexValue (bsr (1 + i)) := by
    intro c i
    by_cases hi : i = t
    · rw [if_pos hi, hi, update_self]
    · rw [if_neg hi, update_of_ne (by omega)]
  have hmem := mem_range.mpr ht
  simp only [estimate_eq_sum, hl, hval]
  rw [← add_sum_erase _ _ hmem, ← add_sum_erase _ _ hmem, if_pos rfl, if_pos rfl]
  have hrest : ∀ c, ∑ i ∈ (range (lcgs bsr).length).erase t,
      (if i = t then indexValue c else indexValue (bsr (1 + i))) =
        ∑ i ∈ (range (lcgs bsr).length).erase t, indexValue (bsr (1 + i)) :=
    fun c => sum_congr rfl fun i hi => if_neg (ne_of_mem_erase hi)
  rw [hrest, hrest]
  ring

theorem neg_eight_le_estimate (bsr : Nat → Byte) :
    -8 ≤ estimateUlBufferLongBsr (lcgEntries bsr) := by
  rw [estimate_eq_sum]
  have hle := length_lcgs_le bsr
  have h : ∑ _t ∈ range (lcgs bsr).length, (-1 : Int) ≤
      ∑ t ∈ range (lcgs bsr).length, indexValue (bsr (1 + t)) :=
    sum_le_sum fun t _ => (indexValue_bounds _).1
  rw [sum_const, card_range] at h
  simp only [nsmul_eq_mul] at h
  omega

end OpenAir.Mac

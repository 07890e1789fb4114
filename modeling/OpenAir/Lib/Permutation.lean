import Mathlib

/-! Lists that permute an initial range. -/

namespace OpenAir

open List

theorem testBit_foldl_or (l : List Nat) (mask i : Nat) :
    (l.foldl (fun mask x => mask ||| 2 ^ x) mask).testBit i =
      (mask.testBit i || decide (i ∈ l)) := by
  induction l generalizing mask with
  | nil => simp
  | cons x l ih =>
    have hmem : decide (i ∈ x :: l) = (decide (x = i) || decide (i ∈ l)) := by
      simp [eq_comm]
    rw [foldl_cons, ih, Nat.testBit_or, Nat.testBit_two_pow, Bool.or_assoc, hmem]

variable {l : List Nat} {n : Nat}

theorem perm_range_of_subset (hlen : l.length ≤ n) (hsub : List.range n ⊆ l) :
    l.Perm (List.range n) := by
  refine ((subperm_of_subset nodup_range hsub).perm_of_length_le ?_).symm
  rwa [length_range]

theorem perm_range_of_mask (hlen : l.length ≤ n)
    (hmask : l.foldl (fun mask x => mask ||| 2 ^ x) 0 = 2 ^ n - 1) : l.Perm (List.range n) := by
  refine perm_range_of_subset hlen fun i hi => ?_
  have hbit := testBit_foldl_or l 0 i
  rw [hmask, Nat.testBit_two_pow_sub_one, decide_eq_true (mem_range.mp hi), Nat.zero_testBit,
    Bool.false_or] at hbit
  exact of_decide_eq_true hbit.symm

theorem perm_range_of_injOn {f : Nat → Nat} (hinj : ∀ a < n, ∀ b < n, f a = f b → a = b)
    (hlt : ∀ a < n, f a < n) : ((List.range n).map f).Perm (List.range n) := by
  have hnodup : ((List.range n).map f).Nodup := by
    refine List.Nodup.map_on (fun a ha b hb => ?_) nodup_range
    exact hinj a (mem_range.mp ha) b (mem_range.mp hb)
  refine (subperm_of_subset hnodup fun i hi => ?_).perm_of_length_le (by simp)
  obtain ⟨a, ha, rfl⟩ := mem_map.mp hi
  exact mem_range.mpr (hlt a (mem_range.mp ha))

theorem filter_not_mem_drop {α : Type*} [DecidableEq α] {l : List α} (hl : l.Nodup) (e : Nat) :
    (l.filter fun i => !(l.drop e).contains i) = l.take e := by
  have hdisjoint : List.Disjoint (l.take e) (l.drop e) := by
    rw [← take_append_drop e l] at hl
    exact (nodup_append'.mp hl).2.2
  have hkept : ((l.take e).filter fun i => !(l.drop e).contains i) = l.take e := by
    refine filter_eq_self.mpr fun i hi => ?_
    simpa using hdisjoint hi
  have hgone : ((l.drop e).filter fun i => !(l.drop e).contains i) = [] := by
    refine filter_eq_nil_iff.mpr fun i hi => ?_
    simpa using hi
  conv_lhs => rw [← take_append_drop e l]
  rw [filter_append]
  simp only [take_append_drop, hkept, hgone, append_nil]

end OpenAir

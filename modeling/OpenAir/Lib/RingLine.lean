import OpenAir.Lib.Slice

/-! Lists stored in a ring of `N` cells, each from the cell of a time on. -/

namespace OpenAir

open List

variable {α : Type*} {mem ring : Nat → α} {pos i N ts n : Nat} {l : List α}

def store (mem : Nat → α) (pos : Nat) (l : List α) : Nat → α :=
  fun i => if pos ≤ i then l[i - pos]?.getD (mem i) else mem i

theorem store_of_lt (h : i < pos) : store mem pos l i = mem i := if_neg (Nat.not_le.mpr h)

theorem store_of_le (h : pos + l.length ≤ i) : store mem pos l i = mem i := by
  rw [store, if_pos (by omega), List.getElem?_eq_none (by omega), Option.getD_none]

theorem store_add : store mem pos l (pos + i) = l[i]?.getD (mem (pos + i)) := by
  rw [store, if_pos (by omega), Nat.add_sub_cancel_left]

namespace Ring

def store (N : Nat) (ring : Nat → α) (ts : Nat) (l : List α) : Nat → α :=
  OpenAir.store (OpenAir.store ring (ts % N) (l.take (N - ts % N))) 0 (l.drop (N - ts % N))

def slice (N : Nat) (ring : Nat → α) (ts n : Nat) : List α :=
  (List.range n).map fun i => ring ((ts + i) % N)

/-- The last element of a list, not longer than two turns, that goes to a cell. -/
theorem store_cases {n p : Nat} (hp : p < N) (hn : ts % N + n ≤ 2 * N) :
    (∃ i < n, (ts + i) % N = p ∧ ∀ {α : Type} (ring : Nat → α) (l : List α), l.length = n →
      store N ring ts l p = l[i]?.getD (ring p)) ∨
    ((∀ i < n, (ts + i) % N ≠ p) ∧ ∀ {α : Type} (ring : Nat → α) (l : List α), l.length = n →
      store N ring ts l p = ring p) := by
  have hf : ts % N < N := Nat.mod_lt _ (by omega)
  by_cases hsecond : N - ts % N + p < n
  · refine .inl ⟨N - ts % N + p, hsecond, ?_, ?_⟩
    · rw [← Nat.mod_add_mod, show ts % N + (N - ts % N + p) = p + N by omega, Nat.add_mod_right,
        Nat.mod_eq_of_lt hp]
    · intro _ ring l hl
      rw [store, ← Nat.zero_add p, store_add, List.getElem?_drop, Nat.zero_add,
        List.getElem?_eq_getElem (by omega)]
      rfl
  by_cases hfirst : ts % N ≤ p ∧ p < ts % N + n
  · obtain ⟨i, rfl⟩ := Nat.exists_eq_add_of_le hfirst.1
    refine .inl ⟨i, by omega, ?_, ?_⟩
    · rw [← Nat.mod_add_mod, Nat.mod_eq_of_lt hp]
    · intro _ ring l hl
      rw [store, store_of_le (by rw [length_drop]; omega), store_add,
        List.getElem?_take_of_lt (by omega)]
  · refine .inr ⟨?_, ?_⟩
    · intro i hi
      rw [← Nat.mod_add_mod]
      rcases Nat.lt_or_ge (ts % N + i) N with hlt | hge
      · rw [Nat.mod_eq_of_lt hlt]
        omega
      · rw [Nat.mod_eq_sub_mod hge, Nat.mod_eq_of_lt (by omega)]
        omega
    · intro _ ring l hl
      rw [store, store_of_le (by rw [length_drop]; omega)]
      rcases Nat.lt_or_ge p (ts % N) with hlt | hge
      · exact store_of_lt hlt
      · exact store_of_le (by rw [length_take]; omega)

theorem store_of_fits (h : ts % N + l.length ≤ N) :
    store N ring ts l = OpenAir.store ring (ts % N) l := by
  unfold store
  rw [take_of_length_le (by omega), drop_eq_nil_of_le (by omega)]
  funext i
  rw [store_of_le (by simp)]

theorem slice_of_fits (h : ts % N + n ≤ N) : slice N ring ts n = OpenAir.slice ring (ts % N) n := by
  refine map_congr_left fun i hi => ?_
  have hi' := mem_range.mp hi
  rw [← Nat.mod_add_mod, Nat.mod_eq_of_lt (by omega)]

theorem slice_of_wraps (h : N ≤ ts % N + n) (hn : ts % N + n ≤ 2 * N) (hN : 0 < N) :
    slice N ring ts n =
      OpenAir.slice ring (ts % N) (N - ts % N) ++ OpenAir.slice ring 0 (n - (N - ts % N)) := by
  have hf : ts % N < N := Nat.mod_lt _ hN
  obtain ⟨k, hk⟩ : ∃ k, n = N - ts % N + k := Nat.exists_eq_add_of_le (by omega)
  subst hk
  rw [Nat.add_sub_cancel_left, slice, range_add, map_append, map_map]
  congr 1
  · refine map_congr_left fun i hi => ?_
    have hi' := mem_range.mp hi
    rw [← Nat.mod_add_mod, Nat.mod_eq_of_lt (by omega)]
  · refine map_congr_left fun i hi => ?_
    have hi' := mem_range.mp hi
    have hcell : (ts + (N - ts % N + i)) % N = i := by
      rw [← Nat.mod_add_mod, show ts % N + (N - ts % N + i) = N + i by omega, Nat.add_mod_left,
        Nat.mod_eq_of_lt (by omega)]
    rw [Function.comp_apply, hcell, Nat.zero_add]

end Ring

end OpenAir

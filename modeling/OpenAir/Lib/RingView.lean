import OpenAir.Lib.Cyclic

/-! The queue in a ring of `N` cells, from the cell to read next to the cell to write next. -/

namespace OpenAir.Ring

variable {α : Type*} {f g : Nat → α} {N r w : Nat}

def view (f : Nat → α) (N r w : Nat) : List α :=
  (List.range (Cyclic.dist N r w)).map fun k => f ((r + k) % N)

theorem length_view : (view f N r w).length = Cyclic.dist N r w := by simp [view]

@[simp] theorem view_self : view f N r r = [] := by simp [view]

theorem succ_mod_cases (hw : w < N) :
    w + 1 < N ∧ (w + 1) % N = w + 1 ∨ w + 1 = N ∧ (w + 1) % N = 0 := by
  rcases Nat.lt_or_eq_of_le hw with hlt | heq
  · exact .inl ⟨hlt, Nat.mod_eq_of_lt hlt⟩
  · exact .inr ⟨heq, heq ▸ Nat.mod_self _⟩

theorem dist_succ (hr : r < N) (hw : w < N) (hfull : (w + 1) % N ≠ r) :
    Cyclic.dist N r ((w + 1) % N) = Cyclic.dist N r w + 1 := by
  unfold Cyclic.dist
  rcases succ_mod_cases hw with ⟨_, hs⟩ | ⟨_, hs⟩ <;> rw [hs] at hfull ⊢
  all_goals split <;> split <;> omega

theorem dist_pred (hr : r < N) (hw : w < N) (hne : r ≠ w) :
    Cyclic.dist N r w = Cyclic.dist N ((r + 1) % N) w + 1 := by
  unfold Cyclic.dist
  rcases succ_mod_cases hr with ⟨_, hs⟩ | ⟨_, hs⟩ <;> rw [hs]
  all_goals split <;> split <;> omega

theorem length_view_of_full (hr : r < N) (hw : w < N) (hfull : (w + 1) % N = r) :
    (view f N r w).length = N - 1 := by
  rw [length_view, Cyclic.dist]
  have hs := succ_mod_cases hw
  split <;> omega

theorem view_push (hr : r < N) (hw : w < N) (hfull : (w + 1) % N ≠ r) :
    view f N r ((w + 1) % N) = view f N r w ++ [f w] := by
  rw [view, dist_succ hr hw hfull, List.range_succ, List.map_append, List.map_singleton,
    Cyclic.add_dist hr hw]
  rfl

theorem view_pop (hr : r < N) (hw : w < N) (hne : r ≠ w) :
    view f N r w = f r :: view f N ((r + 1) % N) w := by
  rw [view, dist_pred hr hw hne, List.range_succ_eq_map, List.map_cons, List.map_map, Nat.add_zero,
    Nat.mod_eq_of_lt hr, view]
  congr 1
  refine List.map_congr_left fun k _ => ?_
  rw [Function.comp_apply, Nat.mod_add_mod]
  congr 2
  omega

theorem view_congr (hr : r < N) (hw : w < N) (h : ∀ i, i ≠ w → f i = g i) :
    view f N r w = view g N r w := by
  refine List.map_congr_left fun k hk => h _ ?_
  rw [List.mem_range] at hk
  have hlt := Cyclic.dist_lt hr hw
  rw [Cyclic.add_mod_of_lt hr (by omega)]
  unfold Cyclic.dist at hk
  split at hk <;> split <;> omega

end OpenAir.Ring

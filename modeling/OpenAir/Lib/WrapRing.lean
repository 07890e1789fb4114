import Mathlib.Data.Nat.ModEq

/-! A ring of `size` entries indexed by a counter that wraps at `W`, where `size` need not
divide `W`. -/

namespace OpenAir.WrapRing

def entry (W size x : Nat) : Nat := x % W % size

theorem mod_eq_of_dvd_sub {W size d : Nat} (hd : d < size) (hW : d ≤ W) (h : size ∣ W - d) :
    W % size = d := by
  rw [← (Nat.modEq_iff_dvd' hW).mpr h]
  exact Nat.mod_eq_of_lt hd

theorem not_mod_eq_of_lt {size a b : Nat} (hab : a < b) (hb : b < a + size) :
    a % size ≠ b % size := by
  intro h
  have hd : size ∣ b - a := (Nat.modEq_iff_dvd' hab.le).mp h
  have := Nat.le_of_dvd (by omega) hd
  omega

section Window

variable {W size R : Nat}

/-- A window of `R + 1` values, and the value that is cleared when it starts, see different
entries. -/
structure Fits (W size R : Nat) : Prop where
  room : R + 1 < size
  wrap : W % size = 0 ∨ R + 1 < W % size

theorem Fits.lt_wrap (h : Fits W size R) (hW : 0 < W) : R + 1 < W := by
  rcases h.wrap with h₀ | h₀
  · have := Nat.le_of_dvd hW (Nat.dvd_of_mod_eq_zero h₀)
    have := h.room
    omega
  · exact h₀.trans_le (Nat.mod_le _ _)

theorem entry_eq {c : Nat} (hc : c < 2 * W) :
    entry W size c = (if c < W then c else c - W) % size := by
  have h : c % W = if c < W then c else c - W := by
    split
    · exact Nat.mod_eq_of_lt ‹_›
    · rw [Nat.mod_eq_sub_mod (by omega), Nat.mod_eq_of_lt (by omega)]
  rw [entry, h]

theorem Fits.entry_ne (h : Fits W size R) {c i j : Nat} (hc : c < W) (hij : i < j) (hj : j ≤ R) :
    entry W size (c + i) ≠ entry W size (c + j) := by
  have hR := h.lt_wrap (by omega)
  have hs := h.room
  rw [entry_eq (by omega), entry_eq (by omega)]
  split <;> split
  · exact not_mod_eq_of_lt (by omega) (by omega)
  · -- only the later value has wrapped: the distance would be what `W` leaves over
    intro he
    have hd : size ∣ W - (j - i) := by
      have := (Nat.modEq_iff_dvd' (by omega)).mp he.symm
      rwa [show c + i - (c + j - W) = W - (j - i) by omega] at this
    have hr := mod_eq_of_dvd_sub (by omega) (by omega) hd
    rcases h.wrap with h₀ | h₀ <;> omega
  · omega
  · exact not_mod_eq_of_lt (by omega) (by omega)

theorem Fits.entry_ne_behind (h : Fits W size R) {c j : Nat} (hc : c < W) (hj : j ≤ R) :
    entry W size (c + j) ≠ (c + size - 1) % size := by
  have hR := h.lt_wrap (by omega)
  have hs := h.room
  rw [entry_eq (by omega)]
  split
  · exact not_mod_eq_of_lt (by omega) (by omega)
  · intro he
    have hd : size ∣ W + size - (j + 1) := by
      have := (Nat.modEq_iff_dvd' (by omega)).mp he
      rwa [show c + size - 1 - (c + j - W) = W + size - (j + 1) by omega] at this
    have hd' : size ∣ W - (j + 1) := by
      rw [show W + size - (j + 1) = W - (j + 1) + size by omega] at hd
      exact (Nat.dvd_add_self_right).mp hd
    have hr := mod_eq_of_dvd_sub (by omega) (by omega) hd'
    rcases h.wrap with h₀ | h₀ <;> omega

theorem mod_of_lt_wrap {W size k : Nat} (hk : k ≤ W % size) :
    (W - k) % size = W % size - k := by
  have hle := Nat.mod_le W size
  rw [show W - k = (W % size - k) + size * (W / size) by
    have := Nat.mod_add_div W size
    omega, Nat.add_mul_mod_self_left]
  rcases Nat.eq_zero_or_pos size with rfl | hs
  · simp
  · have := Nat.mod_lt W hs
    exact Nat.mod_eq_of_lt (by omega)

theorem Fits.of_entry_ne (hW : 0 < W) (hs : 0 < size) (hR : 1 ≤ R)
    (hne : ∀ c i j, c < W → i < j → j ≤ R → entry W size (c + i) ≠ entry W size (c + j))
    (hbehind : ∀ c j, c < W → 1 ≤ j → j ≤ R → entry W size (c + j) ≠ (c + size - 1) % size) :
    Fits W size R := by
  have hRW : R < W := by
    by_contra hlt
    exact hne 0 0 W hW hW (by omega) (by simp [entry])
  have hsize : R + 1 < size := by
    by_contra hlt
    by_cases hs1 : size = 1
    · subst hs1
      exact hne 0 0 1 hW (by omega) hR (by simp [entry, Nat.mod_one])
    · refine hbehind 0 (size - 1) hW (by omega) (by omega) ?_
      rw [entry_eq (by omega), if_pos (by omega), Nat.zero_add, Nat.zero_add]
  refine ⟨hsize, ?_⟩
  by_contra hwrap
  obtain ⟨h₀, h₁⟩ := not_or.mp hwrap
  have hle := Nat.mod_le W size
  have hlast : (W - 1) % size = W % size - 1 := mod_of_lt_wrap (by omega)
  by_cases hr : W % size ≤ R
  · -- the last value before the wrap and the value `W % size` after it
    refine hne (W - 1) 0 (W % size) (by omega) (by omega) hr ?_
    have hlater : (W % size - 1) % size = W % size - 1 := Nat.mod_eq_of_lt (by omega)
    rw [entry_eq (by omega), entry_eq (by omega), if_pos (by omega), if_neg (by omega),
      Nat.add_zero, show W - 1 + W % size - W = W % size - 1 by omega, hlast, hlater]
  · refine hbehind (W - 1) R (by omega) hR (le_refl _) ?_
    have hcleared : (W - 2) % size = W % size - 2 := mod_of_lt_wrap (by omega)
    have hfar : (R - 1) % size = R - 1 := Nat.mod_eq_of_lt (by omega)
    rw [entry_eq (by omega), if_neg (by omega), show W - 1 + R - W = R - 1 by omega,
      show W - 1 + size - 1 = W - 2 + size by omega, Nat.add_mod_right, hcleared, hfar]
    omega

end Window

end OpenAir.WrapRing

import Mathlib.Data.Nat.ModEq
import Mathlib.Logic.Function.Iterate

/-! Sequence numbers modulo `M`, read from a moving base.  The unbounded number
behind a residue is recovered from any base less than `M` behind it. -/

namespace OpenAir.Cyclic

/-- How far `a` lies after `base`, for residues modulo `M`. -/
def dist (M base a : Nat) : Nat := if a < base then a + M - base else a - base

variable {M : Nat}

theorem add_mod_of_lt {r k : Nat} (hr : r < M) (hk : k < M) :
    (r + k) % M = if r + k < M then r + k else r + k - M := by
  split
  · exact Nat.mod_eq_of_lt ‹_›
  · rw [Nat.mod_eq_sub_mod (by omega), Nat.mod_eq_of_lt (by omega)]

variable {R n : Nat}

theorem dist_mod (h₀ : R ≤ n) (h₁ : n < R + M) :
    dist M (R % M) (n % M) = n - R := by
  obtain ⟨k, rfl⟩ := Nat.exists_eq_add_of_le h₀
  have hk : k < M := by omega
  have hr : R % M < M := Nat.mod_lt _ (by omega)
  have e : (R + k) % M = (R % M + k) % M := by simp
  rw [e, add_mod_of_lt hr hk, dist]
  split <;> split <;> omega

@[simp] theorem dist_self (M a : Nat) : dist M a a = 0 := by simp [dist]

variable {a base : Nat}

theorem dist_lt (hb : base < M) (ha : a < M) : dist M base a < M := by
  unfold dist
  split <;> omega

theorem add_dist (hb : base < M) (ha : a < M) :
    (base + dist M base a) % M = a := by
  rw [add_mod_of_lt hb (dist_lt hb ha), dist]
  split <;> split <;> omega

theorem dist_inj {b : Nat} (hb : base < M) (ha : a < M) (hb' : b < M)
    (h : dist M base a = dist M base b) : a = b := by
  rw [← add_dist hb ha, h, add_dist hb hb']

theorem dist_rebase {base' : Nat} (hb : base < M) (hb' : base' < M) (ha : a < M)
    (h : dist M base base' ≤ dist M base a) :
    dist M base' a + dist M base base' = dist M base a := by
  unfold dist at *
  split at h <;> split at h <;> split <;> omega

theorem dist_rebase_of_lt {base' : Nat} (hb : base < M) (hb' : base' < M)
    (h : dist M base a < dist M base base') :
    dist M base' a + dist M base base' = dist M base a + M := by
  unfold dist at *
  split at h <;> split at h <;> split <;> omega

def lift (M R a : Nat) : Nat := R + dist M (R % M) a

theorem le_lift (M R a : Nat) : R ≤ lift M R a := Nat.le_add_right _ _

theorem lift_lt (ha : a < M) : lift M R a < R + M :=
  Nat.add_lt_add_left (dist_lt (Nat.mod_lt _ (by omega)) ha) R

theorem lift_mod (ha : a < M) : lift M R a % M = a := by
  have h := add_dist (Nat.mod_lt R (by omega : 0 < M)) ha
  simpa [lift] using h

theorem lift_eq (h₀ : R ≤ n) (h₁ : n < R + M) : lift M R (n % M) = n := by
  rw [lift, dist_mod h₀ h₁]
  omega

theorem mod_injOn {m : Nat} (hm₀ : R ≤ m) (hm₁ : m < R + M) (hn₀ : R ≤ n) (hn₁ : n < R + M)
    (h : m % M = n % M) : m = n := by
  rw [← lift_eq hm₀ hm₁, h, lift_eq hn₀ hn₁]

theorem succ_mod (M n : Nat) : (n % M + 1) % M = (n + 1) % M := by simp

theorem iterate_succ_mod (M s k : Nat) : (fun sn => (sn + 1) % M)^[k] (s % M) = (s + k) % M := by
  induction k with
  | zero => rfl
  | succ k ih => rw [Function.iterate_succ_apply', ih, succ_mod, Nat.add_assoc]

theorem pred_mod (hn : 0 < n) (hM : 0 < M) : (n % M + M - 1) % M = (n - 1) % M := by
  obtain ⟨k, rfl⟩ := Nat.exists_eq_succ_of_ne_zero hn.ne'
  have hr := Nat.mod_lt k hM
  have e : (k + 1) % M = (k % M + 1) % M := by simp
  simp only [Nat.succ_eq_add_one, Nat.add_sub_cancel]
  rw [e]
  by_cases h : k % M + 1 = M
  · rw [h, Nat.mod_self, Nat.zero_add, Nat.mod_eq_of_lt (by omega)]
    omega
  · rw [Nat.mod_eq_of_lt (by omega : k % M + 1 < M), show k % M + 1 + M - 1 = k % M + M by omega,
      Nat.add_mod_right, Nat.mod_mod]

end OpenAir.Cyclic

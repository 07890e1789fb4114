import Mathlib.Logic.Function.Iterate

/-! `while` loops.  A loop is run with an amount of fuel; it ends when some amount suffices. -/

namespace OpenAir

variable {σ : Type*}

/-- `while (cond s) s = body s`, or `none` when the fuel runs out first. -/
def whileLoop (cond : σ → Bool) (body : σ → σ) : Nat → σ → Option σ
  | 0, _ => none
  | fuel + 1, s => if cond s then whileLoop cond body fuel (body s) else some s

namespace whileLoop

variable {cond : σ → Bool} {body : σ → σ} {fuel : Nat} {s s' : σ}

theorem eq_some_iff : whileLoop cond body fuel s = some s' ↔
    ∃ k < fuel, s' = body^[k] s ∧ cond s' = false ∧ ∀ j < k, cond (body^[j] s) := by
  induction fuel generalizing s with
  | zero => simp [whileLoop]
  | succ fuel ih =>
    rw [whileLoop]
    split
    · next h =>
      rw [ih]
      constructor
      · rintro ⟨k, hk, rfl, hc, hj⟩
        refine ⟨k + 1, by omega, rfl, hc, ?_⟩
        intro j hj'
        cases j with
        | zero => exact h
        | succ j => exact hj j (by omega)
      · rintro ⟨k, hk, rfl, hc, hj⟩
        cases k with
        | zero => simp [h] at hc
        | succ k => exact ⟨k, by omega, rfl, hc, fun j hj' => hj (j + 1) (by omega)⟩
    · next h =>
      constructor
      · rintro ⟨⟩
        exact ⟨0, by omega, rfl, by simpa using h, by simp⟩
      · rintro ⟨k, hk, rfl, hc, hj⟩
        cases k with
        | zero => rfl
        | succ k => exact absurd (hj 0 (by omega)) h

theorem mono {fuel' : Nat} (hf : fuel ≤ fuel') (h : whileLoop cond body fuel s = some s') :
    whileLoop cond body fuel' s = some s' := by
  rw [eq_some_iff] at h ⊢
  obtain ⟨k, hk, h⟩ := h
  exact ⟨k, by omega, h⟩

theorem invariant (P : σ → Prop) (h₀ : P s) (hb : ∀ t, P t → cond t → P (body t))
    (h : whileLoop cond body fuel s = some s') : P s' ∧ cond s' = false := by
  induction fuel generalizing s with
  | zero => simp [whileLoop] at h
  | succ fuel ih =>
    rw [whileLoop] at h
    split at h
    · next hc => exact ih (hb s h₀ hc) h
    · next hc =>
      cases h
      exact ⟨h₀, by simpa using hc⟩

theorem terminates {k : Nat} (h : cond (body^[k] s) = false) :
    ∃ s', whileLoop cond body (k + 1) s = some s' := by
  induction k generalizing s with
  | zero => exact ⟨s, by simpa [whileLoop] using h⟩
  | succ k ih =>
    rw [whileLoop]
    split
    · exact ih h
    · exact ⟨s, rfl⟩

theorem returns (I : σ → Prop) (μ : σ → Nat)
    (hb : ∀ t, I t → cond t → I (body t) ∧ μ (body t) < μ t) (h₀ : I s) (hfuel : μ s < fuel) :
    ∃ s', whileLoop cond body fuel s = some s' := by
  induction fuel generalizing s with
  | zero => omega
  | succ fuel ih =>
    rw [whileLoop]
    split
    · next hc =>
      obtain ⟨hI, hlt⟩ := hb s h₀ hc
      exact ih hI (by omega)
    · exact ⟨s, rfl⟩

theorem diverges_iff : (∀ fuel, whileLoop cond body fuel s = none) ↔
    ∀ k, cond (body^[k] s) := by
  constructor
  · intro h k
    by_contra hk
    have hk' : cond (body^[k] s) = false := by simpa using hk
    obtain ⟨s', hs'⟩ := terminates hk'
    rw [h] at hs'
    cases hs'
  · intro h fuel
    cases hw : whileLoop cond body fuel s with
    | none => rfl
    | some s' =>
      obtain ⟨k, _, rfl, hc, _⟩ := eq_some_iff.mp hw
      rw [h k] at hc
      cases hc

end whileLoop

/-- `for (i = i₀; i < i₀ + n; i++)` with a body that goes on or returns. -/
def rounds (body : Nat → σ → Bool × σ) : Nat → Nat → σ → σ
  | 0, _, s => s
  | n + 1, i, s =>
    match body i s with
    | (true, s) => rounds body n (i + 1) s
    | (false, s) => s

namespace rounds

variable {body : Nat → σ → Bool × σ} {i n : Nat} {s : σ}

theorem invariant (P : σ → Prop) (hb : ∀ j s, i ≤ j → j < i + n → P s → P (body j s).2) (h₀ : P s) :
    P (rounds body n i s) := by
  induction n generalizing i s with
  | zero => exact h₀
  | succ n ih =>
    have h := hb i s (Nat.le_refl i) (by omega) h₀
    rw [rounds]
    cases hbody : body i s with
    | mk go s' =>
      rw [hbody] at h
      cases go with
      | true => exact ih (fun j s hij hj => hb j s (by omega) (by omega)) h
      | false => exact h

end rounds

inductive Fault (ε : Type*)
  | assertion : ε → Fault ε
  | outOfFuel
  deriving DecidableEq

def Fault.map {ε ε' : Type*} (f : ε → ε') : Fault ε → Fault ε'
  | .assertion e => .assertion (f e)
  | .outOfFuel => .outOfFuel

variable {α ε : Type*}

def loop (body : σ → Except (Fault ε) (σ ⊕ α)) : Nat → σ → Except (Fault ε) α
  | 0, _ => .error .outOfFuel
  | fuel + 1, s =>
    match body s with
    | .error e => .error e
    | .ok (.inl s) => loop body fuel s
    | .ok (.inr a) => .ok a

namespace loop

variable {body : σ → Except (Fault ε) (σ ⊕ α)} {fuel : Nat} {s : σ}

theorem returns (I : σ → Prop) (μ : σ → Nat) (Q : α → Prop)
    (hbody : ∀ s, I s → (∃ s', body s = .ok (.inl s') ∧ I s' ∧ μ s' < μ s) ∨
      ∃ a, body s = .ok (.inr a) ∧ Q a)
    (h₀ : I s) (hfuel : μ s < fuel) : ∃ a, loop body fuel s = .ok a ∧ Q a := by
  induction fuel generalizing s with
  | zero => omega
  | succ fuel ih =>
    rw [loop]
    rcases hbody s h₀ with ⟨s', hs, hI, hlt⟩ | ⟨a, hs, hQ⟩
    · rw [hs]
      exact ih hI (by omega)
    · rw [hs]
      exact ⟨a, rfl, hQ⟩

theorem eq_of_fuel (μ : σ → Nat) (hbody : ∀ s s', body s = .ok (.inl s') → μ s' < μ s) {fuel' : Nat}
    (h : μ s < fuel) (h' : μ s < fuel') : loop body fuel s = loop body fuel' s := by
  induction fuel generalizing fuel' s with
  | zero => omega
  | succ fuel ih =>
    obtain ⟨fuel', rfl⟩ : ∃ k, fuel' = k + 1 := ⟨fuel' - 1, by omega⟩
    rw [loop, loop]
    cases hb : body s with
    | error e => rfl
    | ok r =>
      cases r with
      | inl s' =>
        have hlt := hbody s s' hb
        exact ih (by omega) (by omega)
      | inr a => rfl

theorem eq_ok_iff_of_last (h : ∀ s', body s ≠ .ok (.inl s')) {a : α} :
    loop body (fuel + 1) s = .ok a ↔ body s = .ok (.inr a) := by
  rw [loop]
  cases hb : body s with
  | error e => simp
  | ok r =>
    cases r with
    | inl s' => exact absurd hb (h s')
    | inr b => simp

end loop

end OpenAir

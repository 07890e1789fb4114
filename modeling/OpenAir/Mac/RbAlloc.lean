import Mathlib.Order.Bounds.Basic
import OpenAir.Lib.Loop

namespace OpenAir.Mac.RbAlloc

section

variable (vrbMap : Nat → BitVec 16) (bwpStart : Nat) (symMask : BitVec 16) (free : Nat → Bool)

def isFree (rb : Nat) : Bool := vrbMap (bwpStart + rb) &&& symMask = 0

def blockEnd : Nat → Nat → Nat
  | 0, rbEnd => rbEnd
  | left + 1, rbEnd => if free rbEnd then blockEnd left (rbEnd + 1) else rbEnd

variable (rbSizeMin rbSizeMax bwpSize : Nat) (out : Nat × Nat)

def round (rbStart : Nat) : Except (Fault Empty) (Nat ⊕ (Bool × Nat × Nat)) :=
  if bwpSize < rbStart + rbSizeMin then .ok (.inr (false, out))
  else if !free rbStart then .ok (.inl (rbStart + 1))
  else
    let currentLimit := min (rbStart + rbSizeMax) bwpSize
    let rbEnd := blockEnd free (currentLimit - (rbStart + 1)) (rbStart + 1)
    let rbSize := rbEnd - rbStart
    if rbSizeMin ≤ rbSize then .ok (.inr (true, rbStart, rbSize)) else .ok (.inl (rbEnd + 1))

def getRbAlloc (fuel : Nat) : Except (Fault Empty) (Bool × Nat × Nat) :=
  loop (round (isFree vrbMap bwpStart symMask) rbSizeMin rbSizeMax bwpSize out) fuel 0

def FreeRun (start size : Nat) : Prop :=
  start + size ≤ bwpSize ∧ ∀ rb, start ≤ rb → rb < start + size → free rb = true

structure Right (r : Bool × Nat × Nat) : Prop where
  found : r.1 = true ↔ ∃ s, FreeRun free bwpSize s rbSizeMin
  start : r.1 = true → IsLeast {s | FreeRun free bwpSize s rbSizeMin} r.2.1
  size : r.1 = true → IsGreatest {n | n ≤ rbSizeMax ∧ FreeRun free bwpSize r.2.1 n} r.2.2
  untouched : r.1 = false → r.2 = out

end

variable {free : Nat → Bool} {rbSizeMin rbSizeMax bwpSize : Nat}

theorem blockEnd_spec (left rbEnd : Nat) :
    ∃ n ≤ left, blockEnd free left rbEnd = rbEnd + n ∧
      (∀ rb, rbEnd ≤ rb → rb < rbEnd + n → free rb) ∧
      (n < left → free (rbEnd + n) = false) := by
  induction left generalizing rbEnd with
  | zero => exact ⟨0, le_rfl, rfl, fun rb _ _ => by omega, by omega⟩
  | succ left ih =>
    rw [blockEnd]
    split
    next hfree =>
      obtain ⟨n, hn, heq, hall, hstop⟩ := ih (rbEnd + 1)
      refine ⟨n + 1, by omega, by omega, fun rb h₀ h₁ => ?_, fun hlt => ?_⟩
      · rcases Nat.eq_or_lt_of_le h₀ with rfl | h₀
        · exact hfree
        · exact hall rb h₀ (by omega)
      · rw [show rbEnd + (n + 1) = rbEnd + 1 + n by omega]
        exact hstop (by omega)
    next hfree => exact ⟨0, by omega, rfl, fun rb _ _ => by omega, fun _ => by simpa using hfree⟩

theorem not_freeRun {s rb : Nat} (hrb : free rb = false) (h₀ : s ≤ rb)
    (h₁ : rb < s + rbSizeMin) : ¬FreeRun free bwpSize s rbSizeMin := by
  intro h
  rw [h.2 rb h₀ h₁] at hrb
  cases hrb

theorem round_step {out : Nat × Nat} (hmin : 1 ≤ rbSizeMin) (hmax : rbSizeMin ≤ rbSizeMax)
    (rbStart : Nat) (hI : ∀ s < rbStart, ¬FreeRun free bwpSize s rbSizeMin) :
    (∃ next, round free rbSizeMin rbSizeMax bwpSize out rbStart = .ok (.inl next) ∧
      (∀ s < next, ¬FreeRun free bwpSize s rbSizeMin) ∧ bwpSize - next < bwpSize - rbStart) ∨
    ∃ r, round free rbSizeMin rbSizeMax bwpSize out rbStart = .ok (.inr r) ∧
      Right free rbSizeMin rbSizeMax bwpSize out r := by
  unfold round
  split
  next hend =>
    have hnone (s : Nat) : ¬FreeRun free bwpSize s rbSizeMin := by
      by_cases hlt : s < rbStart
      · exact hI s hlt
      · exact fun h => absurd h.1 (by omega)
    exact .inr ⟨_, rfl, by simp [hnone], by simp, by simp, fun _ => rfl⟩
  next hend =>
  split
  next hbusy =>
    refine .inl ⟨_, rfl, fun s hs => ?_, by omega⟩
    rcases Nat.lt_succ_iff_lt_or_eq.mp hs with hlt | rfl
    · exact hI s hlt
    · exact not_freeRun (by simpa using hbusy) le_rfl (by omega)
  next hfree =>
  obtain ⟨n, hn, heq, hall, hstop⟩ := @blockEnd_spec free
    (min (rbStart + rbSizeMax) bwpSize - (rbStart + 1)) (rbStart + 1)
  have hrun : FreeRun free bwpSize rbStart (n + 1) := by
    refine ⟨by omega, fun rb h₀ h₁ => ?_⟩
    rcases Nat.eq_or_lt_of_le h₀ with rfl | h₀
    · simpa using hfree
    · exact hall rb h₀ (by omega)
  dsimp only
  rw [heq, show rbStart + 1 + n - rbStart = n + 1 by omega]
  split
  next hlong =>
    have hstart : FreeRun free bwpSize rbStart rbSizeMin :=
      ⟨by omega, fun rb h₀ h₁ => hrun.2 rb h₀ (by omega)⟩
    have hsize : IsGreatest {m | m ≤ rbSizeMax ∧ FreeRun free bwpSize rbStart m} (n + 1) := by
      refine ⟨⟨by omega, hrun⟩, ?_⟩
      rintro m ⟨hle, hend', hfree'⟩
      by_contra! hlt
      have hbusy := hstop (by omega)
      rw [hfree' (rbStart + 1 + n) (by omega) (by omega)] at hbusy
      cases hbusy
    exact .inr ⟨_, rfl, ⟨fun _ => ⟨rbStart, hstart⟩, fun _ => rfl⟩,
      fun _ => ⟨hstart, fun s hs => Nat.le_of_not_lt fun hlt => hI s hlt hs⟩, fun _ => hsize,
      by simp⟩
  next hshort =>
    -- a block that is too short is ended by an RB that is not free
    have hbusy := hstop (by omega)
    refine .inl ⟨_, rfl, fun s hs => ?_, by omega⟩
    by_cases hlt : s < rbStart
    · exact hI s hlt
    · exact not_freeRun hbusy (by omega) (by omega)

theorem getRbAlloc_correct (vrbMap : Nat → BitVec 16) (bwpStart : Nat) (symMask : BitVec 16)
    (rbSizeMin rbSizeMax bwpSize : Nat) (out : Nat × Nat) (hmin : 1 ≤ rbSizeMin)
    (hmax : rbSizeMin ≤ rbSizeMax) (fuel : Nat) (hfuel : bwpSize < fuel) :
    ∃ r, getRbAlloc vrbMap bwpStart symMask rbSizeMin rbSizeMax bwpSize out fuel = .ok r ∧
      Right (isFree vrbMap bwpStart symMask) rbSizeMin rbSizeMax bwpSize out r :=
  loop.returns
    (fun rbStart => ∀ s < rbStart, ¬FreeRun (isFree vrbMap bwpStart symMask) bwpSize s rbSizeMin)
    (bwpSize - ·) _ (round_step hmin hmax) (by omega) (by omega)

theorem getRbAlloc_two_of_six :
    Right (isFree (fun rb => if rb = 5 then 2 else if rb = 6 then 1 else 0) 4 2) 2 3 6 (0, 0)
      (true, 2, 3) := by
  obtain ⟨r, hr, hright⟩ :=
    getRbAlloc_correct (fun rb => if rb = 5 then 2 else if rb = 6 then 1 else 0) 4 2 2 3 6
      (0, 0) (by decide) (by decide) 7 (by decide)
  obtain rfl : (true, 2, 3) = r := Except.ok.inj (Eq.trans (by decide) hr)
  exact hright

end OpenAir.Mac.RbAlloc

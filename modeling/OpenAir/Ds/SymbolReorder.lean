import Mathlib
import OpenAir.Lib.Bits

/-! `symbol_reorder.cpp`: ranges of indices are reported in any order, and the first index that is
still expected advances over them. -/

namespace OpenAir.Ds

open Function

structure SymbolReorder where
  completed : Nat → Option Nat
  nextExpected : Nat
  validPositionMask : List Byte
  maskBitLength : Nat

def symbolReorderCreate (startIndex : Nat) (validPositionMask : Option (List Byte))
    (maskBitLength : Nat) : SymbolReorder where
  completed := fun _ => none
  nextExpected := startIndex
  maskBitLength := maskBitLength
  validPositionMask :=
    if 0 < maskBitLength then (validPositionMask.getD []).take ((maskBitLength + 7) / 8) else []

namespace SymbolReorder

def isValidPosition (s : SymbolReorder) (index : Nat) : Bool :=
  s.validPositionMask.isEmpty ||
    let bit := index % s.maskBitLength
    (s.validPositionMask.getD (bit / 8) 0).getLsbD (bit % 8)

def advanceLoop : Nat → SymbolReorder → Bool → Option (Bool × SymbolReorder)
  | 0, _, _ => none
  | fuel + 1, s, advanced =>
    if s.isValidPosition s.nextExpected then
      match s.completed s.nextExpected with
      | none => some (advanced, s)
      | some count =>
        advanceLoop fuel { s with
          nextExpected := (s.nextExpected + count) % 2 ^ 64
          completed := update s.completed s.nextExpected none } true
    else advanceLoop fuel { s with nextExpected := (s.nextExpected + 1) % 2 ^ 64 } advanced

def symbolReorderAdvance (fuel : Nat) (s : SymbolReorder) (r : Nat × Nat) :
    Option (Bool × SymbolReorder) :=
  advanceLoop fuel { s with completed := update s.completed r.1 (some r.2) } false

/-- A call that is not stopped, `none` while it waits. -/
def symbolReorderWaitAtLeast (s : SymbolReorder) (target : Nat) : Option Nat :=
  if target < s.nextExpected then some (s.nextExpected - 1) else none

def advanceAll (fuel : Nat) (s : SymbolReorder) (ranges : List (Nat × Nat)) :
    Option SymbolReorder :=
  ranges.foldlM (fun s r => (s.symbolReorderAdvance fuel r).map Prod.snd) s

structure Reports (s₀ : SymbolReorder) (ranges : List (Nat × Nat)) : Prop where
  disjoint : ranges.Pairwise fun q r => q.1 + q.2 ≤ r.1 ∨ r.1 + r.2 ≤ q.1
  pos : ∀ r ∈ ranges, 0 < r.2
  start_le : ∀ r ∈ ranges, s₀.nextExpected ≤ r.1
  valid : ∀ r ∈ ranges, s₀.isValidPosition r.1 = true
  lt : ∀ r ∈ ranges, r.1 < 2 ^ 64 ∧ r.2 < 2 ^ 32

def Covered (ranges : List (Nat × Nat)) (i : Nat) : Prop := ∃ r ∈ ranges, r.1 ≤ i ∧ i < r.1 + r.2

def Unreported (s₀ : SymbolReorder) (ranges : List (Nat × Nat)) : Set Nat :=
  {i | s₀.nextExpected ≤ i ∧ s₀.isValidPosition i = true ∧ ¬ Covered ranges i}

def Passed (ranges : List (Nat × Nat)) (old new : Nat) : Prop :=
  ∃ r ∈ ranges, old ≤ r.1 ∧ r.1 < new

def FrontierRight (s₀ : SymbolReorder) (ranges : List (Nat × Nat)) (r : Nat × Nat) : Prop :=
  ∃ enough, ∀ fuel ≥ enough, ∃ s advanced s', s₀.advanceAll fuel ranges = some s ∧
    s.symbolReorderAdvance fuel r = some (advanced, s') ∧
    IsLeast (Unreported s₀ (ranges ++ [r])) s'.nextExpected ∧
    (advanced = true ↔ Passed (ranges ++ [r]) s.nextExpected s'.nextExpected) ∧
    ∀ target v, s'.symbolReorderWaitAtLeast target = some v → target ≤ v →
      ∀ i, s₀.nextExpected ≤ i → i ≤ target → s₀.isValidPosition i = true →
        Covered (ranges ++ [r]) i

structure Inv (s₀ : SymbolReorder) (ranges : List (Nat × Nat)) (s : SymbolReorder) : Prop where
  valid_eq : s.isValidPosition = s₀.isValidPosition
  start_le : s₀.nextExpected ≤ s.nextExpected
  covered : ∀ i, s₀.nextExpected ≤ i → i < s.nextExpected → s₀.isValidPosition i = true →
    Covered ranges i
  ended : ∀ r ∈ ranges, r.1 < s.nextExpected → r.1 + r.2 ≤ s.nextExpected
  completed : ∀ k n, s.completed k = some n ↔ (k, n) ∈ ranges ∧ s.nextExpected ≤ k

variable {s₀ s : SymbolReorder} {ranges : List (Nat × Nat)} {r : Nat × Nat} {F old fuel : Nat}

theorem Reports.eq_or_disjoint (h : Reports s₀ ranges) :
    ∀ q ∈ ranges, ∀ r ∈ ranges, q = r ∨ q.1 + q.2 ≤ r.1 ∨ r.1 + r.2 ≤ q.1 := by
  intro q hq r hr
  have : Std.Symm fun q r : Nat × Nat => q.1 + q.2 ≤ r.1 ∨ r.1 + r.2 ≤ q.1 := ⟨fun _ _ => Or.symm⟩
  exact or_iff_not_imp_left.mpr (h.disjoint.forall hq hr)

namespace Inv

theorem report (h : Inv s₀ ranges s) (hR : Reports s₀ (ranges ++ [r])) :
    Inv s₀ (ranges ++ [r])
      { s with completed := update s.completed r.1 (some r.2) } := by
  have hr : r ∈ ranges ++ [r] := by simp
  have hpos := hR.pos r hr
  have hdisjoint := (List.pairwise_append.mp hR.disjoint).2.2
  have hle : s.nextExpected ≤ r.1 := by
    by_contra hlt
    obtain ⟨q, hq, hqr⟩ := h.covered r.1 (hR.start_le r hr) (by omega) (hR.valid r hr)
    have := hdisjoint q hq r (by simp)
    omega
  refine ⟨h.valid_eq, h.start_le, fun i hi hlt hv => ?_, fun q hq hlt => ?_, fun k n => ?_⟩
  · obtain ⟨q, hq, hqi⟩ := h.covered i hi hlt hv
    exact ⟨q, List.mem_append_left _ hq, hqi⟩
  · rcases List.mem_append.mp hq with hq | hq
    · exact h.ended q hq hlt
    · rw [List.mem_singleton.mp hq] at hlt
      exact absurd hle (not_le.mpr hlt)
  · by_cases hk : k = r.1
    · have hnew : (r.1, n) ∉ ranges := by
        intro hq
        have hn := hR.pos _ (List.mem_append_left _ hq)
        have := hdisjoint _ hq r (by simp)
        simp only at hn this
        omega
      simp [hk, hnew, hle, Prod.ext_iff, eq_comm]
    · have hne : (k, n) ≠ r := fun hkr => hk (by rw [← hkr])
      simpa [hk, hne] using h.completed k n

theorem move (h : Inv s₀ ranges s) {new : Nat} (hlt : s.nextExpected < new)
    (hcov : ∀ i, s.nextExpected ≤ i → i < new → s₀.isValidPosition i → Covered ranges i)
    (hbegin : ∀ q ∈ ranges, s.nextExpected ≤ q.1 → q.1 < new →
      q.1 = s.nextExpected ∧ q.1 + q.2 = new) :
    Inv s₀ ranges { s with
      nextExpected := new
      completed := update s.completed s.nextExpected none } := by
  refine ⟨h.valid_eq, h.start_le.trans hlt.le, fun i hi hi' hv => ?_, fun q hq hq' => ?_,
    fun k n => ?_⟩
  · rcases Nat.lt_or_ge i s.nextExpected with hold | hold
    · exact h.covered i hi hold hv
    · exact hcov i hold hi' hv
  · rcases Nat.lt_or_ge q.1 s.nextExpected with hold | hold
    · exact (h.ended q hq hold).trans hlt.le
    · exact (hbegin q hq hold hq').2.le
  · have hc := h.completed k n
    have hb := hbegin (k, n)
    simp only [update_apply]
    grind

theorem stop (h : Inv s₀ ranges s) (hv : s.isValidPosition s.nextExpected)
    (hnone : s.completed s.nextExpected = none) : s.nextExpected ∈ Unreported s₀ ranges := by
  refine ⟨h.start_le, by rwa [← h.valid_eq], ?_⟩
  rintro ⟨r, hr, hle, hlt⟩
  rcases Nat.lt_or_ge r.1 s.nextExpected with hr' | hr'
  · have := h.ended r hr hr'
    omega
  · have heq : r = (s.nextExpected, r.2) := Prod.ext (by simp only; omega) rfl
    have := (h.completed s.nextExpected r.2).mpr ⟨heq ▸ hr, Nat.le_refl _⟩
    rw [hnone] at this
    cases this

theorem advanceLoop (hR : Reports s₀ ranges) (hF : F ∈ Unreported s₀ ranges) (hlt : F < 2 ^ 64)
    (fuel : Nat) : ∀ {s : SymbolReorder} {advanced : Bool}, Inv s₀ ranges s →
    s.nextExpected ≤ F → F < s.nextExpected + fuel → old ≤ s.nextExpected →
    (advanced ↔ Passed ranges old s.nextExpected) →
    ∃ advanced' s', SymbolReorder.advanceLoop fuel s advanced = some (advanced', s') ∧
      Inv s₀ ranges s' ∧ s'.nextExpected ∈ Unreported s₀ ranges ∧ s'.nextExpected ≤ F ∧
      (advanced' ↔ Passed ranges old s'.nextExpected) := by
  induction fuel with
  | zero => intros; omega
  | succ fuel ih =>
    intro s advanced h hle hfuel hold hadv
    rw [SymbolReorder.advanceLoop]
    split
    · next hv =>
      cases hc : s.completed s.nextExpected with
      | none => exact ⟨_, _, rfl, h, h.stop hv hc, hle, hadv⟩
      | some n =>
        have hn := ((h.completed _ _).mp hc).1
        have hpos : 0 < n := hR.pos _ hn
        have hend : s.nextExpected + n ≤ F := by
          by_contra hgt
          exact hF.2.2 ⟨_, hn, hle, by simp only; omega⟩
        have hmove := h.move (Nat.lt_add_of_pos_right hpos) (fun i hi hi' _ => ⟨_, hn, hi, hi'⟩)
          fun q hq hq₁ hq₂ => by grind [hR.eq_or_disjoint _ hn q hq, hR.pos q hq]
        dsimp only
        rw [Nat.mod_eq_of_lt (by omega)]
        refine ih hmove hend (by simp only; omega) (by simp only; omega) ?_
        exact ⟨fun _ => ⟨_, hn, hold, by simp only; omega⟩, fun _ => rfl⟩
    · next hv =>
      rw [h.valid_eq] at hv
      have hne : ∀ r ∈ ranges, r.1 ≠ s.nextExpected := fun r hr heq => hv (heq ▸ hR.valid r hr)
      have hneF : s.nextExpected ≠ F := fun heq => hv (heq ▸ hF.2.1)
      have hnone : s.completed s.nextExpected = none :=
        Option.eq_none_iff_forall_ne_some.mpr fun n hn => hne _ ((h.completed _ _).mp hn).1 rfl
      have hmove := h.move (Nat.lt_succ_self _)
        (fun i hi hi' hvi => absurd (Nat.le_antisymm hi (Nat.le_of_lt_succ hi') ▸ hvi) hv)
        fun q hq hq₁ hq₂ => absurd (Nat.le_antisymm (Nat.le_of_lt_succ hq₂) hq₁) (hne q hq)
      rw [← hnone, update_eq_self] at hmove
      rw [Nat.mod_eq_of_lt (by omega)]
      refine ih hmove (by simp only; omega) (by simp only; omega) (by simp only; omega) ?_
      rw [hadv]
      refine exists_congr fun r => and_congr_right fun hr => and_congr_right fun _ => ?_
      have := hne r hr
      simp only
      omega

end Inv

theorem Unreported.subset : Unreported s₀ (ranges ++ [r]) ⊆ Unreported s₀ ranges :=
  fun _ hi => ⟨hi.1, hi.2.1, fun ⟨q, hq, hqi⟩ => hi.2.2 ⟨q, List.mem_append_left _ hq, hqi⟩⟩

theorem Reports.of_append (h : Reports s₀ (ranges ++ [r])) : Reports s₀ ranges :=
  have hmem := fun q (hq : q ∈ ranges) => List.mem_append_left [r] hq
  ⟨(List.pairwise_append.mp h.disjoint).1, fun q hq => h.pos q (hmem q hq),
    fun q hq => h.start_le q (hmem q hq), fun q hq => h.valid q (hmem q hq),
    fun q hq => h.lt q (hmem q hq)⟩

theorem Inv.advance (h : Inv s₀ ranges s) (hR : Reports s₀ (ranges ++ [r]))
    (hF : F ∈ Unreported s₀ (ranges ++ [r])) (hlt : F < 2 ^ 64) (hle : s.nextExpected ≤ F)
    (hfuel : F < fuel) : ∃ advanced s', s.symbolReorderAdvance fuel r = some (advanced, s') ∧
      Inv s₀ (ranges ++ [r]) s' ∧ s'.nextExpected ∈ Unreported s₀ (ranges ++ [r]) ∧
      s'.nextExpected ≤ F ∧
      (advanced ↔ Passed (ranges ++ [r]) s.nextExpected s'.nextExpected) := by
  refine (h.report hR).advanceLoop hR hF hlt fuel hle (by simp only; omega) (Nat.le_refl _) ?_
  refine ⟨fun hf => (by cases hf), ?_⟩
  rintro ⟨q, -, h₁, h₂⟩
  exact absurd h₂ (not_lt.mpr h₁)

theorem advanceAll_spec (hnone : s₀.completed = fun _ => none) (hlt : F < 2 ^ 64)
    (hfuel : F < fuel) : Reports s₀ ranges → F ∈ Unreported s₀ ranges →
    ∃ s, s₀.advanceAll fuel ranges = some s ∧ Inv s₀ ranges s ∧ s.nextExpected ≤ F := by
  induction ranges using List.reverseRecOn with
  | nil =>
    intro _ hF
    exact ⟨s₀, rfl, ⟨rfl, Nat.le_refl _, fun i hi hi' => by omega, by simp, by simp [hnone]⟩, hF.1⟩
  | append_singleton ranges r ih =>
    intro hR hF
    obtain ⟨s, hs, h, hle⟩ := ih hR.of_append (Unreported.subset hF)
    obtain ⟨advanced, s', hs', h', -, hle', -⟩ := h.advance hR hF hlt hle hfuel
    refine ⟨s', ?_, h', hle'⟩
    rw [advanceAll] at hs ⊢
    simp [List.foldlM_append, hs, hs']

end SymbolReorder

open SymbolReorder

/-- As long as a valid index below `2 ^ 64` is not reported, the frontier is the first such. -/
theorem frontierRight_of_unreported {start len : Nat} {mask : Option (List Byte)}
    {ranges : List (Nat × Nat)} {r : Nat × Nat}
    (hR : Reports (symbolReorderCreate start mask len) (ranges ++ [r]))
    (hfree : ∃ i < 2 ^ 64, i ∈ Unreported (symbolReorderCreate start mask len) (ranges ++ [r])) :
    FrontierRight (symbolReorderCreate start mask len) ranges r := by
  obtain ⟨F, hlt, hF⟩ := hfree
  refine ⟨F + 1, fun fuel hfuel => ?_⟩
  obtain ⟨s, hs, h, hle⟩ := advanceAll_spec rfl hlt hfuel hR.of_append (Unreported.subset hF)
  obtain ⟨advanced, s', hs', h', hmem, -, hadv⟩ := h.advance hR hF hlt hle hfuel
  refine ⟨s, advanced, s', hs, hs', ⟨hmem, fun i hi => ?_⟩, hadv,
    fun target v hv htv i hi hit hvi => ?_⟩
  · by_contra hgt
    exact hi.2.2 (h'.covered i hi.1 (by omega) hi.2.1)
  · rw [symbolReorderWaitAtLeast] at hv
    split at hv
    · exact h'.covered i hi (by omega) hvi
    · cases hv

theorem frontierRight_of_unreported_swapped :
    FrontierRight (symbolReorderCreate 0 none 0) [(1, 2)] (0, 1) :=
  frontierRight_of_unreported
    ⟨by simp, by simp, by simp [symbolReorderCreate],
      by simp [symbolReorderCreate, isValidPosition], by simp⟩
    ⟨3, by decide, by simp [Unreported, symbolReorderCreate, isValidPosition, Covered]⟩

/-- The last index: the frontier wraps to 0. -/
theorem not_forall_frontierRight :
    ¬ ∀ start len mask ranges r, start < 2 ^ 64 →
      (∃ i, (symbolReorderCreate start mask len).isValidPosition i = true) →
      Reports (symbolReorderCreate start mask len) (ranges ++ [r]) →
      FrontierRight (symbolReorderCreate start mask len) ranges r := by
  intro hall
  obtain ⟨enough, h⟩ := hall (2 ^ 64 - 1) 0 none [] (2 ^ 64 - 1, 1) (by decide) ⟨0, rfl⟩
    ⟨by simp, by simp, by simp [symbolReorderCreate],
      by simp [symbolReorderCreate, isValidPosition], by simp⟩
  obtain ⟨s, advanced, s', hs, hs', hleast, -⟩ := h (enough + 2) (by omega)
  cases hs
  simp [symbolReorderAdvance, advanceLoop, symbolReorderCreate, isValidPosition] at hs'
  have := hleast.1.1
  rw [← hs'.2] at this
  simp [symbolReorderCreate] at this

end OpenAir.Ds

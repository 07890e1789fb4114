import Mathlib.Data.List.Sort

/-! Sorted lists: what `takeWhile` and `dropWhile` cut off, and insertion. -/

namespace OpenAir.Sorted

open List

variable {α : Type*} {P : α → Bool} {l : List α}

theorem takeWhile_eq_filter (h : l.Pairwise fun a b => P b → P a) :
    l.takeWhile P = l.filter P := by
  induction l with
  | nil => rfl
  | cons a l ih =>
    obtain ⟨ha, hl⟩ := pairwise_cons.mp h
    cases hP : P a with
    | true => simp [hP, ih hl]
    | false =>
      have hnone : l.filter P = [] := by
        rw [filter_eq_nil_iff]
        intro b hb hPb
        exact absurd (ha b hb hPb) (by simp [hP])
      simp [hP, hnone]

theorem dropWhile_eq_filter (h : l.Pairwise fun a b => P b → P a) :
    l.dropWhile P = l.filter fun a => !P a := by
  induction l with
  | nil => rfl
  | cons a l ih =>
    obtain ⟨ha, hl⟩ := pairwise_cons.mp h
    cases hP : P a with
    | true => simp [hP, ih hl]
    | false =>
      have hall : l.filter (fun a => !P a) = l := by
        rw [filter_eq_self]
        intro b hb
        cases hPb : P b with
        | true => exact absurd (ha b hb hPb) (by simp [hP])
        | false => rfl
      simp [hP, hall]

theorem pairwise_orderedInsert {β : Type*} [LinearOrder β] {key : α → β} {x : α}
    (hl : l.Pairwise fun a b => key a < key b) (hx : ∀ a ∈ l, key a ≠ key x) :
    (l.orderedInsert (fun a b => key a < key b) x).Pairwise fun a b => key a < key b := by
  induction l with
  | nil => simp
  | cons a l ih =>
    obtain ⟨ha, hl⟩ := pairwise_cons.mp hl
    rw [orderedInsert_cons]
    split
    · next hlt =>
      refine pairwise_cons.mpr ⟨fun b hb => ?_, pairwise_cons.mpr ⟨ha, hl⟩⟩
      rcases mem_cons.mp hb with rfl | hb
      · exact hlt
      · exact hlt.trans (ha b hb)
    · next hle =>
      refine pairwise_cons.mpr ⟨fun b hb => ?_, ih hl fun b hb => hx b (by simp [hb])⟩
      rcases (mem_orderedInsert _).mp hb with rfl | hb
      · exact (not_lt.mp hle).lt_of_ne (hx a (by simp))
      · exact ha b hb

section

/-! The elements of one key lie together. -/

variable {key : α → Nat} {k : Nat} (hl : l.Pairwise fun a b => key a ≤ key b)
  (hP : ∀ a ∈ l, P a ↔ key a = k)
include hl hP

theorem pairwise_of_head {a : α} (ha : key a = k) (hle : ∀ b ∈ l, key a ≤ key b) :
    l.Pairwise fun b b' => P b' → P b := by
  refine hl.imp_of_mem fun {b b'} hb hb' hbb' hPb' => ?_
  have h₁ := hle b hb
  have h₂ := (hP b' hb').mp hPb'
  exact (hP b hb).mpr (by omega)

theorem takeWhile_dropWhile_eq_filter :
    (l.dropWhile fun a => !P a).takeWhile P = l.filter P := by
  induction l with
  | nil => rfl
  | cons a l ih =>
    obtain ⟨ha, hl⟩ := pairwise_cons.mp hl
    have hP' : ∀ b ∈ l, P b ↔ key b = k := fun b hb => hP b (by simp [hb])
    cases hPa : P a with
    | true =>
      have hkey := (hP a (by simp)).mp hPa
      simp [hPa, takeWhile_eq_filter (pairwise_of_head hl hP' hkey ha)]
    | false => simp [hPa, ih hl hP']

theorem append_map_append (f : α → α) :
    (l.takeWhile fun a => !P a) ++ ((l.dropWhile fun a => !P a).takeWhile P).map f ++
      (l.dropWhile fun a => !P a).dropWhile P = l.map fun a => if P a then f a else a := by
  induction l with
  | nil => rfl
  | cons a l ih =>
    obtain ⟨ha, hl⟩ := pairwise_cons.mp hl
    have hP' : ∀ b ∈ l, P b ↔ key b = k := fun b hb => hP b (by simp [hb])
    cases hPa : P a with
    | true =>
      have hfirst := pairwise_of_head hl hP' ((hP a (by simp)).mp hPa) ha
      have htake : (l.takeWhile P).map f = (l.takeWhile P).map fun a => if P a then f a else a := by
        rw [takeWhile_eq_filter hfirst]
        refine map_congr_left fun b hb => ?_
        rw [if_pos (mem_filter.mp hb).2]
      have hdrop : l.dropWhile P = (l.dropWhile P).map fun a => if P a then f a else a := by
        rw [dropWhile_eq_filter hfirst]
        refine (map_id _).symm.trans (map_congr_left fun b hb => ?_)
        rw [if_neg (by simpa using (mem_filter.mp hb).2)]
        rfl
      simp only [hPa, takeWhile_cons, dropWhile_cons, map_cons, Bool.not_true,
        Bool.false_eq_true, if_false, if_true, nil_append, cons_append]
      rw [htake, hdrop, ← map_append, takeWhile_append_dropWhile]
    | false => simpa [hPa] using ih hl hP'

end

end OpenAir.Sorted

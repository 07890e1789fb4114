import Mathlib

/-! A list in a circular array whose free slots are empty: both ends grow and shrink. -/

namespace OpenAir

open Function

variable {α : Type*} {N r i p : Nat} {items : Nat → Option α} {l : List α} {a : α}

structure RingDeque (N : Nat) (items : Nat → Option α) (r : Nat) (l : List α) : Prop where
  lt : r < N
  length_le : l.length ≤ N
  get : ∀ i < N, items ((r + i) % N) = l[i]?

theorem slot_eq_iff {j : Nat} (hi : i < N) (hj : j < N) : (r + i) % N = (r + j) % N ↔ i = j := by
  refine ⟨fun h => ?_, fun h => by rw [h]⟩
  exact (Nat.ModEq.add_left_cancel' r h).eq_of_lt_of_lt hi hj

theorem update_slot (hi : i < N) (hp : p < N) (v : Option α) :
    update items ((r + p) % N) v ((r + i) % N) =
      if i = p then v else items ((r + i) % N) := by
  rw [update_apply]
  exact if_congr (slot_eq_iff hi hp) rfl rfl

theorem eraseIdx_set_next {b : α} (hb : l[p + 1]? = some b) :
    (l.set p b).eraseIdx (p + 1) = l.eraseIdx p := by
  refine List.ext_getElem? fun i => ?_
  have hp : p < l.length := by
    have := (List.getElem?_eq_some_iff.mp hb).1
    omega
  simp only [List.getElem?_eraseIdx, List.getElem?_set]
  grind

theorem pred_slot (hr : r < N) : (r + N - 1) % N = (r + (N - 1)) % N := by
  rw [Nat.add_sub_assoc (by omega)]

namespace RingDeque

variable (h : RingDeque N items r l)

include h

theorem empty_behind (hl : l.length < N) : items ((r + l.length) % N) = none := by
  rw [h.get _ hl]
  exact List.getElem?_eq_none (Nat.le_refl _)

theorem concat (hl : l.length < N) :
    RingDeque N (update items ((r + l.length) % N) (some a)) r (l ++ [a]) := by
  refine ⟨h.lt, by simpa using hl, fun i hi => ?_⟩
  rw [update_slot hi hl, h.get i hi]
  split
  · next heq => rw [heq, List.getElem?_concat_length]
  · next hne =>
    rcases Nat.lt_or_ge i l.length with hlt | hge
    · rw [List.getElem?_append_left hlt]
    · rw [List.getElem?_eq_none hge, List.getElem?_eq_none (by simp; omega)]

theorem set (hp : p < l.length) :
    RingDeque N (update items ((r + p) % N) (some a)) r (l.set p a) := by
  have hle := h.length_le
  refine ⟨h.lt, by simpa using hle, fun i hi => ?_⟩
  rw [update_slot hi (by omega), h.get i hi, List.getElem?_set]
  by_cases hip : i = p
  · simp [hip, hp]
  · rw [if_neg hip, if_neg (Ne.symm hip)]

theorem dropLast (hl : l ≠ []) :
    RingDeque N (update items ((r + (l.length - 1)) % N) none) r l.dropLast := by
  have hle := h.length_le
  have hpos := List.length_pos_iff.mpr hl
  refine ⟨h.lt, by simp; omega, fun i hi => ?_⟩
  rw [update_slot hi (by omega), h.get i hi, List.getElem?_dropLast]
  split
  · next heq => rw [if_neg (by omega)]
  · split
    · rfl
    · exact List.getElem?_eq_none (by omega)

theorem tail {t : List α} (hl : l = a :: t) :
    items r = some a ∧ RingDeque N (update items r none) ((r + 1) % N) t := by
  subst hl
  have hr : (r + 0) % N = r := Nat.mod_eq_of_lt h.lt
  have hle := h.length_le
  have hN : 0 < N := Nat.zero_lt_of_lt h.lt
  rw [List.length_cons] at hle
  refine ⟨?_, Nat.mod_lt _ hN, by omega, fun i hi => ?_⟩
  · have h₀ := h.get 0 hN
    rwa [hr] at h₀
  · rw [Nat.mod_add_mod, Nat.add_assoc, Nat.add_comm 1]
    nth_rewrite 1 [← hr]
    rcases Nat.lt_or_ge (i + 1) N with hlt | hge
    · rw [update_slot hlt hN, if_neg (by omega), h.get _ hlt, List.getElem?_cons_succ]
    · have hlast : i + 1 = N := by omega
      rw [hlast, Nat.add_mod_right, hr, Nat.mod_eq_of_lt h.lt, update_self,
        List.getElem?_eq_none (by omega)]

theorem cons (hl : l.length < N) : items ((r + N - 1) % N) = none ∧
    RingDeque N (update items ((r + N - 1) % N) (some a)) ((r + N - 1) % N) (a :: l) := by
  have hN : 0 < N := Nat.zero_lt_of_lt h.lt
  have hpred := pred_slot h.lt
  refine ⟨?_, Nat.mod_lt _ hN, by simpa using hl, fun i hi => ?_⟩
  · rw [hpred, h.get _ (by omega)]
    exact List.getElem?_eq_none (by omega)
  · cases i with
    | zero => rw [Nat.add_zero, Nat.mod_mod, update_self, List.getElem?_cons_zero]
    | succ i =>
      have hslot : ((r + N - 1) % N + (i + 1)) % N = (r + i) % N := by
        rw [Nat.mod_add_mod, show r + N - 1 + (i + 1) = r + i + N by omega, Nat.add_mod_right]
      rw [hslot, hpred, update_slot (by omega) (by omega), if_neg (by omega), h.get i (by omega),
        List.getElem?_cons_succ]

end RingDeque

end OpenAir

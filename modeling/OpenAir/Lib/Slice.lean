import Mathlib.Data.List.Basic

/-! Memory as a function from positions, and the strings that lie in it. -/

namespace OpenAir

open List

variable {α : Type*} {mem : Nat → α} {pos m n : Nat}

def slice (mem : Nat → α) (pos n : Nat) : List α := (List.range n).map fun i => mem (pos + i)

@[simp] theorem length_slice : (slice mem pos n).length = n := by simp [slice]

theorem slice_add : slice mem pos (m + n) = slice mem pos m ++ slice mem (pos + m) n := by
  simp only [slice, range_add, map_append, map_map]
  congr 1
  refine map_congr_left fun i _ => ?_
  simp [Nat.add_assoc]

theorem slice_succ : slice mem pos (n + 1) = mem pos :: slice mem (pos + 1) n := by
  rw [Nat.add_comm, slice_add]
  rfl

def Holds (mem : Nat → α) (pos : Nat) (l : List α) : Prop := slice mem pos l.length = l

namespace Holds

variable {l l' : List α} {a : α}

theorem append_iff : Holds mem pos (l ++ l') ↔ Holds mem pos l ∧ Holds mem (pos + l.length) l' := by
  unfold Holds
  rw [length_append, slice_add]
  constructor
  · intro h
    exact append_inj h length_slice
  · rintro ⟨h, h'⟩
    rw [h, h']

theorem cons_iff : Holds mem pos (a :: l) ↔ mem pos = a ∧ Holds mem (pos + 1) l := by
  unfold Holds
  rw [length_cons, slice_succ, List.cons.injEq]

theorem get (h : Holds mem pos l) {i : Nat} (hi : i < l.length) : mem (pos + i) = l[i] := by
  have hget := getElem_of_eq h (by rwa [length_slice])
  simpa [slice] using hget

theorem of_getElem? (h : ∀ i < l.length, l[i]? = some (mem i)) : Holds mem 0 l := by
  refine ext_getElem length_slice fun i _ hi => ?_
  have hget := h i hi
  rw [List.getElem?_eq_getElem hi] at hget
  simpa [slice] using (Option.some.inj hget).symm

theorem getD (l : List α) (a : α) : Holds (fun i => l.getD i a) 0 l := by
  refine of_getElem? fun i hi => ?_
  rw [getD_eq_getElem?_getD, List.getElem?_eq_getElem hi, Option.getD_some]

end Holds

end OpenAir

import Mathlib.Data.Nat.ModEq
import Mathlib.Logic.Function.Basic
import OpenAir.Lib.Bits

/-! Byte-addressed memory, and the copying of an item into it byte by byte. -/

namespace OpenAir

open Function List

abbrev Memory := Nat → Byte

namespace Memory

variable {m : Memory} {p n a : Nat} {b : Byte} {src : List Byte}

def read (m : Memory) (p n : Nat) : List Byte := (List.range n).map fun j => m (p + j)

@[simp] theorem length_read : (m.read p n).length = n := by simp [read]

theorem read_succ : m.read p (n + 1) = m.read p n ++ [m (p + n)] := by
  simp [read, range_succ]

theorem read_update (h : ∀ j < n, p + j ≠ a) : read (update m a b) p n = m.read p n := by
  refine map_congr_left fun j hj => ?_
  exact update_of_ne (h j (mem_range.mp hj)) b m

theorem read_copy (h : m.read p n = src.take n) (hn : src[n]? = some b) :
    read (update m (p + n) b) p (n + 1) = src.take (n + 1) := by
  rw [read_succ, read_update (fun j hj => by omega), h, update_self, take_add_one, hn]
  rfl

theorem cell_ne {i i' c j j' : Nat} (h : i ≠ i') (hj : j < c) (hj' : j' < c) :
    i * c + j ≠ i' * c + j' := by
  intro heq
  have hdiv : (i * c + j) / c = (i' * c + j') / c := by rw [heq]
  rw [Nat.mul_comm i, Nat.mul_comm i', Nat.mul_add_div (by omega), Nat.mul_add_div (by omega),
    Nat.div_eq_of_lt hj, Nat.div_eq_of_lt hj'] at hdiv
  exact h hdiv

theorem read_update_cell {i i' c j : Nat} (h : i ≠ i') (hn : n ≤ c) (hj : j < c) :
    read (update m (i * c + j) b) (i' * c) n = m.read (i' * c) n :=
  read_update fun _ hk => cell_ne h.symm (by omega) hj

theorem foldl_update {g : Memory → Nat → Byte} {l : List Nat} (hnodup : l.Nodup)
    (hg : ∀ m m' a, a ∈ l → (∀ q, q = a ∨ q ∉ l → m q = m' q) → g m a = g m' a) :
    l.foldl (fun m a => update m a (g m a)) m p = if p ∈ l then g m p else m p := by
  induction l generalizing m with
  | nil => rfl
  | cons a l ih =>
    obtain ⟨hal, hnodup⟩ := nodup_cons.mp hnodup
    rw [foldl_cons, ih hnodup]
    · by_cases hpl : p ∈ l
      · rw [if_pos hpl, if_pos (mem_cons_of_mem a hpl)]
        refine hg _ _ p (mem_cons_of_mem a hpl) fun q hq => update_of_ne ?_ _ _
        rintro rfl
        rcases hq with rfl | hq
        · exact hal hpl
        · exact hq mem_cons_self
      · rw [if_neg hpl]
        by_cases hpa : p = a
        · subst hpa
          rw [update_self, if_pos mem_cons_self]
        · rw [update_of_ne hpa, if_neg (by simp [hpa, hpl])]
    · intro m m' b hb hsame
      refine hg m m' b (mem_cons_of_mem a hb) fun q hq => hsame q ?_
      exact hq.imp_right fun h hql => h (mem_cons_of_mem a hql)

end Memory

end OpenAir

import Mathlib

/-! Sizes counted by keys, and pieces of an interval. -/

namespace OpenAir

open Finset

section Tally

variable {α κ : Type*} [DecidableEq κ] (key : α → κ) (size : α → Nat)

def tally (l : List α) (k : κ) : Nat := ((l.filter fun a => key a = k).map size).sum

variable {key size} {l : List α} {a : α} {k : κ} {ks : List κ}

theorem tally_concat : tally key size (l ++ [a]) k =
    tally key size l k + if key a = k then size a else 0 := by
  by_cases h : key a = k <;> simp [tally, List.filter_append, h]

theorem tally_eq_zero (h : ∀ a ∈ l, key a ≠ k) : tally key size l k = 0 := by
  rw [tally, List.filter_eq_nil_iff.mpr (by simpa using h)]
  rfl

theorem tally_of_nodup (hl : (l.map key).Nodup) (ha : a ∈ l) :
    tally key size l (key a) = size a := by
  induction l with
  | nil => cases ha
  | cons b l ih =>
    rw [List.map_cons, List.nodup_cons] at hl
    rcases List.mem_cons.mp ha with rfl | ha
    · have hrest : tally key size l (key a) = 0 :=
        tally_eq_zero fun b hb hkey => hl.1 (hkey ▸ List.mem_map_of_mem hb)
      rw [tally] at hrest
      simp [tally, hrest]
    · have hne : key b ≠ key a := fun heq => hl.1 (heq ▸ List.mem_map_of_mem ha)
      rw [tally, List.filter_cons_of_neg (by simpa using hne)]
      exact ih hl.2 ha

theorem sum_tally_concat_of_notMem (h : key a ∉ ks) :
    (ks.map (tally key size (l ++ [a]))).sum = (ks.map (tally key size l)).sum := by
  refine congrArg List.sum (List.map_congr_left fun k hk => ?_)
  have hne : key a ≠ k := fun heq => h (heq ▸ hk)
  rw [tally_concat, if_neg hne, Nat.add_zero]

theorem sum_tally_concat_of_mem (hks : ks.Nodup) (h : key a ∈ ks) :
    (ks.map (tally key size (l ++ [a]))).sum = (ks.map (tally key size l)).sum + size a := by
  induction ks with
  | nil => cases h
  | cons k ks ih =>
    obtain ⟨hk, hks⟩ := List.nodup_cons.mp hks
    rw [List.map_cons, List.map_cons, List.sum_cons, List.sum_cons, tally_concat]
    by_cases heq : key a = k
    · rw [if_pos heq, sum_tally_concat_of_notMem (heq ▸ hk)]
      omega
    · rw [if_neg heq, ih hks ((List.mem_cons.mp h).resolve_left heq)]
      omega

omit [DecidableEq κ] in
theorem eq_of_sum_map_eq {f g : κ → Nat} (hle : ∀ k ∈ ks, f k ≤ g k)
    (hsum : (ks.map f).sum = (ks.map g).sum) : ∀ k ∈ ks, f k = g k := by
  intro k hk
  refine (hle k hk).antisymm (Nat.le_of_not_lt fun hlt => ?_)
  exact (List.sum_lt_sum f g hle ⟨k, hk, hlt⟩).ne hsum

end Tally

section Pieces

variable {α : Type*} (start len : α → Nat)

def piece (a : α) : Finset Nat := Ico (start a) (start a + len a)

def pieces (l : List α) : Finset Nat := l.foldr (fun a s => piece start len a ∪ s) ∅

variable {start len} {l : List α}

theorem mem_pieces {i : Nat} : i ∈ pieces start len l ↔ ∃ a ∈ l, i ∈ piece start len a := by
  induction l with
  | nil => simp [pieces]
  | cons a l ih =>
    rw [pieces, List.foldr_cons, mem_union, ← pieces, ih]
    simp

theorem card_pieces (h : l.Pairwise fun a b => Disjoint (piece start len a) (piece start len b)) :
    (pieces start len l).card = (l.map len).sum := by
  induction l with
  | nil => rfl
  | cons a l ih =>
    obtain ⟨ha, hl⟩ := List.pairwise_cons.mp h
    have hdisj : Disjoint (piece start len a) (pieces start len l) := by
      refine disjoint_left.mpr fun i hi hi' => ?_
      obtain ⟨b, hb, hib⟩ := mem_pieces.mp hi'
      exact disjoint_left.mp (ha b hb) hi hib
    rw [pieces, List.foldr_cons, ← pieces, card_union_of_disjoint hdisj, ih hl]
    simp [piece]

variable {whole : Finset Nat}
  (h : l.Pairwise fun a b => Disjoint (piece start len a) (piece start len b))
  (hin : ∀ a ∈ l, piece start len a ⊆ whole)

include hin in
theorem pieces_subset : pieces start len l ⊆ whole := by
  intro i hi
  obtain ⟨a, ha, hia⟩ := mem_pieces.mp hi
  exact hin a ha hia

include h hin

theorem sum_len_le_card : (l.map len).sum ≤ whole.card :=
  card_pieces h ▸ card_le_card (pieces_subset hin)

theorem exists_mem_piece_of_sum_eq (hsum : (l.map len).sum = whole.card) {i : Nat}
    (hi : i ∈ whole) : ∃ a ∈ l, i ∈ piece start len a := by
  have heq : pieces start len l = whole :=
    eq_of_subset_of_card_le (pieces_subset hin) (by rw [card_pieces h, hsum])
  exact mem_pieces.mp (heq ▸ hi)

end Pieces

end OpenAir

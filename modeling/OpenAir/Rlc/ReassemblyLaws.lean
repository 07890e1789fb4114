import OpenAir.Rlc.Reassembly
import OpenAir.Rlc.RxManager

namespace OpenAir.Rlc

open RxManager

def Pdu.stop (p : Pdu) : Nat := p.so + p.size

def HoldsByte (l : List Pdu) (b : Nat) : Prop := ∃ p ∈ l, p.so ≤ b ∧ b < p.stop

variable {p q : Pdu} {l : List Pdu}

theorem mem_insertPdu : p ∈ insertPdu q l ↔ p = q ∨ p ∈ l := by
  induction l with
  | nil => simp [insertPdu]
  | cons r l ih =>
    rw [insertPdu]
    split
    · simp
    · rw [List.mem_cons, ih, List.mem_cons]
      tauto

theorem insertPdu_perm (q : Pdu) (l : List Pdu) : (insertPdu q l).Perm (q :: l) := by
  induction l with
  | nil => rfl
  | cons r l ih =>
    rw [insertPdu]
    split
    · rfl
    · exact (ih.cons r).trans (List.Perm.swap q r l)

theorem insertPdu_ne_nil (q : Pdu) (l : List Pdu) : insertPdu q l ≠ [] :=
  List.ne_nil_of_mem (mem_insertPdu.mpr (.inl rfl))

theorem sorted_insertPdu (h : l.Pairwise fun p q => p.so ≤ q.so) :
    (insertPdu q l).Pairwise fun p q => p.so ≤ q.so := by
  induction l with
  | nil => simp [insertPdu]
  | cons r l ih =>
    rw [List.pairwise_cons] at h
    rw [insertPdu]
    split
    · next hgt =>
      refine List.pairwise_cons.mpr ⟨?_, List.pairwise_cons.mpr h⟩
      intro x hx
      rcases List.mem_cons.mp hx with rfl | hx
      · omega
      · have := h.1 x hx
        omega
    · next hle =>
      refine List.pairwise_cons.mpr ⟨?_, ih h.2⟩
      intro x hx
      rcases mem_insertPdu.mp hx with rfl | hx
      · omega
      · exact h.1 x hx

theorem fullFrom_mono {b b' : Int} (hb : b ≤ b') (h : fullFrom l b) :
    fullFrom l b' := by
  induction l generalizing b b' with
  | nil => simp [fullFrom] at h
  | cons r l ih =>
    rw [fullFrom] at h ⊢
    split at h
    · cases h
    · rw [if_neg (by omega)]
      split
      · rfl
      · next hl =>
        rw [if_neg hl] at h
        exact ih (by omega) h

theorem fullFrom_insertPdu {b : Int} (h : fullFrom l b) :
    fullFrom (insertPdu q l) b := by
  induction l generalizing b with
  | nil => simp [fullFrom] at h
  | cons r l ih =>
    have hr : ¬ (r.so : Int) > b + 1 := by
      intro hr
      simp [fullFrom, hr] at h
    rw [insertPdu]
    split
    · next hgt =>
      rw [fullFrom, if_neg (by omega)]
      split
      · rfl
      · exact fullFrom_mono (by omega) h
    · rw [fullFrom, if_neg hr] at h ⊢
      split
      · rfl
      · next hl =>
        rw [if_neg hl] at h
        exact ih h

def clearData (p : Pdu) : Pdu := { p with data := none }

theorem fullFrom_map_clearData (l : List Pdu) (b : Int) :
    fullFrom (l.map clearData) b = fullFrom l b := by
  induction l generalizing b with
  | nil => rfl
  | cons r l ih => simp [fullFrom, clearData, ih]

theorem head_so_of_fullFrom {l : List Pdu} (h : fullFrom (q :: l) (-1)) : q.so = 0 := by
  by_contra hq
  rw [fullFrom, if_pos (by omega)] at h
  cases h

theorem exists_isLast_of_fullFrom {b : Int} (h : fullFrom l b) :
    ∃ q ∈ l, q.isLast ∧
      ∀ i : Nat, b < i → i < q.so + q.size → ∃ p ∈ l, p.so ≤ i ∧ i < p.so + p.size := by
  induction l generalizing b with
  | nil => simp [fullFrom] at h
  | cons r l ih =>
    rw [fullFrom] at h
    split at h
    · cases h
    · next hr =>
      split at h
      · next hl =>
        exact ⟨r, by simp, hl, fun i hi hi' => ⟨r, by simp, by omega, hi'⟩⟩
      · obtain ⟨q, hq, hlast, hcov⟩ := ih h
        refine ⟨q, by simp [hq], hlast, fun i hi hi' => ?_⟩
        by_cases hir : i < r.so + r.size
        · exact ⟨r, by simp, by omega, hir⟩
        · obtain ⟨p, hp, hp'⟩ := hcov i (by omega) hi'
          exact ⟨p, by simp [hp], hp'⟩

theorem processed_map_clearData (h : l ≠ []) : processed (l.map clearData) := by
  cases l with
  | nil => exact absurd rfl h
  | cons r l => rfl

theorem processed_insertPdu_of_head (hq : q.data ≠ none)
    (hhead : ∀ r ∈ l.head?, r.data = none → r.so = 0) :
    processed (insertPdu q l) = processed l := by
  cases l with
  | nil => cases hd : q.data <;> simp_all [insertPdu, processed]
  | cons r l =>
    rw [insertPdu]
    split
    · next hgt =>
      cases hd : q.data <;> cases hd' : r.data <;> simp_all [processed]
    · rfl

theorem processed_insertPdu (hq : q.data ≠ none)
    (hfull : processed l → fullFrom l (-1)) :
    processed (insertPdu q l) = processed l := by
  refine processed_insertPdu_of_head hq fun r hr hd => ?_
  obtain ⟨l', rfl⟩ := List.head?_eq_some_iff.mp hr
  exact head_so_of_fullFrom (hfull (by simp [processed, hd]))

end OpenAir.Rlc

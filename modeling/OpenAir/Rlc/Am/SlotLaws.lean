import OpenAir.Rlc.Am.Window
import OpenAir.Rlc.ReassemblyLaws

namespace OpenAir.Rlc.Am

open RxManager Rx

variable {p q : Pdu} {l : List Pdu}

structure PduWf (M n : Nat) (q : Pdu) : Prop where
  sn : q.sn = n % M
  size_pos : 0 < q.size
  so_lt : q.so < 2 ^ 16
  first : q.isFirst = true ↔ q.so = 0
  data : ∃ d, q.data = some d ∧ d.length = q.size

namespace SlotWf

variable {M n : Nat}

theorem nil : SlotWf M n [] := ⟨by simp, by simp, by simp, by simp, by simp, by simp, by simp⟩

theorem insertPdu (h : SlotWf M n l) (hfull : processed l = fullFrom l (-1)) (hq : PduWf M n q) :
    SlotWf M n (insertPdu q l) := by
  obtain ⟨d, hd, hlen⟩ := hq.data
  have hproc := processed_insertPdu (l := l) (q := q) (by simp [hd]) (fun h => hfull ▸ h)
  refine ⟨?_, sorted_insertPdu h.sorted, ?_, ?_, ?_, ?_, ?_⟩
  · intro p hp
    rcases mem_insertPdu.mp hp with rfl | hp
    · exact hq.sn
    · exact h.sn p hp
  · intro p hp
    rcases mem_insertPdu.mp hp with rfl | hp
    · exact hq.size_pos
    · exact h.size_pos p hp
  · intro p hp
    rcases mem_insertPdu.mp hp with rfl | hp
    · exact hq.so_lt
    · exact h.so_lt p hp
  · intro p hp
    rcases mem_insertPdu.mp hp with rfl | hp
    · exact hq.first
    · exact h.first p hp
  · intro p hp d' hd'
    rcases mem_insertPdu.mp hp with rfl | hp
    · rw [hd] at hd'
      cases hd'
      exact hlen
    · exact h.data p hp d' hd'
  · intro hpr p hp
    rcases mem_insertPdu.mp hp with rfl | hp
    · simp [hd]
    · exact h.held (hproc ▸ hpr) p hp

theorem clear (h : SlotWf M n l) : SlotWf M n (l.map clearData) := by
  refine ⟨?_, ?_, ?_, ?_, ?_, ?_, ?_⟩
  · simpa [clearData] using h.sn
  · rw [List.pairwise_map]
    exact h.sorted
  · simpa [clearData] using h.size_pos
  · simpa [clearData] using h.so_lt
  · simpa [clearData] using h.first
  · simp [clearData]
  · intro hp p hpl
    rw [processed_map_clearData (by rintro rfl; simp at hpl)] at hp
    cases hp

end SlotWf

def Pdu.Has (p : Pdu) (b : Nat) : Prop := p.so ≤ b ∧ b < p.so + p.size

theorem coveredBy_iff (hl : l.Pairwise fun p q => p.so ≤ q.so) (so size : Nat) :
    coveredBy l so size ↔ ∀ b, so ≤ b → b < so + size → ∃ p ∈ l, Pdu.Has p b := by
  induction l generalizing so size with
  | nil =>
    simp only [coveredBy, List.not_mem_nil, false_and, exists_false, imp_false, decide_eq_true_eq]
    exact ⟨fun h b _ _ => by omega, fun h => by have := h so; omega⟩
  | cons p l ih =>
    obtain ⟨hp, hl⟩ := List.pairwise_cons.mp hl
    -- a range whose first byte lies before `p` lies before all that follows too
    have hbefore (n : Nat) (h : so < p.so) (hn : 0 < n) (l' : List Pdu)
        (hl' : ∀ q ∈ l', p.so ≤ q.so) : ¬∀ b, so ≤ b → b < so + n → ∃ q ∈ l', Pdu.Has q b := by
      intro hcov
      obtain ⟨q, hq, hle, -⟩ := hcov so (by omega) (by omega)
      have := hl' q hq
      omega
    have hall : ∀ q ∈ p :: l, p.so ≤ q.so := by simpa using hp
    rw [coveredBy]
    split
    · exact ⟨fun _ b _ _ => by omega, fun _ => rfl⟩
    next hsize =>
    split
    next hfront =>
      rw [ih hl, show so + (p.size - (so - p.so)) = p.so + p.size by omega]
      constructor
      · intro h b h₀ h₁
        by_cases hb : b < p.so + p.size
        · exact ⟨p, List.mem_cons_self .., by omega, hb⟩
        · obtain ⟨q, hq, hhas⟩ := h b (by omega) (by omega)
          exact ⟨q, List.mem_cons_of_mem _ hq, hhas⟩
      · intro h b h₀ h₁
        obtain ⟨q, hq, hhas⟩ := h b (by omega) (by omega)
        rcases List.mem_cons.mp hq with rfl | hq
        · exact absurd hhas.2 (by omega)
        · exact ⟨q, hq, hhas⟩
    next hfront =>
    split
    next hback =>
      rw [ih hl]
      exact iff_of_false (hbefore _ (by omega) (by omega) l hp)
        (hbefore _ (by omega) (by omega) _ hall)
    · rw [ih hl]
      by_cases hlt : so < p.so
      · exact iff_of_false (hbefore _ hlt (by omega) l hp) (hbefore _ hlt (by omega) _ hall)
      · constructor
        · intro h b h₀ h₁
          obtain ⟨q, hq, hhas⟩ := h b h₀ h₁
          exact ⟨q, List.mem_cons_of_mem _ hq, hhas⟩
        · intro h b h₀ h₁
          obtain ⟨q, hq, hhas⟩ := h b h₀ h₁
          rcases List.mem_cons.mp hq with rfl | hq
          · exact absurd hhas.2 (by omega)
          · exact ⟨q, hq, hhas⟩

theorem segmentAlreadyReceived_iff (e : Rx) (sn so size : Nat)
    (hl : (e.rx.getPduFromSn sn).Pairwise fun p q => p.so ≤ q.so) :
    e.segmentAlreadyReceived sn so size = true ↔
      ∀ b, so ≤ b → b < so + size → ∃ p ∈ e.rx.getPduFromSn sn, Pdu.Has p b :=
  coveredBy_iff hl so size

theorem segmentAlreadyReceived_overlap :
    let e : Rx := { rx := (((RxManager.new 1).addPdu (newPdu 0 3 false false [4, 5, 6])).addPdu
      (newPdu 0 1 false false [2, 3, 4])), rxMaxsize := 0 }
    ∀ b, 2 ≤ b → b < 2 + 4 → ∃ p ∈ e.rx.getPduFromSn 0, Pdu.Has p b :=
  (segmentAlreadyReceived_iff _ 0 2 4 (by decide)).mp (by decide)

end OpenAir.Rlc.Am

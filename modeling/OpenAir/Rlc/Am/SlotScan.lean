import OpenAir.Rlc.Am.SlotLaws

namespace OpenAir.Rlc

open List

def Received (l : List Pdu) (b : Nat) : Prop :=
  HoldsByte l b ∨ ∃ p ∈ l, p.isLast = true ∧ p.stop ≤ b

def Passed (l : List Pdu) (b : Nat) : Prop :=
  HoldsByte l b ∨ ((∃ p ∈ l, p.isLast = true) ∧ ∀ q ∈ l, q.stop ≤ b)

def EndsLast (l : List Pdu) : Prop :=
  ∀ q ∈ l, ∀ b < q.so, ¬ HoldsByte l b → ∀ p ∈ l, p.isLast = true → b < p.stop

theorem Passed.received {l : List Pdu} {b : Nat} (h : Passed l b) : Received l b := by
  rcases h with h | ⟨⟨p, hp, hlast⟩, hall⟩
  · exact .inl h
  · exact .inr ⟨p, hp, hlast, hall p hp⟩

namespace Am

structure Scanning (L : List Pdu) (s₀ : Nat) (pre : List Pdu) (cur : Pdu) (rest : List Pdu)
    (maxSo : Nat) (lastReached : Bool) : Prop where
  list : L = pre ++ cur :: rest
  start : s₀ ≤ cur.so
  before : ∀ q ∈ pre, q.stop ≤ max (maxSo + 1) cur.so
  held : ∀ b, s₀ ≤ b → b < max (maxSo + 1) cur.so → HoldsByte L b
  reached : lastReached = true → ∃ p ∈ L, p.isLast = true
  unreached : lastReached = false → EndsLast L → ∀ p ∈ pre, p.isLast = false

structure ScanGap (L : List Pdu) (s₀ maxSo : Nat) (next : Pdu) (rest : List Pdu) : Prop where
  list : ∃ pre, L = pre ++ next :: rest ∧ ∀ q ∈ pre, q.stop ≤ maxSo + 1
  start : s₀ ≤ maxSo
  gap : maxSo + 1 < next.so
  held : ∀ b, s₀ ≤ b → b ≤ maxSo → HoldsByte L b

structure ScanDone (L : List Pdu) (s₀ : Nat) (cur : Pdu) (maxSo : Nat) (lastReached : Bool) :
    Prop where
  mem : cur ∈ L
  start : s₀ ≤ maxSo
  before : ∀ q ∈ L, q.stop ≤ maxSo + 1
  held : ∀ b, s₀ ≤ b → b ≤ maxSo → HoldsByte L b
  reached : lastReached = true → ∃ p ∈ L, p.isLast = true
  unreached : lastReached = false → EndsLast L → ∀ p ∈ L, p.isLast = false

variable {L pre rest : List Pdu} {s₀ maxSo : Nat} {cur : Pdu} {lastReached : Bool}

namespace Scanning

theorem of_append (hpre : ∀ q ∈ pre, q.stop < cur.so) (hpos : 0 < cur.size)
    (hsorted : (pre ++ cur :: rest).Pairwise fun p q => p.so ≤ q.so) :
    Scanning (pre ++ cur :: rest) cur.so pre cur rest 0 false := by
  refine ⟨rfl, le_rfl, fun q hq => ?_, fun b hb hlt => ?_, nofun, fun _ hends p hp => ?_⟩
  · have := hpre q hq
    omega
  · exact ⟨cur, by simp, hb, by unfold Pdu.stop; omega⟩
  · -- the byte before `cur` is missing, and would lie behind the end of the SDU
    have hlt := hpre p hp
    by_contra hlast
    have hmissing : ¬ HoldsByte (pre ++ cur :: rest) (cur.so - 1) := by
      rintro ⟨q, hq, hso, hstop⟩
      rcases mem_append.mp hq with hq | hq
      · have := hpre q hq
        omega
      · have hle : cur.so ≤ q.so := by
          rcases mem_cons.mp hq with rfl | hq
          · exact le_rfl
          · exact (pairwise_cons.mp (pairwise_append.mp hsorted).2.1).1 q hq
        omega
    have :=
      hends cur (by simp) (cur.so - 1) (by omega) hmissing p (by simp [hp]) (by simpa using hlast)
    omega

section

variable (h : Scanning L s₀ pre cur rest maxSo lastReached) (hpos : 0 < cur.size)
include h hpos

theorem held_max : ∀ b, s₀ ≤ b → b ≤ max maxSo (cur.so + cur.size - 1) → HoldsByte L b := by
  intro b hb hle
  by_cases hlt : b < max (maxSo + 1) cur.so
  · exact h.held b hb hlt
  · exact ⟨cur, by simp [h.list], by omega, by unfold Pdu.stop; omega⟩

theorem before_max : ∀ q ∈ pre ++ [cur], q.stop ≤ max maxSo (cur.so + cur.size - 1) + 1 := by
  intro q hq
  rcases mem_append.mp hq with hq | hq
  · have := h.before q hq
    omega
  · rw [mem_singleton.mp hq, Pdu.stop]
    omega

omit hpos in
theorem reached_or (hlast : (lastReached || cur.isLast)) : ∃ p ∈ L, p.isLast := by
  rcases Bool.or_eq_true_iff.mp hlast with hr | hc
  · exact h.reached hr
  · exact ⟨cur, by simp [h.list], hc⟩

omit hpos in
theorem unreached_or (hlast : (lastReached || cur.isLast) = false) (hends : EndsLast L) :
    ∀ p ∈ pre ++ [cur], p.isLast = false := by
  obtain ⟨hr, hc⟩ := Bool.or_eq_false_iff.mp hlast
  intro p hp
  rcases mem_append.mp hp with hp | hp
  · exact h.unreached hr hends p hp
  · rw [mem_singleton.mp hp]
    exact hc

end

end Scanning

section

variable (h : Scanning L s₀ pre cur rest maxSo lastReached)
  (hsorted : L.Pairwise fun p q => p.so ≤ q.so) (hpos : ∀ p ∈ L, 0 < p.size)
include h hpos

theorem Scanning.done (hrest : rest = []) :
    ScanDone L s₀ cur (max maxSo (cur.so + cur.size - 1)) (lastReached || cur.isLast) := by
  have hcur := hpos cur (by simp [h.list])
  have hlist : L = pre ++ [cur] := hrest ▸ h.list
  have hstart := h.start
  exact ⟨by simp [hlist], by omega, hlist ▸ h.before_max hcur, h.held_max hcur, h.reached_or,
    fun hr he => hlist ▸ h.unreached_or hr he⟩

theorem Scanning.gap {next : Pdu} {rest' : List Pdu} (hrest : rest = next :: rest')
    (hgap : max maxSo (cur.so + cur.size - 1) + 1 < next.so) :
    ScanGap L s₀ (max maxSo (cur.so + cur.size - 1)) next rest' := by
  have hcur := hpos cur (by simp [h.list])
  have hstart := h.start
  exact ⟨⟨pre ++ [cur], by simp [h.list, hrest], h.before_max hcur⟩, by omega, hgap,
    h.held_max hcur⟩

include hsorted in
theorem Scanning.step {next : Pdu} {rest' : List Pdu} (hrest : rest = next :: rest')
    (hle : next.so ≤ max maxSo (cur.so + cur.size - 1) + 1) :
    Scanning L s₀ (pre ++ [cur]) next rest' (max maxSo (cur.so + cur.size - 1))
      (lastReached || cur.isLast) := by
  have hcur := hpos cur (by simp [h.list])
  have hstart := h.start
  have hlist : L = (pre ++ [cur]) ++ next :: rest' := by simp [h.list, hrest]
  refine ⟨hlist, ?_, ?_, ?_, h.reached_or, h.unreached_or⟩
  · have : cur.so ≤ next.so := by
      rw [h.list, hrest] at hsorted
      exact (pairwise_cons.mp (pairwise_append.mp hsorted).2.1).1 next (by simp)
    omega
  · intro q hq
    have := h.before_max hcur q hq
    omega
  · intro b hb hlt
    exact h.held_max hcur b hb (by omega)

end

namespace ScanGap

variable {next : Pdu} (h : ScanGap L s₀ maxSo next rest)
  (hsorted : L.Pairwise fun p q => p.so ≤ q.so)
include h hsorted

theorem missing {b : Nat} (hb : maxSo < b) (hlt : b < next.so) : ¬ HoldsByte L b := by
  rintro ⟨q, hq, hso, hstop⟩
  obtain ⟨pre, hlist, hpre⟩ := h.list
  rw [hlist] at hq hsorted
  rcases mem_append.mp hq with hq | hq
  · have := hpre q hq
    omega
  · rcases mem_cons.mp hq with rfl | hq
    · omega
    · have := (pairwise_cons.mp (pairwise_append.mp hsorted).2.1).1 q hq
      omega

end ScanGap

namespace ScanDone

variable (h : ScanDone L s₀ cur maxSo lastReached)
include h

theorem missing {b : Nat} (hb : maxSo < b) : ¬ HoldsByte L b := by
  rintro ⟨q, hq, -, hstop⟩
  have := h.before q hq
  omega

theorem passed (hlast : ∃ p ∈ L, p.isLast) {b : Nat} (hb : s₀ ≤ b) : Passed L b := by
  by_cases hle : b ≤ maxSo
  · exact .inl (h.held b hb hle)
  · refine .inr ⟨hlast, fun q hq => ?_⟩
    have := h.before q hq
    omega

end ScanDone

end Am

end OpenAir.Rlc

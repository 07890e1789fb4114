import Mathlib.Algebra.BigOperators.Intervals
import OpenAir.Rlc.Am.SlotScan
import OpenAir.Rlc.Am.Status

namespace OpenAir.Rlc.Am

variable {c : Config} {e : Rx} {W : Window} {n : Nat}

def Window.cell (c : Config) (W : Window) (n : Nat) : List Pdu :=
  W.slots (if n < W.next + c.windowSize then n else W.next)

theorem Window.cell_of_lt (h : n < W.next + c.windowSize) : W.cell c n = W.slots n := by
  rw [cell, if_pos h]

theorem Rx.Reads.getPduFromSn_cell (h : e.Reads c W) (h₀ : W.next ≤ n)
    (h₁ : n ≤ W.next + c.windowSize) : e.rx.getPduFromSn (n % c.snModulus) = W.cell c n := by
  unfold Window.cell
  split
  · next hlt => exact h.getPduFromSn h₀ hlt
  · rw [show n = W.next + c.windowSize by omega]
    exact h.getPduFromSn_add le_rfl (Nat.lt_add_of_pos_right c.windowSize_pos)

theorem Window.Stores.status_le_end (h : W.Stores c) : W.status ≤ W.next + c.windowSize :=
  h.status_le.trans h.highest_le

theorem Window.mod_inj {m n : Nat} (hm₀ : W.next ≤ m) (hm₁ : m ≤ W.next + c.windowSize)
    (hn₀ : W.next ≤ n) (hn₁ : n ≤ W.next + c.windowSize) :
    m % c.snModulus = n % c.snModulus ↔ m = n := by
  have := c.windowSize_lt
  refine ⟨fun h => ?_, fun h => by rw [h]⟩
  exact Cyclic.mod_injOn hm₀ (by omega) hn₀ (by omega) h

structure Window.Points (c : Config) (W : Window) (n : Nat) (p : Pdu) (l : List Pdu) : Prop where
  next_le : W.next ≤ n
  lt_end : n < W.next + c.windowSize
  le_status : n ≤ W.status
  slot : ∃ pre, W.slots n = pre ++ p :: l ∧ ∀ q ∈ pre, q.stop < p.so

inductive Window.Follows (c : Config) (W : Window) (k : Nat) : List Pdu → Prop
  | nothing (hempty : ∀ j, k ≤ j → j < W.status → W.slots j = []) (hend : W.cell c W.status = [] ∨
      k = W.status + 1) : Follows c W k []
  | slot (hle : k ≤ m) (hempty : ∀ j, k ≤ j → j < m → W.slots j = []) (hp : W.Points c m p l)
      (hslot : W.slots m = p :: l) : Follows c W k (p :: l)
  | around (hstatus : W.status = W.next + c.windowSize) (hk : k = W.status)
      (hslot : W.slots W.next = p :: l) : Follows c W k (p :: l)

structure Window.Gap (W : Window) (n₀ b₀ a s z : Nat) (t : Option Nat) : Prop where
  start : n₀ < a ∨ (n₀ = a ∧ b₀ ≤ s)
  lt_status : a < W.status
  passed : ∀ m b, n₀ ≤ m → (m = n₀ → b₀ ≤ b) → (m < a ∨ (m = a ∧ b < s)) → Passed (W.slots m) b
  le : a ≤ z
  nonempty : a = z → ∀ x, t = some x → s ≤ x
  missing : ∀ m b, a ≤ m → m ≤ z → m < W.status → (m = a → s ≤ b) →
    (m = z → ∀ x, t = some x → b ≤ x) → ¬ HoldsByte (W.slots m) b
  unended : ∀ m, a ≤ m → m ≤ z → m < W.status → (m = z → t = none) → EndsLast (W.slots m) →
    ∀ p ∈ W.slots m, p.isLast = false

/-- Where the walk goes on behind a gap.  In the last case it starts again from the first slot,
which it takes for the one behind the window. -/
inductive Window.GapNext (c : Config) (W : Window) : Nat → Option Nat → List Pdu → Prop
  | finished (hz : z + 1 = W.status) (hend : W.status = W.next + c.windowSize →
      ∀ p l, W.slots W.next = p :: l → p.isFirst = true) : GapNext c W z none []
  | first (hp : W.Points c m p l) (hso : p.so = 0) (hz : z + 1 = m) : GapNext c W z none (p :: l)
  | inside (hp : W.Points c z p l) (hso : 0 < p.so) (hz : z < W.status) :
      GapNext c W z (some (p.so - 1)) (p :: l)
  | around (hstatus : W.status = W.next + c.windowSize) (hslot : W.slots W.next = p :: l)
      (hso : 0 < p.so) : GapNext c W (W.next + c.snModulus) (some (p.so - 1)) (p :: l)

inductive Window.Missing (c : Config) (W : Window) (n₀ b₀ : Nat) : Option MissingData → Prop
  | none (h : ∀ m b, n₀ ≤ m → (m = n₀ → b₀ ≤ b) → m < W.status → Passed (W.slots m) b) :
      Missing c W n₀ b₀ none
  | gap (hg : W.Gap n₀ b₀ a s z t) (hz : z < a + c.snModulus) (hn : W.GapNext c z t l) :
      Missing c W n₀ b₀ (some { snStart := a % c.snModulus, soStart := s
                                snEnd := z % c.snModulus, soEnd := t.getD 0xffff, next := l })

structure Window.Resumes (W : Window) (n₀ b₀ k a s : Nat) : Prop where
  eq : a + 1 = k ∨ (a = k ∧ s = 0)
  start : n₀ < a ∨ (n₀ = a ∧ b₀ ≤ s)
  passed : ∀ m b, n₀ ≤ m → (m = n₀ → b₀ ≤ b) → (m < a ∨ (m = a ∧ b < s)) → Passed (W.slots m) b
  missing : a + 1 = k → ∀ b, s ≤ b → ¬ HoldsByte (W.slots a) b
  unended : a + 1 = k → EndsLast (W.slots a) → ∀ p ∈ W.slots a, p.isLast = false

theorem not_holdsByte_before {p : Pdu} {l : List Pdu} {b : Nat}
    (hsorted : (p :: l).Pairwise fun p q => p.so ≤ q.so) (hb : b < p.so) :
    ¬ HoldsByte (p :: l) b := by
  rintro ⟨q, hq, hso, -⟩
  rcases List.mem_cons.mp hq with rfl | hq
  · omega
  · have := (List.pairwise_cons.mp hsorted).1 q hq
    omega

theorem Window.Resumes.gap {n₀ b₀ k a s z m : Nat} {t : Option Nat} (h : W.Resumes n₀ b₀ k a s)
    (ha : a < W.status) (hle : a ≤ z) (hempty : ∀ j, k ≤ j → j < m → W.slots j = [])
    (hz : z < m ∧ t = none ∨ k ≤ m ∧ z = m ∧ ∃ p l, W.slots m = p :: l ∧
      (p :: l).Pairwise (fun p q => p.so ≤ q.so) ∧ 0 < p.so ∧ t = some (p.so - 1)) :
    W.Gap n₀ b₀ a s z t := by
  have heq := h.eq
  refine ⟨h.start, ha, h.passed, hle, fun haz x hx => ?_, fun j b haj hjz _ hs ht => ?_,
    fun j haj hjz _ ht => ?_⟩
  · rcases hz with ⟨-, rfl⟩ | ⟨hlt, rfl, p, l, hslot, -, hso, rfl⟩
    · cases hx
    · cases hx
      omega
  · by_cases hj : j + 1 = k
    · obtain rfl : j = a := by omega
      exact h.missing hj b (hs rfl)
    · rcases hz with ⟨hzm, -⟩ | ⟨hlt, rfl, p, l, hslot, hsorted, hso, rfl⟩
      · rw [hempty j (by omega) (by omega)]
        simp [HoldsByte]
      · by_cases hjm : j = z
        · subst hjm
          have := ht rfl _ rfl
          rw [hslot]
          exact not_holdsByte_before hsorted (by omega)
        · rw [hempty j (by omega) (by omega)]
          simp [HoldsByte]
  · by_cases hj : j + 1 = k
    · obtain rfl : j = a := by omega
      exact h.unended hj
    · rcases hz with ⟨hzm, -⟩ | ⟨hlt, rfl, p, l, hslot, hsorted, hso, rfl⟩
      · rw [hempty j (by omega) (by omega)]
        simp
      · by_cases hjm : j = z
        · cases ht hjm
        · rw [hempty j (by omega) (by omega)]
          simp

section

variable (h : e.Reads c W) (hW : W.Stores c)
include h hW

theorem Rx.Reads.outOfReportingWindow {m : Nat} (h₀ : W.next ≤ m)
    (h₁ : m < W.next + c.snModulus) :
    e.outOfReportingWindow c (m % c.snModulus) = decide (W.status ≤ m) := by
  have hend := hW.status_le_end
  have hlt := c.windowSize_lt
  rw [Rx.outOfReportingWindow, h.highestStatus,
    h.snCompareRx hW.next_le (by omega) h₀ h₁, decide_eq_decide]
  omega

omit hW in
theorem Rx.Reads.beforeHighestStatus (hpos : 0 < W.status) :
    e.beforeHighestStatus c = (W.status - 1) % c.snModulus := by
  rw [Rx.beforeHighestStatus, h.highestStatus, Cyclic.pred_mod hpos c.snModulus_pos]

theorem Rx.Reads.firstStored (k : Nat) (h₀ : W.next ≤ n) (h₁ : n ≤ W.status)
    (hk : W.status - n ≤ k) :
    ∃ m, n ≤ m ∧ m ≤ W.status ∧
      e.firstStored c e.rxHighestStatus k (n % c.snModulus) = W.cell c m ∧
      (∀ j, n ≤ j → j < m → W.slots j = []) ∧ (m < W.status → W.slots m ≠ []) := by
  have hend := hW.status_le_end
  induction k generalizing n with
  | zero =>
    have hn : n = W.status := by omega
    exact ⟨n, le_rfl, h₁, h.getPduFromSn_cell h₀ (by omega), by omega, by omega⟩
  | succ k ih =>
    have hiff := Window.mod_inj h₀ (by omega) hW.next_le hend
    rw [Rx.firstStored, h.highestStatus]
    split
    · next hn =>
      rw [hiff] at hn
      exact ⟨n, le_rfl, h₁, h.getPduFromSn_cell h₀ (by omega), by omega, by omega⟩
    · next hn =>
      rw [hiff] at hn
      rw [h.getPduFromSn_cell h₀ (by omega), Window.cell_of_lt (by omega), Cyclic.succ_mod]
      cases hslot : W.slots n with
      | nil =>
        obtain ⟨m, hnm, hm, heq, hempty, hne⟩ := ih (n := n + 1) (by omega) (by omega) (by omega)
        rw [h.highestStatus] at heq
        refine ⟨m, by omega, hm, heq, fun j hj hjm => ?_, hne⟩
        rcases Nat.lt_or_eq_of_le hj with hj | rfl
        · exact hempty j hj hjm
        · exact hslot
      | cons p l =>
        refine ⟨n, le_rfl, h₁, ?_, by omega, fun _ => by simp [hslot]⟩
        rw [Window.cell_of_lt (by omega), hslot]

theorem Rx.Reads.follows_firstStored (h₀ : W.next ≤ n) (hn : n ≤ W.status) :
    W.Follows c n (e.firstStored c e.rxHighestStatus c.snModulus (n % c.snModulus)) := by
  have hend := hW.status_le_end
  have hlt := c.windowSize_lt
  obtain ⟨m, hnm, hm, heq, hempty, hstored⟩ := h.firstStored hW c.snModulus h₀ hn (by omega)
  rw [heq]
  cases hcell : W.cell c m with
  | nil =>
    have hms : m = W.status := by
      by_contra hne
      rw [Window.cell_of_lt (by omega)] at hcell
      exact hstored (by omega) hcell
    subst hms
    exact .nothing hempty (.inl hcell)
  | cons p l =>
    by_cases hmw : m < W.next + c.windowSize
    · rw [Window.cell_of_lt hmw] at hcell
      exact .slot hnm hempty ⟨by omega, hmw, hm, [], hcell, by simp⟩ hcell
    · rw [Window.cell, if_neg hmw] at hcell
      refine .around (by omega) ?_ hcell
      -- the slot before the end of the window is not empty
      by_contra hn'
      exact hW.before_status (by omega) (hempty _ (by omega) (by omega))

theorem Rx.Reads.getNextRxPdu {cur : Pdu} (h₀ : W.next ≤ n) (h₁ : n < W.next + c.windowSize)
    (hn : n ≤ W.status) (hcur : cur.sn = n % c.snModulus) :
    W.Follows c (n + 1) (e.getNextRxPdu c cur []) := by
  have hiff := Window.mod_inj (c := c) h₀ (by omega) hW.next_le hW.status_le_end
  rw [Rx.getNextRxPdu, hcur]
  split
  · next heq =>
    rw [h.highestStatus, hiff] at heq
    exact .nothing (fun j hj hj' => absurd hj' (by omega)) (.inr (by omega))
  · next hne =>
    rw [h.highestStatus, hiff] at hne
    rw [Cyclic.succ_mod]
    exact h.follows_firstStored hW (by omega) (by omega)

theorem Rx.Reads.getFirstRxPdu : W.Follows c W.next (e.getFirstRxPdu c) := by
  rw [Rx.getFirstRxPdu, h.rxNext]
  exact h.follows_firstStored hW le_rfl hW.next_le

theorem Rx.Reads.setEndDifferentSdu {n₀ b₀ k a s' : Nat} {p : Pdu} {l : List Pdu}
    (hr : W.Resumes n₀ b₀ k a s') (ha : a < W.status) (h₀ : W.next ≤ a)
    (hfol : W.Follows c k (p :: l)) (hstep : p.isFirst → a = k → ¬ W.Points c k p l) :
    W.Missing c n₀ b₀ (some (e.setEndDifferentSdu c (a % c.snModulus) s' p (p :: l))) := by
  have hend := hW.status_le_end
  have hlt := c.windowSize_lt
  have hM := c.snModulus_pos
  have heq := hr.eq
  unfold Rx.setEndDifferentSdu
  rw [h.beforeHighestStatus (by omega)]
  cases hfol with
  | @slot m p l hkm hempty hp hslot =>
    have hwf := hW.slot m hp.next_le hp.lt_end
    have hsn : p.sn = m % c.snModulus := hwf.sn p (by simp [hslot])
    have hfirst := hwf.first p (by simp [hslot])
    cases hf : p.isFirst with
    | true =>
      have ham : a + 1 ≤ m := by
        by_contra ham
        obtain rfl : a = m := by omega
        obtain rfl : a = k := by omega
        exact hstep hf rfl hp
      have hprev : (p.sn + c.snModulus - 1) % c.snModulus = (m - 1) % c.snModulus := by
        rw [hsn, Cyclic.pred_mod (by omega) hM]
      have hmst := hp.le_status
      simp only [if_true, hprev]
      rw [h.outOfReportingWindow hW (by omega) (by omega), decide_eq_false (by omega)]
      exact .gap (t := none) (hr.gap ha (by omega) hempty (.inl ⟨by omega, rfl⟩)) (by omega)
        (.first hp (hfirst.mp hf) (by omega))
    | false =>
      have hso : 0 < p.so := Nat.pos_of_ne_zero fun hz => by simp [hfirst.mpr hz] at hf
      simp only [Bool.false_eq_true, if_false, hsn]
      rw [h.outOfReportingWindow hW hp.next_le (by have := hp.lt_end; omega)]
      by_cases hms : W.status ≤ m
      · rw [decide_eq_true hms]
        have hmst := hp.le_status
        refine .gap (t := none) (hr.gap ha (by omega) hempty (.inl ⟨by omega, rfl⟩)) (by omega)
          (.finished (by omega) fun hst => ?_)
        have := hp.lt_end
        omega
      · rw [decide_eq_false hms]
        refine .gap (t := some (p.so - 1)) (hr.gap ha ?_ hempty
          (.inr ⟨hkm, rfl, p, l, hslot, hslot ▸ hwf.sorted, hso, rfl⟩)) (by omega)
          (.inside hp hso (by omega))
        omega
  | around hstatus hk hslot =>
    have hwf := hW.slot W.next le_rfl (by omega)
    have hsn : p.sn = W.next % c.snModulus := hwf.sn p (by simp [hslot])
    have hfirst := hwf.first p (by simp [hslot])
    cases hf : p.isFirst with
    | true =>
      have hprev : (p.sn + c.snModulus - 1) % c.snModulus =
          (W.next + c.snModulus - 1) % c.snModulus := by
        rw [hsn]
        have := Cyclic.pred_mod (M := c.snModulus) (n := W.next + c.snModulus) (by omega) hM
        rwa [Nat.add_mod_right] at this
      simp only [if_true, hprev]
      rw [h.outOfReportingWindow hW (by omega) (by omega), decide_eq_true (by omega)]
      refine .gap (t := none) (hr.gap ha (by omega) (m := k) (fun j hj hj' => by omega)
        (.inl ⟨by omega, rfl⟩)) (by omega) (.finished (by omega) fun _ q k hq => ?_)
      rw [hslot] at hq
      cases hq
      exact hf
    | false =>
      have hso : 0 < p.so := Nat.pos_of_ne_zero fun hz => by simp [hfirst.mpr hz] at hf
      have hmod : W.next % c.snModulus = (W.next + c.snModulus) % c.snModulus := by simp
      simp only [Bool.false_eq_true, if_false, hsn]
      rw [h.outOfReportingWindow hW le_rfl (by omega), decide_eq_false (by omega), hmod]
      have hge := c.windowSize_ge
      refine .gap (z := W.next + c.snModulus) (t := some (p.so - 1))
        ⟨hr.start, ha, hr.passed, by omega, fun haz => by omega,
          fun j b haj _ hj hs _ => ?_, fun j haj _ hj _ => ?_⟩ (by omega)
        (.around hstatus hslot hso)
      · obtain rfl : j = a := by omega
        exact hr.missing (by omega) b (hs rfl)
      · obtain rfl : j = a := by omega
        exact hr.unended (by omega)

end

structure Window.Walked (W : Window) (n₀ b₀ n s₀ : Nat) : Prop where
  start : n₀ = n ∧ b₀ = s₀ ∨ n₀ < n ∧ s₀ = 0
  passed : ∀ m b, n₀ ≤ m → (m = n₀ → b₀ ≤ b) → m < n → Passed (W.slots m) b

theorem Window.Points.scanning {p : Pdu} {l : List Pdu} (hW : W.Stores c) (hp : W.Points c n p l) :
    ∃ pre, Scanning (W.slots n) p.so pre p l 0 false := by
  obtain ⟨pre, hslot, hpre⟩ := hp.slot
  have hwf := hW.slot n hp.next_le hp.lt_end
  rw [hslot] at hwf ⊢
  exact ⟨pre, .of_append hpre (hwf.size_pos p (by simp)) hwf.sorted⟩

namespace ScanDone

variable {n₀ b₀ s₀ maxSo : Nat} {cur : Pdu} {lastReached : Bool}
  (hd : ScanDone (W.slots n) s₀ cur maxSo lastReached) (hw : W.Walked n₀ b₀ n s₀)
include hd hw

theorem resumes_next (hlast : ∃ p ∈ W.slots n, p.isLast) :
    W.Resumes n₀ b₀ (n + 1) (n + 1) 0 := by
  have hstart := hw.start
  refine ⟨.inr ⟨rfl, rfl⟩, .inl (by omega), fun m b h₀ hb hm => ?_, by omega, by omega⟩
  rcases Nat.lt_or_eq_of_le (show m ≤ n by omega) with hlt | rfl
  · exact hw.passed m b h₀ hb hlt
  · exact hd.passed hlast (by omega)

theorem resumes_here (hlast : lastReached = false) : W.Resumes n₀ b₀ (n + 1) n (maxSo + 1) := by
  have hstart := hw.start
  have hle := hd.start
  refine ⟨.inl rfl, by omega, fun m b h₀ hb hm => ?_, fun _ b hb => hd.missing hb,
    fun _ => hd.unreached hlast⟩
  rcases hm with hlt | ⟨rfl, hlt⟩
  · exact hw.passed m b h₀ hb hlt
  · exact .inl (hd.held b (by omega) (by omega))

end ScanDone

section

variable (h : e.Reads c W) (hW : W.Stores c)
include h hW

variable {maxSo n₀ s₀ b₀ : Nat} {lastReached : Bool} {cur : Pdu}

theorem Rx.Reads.missingAtEnd (h₀ : W.next ≤ n) (h₁ : n < W.next + c.windowSize)
    (hd : ScanDone (W.slots n) s₀ cur maxSo lastReached) (hw : W.Walked n₀ b₀ n s₀)
    (hempty : ∀ j, n + 1 ≤ j → j < W.status → W.slots j = [])
    (hend : W.cell c W.status = [] ∨ n + 1 = W.status + 1) :
    W.Missing c n₀ b₀ (e.missingAtEnd c cur maxSo lastReached) := by
  have hle := hW.status_le_end
  have hlt := c.windowSize_lt
  have hwf := hW.slot n h₀ h₁
  -- the gap, if any, goes up to `rx_highest_status`
  have hgap : ∀ a s', W.Resumes n₀ b₀ (n + 1) a s' → W.next ≤ a →
      W.Missing c n₀ b₀ (if e.outOfReportingWindow c (a % c.snModulus) then none
        else some { snStart := a % c.snModulus, soStart := s', snEnd := e.beforeHighestStatus c
                    soEnd := 0xffff, next := [] }) := by
    intro a s' hr ha
    have heq := hr.eq
    rw [h.outOfReportingWindow hW ha (by omega)]
    by_cases has : W.status ≤ a
    · rw [decide_eq_true has]
      exact .none fun m b hm hb hms => hr.passed m b hm hb (.inl (by omega))
    · rw [decide_eq_false has, h.beforeHighestStatus (by omega)]
      refine .gap (t := none) (hr.gap (by omega) (by omega) hempty (.inl ⟨by omega, rfl⟩))
        (by omega) (.finished (by omega) fun hst p l hslot => ?_)
      rw [Window.cell, if_neg (by omega)] at hend
      rcases hend with hend | hend
      · rw [hslot] at hend
        cases hend
      · omega
  unfold Rx.missingAtEnd
  rw [hwf.sn cur hd.mem, Cyclic.succ_mod]
  cases hor : cur.data.isNone || lastReached with
  | true =>
    refine hgap (n + 1) 0 (hd.resumes_next hw ?_) (by omega)
    rcases Bool.or_eq_true_iff.mp hor with hdata | hlast
    · have hproc : processed (W.slots n) := by
        by_contra hproc
        exact hwf.held (by simpa using hproc) cur hd.mem (by simpa using hdata)
      rw [hW.full n h₀ h₁] at hproc
      obtain ⟨q, hq, hlast, -⟩ := exists_isLast_of_fullFrom hproc
      exact ⟨q, hq, hlast⟩
    · exact hd.reached hlast
  | false => exact hgap n (maxSo + 1) (hd.resumes_here hw (Bool.or_eq_false_iff.mp hor).2) h₀

variable {rest : List Pdu}

theorem Rx.Reads.sameSdu {next : Pdu} (h₀ : W.next ≤ n) (h₁ : n < W.next + c.windowSize)
    (hn : n ≤ W.status) (hw : W.Walked n₀ b₀ n s₀) (hg : ScanGap (W.slots n) s₀ maxSo next rest) :
    W.Missing c n₀ b₀ (if e.outOfReportingWindow c (n % c.snModulus) then none
      else some { snStart := n % c.snModulus, soStart := maxSo + 1, snEnd := n % c.snModulus
                  soEnd := next.so - 1, next := next :: rest }) := by
  have hlt := c.windowSize_lt
  have hstart := hw.start
  have hgap := hg.gap
  have hle := hg.start
  have hpass : ∀ m b, n₀ ≤ m → (m = n₀ → b₀ ≤ b) → (m < n ∨ (m = n ∧ b < maxSo + 1)) →
      Passed (W.slots m) b := by
    intro m b hm hb hor
    rcases hor with hlt | ⟨rfl, hlt⟩
    · exact hw.passed m b hm hb hlt
    · exact .inl (hg.held b (by omega) (by omega))
  rw [h.outOfReportingWindow hW h₀ (by omega)]
  by_cases hns : W.status ≤ n
  · rw [decide_eq_true hns]
    exact .none fun m b hm hb hms => hpass m b hm hb (.inl (by omega))
  · rw [decide_eq_false hns]
    obtain ⟨pre, hlist, hpre⟩ := hg.list
    refine .gap (t := some (next.so - 1)) ⟨by omega, by omega, hpass, le_rfl,
      fun _ x hx => ?_, fun m b hm₀ hm₁ _ hs' ht => ?_, fun m hm₀ hm₁ _ ht => ?_⟩ (by omega)
      (.inside ⟨h₀, h₁, hn, pre, hlist, fun q hq => ?_⟩ (by omega) (by omega))
    · cases hx
      omega
    · obtain rfl : m = n := by omega
      have := ht rfl _ rfl
      exact hg.missing (hW.slot m h₀ h₁).sorted (hs' rfl) (by omega)
    · cases ht (by omega)
    · have := hpre q hq
      omega

variable {p : Pdu} {l : List Pdu}

theorem Rx.Reads.differentSdu (h₀ : W.next ≤ n) (h₁ : n < W.next + c.windowSize)
    (hcur : cur.sn = n % c.snModulus) (hd : ScanDone (W.slots n) s₀ cur maxSo lastReached)
    (hw : W.Walked n₀ b₀ n s₀) (hfol : W.Follows c (n + 1) (p :: l))
    (hstep : ¬ (p.sn = (cur.sn + 1) % c.snModulus ∧ lastReached ∧ p.isFirst)) :
    W.Missing c n₀ b₀
      (if e.outOfReportingWindow c (if lastReached then (cur.sn + 1) % c.snModulus else cur.sn)
       then none
       else
         some (e.setEndDifferentSdu c (if lastReached then (cur.sn + 1) % c.snModulus else cur.sn)
         (if lastReached then 0 else maxSo + 1) p (p :: l))) := by
  have hlt := c.windowSize_lt
  rw [hcur, Cyclic.succ_mod] at hstep ⊢
  have hgap : ∀ a s', W.Resumes n₀ b₀ (n + 1) a s' → (a = n + 1 → lastReached) →
      W.Missing c n₀ b₀ (if e.outOfReportingWindow c (a % c.snModulus) then none
        else some (e.setEndDifferentSdu c (a % c.snModulus) s' p (p :: l))) := by
    intro a s' hr hlast
    have heq := hr.eq
    rw [h.outOfReportingWindow hW (by omega) (by omega)]
    by_cases has : W.status ≤ a
    · rw [decide_eq_true has]
      exact .none fun m b hm hb hms => hr.passed m b hm hb (.inl (by omega))
    · rw [decide_eq_false has]
      refine h.setEndDifferentSdu hW hr (by omega) (by omega) hfol fun hf ha hp => ?_
      obtain ⟨pre, hslot, -⟩ := hp.slot
      exact hstep ⟨(hW.slot _ hp.next_le hp.lt_end).sn p (by simp [hslot]), hlast ha, hf⟩
  cases hl : lastReached with
  | true => exact hgap (n + 1) 0 (hd.resumes_next hw (hd.reached hl)) fun _ => hl
  | false => exact hgap n (maxSo + 1) (hd.resumes_here hw hl) (by omega)

variable {pre : List Pdu}

theorem Rx.Reads.nextPdu_round (maxSo : Nat) (lastReached : Bool) (h₀ : W.next ≤ n)
    (h₁ : n < W.next + c.windowSize) (hn : n ≤ W.status) (hslot : W.slots n = pre ++ cur :: rest) :
    (∃ next rest', rest = next :: rest' ∧ next.so ≤ max maxSo (cur.so + cur.size - 1) + 1 ∧
      ∀ fuel, e.nextPdu c (fuel + 1) cur rest maxSo lastReached =
        e.nextPdu c fuel next rest' (max maxSo (cur.so + cur.size - 1))
          (lastReached || cur.isLast)) ∨
    (∃ next rest', rest = [] ∧ W.slots (n + 1) = next :: rest' ∧ W.Points c (n + 1) next rest' ∧
      (lastReached || cur.isLast) ∧ next.isFirst ∧
      ∀ fuel, e.nextPdu c (fuel + 1) cur rest maxSo lastReached =
        e.nextPdu c fuel next rest' 0 false) ∨
    (∃ r, (∀ fuel, e.nextPdu c (fuel + 1) cur rest maxSo lastReached = some r) ∧
      ∀ {n₀ b₀ s₀}, W.Walked n₀ b₀ n s₀ →
        Scanning (W.slots n) s₀ pre cur rest maxSo lastReached → W.Missing c n₀ b₀ r) := by
  have hwf := hW.slot n h₀ h₁
  have hcur : cur.sn = n % c.snModulus := hwf.sn cur (by simp [hslot])
  have hinj : ∀ {m}, W.next ≤ m → m ≤ W.next + c.windowSize →
      (m % c.snModulus = n % c.snModulus ↔ m = n) := fun hm₀ hm₁ =>
    Window.mod_inj hm₀ hm₁ h₀ (by omega)
  cases rest with
  | cons next rest =>
    have hnext : next.sn = n % c.snModulus := hwf.sn next (by simp [hslot])
    have hne : n % c.snModulus ≠ (n % c.snModulus + 1) % c.snModulus := by
      rw [Cyclic.succ_mod, ne_comm, ne_eq, hinj (by omega) (by omega)]
      omega
    simp only [Rx.nextPdu, Rx.getNextRxPdu, hnext, hcur, true_and, hne, false_and, if_false,
      if_true]
    by_cases hle : next.so ≤ max maxSo (cur.so + cur.size - 1) + 1
    · exact .inl ⟨next, rest, rfl, hle, fun fuel => if_pos hle⟩
    · refine .inr (.inr ⟨_, fun fuel => (if_neg hle).trans (apply_ite some _ _ _).symm,
        fun hw hs => ?_⟩)
      exact h.sameSdu hW h₀ h₁ hn hw (hs.gap hwf.size_pos rfl (not_le.mp hle))
  | nil =>
    have hfol := h.getNextRxPdu hW h₀ h₁ hn hcur
    simp only [Rx.nextPdu]
    generalize e.getNextRxPdu c cur [] = nxt at hfol ⊢
    cases hfol with
    | nothing hempty hend' =>
      exact .inr (.inr ⟨_, fun _ => rfl, fun hw hs =>
        h.missingAtEnd hW h₀ h₁ (hs.done hwf.size_pos rfl) hw hempty hend'⟩)
    | @slot m p l hnm hempty hp hslot' =>
      have hsn : p.sn = m % c.snModulus := (hW.slot m hp.next_le hp.lt_end).sn p (by simp [hslot'])
      have hne : p.sn ≠ cur.sn := by
        rw [hsn, hcur, ne_eq, hinj hp.next_le hp.lt_end.le]
        omega
      simp only [hne, false_and, if_false]
      by_cases hnext : p.sn = (cur.sn + 1) % c.snModulus ∧ (lastReached || cur.isLast) ∧
          p.isFirst
      · have hsn' := hnext.1
        rw [hsn, hcur, Cyclic.succ_mod,
          Window.mod_inj hp.next_le hp.lt_end.le (by omega) (by omega)] at hsn'
        subst hsn'
        exact .inr (.inl ⟨p, l, trivial, hslot', hp, hnext.2.1, hnext.2.2, fun _ => if_pos hnext⟩)
      · refine .inr (.inr ⟨_, fun _ => (if_neg hnext).trans (apply_ite some _ _ _).symm,
          fun hw hs => ?_⟩)
        exact h.differentSdu hW h₀ h₁ hcur (hs.done hwf.size_pos rfl) hw
          (.slot hnm hempty hp hslot') hnext
    | @around p l hstatus hn' hslot' =>
      have hsn : p.sn = W.next % c.snModulus :=
        (hW.slot W.next le_rfl (by omega)).sn p (by simp [hslot'])
      have hne : p.sn ≠ cur.sn := by
        rw [hsn, hcur, ne_eq, hinj le_rfl (by omega)]
        have := c.windowSize_ge
        omega
      have hne' : p.sn ≠ (cur.sn + 1) % c.snModulus := by
        rw [hsn, hcur, Cyclic.succ_mod, ne_eq,
          Window.mod_inj le_rfl (by omega) (by omega) (by omega)]
        omega
      simp only [hne, hne', false_and, if_false]
      exact .inr (.inr ⟨_, fun _ => (apply_ite some _ _ _).symm, fun hw hs =>
        h.differentSdu hW h₀ h₁ hcur (hs.done hwf.size_pos rfl) hw (.around hstatus hn' hslot')
          fun hnext => hne' hnext.1⟩)

variable {r : Option MissingData} {fuel : Nat}

theorem Rx.Reads.nextPdu (h₀ : W.next ≤ n) (h₁ : n < W.next + c.windowSize) (hn : n ≤ W.status)
    (hw : W.Walked n₀ b₀ n s₀) (hs : Scanning (W.slots n) s₀ pre cur rest maxSo lastReached)
    (hr : e.nextPdu c fuel cur rest maxSo lastReached = some r) : W.Missing c n₀ b₀ r := by
  induction fuel generalizing n s₀ maxSo cur pre rest lastReached with
  | zero => cases hr
  | succ fuel ih =>
    have hwf := hW.slot n h₀ h₁
    rcases h.nextPdu_round hW maxSo lastReached h₀ h₁ hn hs.list with
      ⟨next, rest', hrest, hle, heq⟩ | ⟨next, rest', rfl, hslot, hp, hlast, hfirst, heq⟩ |
      ⟨r', heq, hmissing⟩
    · exact ih h₀ h₁ hn hw (hs.step hwf.sorted hwf.size_pos hrest hle) (heq fuel ▸ hr)
    · have hres := (hs.done hwf.size_pos rfl).resumes_next hw (hs.reached_or hlast)
      have hstart := hw.start
      have hso : next.so = 0 :=
        ((hW.slot _ hp.next_le hp.lt_end).first next (by simp [hslot])).mp hfirst
      obtain ⟨pre', hs'⟩ := hp.scanning hW
      exact ih hp.next_le hp.lt_end hp.le_status ⟨.inr ⟨by omega, hso⟩,
        fun j b hj hb hlt => hres.passed j b hj hb (.inl hlt)⟩ hs' (heq fuel ▸ hr)
    · rw [heq] at hr
      exact Option.some.inj hr ▸ hmissing hw hs

theorem Rx.Reads.isSome_nextPdu (h₀ : W.next ≤ n) (h₁ : n < W.next + c.windowSize)
    (hn : n ≤ W.status) (hslot : W.slots n = pre ++ cur :: rest)
    (hfuel : rest.length + ∑ j ∈ Finset.Ico (n + 1) (W.next + c.windowSize), (W.slots j).length <
      fuel) :
    (e.nextPdu c fuel cur rest maxSo lastReached).isSome := by
  induction fuel generalizing n maxSo cur pre rest lastReached with
  | zero => omega
  | succ fuel ih =>
    rcases h.nextPdu_round hW maxSo lastReached h₀ h₁ hn hslot with
      ⟨next, rest', rfl, -, heq⟩ | ⟨next, rest', rfl, hslot', hp, -, -, heq⟩ | ⟨r, heq, -⟩
    · rw [heq]
      rw [List.length_cons] at hfuel
      have hslot' : W.slots n = (pre ++ [cur]) ++ next :: rest' := by simp [hslot]
      exact ih h₀ h₁ hn hslot' (by omega)
    · rw [heq]
      rw [Finset.sum_eq_sum_Ico_succ_bot hp.lt_end, hslot', List.length_cons] at hfuel
      rw [← List.nil_append (next :: rest')] at hslot'
      exact ih hp.next_le hp.lt_end hp.le_status hslot' (by omega)
    · rw [heq]
      rfl

theorem Rx.Reads.nextMissing (hp : W.Points c n p l)
    (hr : e.nextMissing c fuel p l false = some r) : W.Missing c n p.so r := by
  obtain ⟨pre, hs⟩ := hp.scanning hW
  exact h.nextPdu hW hp.next_le hp.lt_end hp.le_status ⟨.inl ⟨rfl, rfl⟩, by omega⟩ hs
    (by simpa [Rx.nextMissing] using hr)

theorem Rx.Reads.nextMissing_head (hfol : W.Follows c W.next (p :: l))
    (hr : e.nextMissing c fuel p l true = some r) :
    W.Missing c W.next 0 r := by
  have hM := c.snModulus_pos
  have hpos := c.windowSize_pos
  unfold Rx.nextMissing at hr
  split at hr
  · next hhead =>
    rw [h.rxNext, h.outOfReportingWindow hW le_rfl (by omega)] at hr
    by_cases hs : W.status ≤ W.next
    · rw [decide_eq_true hs] at hr
      cases hr
      exact .none fun m b hm hb hms => by omega
    · rw [decide_eq_false hs] at hr
      cases hr
      refine h.setEndDifferentSdu hW (k := W.next)
        ⟨.inr ⟨rfl, rfl⟩, .inr ⟨rfl, le_rfl⟩, fun m b hm hb => by omega, by omega, by omega⟩
        (by omega) le_rfl hfol fun hf _ hp => ?_
      obtain ⟨pre, hslot, -⟩ := hp.slot
      have hsn := (hW.slot W.next le_rfl hp.lt_end).sn p (by simp [hslot])
      simp [hf, hsn, h.rxNext] at hhead
  · next hhead =>
    simp only [true_and, not_or, not_not, Bool.not_eq_false] at hhead
    cases hfol with
    | @slot m p l hm hempty hp hslot =>
      have hwf := hW.slot m hp.next_le hp.lt_end
      have hsn := hwf.sn p (by simp [hslot])
      rw [h.rxNext, hsn, Window.mod_inj hp.next_le hp.lt_end.le le_rfl (by omega)] at hhead
      obtain ⟨rfl, hfirst⟩ := hhead
      obtain ⟨pre, hs⟩ := hp.scanning hW
      rw [(hwf.first p (by simp [hslot])).mp hfirst] at hs
      exact h.nextPdu hW hp.next_le hp.lt_end hp.le_status ⟨.inl ⟨rfl, rfl⟩, by omega⟩ hs hr
    | around hstatus hk hslot => omega

end

end OpenAir.Rlc.Am

import OpenAir.Rlc.Am.SlotLaws

namespace OpenAir.Rlc.Am

open Rx RxManager Function

variable {c : Config} {e : Rx} {W W' : Window} {fuel n s sn : Nat}

structure Window.Settles (c : Config) (W W' : Window) : Prop where
  next_le : W.next ≤ W'.next
  next_le_end : W'.next ≤ W.next + c.windowSize
  next_passed : ∀ n, W.next ≤ n → n < W'.next → processed (W.slots n) = true
  next_stop : W'.next < W.next + c.windowSize → processed (W.slots W'.next) = false
  status_le : W.status ≤ W'.status
  status_le_end : W'.status ≤ W.next + c.windowSize
  status_passed : ∀ n, W.status ≤ n → n < W'.status → processed (W.slots n) = true
  status_stop : W'.status < W.next + c.windowSize → processed (W.slots W'.status) = false
  highest : W'.highest = W.highest
  slots : ∀ n, W'.next ≤ n → n < W'.next + c.windowSize →
    W'.slots n = if n < W.next + c.windowSize then W.slots n else []

theorem ne_nil_of_processed {l : List Pdu} (h : processed l) : l ≠ [] := by
  rintro rfl
  cases h

namespace Window.Settles

theorem slots_eq (h : W.Settles c W') (h₀ : W'.next ≤ n) (h₁ : n < W.next + c.windowSize) :
    W'.slots n = W.slots n := by
  have := h.next_le
  rw [h.slots n h₀ (by omega), if_pos h₁]

theorem next_le_status (h : W.Settles c W') (hW : W.next ≤ W.status) : W'.next ≤ W'.status := by
  by_contra hlt
  have hp := h.next_passed W'.status (hW.trans h.status_le) (by omega)
  have := h.next_le_end
  rw [h.status_stop (by omega)] at hp
  cases hp

theorem before_status (h : W.Settles c W') (hW : W.Stores c) (hs : W.next < W'.status) :
    W.slots (W'.status - 1) ≠ [] := by
  rcases h.status_le.eq_or_lt with he | hlt
  · rw [← he]
    exact hW.before_status (by omega)
  · exact ne_nil_of_processed (h.status_passed _ (by omega) (by omega))

theorem status_le_highest (h : W.Settles c W') (hW : W.Stores c) : W'.status ≤ W.highest := by
  have h₁ := h.status_le_end
  have h₂ := hW.next_le
  have h₃ := h.status_le
  have h₄ := hW.status_le
  by_cases hs : W.next < W'.status
  · have := hW.stored (W'.status - 1) (by omega) (by omega) (h.before_status hW hs)
    omega
  · omega

theorem wf (h : W.Settles c W') (hW : W.Stores c) : W'.Wf c := by
  have hle := h.next_le
  have hhigh := hW.highest_le
  refine { next_le := h.next_le_status hW.next_le, status_le := ?_, highest_le := ?_, slot := ?_,
           full := ?_, stored := ?_, before_highest := ?_, before_status := ?_, next_open := ?_,
           status_open := ?_ }
  · exact h.highest ▸ h.status_le_highest hW
  · rw [h.highest]
    omega
  · intro n h₀ h₁
    rw [h.slots n h₀ h₁]
    split
    · next hn => exact hW.slot n (by omega) hn
    · exact .nil
  · intro n h₀ h₁
    rw [h.slots n h₀ h₁]
    split
    · next hn => exact hW.full n (by omega) hn
    · rfl
  · intro n h₀ h₁ hne
    rw [h.slots n h₀ h₁] at hne
    rw [h.highest]
    split at hne
    · next hn => exact hW.stored n (by omega) hn hne
    · exact absurd rfl hne
  · intro hlt
    rw [h.highest] at hlt ⊢
    rw [h.slots_eq (by omega) (by omega)]
    exact hW.before_highest (by omega)
  · intro hlt
    have := h.status_le_end
    rw [h.slots_eq (by omega) (by omega)]
    exact h.before_status hW (by omega)
  · rw [h.slots _ le_rfl (Nat.lt_add_of_pos_right c.windowSize_pos)]
    split
    · next hn => exact h.next_stop hn
    · rfl
  · intro hlt
    rw [h.slots _ (h.next_le_status hW.next_le) hlt]
    split
    · next hn => exact h.status_stop hn
    · rfl

end Window.Settles

theorem Rx.Reads.sduDelivered_add (h : e.Reads c W) (h₀ : W.next ≤ n) :
    e.sduDelivered ((n + c.windowSize) % c.snModulus) = e.sduDelivered (n % c.snModulus) := by
  have hR := h.holds.snStart
  rw [Rx.sduDelivered, Rx.sduDelivered, RxManager.getPduFromSn, RxManager.getPduFromSn,
    c.snModulus_eq,
    getPos_mod c.windowSize_pos h.holds.size hR (by omega : W.next ≤ n + c.windowSize),
    getPos_mod c.windowSize_pos h.holds.size hR h₀,
    show e.rx.start + (n + c.windowSize - W.next) = e.rx.start + (n - W.next) + c.windowSize by
      omega, Nat.add_mod_right]

theorem Rx.Reads.nextUndelivered (h : e.Reads c W) (h₀ : W.next ≤ s)
    (h₁ : s ≤ W.next + c.windowSize) (hopen : s = W.next ∨ processed (W.slots W.next) = false)
    (hw : Rx.nextUndelivered c fuel e (s % c.snModulus) = some sn) :
    ∃ S, sn = S % c.snModulus ∧ s ≤ S ∧ S ≤ W.next + c.windowSize ∧
      (∀ n, s ≤ n → n < S → processed (W.slots n)) ∧
      (S < W.next + c.windowSize → processed (W.slots S) = false) := by
  obtain ⟨k, -, rfl, hstop, hbefore⟩ := whileLoop.eq_some_iff.mp hw
  simp only [Cyclic.iterate_succ_mod] at hstop hbefore ⊢
  have hk : k < c.windowSize := by
    by_contra hk
    have hp := hbefore (k - c.windowSize) (by have := c.windowSize_pos; omega)
    rw [← h.sduDelivered_add (by omega), show s + (k - c.windowSize) + c.windowSize = s + k by
      omega, hstop] at hp
    cases hp
  have hend : s + k ≤ W.next + c.windowSize := by
    rcases hopen with rfl | hopen
    · omega
    · by_contra hlt
      have hp := hbefore (W.next + c.windowSize - s) (by omega)
      rw [show s + (W.next + c.windowSize - s) = W.next + c.windowSize by omega,
        h.sduDelivered_end, hopen] at hp
      cases hp
  refine ⟨s + k, rfl, by omega, hend, ?_, ?_⟩
  · intro n hn hn'
    have hp := hbefore (n - s) (by omega)
    rwa [show s + (n - s) = n by omega, h.sduDelivered (by omega) (by omega)] at hp
  · intro hlt
    rwa [h.sduDelivered (by omega) hlt] at hstop

theorem Rx.Reads.nextUndelivered_isSome (h : e.Reads c W)
    (h₁ : s ≤ W.next + c.windowSize) (hn₀ : W.next ≤ n) (hn₁ : n < W.next + c.windowSize)
    (hn : processed (W.slots n) = false) :
    ∃ fuel sn, Rx.nextUndelivered c fuel e (s % c.snModulus) = some sn := by
  rw [← h.sduDelivered hn₀ hn₁] at hn
  by_cases hs : s ≤ n
  · have hk : e.sduDelivered ((fun sn => (sn + 1) % c.snModulus)^[n - s] (s % c.snModulus)) =
        false := by
      rwa [Cyclic.iterate_succ_mod, show s + (n - s) = n by omega]
    exact ⟨_, whileLoop.terminates hk⟩
  · have hk : e.sduDelivered ((fun sn => (sn + 1) % c.snModulus)^[n + c.windowSize - s]
        (s % c.snModulus)) = false := by
      rwa [Cyclic.iterate_succ_mod, show s + (n + c.windowSize - s) = n + c.windowSize by omega,
        h.sduDelivered_add hn₀]
    exact ⟨_, whileLoop.terminates hk⟩

theorem Rx.Reads.nextUndelivered_eq_none (h : e.Reads c W) (h₀ : W.next ≤ s)
    (hall : ∀ n, W.next ≤ n → n < W.next + c.windowSize → processed (W.slots n)) :
    Rx.nextUndelivered c fuel e (s % c.snModulus) = none := by
  -- every number from `next` on is some number of the window, a few windows further
  have hper : ∀ k n, W.next ≤ n → n < W.next + (k + 1) * c.windowSize →
      e.sduDelivered (n % c.snModulus) := by
    intro k
    induction k with
    | zero =>
      intro n h₀ h₁
      rw [h.sduDelivered h₀ (by omega)]
      exact hall n h₀ (by omega)
    | succ k ih =>
      intro n h₀ h₁
      by_cases hn : n < W.next + c.windowSize
      · rw [h.sduDelivered h₀ hn]
        exact hall n h₀ hn
      · have := ih (n - c.windowSize) (by omega) (by
          rw [Nat.succ_mul] at h₁
          omega)
        rw [← h.sduDelivered_add (by omega)] at this
        rwa [show n - c.windowSize + c.windowSize = n by omega] at this
  apply whileLoop.diverges_iff.mpr
  intro k
  rw [Cyclic.iterate_succ_mod]
  refine hper (s + k) _ (by omega) ?_
  have := Nat.le_mul_of_pos_right (s + k + 1) c.windowSize_pos
  omega

structure Rx.Passing.After (c : Config) (W : Window) (k : Nat) (s : Passing) : Prop where
  le : k ≤ c.windowSize
  rxNext : s.rxNext = (W.next + k) % c.snModulus
  count : s.count = k
  holds : s.rx.Holds c.windowSize W.next fun n => if n < W.next + k then [] else W.slots n
  processed : ∀ n, W.next ≤ n → n < W.next + k → processed (W.slots n) = true
  passed : s.passed =
    (List.range k).map fun i => Event.rxNextPassed ((W.next + i) % c.snModulus)

namespace Rx.Passing.After

variable {k : Nat} {s : Passing}

theorem zero (h : e.Reads c W) :
    Passing.After c W 0 { rxNext := e.rxNext, count := 0, rx := e.rx, passed := [] } where
  le := Nat.zero_le _
  rxNext := h.rxNext
  count := rfl
  holds := h.holds.congr fun n h₀ _ => by rw [if_neg (by omega)]
  processed n h₀ h₁ := by omega
  passed := rfl

theorem get (h : Passing.After c W k s) :
    s.rx.getPduFromSn s.rxNext = if k < c.windowSize then W.slots (W.next + k) else [] := by
  have hw := c.windowSize_pos
  rw [h.rxNext, c.snModulus_eq]
  split
  · next hk =>
    rw [h.holds.get _ (by omega) (by omega), if_neg (by omega)]
  · next hk =>
    obtain rfl : k = c.windowSize := by
      have := h.le
      omega
    rw [h.holds.get_add hw le_rfl (by omega), if_pos (by omega)]

theorem succ (h : Passing.After c W k s)
    (hc : Rlc.processed (s.rx.getPduFromSn s.rxNext)) :
    Passing.After c W (k + 1) (Passing.step c s) := by
  rw [h.get] at hc
  split at hc
  · next hk =>
    refine ⟨hk, ?_, ?_, ?_, ?_, ?_⟩
    · rw [Passing.step, h.rxNext, Cyclic.succ_mod, Nat.add_assoc]
    · rw [Passing.step, h.count]
    · have hset := h.holds.setSlot c.windowSize_pos (n := W.next + k) (by omega) (by omega) []
      rw [Passing.step, RxManager.clearPdu, h.rxNext, c.snModulus_eq]
      refine hset.congr fun n h₀ h₁ => ?_
      by_cases hn : n = W.next + k
      · rw [hn, update_self, if_pos (by omega)]
      · rw [update_of_ne hn]
        split <;> split <;> first | rfl | omega
    · intro n h₀ h₁
      by_cases hn : n < W.next + k
      · exact h.processed n h₀ hn
      · rwa [show n = W.next + k by omega]
    · rw [Passing.step, h.passed, h.rxNext, List.range_succ, List.map_append]
      rfl
  · cases hc

theorem iterate {s₀ : Passing} (h : Passing.After c W 0 s₀)
    (hc : ∀ j < k, Rlc.processed (((Passing.step c)^[j] s₀).rx.getPduFromSn
      ((Passing.step c)^[j] s₀).rxNext)) : Passing.After c W k ((Passing.step c)^[k] s₀) := by
  induction k with
  | zero => exact h
  | succ k ih =>
    rw [iterate_succ_apply']
    exact (ih fun j hj => hc j (by omega)).succ (hc k (by omega))

end Rx.Passing.After

theorem Rx.Reads.passDelivered (h : e.Reads c W) {t : Passing}
    (hp : Rx.passDelivered c fuel e = some t) :
    ∃ k, Passing.After c W k t ∧ (k < c.windowSize → processed (W.slots (W.next + k)) = false) := by
  obtain ⟨k, -, rfl, hstop, hbefore⟩ := whileLoop.eq_some_iff.mp hp
  have hk := (Passing.After.zero h).iterate hbefore
  refine ⟨k, hk, fun hlt => ?_⟩
  rwa [hk.get, if_pos hlt] at hstop

theorem Rx.Reads.passDelivered_isSome (h : e.Reads c W) :
    ∃ fuel t, Rx.passDelivered c fuel e = some t := by
  by_contra hn
  have hall := whileLoop.diverges_iff.mp fun fuel =>
    Option.eq_none_iff_forall_ne_some.mpr fun t ht => hn ⟨fuel, t, ht⟩
  have := ((Passing.After.zero h).iterate (k := c.windowSize + 1) fun j _ => hall j).le
  omega

end OpenAir.Rlc.Am

import OpenAir.Rlc.Am.Receive
import OpenAir.Rlc.RxManagerLaws

/-! The receive window by unbounded sequence numbers.  An entity reads a window when its state
variables are the residues of the window's. -/

namespace OpenAir.Rlc.Am

namespace Config

variable (c : Config)

theorem windowSize_pos : 0 < c.windowSize := by
  rcases c.snFieldLength_eq with h | h <;> simp [windowSize, snModulus, h]

theorem snModulus_eq : c.snModulus = 2 * c.windowSize := by
  rcases c.snFieldLength_eq with h | h <;> simp [windowSize, snModulus, h]

theorem snModulus_pos : 0 < c.snModulus := by
  rw [snModulus_eq]
  have := c.windowSize_pos
  omega

theorem windowSize_lt : c.windowSize < c.snModulus := by
  rw [snModulus_eq]
  have := c.windowSize_pos
  omega

theorem windowSize_ge : 2048 ≤ c.windowSize := by
  rcases c.snFieldLength_eq with h | h <;> simp [windowSize, snModulus, h]

theorem two_pow_pred : 2 ^ (c.snFieldLength - 1) = c.windowSize := by
  rcases c.snFieldLength_eq with h | h <;> simp [windowSize, snModulus, h]

end Config

structure Window where
  next : Nat
  status : Nat
  highest : Nat
  slots : Nat → List Pdu

structure SlotWf (M n : Nat) (l : List Pdu) : Prop where
  sn : ∀ p ∈ l, p.sn = n % M
  sorted : l.Pairwise fun p q => p.so ≤ q.so
  size_pos : ∀ p ∈ l, 0 < p.size
  so_lt : ∀ p ∈ l, p.so < 2 ^ 16
  first : ∀ p ∈ l, p.isFirst = true ↔ p.so = 0
  data : ∀ p ∈ l, ∀ d, p.data = some d → d.length = p.size
  held : processed l = false → ∀ p ∈ l, p.data ≠ none

structure Window.Stores (c : Config) (W : Window) : Prop where
  next_le : W.next ≤ W.status
  status_le : W.status ≤ W.highest
  highest_le : W.highest ≤ W.next + c.windowSize
  slot : ∀ n, W.next ≤ n → n < W.next + c.windowSize → SlotWf c.snModulus n (W.slots n)
  full : ∀ n, W.next ≤ n → n < W.next + c.windowSize →
    processed (W.slots n) = fullFrom (W.slots n) (-1)
  stored : ∀ n, W.next ≤ n → n < W.next + c.windowSize → W.slots n ≠ [] → n < W.highest
  before_highest : W.next < W.highest → W.slots (W.highest - 1) ≠ []
  before_status : W.next < W.status → W.slots (W.status - 1) ≠ []

structure Window.Wf (c : Config) (W : Window) : Prop extends W.Stores c where
  next_open : processed (W.slots W.next) = false
  status_open : W.status < W.next + c.windowSize → processed (W.slots W.status) = false

structure Rx.Reads (c : Config) (e : Rx) (W : Window) : Prop where
  rxNext : e.rxNext = W.next % c.snModulus
  highestStatus : e.rxHighestStatus = W.status % c.snModulus
  nextHighest : e.rxNextHighest = W.highest % c.snModulus
  holds : e.rx.Holds c.windowSize W.next W.slots

structure Rx.Trigger (c : Config) (e : Rx) (W : Window) (T : Nat) : Prop where
  reads : e.rxNextStatusTrigger = T % c.snModulus
  next_lt : W.next < T
  le_highest : T ≤ W.highest
  before : W.slots (T - 1) ≠ []
  passed : ∀ n, T ≤ n → n < W.status → processed (W.slots n) = true

def Rx.TimerWf (c : Config) (e : Rx) (W : Window) : Prop :=
  e.tReassemblyStart ≠ 0 → ∃ T, e.Trigger c W T

namespace Rx.Reads

variable {c : Config} {e : Rx} {W : Window}

variable {n : Nat}

theorem modulusRx (h : e.Reads c W) (h₀ : W.next ≤ n) (h₁ : n < W.next + c.snModulus) :
    e.modulusRx c (n % c.snModulus) = n - W.next := by
  rw [Rx.modulusRx, h.rxNext, Cyclic.dist_mod h₀ h₁]

theorem snInRecvWindow (h : e.Reads c W) (h₀ : W.next ≤ n) (h₁ : n < W.next + c.snModulus) :
    e.snInRecvWindow c (n % c.snModulus) = decide (n < W.next + c.windowSize) := by
  rw [Rx.snInRecvWindow, h.modulusRx h₀ h₁]
  congr 1
  simp only [eq_iff_iff]
  omega

theorem snCompareRx (h : e.Reads c W) {m : Nat} (hm₀ : W.next ≤ m) (hm₁ : m < W.next + c.snModulus)
    (hn₀ : W.next ≤ n) (hn₁ : n < W.next + c.snModulus) :
    e.snCompareRx c (m % c.snModulus) (n % c.snModulus) = (m : Int) - n := by
  rw [Rx.snCompareRx, h.modulusRx hm₀ hm₁, h.modulusRx hn₀ hn₁]
  omega

theorem getPduFromSn (h : e.Reads c W) (h₀ : W.next ≤ n) (h₁ : n < W.next + c.windowSize) :
    e.rx.getPduFromSn (n % c.snModulus) = W.slots n := by
  rw [c.snModulus_eq]
  exact h.holds.get n h₀ h₁

theorem getPduFromSn_add (h : e.Reads c W) (h₀ : W.next ≤ n) (h₁ : n < W.next + c.windowSize) :
    e.rx.getPduFromSn ((n + c.windowSize) % c.snModulus) = W.slots n := by
  rw [c.snModulus_eq]
  exact h.holds.get_add c.windowSize_pos h₀ h₁

theorem sduDelivered (h : e.Reads c W) (h₀ : W.next ≤ n) (h₁ : n < W.next + c.windowSize) :
    e.sduDelivered (n % c.snModulus) = processed (W.slots n) := by
  rw [Rx.sduDelivered, h.getPduFromSn h₀ h₁]

theorem sduDelivered_end (h : e.Reads c W) :
    e.sduDelivered ((W.next + c.windowSize) % c.snModulus) = processed (W.slots W.next) := by
  rw [Rx.sduDelivered, h.getPduFromSn_add le_rfl (Nat.lt_add_of_pos_right c.windowSize_pos)]

theorem lift_mem (h : e.Reads c W) {sn : Nat} (hsn : sn < c.snModulus)
    (hw : e.snInRecvWindow c sn) :
    ∃ n, W.next ≤ n ∧ n < W.next + c.windowSize ∧ sn = n % c.snModulus := by
  refine ⟨Cyclic.lift c.snModulus W.next sn, Cyclic.le_lift _ _ _, ?_, (Cyclic.lift_mod hsn).symm⟩
  have h' := h.snInRecvWindow (Cyclic.le_lift c.snModulus W.next sn) (Cyclic.lift_lt hsn)
  rw [Cyclic.lift_mod hsn, hw] at h'
  simpa using h'.symm

end Rx.Reads

end OpenAir.Rlc.Am

import OpenAir.Lib.Cyclic
import OpenAir.Rlc.RxManager

/-! The circular buffer read by unbounded sequence numbers: the window that starts at `R` has the
slot of every `n` with `R ≤ n < R + w`. -/

namespace OpenAir.Rlc.RxManager

open Function

structure Holds (m : RxManager) (w R : Nat) (slots : Nat → List Pdu) : Prop where
  size : m.size = w
  snStart : m.snStart = R % (2 * w)
  get : ∀ n, R ≤ n → n < R + w → m.getPduFromSn (n % (2 * w)) = slots n

variable {m : RxManager} {w R : Nat} {slots : Nat → List Pdu}

section Positions

variable (hw : 0 < w) (hs : m.size = w) (hr : m.snStart = R % (2 * w))
include hw hs hr

theorem getPos_mod {n : Nat} (hn : R ≤ n) : m.getPos (n % (2 * w)) = (m.start + (n - R)) % w := by
  obtain ⟨k, rfl⟩ := Nat.exists_eq_add_of_le hn
  have hlt : R % (2 * w) < 2 * w := Nat.mod_lt _ (by omega)
  have key : (R + k) % (2 * w) + w * 2 - R % (2 * w) ≡ k [MOD w] := by
    apply Nat.ModEq.add_right_cancel' (R % (2 * w))
    rw [Nat.sub_add_cancel (by omega)]
    have h₁ : (R + k) % (2 * w) ≡ R + k [MOD w] := (Nat.mod_modEq _ _).of_mul_left 2
    have h₂ : R % (2 * w) ≡ R [MOD w] := (Nat.mod_modEq _ _).of_mul_left 2
    calc (R + k) % (2 * w) + w * 2 ≡ (R + k) % (2 * w) [MOD w] := by simp [Nat.ModEq]
      _ ≡ R + k [MOD w] := h₁
      _ = k + R := Nat.add_comm _ _
      _ ≡ k + R % (2 * w) [MOD w] := h₂.symm.add_left k
  rw [getPos, hs, hr, Nat.add_sub_cancel_left]
  exact key.add_left m.start

theorem getPos_inj {n n' : Nat} (hn : R ≤ n) (hn₁ : n < R + w) (hn' : R ≤ n') (hn₁' : n' < R + w)
    (h : m.getPos (n % (2 * w)) = m.getPos (n' % (2 * w))) : n = n' := by
  rw [getPos_mod hw hs hr hn, getPos_mod hw hs hr hn'] at h
  have := Nat.ModEq.add_left_cancel' m.start h
  have h' : n - R = n' - R := by
    rwa [Nat.ModEq, Nat.mod_eq_of_lt (by omega), Nat.mod_eq_of_lt (by omega)] at this
  omega

theorem exists_getPos_eq {pos : Nat} (hpos : pos < w) :
    ∃ n, R ≤ n ∧ n < R + w ∧ m.getPos (n % (2 * w)) = pos := by
  have hstart := Nat.mod_lt m.start hw
  refine ⟨R + (pos + w - m.start % w) % w, by omega, ?_, ?_⟩
  · exact Nat.add_lt_add_left (Nat.mod_lt _ hw) R
  · rw [getPos_mod hw hs hr (by omega), Nat.add_sub_cancel_left, ← Nat.mod_add_mod, Nat.add_mod_mod,
      show m.start % w + (pos + w - m.start % w) = pos + w by omega, Nat.add_mod_right,
      Nat.mod_eq_of_lt hpos]

end Positions

section InWindow

variable (h : Holds m w R slots) (hw : 0 < w) {n : Nat} (hn : R ≤ n) (hn₁ : n < R + w)
include h hw hn hn₁

theorem Holds.get_add : m.getPduFromSn ((n + w) % (2 * w)) = slots n := by
  rw [← h.get n hn hn₁, getPduFromSn, getPduFromSn,
    getPos_mod hw h.size h.snStart (by omega : R ≤ n + w), getPos_mod hw h.size h.snStart hn,
    show m.start + (n + w - R) = m.start + (n - R) + w by omega, Nat.add_mod_right]

theorem Holds.setSlot (l : List Pdu) :
    Holds (m.setSlot (n % (2 * w)) l) w R (update slots n l) where
  size := h.size
  snStart := h.snStart
  get k hk hk₁ := by
    change update m.rxList (m.getPos (n % (2 * w))) l (m.getPos (k % (2 * w))) = _
    by_cases hkn : k = n
    · subst hkn
      simp
    · have hne : m.getPos (k % (2 * w)) ≠ m.getPos (n % (2 * w)) := fun he =>
        hkn (getPos_inj hw h.size h.snStart hk hk₁ hn hn₁ he)
      rw [update_of_ne hne, update_of_ne hkn]
      exact h.get k hk hk₁

theorem Holds.addPdu {pdu : Pdu} (hp : pdu.sn = n % (2 * w)) :
    Holds (m.addPdu pdu) w R (update slots n (insertPdu pdu (slots n))) := by
  rw [RxManager.addPdu, hp, h.get n hn hn₁]
  exact h.setSlot hw hn hn₁ _

end InWindow

theorem Holds.new (w : Nat) : Holds (RxManager.new w) w 0 fun _ => [] where
  size := rfl
  snStart := by simp [RxManager.new]
  get _ _ _ := rfl

theorem Holds.congr {slots' : Nat → List Pdu} (h : Holds m w R slots)
    (hs : ∀ n, R ≤ n → n < R + w → slots n = slots' n) : Holds m w R slots' :=
  ⟨h.size, h.snStart, fun n hn hn₁ => (h.get n hn hn₁).trans (hs n hn hn₁)⟩

theorem Holds.advance (h : Holds m w R slots) (hw : 0 < w) {k : Nat} (hk : k ≤ w)
    (he : ∀ n, R ≤ n → n < R + k → slots n = []) :
    Holds ((m.advance k).setStart ((R + k) % (2 * w))) w (R + k)
      fun n => if n < R + w then slots n else [] where
  size := h.size
  snStart := rfl
  get n hn hn₁ := by
    have hpos : ((m.advance k).setStart ((R + k) % (2 * w))).getPos (n % (2 * w)) =
        m.getPos (n % (2 * w)) := by
      rw [getPos_mod (m := (m.advance k).setStart _) (R := R + k) hw h.size rfl hn,
        getPos_mod hw h.size h.snStart (by omega)]
      change ((m.start + k) % m.size + (n - (R + k))) % w = _
      rw [h.size, Nat.mod_add_mod, show m.start + k + (n - (R + k)) = m.start + (n - R) by omega]
    change m.rxList _ = _
    rw [hpos]
    split
    · next hlt => exact h.get n (by omega) hlt
    · next hge =>
      have := h.get_add hw (n := n - w) (by omega) (by omega)
      rw [show n - w + w = n by omega] at this
      exact this.trans (he _ (by omega) (by omega))

end OpenAir.Rlc.RxManager

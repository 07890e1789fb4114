import OpenAir.Pdcp.Delivery

namespace OpenAir.Pdcp.Entity

variable {sec : Security} {c : Config} {e e' e₀ : Entity} {pdu : List Byte} {l : Op × Output}
  {ls : List (Op × Output)} {parameters : SecurityKeysAndAlgos}

structure Consistent (e : Entity) : Prop extends e.Reordering where
  running : e.tReorderingStart ≠ 0 ↔ e.rxDeliv < e.rxNext

def inService (sec : Security) (c : Config) (e : Entity) : Op → Bool
  | .recvPdu pdu => e.tCurrent ≠ 0 && e.noWrap sec c (.recvPdu pdu)
  | .setTime _ => true
  | .suspend => true
  | .reestablish _ => true
  | _ => false

theorem Reordering.starts (h : e.startTReordering.Reordering) (ht : e.tCurrent ≠ 0) :
    e.startTReordering.Consistent := by
  refine ⟨h, fun hrun => ?_, fun hlt => ?_⟩
  · obtain ⟨h₁, h₂⟩ := h.reord hrun
    exact UInt32.lt_of_lt_of_le h₁ h₂
  · rw [startTReordering_rxDeliv, startTReordering_rxNext] at hlt
    unfold startTReordering
    split
    · exact ht
    · next hn => exact fun hz => hn ⟨hz, hlt⟩

theorem stopTReordering_tCurrent (e : Entity) : e.stopTReordering.tCurrent = e.tCurrent := by
  unfold stopTReordering
  split <;> rfl

namespace Consistent

section

variable (h : e.Consistent)
include h

theorem rxList_eq_nil (hstop : e.tReorderingStart = 0) : e.rxList = [] := by
  refine List.eq_nil_iff_forall_not_mem.mpr fun s hs => ?_
  obtain ⟨h₁, h₂⟩ := h.between s hs
  exact h.running.mpr (UInt32.lt_trans h₁ h₂) hstop

theorem recvPdu (ht : e.tCurrent ≠ 0)
    (hwrap : ∀ s, e.accepted sec c pdu = some s → s.count ≠ 0xffffffff) :
    (e.recvPdu sec c pdu).1.Consistent := by
  have hre := (h.toReordering.recvPdu hwrap).1
  rw [recvPdu_eq] at hre ⊢
  cases hacc : e.accepted sec c pdu with
  | none => exact h
  | some s =>
    rw [hacc] at hre
    refine hre.starts ?_
    rw [stopTReordering_tCurrent, (storeDeliver_timer e s).2.2]
    exact ht

theorem setTime (now : UInt64) : (e.setTime c now).1.Consistent := by
  have hre := (h.toReordering.setTime now (c := c)).1
  rcases setTime_cases c e now with heq | ⟨-, hlate, heq⟩ <;> rw [heq] at hre ⊢
  · exact ⟨hre, h.running⟩
  · exact hre.starts (show now ≠ 0 by grind)

end

theorem reset (hlist : e.rxList = []) (hstop : e.tReorderingStart = 0) (hnext : e.rxNext = 0)
    (hdeliv : e.rxDeliv = 0) : e.Consistent := by
  refine ⟨⟨⟨?_, ?_, ?_⟩, fun hrun => absurd hstop hrun⟩, ?_⟩
  · rw [hlist]
    exact .nil
  · simp [hlist]
  · rw [hnext, hdeliv]
    exact UInt32.le_refl _
  · simp [hstop, hnext, hdeliv]

end Consistent

def Resets (c : Config) : Op → Prop
  | .suspend => True
  | .reestablish _ => c.type ≠ .drbAm
  | _ => False

def IsReset (e : Entity) : Prop :=
  e.rxList = [] ∧ e.tReorderingStart = 0 ∧ e.rxNext = 0 ∧ e.rxDeliv = 0

theorem reestablished_eq {e₁ : Entity} (h : e.reestablished parameters = some e₁) :
    e₁.rxList = e.rxList ∧ e₁.tReorderingStart = e.tReorderingStart ∧ e₁.rxNext = e.rxNext ∧
      e₁.rxDeliv = e.rxDeliv ∧ e₁.rxReord = e.rxReord := by
  obtain ⟨e₂, hs, rfl⟩ := Option.map_eq_some_iff.mp h
  obtain ⟨_, _, _, rfl⟩ := setSecurity_eq hs
  exact ⟨rfl, rfl, rfl, rfl, rfl⟩

namespace Consistent

variable (h : e.Consistent)
include h

theorem suspend : e.suspend.1.IsReset := by
  unfold Entity.suspend
  by_cases hrun : e.tReorderingStart = 0
  · simp only [hrun, ne_eq, not_true_eq_false, if_false]
    exact ⟨h.rxList_eq_nil hrun, rfl, rfl, rfl⟩
  · simp only [hrun, ne_eq, not_false_eq_true, if_true]
    exact ⟨rfl, rfl, rfl, rfl⟩

theorem reestablishDrbUm {r : Entity × List Sdu} (hr : e.reestablishDrbUm parameters = some r) :
    r.1.IsReset := by
  obtain ⟨e₁, hre, rfl⟩ := Option.map_eq_some_iff.mp hr
  obtain ⟨hlist, hstart, hnext, hdeliv, -⟩ := reestablished_eq hre
  refine ⟨hlist.trans ?_, hstart, hnext, hdeliv⟩
  by_cases hrun : e.tReorderingStart = 0
  · simp only [hrun, ne_eq, not_true_eq_false, if_false]
    exact h.rxList_eq_nil hrun
  · simp only [hrun, ne_eq, not_false_eq_true, if_true]
    rfl

omit h in
theorem reestablishSrb {r : Entity × List Sdu} (hr : e.reestablishSrb parameters = some r) :
    r.1.IsReset := by
  obtain ⟨e₁, hre, rfl⟩ := Option.map_eq_some_iff.mp hr
  obtain ⟨hlist, hstart, hnext, hdeliv, -⟩ := reestablished_eq hre
  exact ⟨hlist, hstart, hnext, hdeliv⟩

theorem resets (hs : Step sec c e l e') (hr : Resets c l.1) : e'.IsReset := by
  obtain ⟨op, out⟩ := l
  cases op with
  | suspend =>
    cases hs
    exact h.suspend
  | reestablish parameters =>
    obtain ⟨r, hre, heq⟩ := Option.map_eq_some_iff.mp hs
    cases heq
    unfold reestablish at hre
    split at hre
    · next htype => exact absurd htype hr
    · exact h.reestablishDrbUm hre
    · exact reestablishSrb hre
  | _ => cases hr

theorem step (hs : Step sec c e l e') (hop : e.inService sec c l.1) : e'.Consistent := by
  obtain ⟨op, out⟩ := l
  cases op with
  | recvPdu pdu =>
    cases hs
    obtain ⟨ht, hwrap⟩ := Bool.and_eq_true_iff.mp hop
    refine h.recvPdu (of_decide_eq_true ht) fun s hacc => ?_
    simpa [noWrap, hacc] using hwrap
  | setTime now =>
    cases hs
    exact h.setTime now
  | suspend =>
    obtain ⟨hlist, hstop, hnext, hdeliv⟩ := h.resets hs trivial
    exact .reset hlist hstop hnext hdeliv
  | reestablish parameters =>
    by_cases htype : c.type = .drbAm
    · obtain ⟨r, hre, heq⟩ := Option.map_eq_some_iff.mp hs
      cases heq
      rw [reestablish, htype] at hre
      obtain ⟨e₁, hre', rfl⟩ := Option.map_eq_some_iff.mp hre
      obtain ⟨hlist, hstart, hnext, hdeliv, hreord⟩ := reestablished_eq hre'
      refine ⟨⟨⟨?_, ?_, ?_⟩, ?_⟩, ?_⟩
      · rw [hlist]
        exact h.sorted
      · rw [hlist, hdeliv, hnext]
        exact h.between
      · rw [hdeliv, hnext]
        exact h.deliv_le
      · rw [hstart, hdeliv, hreord, hnext]
        exact h.reord
      · rw [hstart, hdeliv, hnext]
        exact h.running
    · obtain ⟨hlist, hstop, hnext, hdeliv⟩ := h.resets hs htype
      exact .reset hlist hstop hnext hdeliv
  | _ => cases hop

end Consistent

theorem consistent_new (h : Entity.new parameters = some e₀) : e₀.Consistent := by
  obtain ⟨_, _, _, rfl⟩ := setSecurity_eq h
  exact .reset rfl rfl rfl rfl

/-- In every state the timer runs exactly if an SDU is missing before `rx_next`, and a reset leaves
no SDU behind. -/
theorem reordering_timer (hnew : Entity.new parameters = some e₀)
    (h : Run (fun s l t => Step sec c s l t ∧ s.inService sec c l.1 = true) e₀ ls e) :
    e.Consistent ∧ ∀ l e', Step sec c e l e' → Resets c l.1 → e'.IsReset := by
  have hinv : e.Consistent :=
    h.invariant Consistent (consistent_new hnew) fun _ _ _ hi hs => hi.step hs.1 hs.2
  exact ⟨hinv, fun _ _ => hinv.resets⟩

theorem reordering_timer_suspend :
    ∃ e₀ ls e out e', Entity.new .small = some e₀ ∧
      Run (fun s l t => Step .small (.small false) s l t ∧
        s.inService .small (.small false) l.1 = true) e₀ ls e ∧
      e.rxList.map Sdu.count = [1] ∧ e.Consistent ∧
      Step .small (.small false) e (.suspend, out) e' ∧ e'.IsReset := by
  have hobs : ((Entity.new .small).bind fun e₀ =>
      (execList (exec .small (.small false)) (fun e op => e.inService .small (.small false) op) e₀
        [.setTime 1, .recvPdu [128, 1, 7, 80, 207, 207, 207, 207]]).map fun r =>
        r.1.rxList.map Sdu.count) = some [1] := by decide
  obtain ⟨e₀, hnew, hobs⟩ := Option.bind_eq_some_iff.mp hobs
  obtain ⟨⟨e, ls⟩, hrun, heq⟩ := Option.map_eq_some_iff.mp hobs
  have hinv := reordering_timer hnew (execList_run hrun)
  have hstep : Step .small (.small false) e (.suspend, { delivered := e.suspend.2 }) e.suspend.1 :=
    rfl
  exact ⟨e₀, ls, e, _, _, hnew, execList_run hrun, heq, hinv.1, hstep, hinv.2 _ _ hstep trivial⟩

end OpenAir.Pdcp.Entity

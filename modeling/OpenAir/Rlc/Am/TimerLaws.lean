import OpenAir.Rlc.Am.StoreLaws

namespace OpenAir.Rlc.Am

open Rx RxManager

variable {c : Config} {e e' : Rx} {V W W' : Window} {fuel n T : Nat} {now : UInt64} {pdu : Pdu}
  {evs : List Event}

theorem Rx.Trigger.put (h : e.Trigger c W T) (hW : W.Stores c) (hn₀ : W.next ≤ n)
    (hn₁ : n < W.next + c.windowSize) (hp : PduWf c.snModulus n pdu) :
    e.Trigger c (W.put n pdu) T where
  reads := h.reads
  next_lt := h.next_lt
  le_highest := h.le_highest.trans (le_max_left _ _)
  before := Window.put_slots_ne_nil h.before
  passed m h₀ h₁ := hW.processed_put hn₀ hn₁ hp (h.passed m h₀ h₁)

theorem Rx.Trigger.settle (h : e.Trigger c V T) (hs : V.Settles c W) (hV : V.Stores c)
    (hlt : W.next < T) : e.Trigger c W T := by
  have h₂ := hs.status_le_end
  have h₃ := hV.highest_le
  have h₄ := h.le_highest
  refine ⟨h.reads, hlt, hs.highest ▸ h.le_highest, ?_, fun m hm₀ hm₁ => ?_⟩
  · rw [hs.slots_eq (by omega) (by omega)]
    exact h.before
  · rw [hs.slots_eq (by omega) (by omega)]
    by_cases hm : m < V.status
    · exact h.passed m hm₀ hm
    · exact hs.status_passed m (by omega) hm₁

namespace Rx.Reads

theorem setTimer (h : e.Reads c W) (start : UInt64) (trigger : Nat) :
    Rx.Reads c { e with tReassemblyStart := start, rxNextStatusTrigger := trigger } W :=
  ⟨h.rxNext, h.highestStatus, h.nextHighest, h.holds⟩

theorem stopTReassembly (h : e.Reads c W) (hs : V.Settles c W) (hV : V.Stores c)
    (ht : e.TimerWf c V) :
    ∃ start, Rx.stopTReassembly c e = { e with tReassemblyStart := start } ∧
      Rx.TimerWf c { e with tReassemblyStart := start } W := by
  rw [Rx.stopTReassembly]
  split
  · exact ⟨0, rfl, fun h0 => absurd rfl h0⟩
  · next hns =>
    refine ⟨_, rfl, fun h0 => ?_⟩
    obtain ⟨T, hT⟩ := ht h0
    refine ⟨T, hT.settle hs hV ?_⟩
    by_contra hle
    apply hns
    refine ⟨h0, ?_⟩
    have hM := c.snModulus_eq
    have h₁ := hT.next_lt
    have h₂ := hs.next_le_end
    rcases (by omega : T = W.next ∨ T < W.next) with rfl | hlt
    · exact .inl (hT.reads.trans h.rxNext.symm)
    · -- behind `next` the trigger reads as lying more than a window ahead
      have hmod : T % c.snModulus = (T + c.snModulus) % c.snModulus := by simp
      refine .inr (.inr ⟨?_, ?_⟩)
      · rw [hT.reads, hmod, h.snInRecvWindow (by omega) (by omega)]
        simpa using by omega
      · rw [hT.reads, hmod, h.rxNext, Nat.mod_add_mod]
        intro heq
        have := Cyclic.mod_injOn (R := W.next) (by omega) (by omega) (by omega) (by omega) heq
        omega

theorem next_lt_highest (h : e.Reads c W) (hW : W.Stores c) {missing : Bool}
    (hc : e.snCompareRx c e.rxNextHighest ((e.rxNext + 1) % c.snModulus) > 0 ∨
      e.rxNextHighest = (e.rxNext + 1) % c.snModulus ∧ missing) : W.next < W.highest := by
  have hw := c.windowSize_ge
  have hM := c.snModulus_eq
  have hle := hW.next_le.trans hW.status_le
  have hend := hW.highest_le
  rw [h.nextHighest, h.rxNext, Cyclic.succ_mod,
    h.snCompareRx hle (by omega) (by omega) (by omega)] at hc
  rcases hc with hgt | ⟨heq, -⟩
  · omega
  · have := Cyclic.mod_injOn (R := W.next) (by omega) (by omega) (by omega) (by omega) heq
    omega

theorem trigger_highest (h : e.Reads c W) (hW : W.Stores c) (hlt : W.next < W.highest)
    (start : UInt64) :
    Rx.Trigger c { e with tReassemblyStart := start, rxNextStatusTrigger := e.rxNextHighest } W
      W.highest where
  reads := h.nextHighest
  next_lt := hlt
  le_highest := le_rfl
  before := hW.before_highest hlt
  passed m h₀ h₁ := absurd (h₁.trans_le hW.status_le) (by omega)

theorem startTReassembly (h : e.Reads c W) (hW : W.Stores c) (ht : e.TimerWf c W)
    (now : UInt64) :
    ∃ start trigger, Rx.startTReassembly c now e =
        { e with tReassemblyStart := start, rxNextStatusTrigger := trigger } ∧
      Rx.TimerWf c { e with tReassemblyStart := start, rxNextStatusTrigger := trigger } W := by
  rw [Rx.startTReassembly]
  split
  · next hc =>
    exact ⟨now, _, rfl, fun _ => ⟨_, h.trigger_highest hW (h.next_lt_highest hW hc.2) now⟩⟩
  · exact ⟨_, _, rfl, ht⟩

theorem stored (h : e.Reads c W) (hW : W.Wf c) (hn₀ : W.next ≤ n)
    (hn₁ : n < W.next + c.windowSize) (hsn : pdu.sn = n % c.snModulus) :
    ∃ e₀, Stored c e₀ W n pdu ∧
      (∀ fuel now, Rx.store c fuel now e pdu =
        (Rx.deliverActions c fuel e₀ (n % c.snModulus)).map fun r =>
          (Rx.startTReassembly c now (Rx.stopTReassembly c r.1), r.2)) ∧
      e₀ = { e with
        rxNextHighest := e₀.rxNextHighest
        rx := e.rx.addPdu pdu
        rxSize := e.rxSize + pdu.size } := by
  have hadd := h.addPdu hn₀ hn₁ hsn (e.rxSize + pdu.size)
  obtain ⟨H, hup, rfl⟩ := hadd.updateRxNextHighest hn₀ hn₁ (hW.next_le.trans hW.status_le)
    hW.highest_le
  refine ⟨{ e with
      rxNextHighest := max W.highest (n + 1) % c.snModulus
      rx := e.rx.addPdu pdu
      rxSize := e.rxSize + pdu.size },
    ⟨h.rxNext, h.highestStatus, rfl, hadd.holds⟩, fun fuel now => ?_, rfl⟩
  rw [Rx.store, Rx.receptionActions, hsn, hup]

theorem store (h : e.Reads c W) (hW : W.Wf c) (ht : e.TimerWf c W) (hn₀ : W.next ≤ n)
    (hn₁ : n < W.next + c.windowSize) (hp : PduWf c.snModulus n pdu)
    (hs : Rx.store c fuel now e pdu = some (e', evs)) :
    ∃ W', e'.Reads c W' ∧ e'.TimerWf c W' ∧ (W.put n pdu).Settles c W' ∧
      evs = (if W.completes n pdu then delivery (n % c.snModulus) (W.slotWith n pdu) else []) ++
        passes c W.next W'.next ∧
      e'.rxSize = e.rxSize + pdu.size -
        (if W.completes n pdu then bytesOf (W.slotWith n pdu) else 0) ∧
      e'.rxMaxsize = e.rxMaxsize := by
  have hput := hW.toStores.put hn₀ hn₁ hp
  obtain ⟨e₀, hst, hact, hframe₀⟩ := h.stored hW hn₀ hn₁ hp.sn
  rw [hact] at hs
  obtain ⟨⟨e₁, evs₁⟩, hd, hr⟩ := Option.map_eq_some_iff.mp hs
  obtain ⟨rfl, rfl⟩ := Prod.mk.inj hr
  obtain ⟨W', hr₁, hset, hev, hframe⟩ := deliverActions hst hW hn₀ hn₁ hp hd
  rw [hframe₀] at hframe
  have ht₁ : e₁.TimerWf c (W.put n pdu) := by
    rw [hframe]
    intro h0
    obtain ⟨T, hT⟩ := ht h0
    have hT' := hT.put hW.toStores hn₀ hn₁ hp
    exact ⟨T, hT'.reads, hT'.next_lt, hT'.le_highest, hT'.before, hT'.passed⟩
  obtain ⟨start, hstop, ht₂⟩ := hr₁.stopTReassembly hset hput ht₁
  have hr₂ := hr₁.setTimer start e₁.rxNextStatusTrigger
  obtain ⟨start', trigger, hstart, ht₃⟩ := hr₂.startTReassembly
    (hset.wf hput).toStores ht₂ now
  simp only [hstop, hstart]
  refine ⟨W', hr₁.setTimer start' trigger, ht₃, hset, hev, ?_, ?_⟩
  · rw [hframe]
  · rw [hframe]

theorem checkTReassembly (h : e.Reads c W) (hW : W.Wf c) (ht : e.TimerWf c W)
    (hc : Rx.checkTReassembly c fuel now e = some e') :
    ∃ S, e'.Reads c { W with status := S } ∧ e'.TimerWf c { W with status := S } ∧
      Window.Wf c { W with status := S } ∧ W.status ≤ S ∧ e'.rxSize = e.rxSize ∧
      e'.rxMaxsize = e.rxMaxsize := by
  rw [Rx.checkTReassembly] at hc
  split at hc
  · cases hc
    exact ⟨W.status, h, ht, hW, le_rfl, rfl, rfl⟩
  · next hexp =>
    obtain ⟨T, hT⟩ := ht fun h0 => hexp (.inl h0)
    have h₁ := hT.next_lt
    have h₂ := hT.le_highest
    have h₃ := hW.highest_le
    obtain ⟨sn, hwalk, he'⟩ := Option.map_eq_some_iff.mp hc
    rw [hT.reads] at hwalk
    obtain ⟨S, rfl, hS₀, hS₁, hS₂, hS₃⟩ :=
      h.nextUndelivered h₁.le (by omega) (.inr hW.next_open) hwalk
    have hle : W.status ≤ S := by
      by_contra hlt
      have hp := hT.passed S hS₀ (by omega)
      have := hW.status_le
      rw [hS₃ (by omega)] at hp
      cases hp
    have hbefore : W.slots (S - 1) ≠ [] := by
      rcases hS₀.eq_or_lt with rfl | hlt
      · exact hT.before
      · exact ne_nil_of_processed (hS₂ _ (by omega) (by omega))
    have hW' : Window.Wf c { W with status := S } :=
      { hW with
        next_le := by
          change W.next ≤ S
          omega
        status_le := by
          have := hW.stored (S - 1) (by omega) (by omega) hbefore
          change S ≤ W.highest
          omega
        before_status := fun _ => hbefore
        status_open := hS₃ }
    have hr : Rx.Reads c { e with
        tReassemblyStart := 0
        rxHighestStatus := S % c.snModulus
        statusTriggered := true } { W with status := S } :=
      ⟨h.rxNext, rfl, h.nextHighest, h.holds⟩
    dsimp only at he'
    split at he'
    · subst he'
      have htr := hr.trigger_highest hW'.toStores (by change W.next < W.highest; omega) now
      exact ⟨S, hr.setTimer _ _, fun _ => ⟨_, htr⟩, hW', hle, rfl, rfl⟩
    · subst he'
      exact ⟨S, hr, fun h0 => absurd rfl h0, hW', hle, rfl, rfl⟩

end Rx.Reads

end OpenAir.Rlc.Am

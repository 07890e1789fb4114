import OpenAir.Rlc.Am.ReceiveLaws

namespace OpenAir.Rlc.Am

open Rx RxManager Function

variable {c : Config} {e e' : Rx} {W W' : Window} {fuel n : Nat} {pdu : Pdu} {evs : List Event}

namespace Window

def slotWith (W : Window) (n : Nat) (pdu : Pdu) : List Pdu := insertPdu pdu (W.slots n)

theorem slotWith_ne_nil : W.slotWith n pdu ≠ [] := insertPdu_ne_nil pdu (W.slots n)

def completes (W : Window) (n : Nat) (pdu : Pdu) : Bool :=
  !processed (W.slotWith n pdu) && fullFrom (W.slotWith n pdu) (-1)

def put (W : Window) (n : Nat) (pdu : Pdu) : Window :=
  { W with
    highest := max W.highest (n + 1)
    slots := update W.slots n
      (if W.completes n pdu then (W.slotWith n pdu).map clearData else W.slotWith n pdu) }

theorem put_slots_of_ne {m : Nat} (h : m ≠ n) : (W.put n pdu).slots m = W.slots m :=
  update_of_ne h _ _

theorem put_slots_self : (W.put n pdu).slots n =
    if W.completes n pdu then (W.slotWith n pdu).map clearData else W.slotWith n pdu :=
  update_self _ _ _

theorem put_slots_self_ne_nil : (W.put n pdu).slots n ≠ [] := by
  rw [put_slots_self]
  split
  · exact List.map_eq_nil_iff.not.mpr slotWith_ne_nil
  · exact slotWith_ne_nil

theorem put_slots_ne_nil {m : Nat} (h : W.slots m ≠ []) : (W.put n pdu).slots m ≠ [] := by
  by_cases hm : m = n
  · subst hm
    exact put_slots_self_ne_nil
  · rwa [put_slots_of_ne hm]

namespace Stores

variable (hW : W.Stores c) (hn₀ : W.next ≤ n) (hn₁ : n < W.next + c.windowSize)
  (hp : PduWf c.snModulus n pdu)

include hW hn₀ hn₁ hp

theorem processed_slotWith : processed (W.slotWith n pdu) = processed (W.slots n) := by
  obtain ⟨d, hd, -⟩ := hp.data
  exact processed_insertPdu (by simp [hd]) fun h => hW.full n hn₀ hn₁ ▸ h

theorem processed_put_self :
    processed ((W.put n pdu).slots n) = (processed (W.slots n) || W.completes n pdu) := by
  rw [put_slots_self]
  split
  · next hc =>
    rw [processed_map_clearData slotWith_ne_nil, hc, Bool.or_true]
  · next hc =>
    rw [hW.processed_slotWith hn₀ hn₁ hp, Bool.eq_false_iff.mpr hc, Bool.or_false]

theorem processed_put {m : Nat} (h : processed (W.slots m)) :
    processed ((W.put n pdu).slots m) := by
  by_cases hm : m = n
  · subst hm
    rw [hW.processed_put_self hn₀ hn₁ hp, h, Bool.true_or]
  · rwa [put_slots_of_ne hm]

theorem put : (W.put n pdu).Stores c where
  next_le := hW.next_le
  status_le := hW.status_le.trans (le_max_left _ _)
  highest_le := max_le hW.highest_le hn₁
  slot m h₀ h₁ := by
    by_cases hm : m = n
    · subst hm
      have hins := (hW.slot m h₀ h₁).insertPdu (hW.full m h₀ h₁) hp
      rw [put_slots_self]
      split
      · exact hins.clear
      · exact hins
    · rw [put_slots_of_ne hm]
      exact hW.slot m h₀ h₁
  full m h₀ h₁ := by
    by_cases hm : m = n
    · subst hm
      have hfull := hW.full m h₀ h₁
      rw [hW.processed_put_self hn₀ hn₁ hp, put_slots_self]
      split
      · next hc =>
        rw [fullFrom_map_clearData, hc, Bool.or_true]
        simp only [completes, Bool.and_eq_true] at hc
        exact hc.2.symm
      · next hc =>
        rw [Bool.eq_false_iff.mpr hc, Bool.or_false]
        cases hpr : processed (W.slots m) with
        | true =>
          rw [hpr] at hfull
          exact (fullFrom_insertPdu hfull.symm).symm
        | false =>
          rw [completes, hW.processed_slotWith hn₀ hn₁ hp, hpr] at hc
          simpa using hc
    · rw [put_slots_of_ne hm]
      exact hW.full m h₀ h₁
  stored m h₀ h₁ hne := by
    by_cases hm : m = n
    · subst hm
      exact lt_of_lt_of_le (Nat.lt_succ_self m) (le_max_right _ _)
    · rw [put_slots_of_ne hm] at hne
      exact (hW.stored m h₀ h₁ hne).trans_le (le_max_left _ _)
  before_highest _ := by
    change (W.put n pdu).slots (max W.highest (n + 1) - 1) ≠ []
    rcases le_total W.highest (n + 1) with h | h
    · rw [max_eq_right h]
      exact put_slots_self_ne_nil
    · rw [max_eq_left h]
      exact put_slots_ne_nil (hW.before_highest (by omega))
  before_status h := put_slots_ne_nil (hW.before_status h)

end Stores

end Window

def passes (c : Config) (R N : Nat) : List Event :=
  (List.range (N - R)).map fun i => .rxNextPassed ((R + i) % c.snModulus)

def delivery (sn : Nat) (l : List Pdu) : List Event :=
  if (reassemble l [] false).2 then [] else [.deliverSdu sn (reassemble l [] false).1]

def bytesOf (l : List Pdu) : Int := (l.map fun p => (p.size : Int)).sum

namespace Rx.Reads

theorem mod_eq_iff {m : Nat} (hm₀ : W.next ≤ m) (hm₁ : m ≤ W.next + c.windowSize)
    (hn₀ : W.next ≤ n) (hn₁ : n ≤ W.next + c.windowSize) :
    m % c.snModulus = n % c.snModulus ↔ m = n := by
  have := c.windowSize_lt
  refine ⟨Cyclic.mod_injOn hm₀ (by omega) hn₀ (by omega), ?_⟩
  rintro rfl
  rfl

section InWindow

variable (h : e.Reads c W) (hn₀ : W.next ≤ n) (hn₁ : n < W.next + c.windowSize)

include h hn₀ hn₁

theorem addPdu (hp : pdu.sn = n % c.snModulus) (size : Int) :
    Rx.Reads c { e with rxSize := size, rx := e.rx.addPdu pdu }
      { W with slots := update W.slots n (W.slotWith n pdu) } where
  rxNext := h.rxNext
  highestStatus := h.highestStatus
  nextHighest := h.nextHighest
  holds := h.holds.addPdu c.windowSize_pos hn₀ hn₁ (c.snModulus_eq ▸ hp)

theorem updateRxNextHighest (h₀ : W.next ≤ W.highest) (h₁ : W.highest ≤ W.next + c.windowSize) :
    ∃ H, e.updateRxNextHighest c (n % c.snModulus) = { e with rxNextHighest := H } ∧
      H = max W.highest (n + 1) % c.snModulus := by
  have hw := c.windowSize_lt
  rw [Rx.updateRxNextHighest, h.nextHighest,
    h.snCompareRx hn₀ (by omega) h₀ (by omega)]
  split
  · next hle =>
    rw [max_eq_right (by omega)]
    exact ⟨_, rfl, Cyclic.succ_mod _ _⟩
  · next hlt =>
    rw [max_eq_left (by omega)]
    exact ⟨_, rfl, h.nextHighest⟩

theorem sduFull :
    e.sduFull (n % c.snModulus) = (!processed (W.slots n) && fullFrom (W.slots n) (-1)) := by
  rw [Rx.sduFull, h.getPduFromSn hn₀ hn₁]

theorem reassembleAndDeliver :
    ∃ rx, rx.Holds c.windowSize W.next
        (update W.slots n ((W.slots n).map clearData)) ∧
      e.reassembleAndDeliver (n % c.snModulus) =
        ({ e with rx, rxSize := e.rxSize - bytesOf (W.slots n) },
          delivery (n % c.snModulus) (W.slots n)) := by
  refine ⟨e.rx.setSlot (n % c.snModulus) ((W.slots n).map clearData), ?_, ?_⟩
  · rw [c.snModulus_eq]
    exact h.holds.setSlot c.windowSize_pos hn₀ hn₁ _
  · rw [Rx.reassembleAndDeliver, h.getPduFromSn hn₀ hn₁]
    rfl

theorem advanceRxNext (hnext : n ≠ W.next → processed (W.slots W.next) = false)
    (ha : Rx.advanceRxNext c fuel e (n % c.snModulus) = some (e', evs)) :
    ∃ N rx, e' = { e with rxNext := N % c.snModulus, rx } ∧ W.next ≤ N ∧
      N ≤ W.next + c.windowSize ∧
      rx.Holds c.windowSize N (fun m => if m < W.next + c.windowSize then W.slots m else []) ∧
      (∀ m, W.next ≤ m → m < N → processed (W.slots m)) ∧
      (N < W.next + c.windowSize → processed (W.slots N) = false) ∧
      evs = passes c W.next N := by
  have hw := c.windowSize_pos
  simp only [Rx.advanceRxNext, h.rxNext,
    mod_eq_iff hn₀ hn₁.le le_rfl (Nat.le_add_right W.next c.windowSize)] at ha
  split at ha
  · obtain ⟨t, hpass, hr⟩ := Option.map_eq_some_iff.mp ha
    obtain ⟨rfl, rfl⟩ := Prod.mk.inj hr
    obtain ⟨k, hk, hstop⟩ := h.passDelivered hpass
    refine ⟨W.next + k, _, by rw [hk.rxNext], by omega, by have := hk.le; omega, ?_, hk.processed,
      fun hlt => hstop (by omega), ?_⟩
    · rw [hk.count, c.snModulus_eq]
      refine (hk.holds.advance hw hk.le fun m h₀ h₁ => if_pos h₁).congr fun m h₀ h₁ => ?_
      rw [if_neg (by omega : ¬ m < W.next + k)]
    · rw [hk.passed, passes, Nat.add_sub_cancel_left]
  · next hne =>
    obtain ⟨rfl, rfl⟩ := Prod.mk.inj (Option.some.inj ha)
    refine ⟨W.next, e.rx, by rw [← h.rxNext], le_rfl, by omega, ?_, fun m h₀ h₁ => by omega,
      fun _ => hnext hne, by simp [passes]⟩
    exact h.holds.congr fun m h₀ h₁ => by rw [if_pos h₁]

end InWindow

theorem advanceHighestStatus (h : e.Reads c W) (hW : W.Stores c) (hn₀ : W.next ≤ n)
    (hn₁ : n < W.next + c.windowSize)
    (hnext : n ≠ W.next → processed (W.slots W.next) = false)
    (hstatus : n ≠ W.status → W.status < W.next + c.windowSize →
      processed (W.slots W.status) = false)
    (ha : Rx.advanceHighestStatus c fuel e (n % c.snModulus) = some e') :
    ∃ S, e' = { e with rxHighestStatus := S % c.snModulus } ∧ W.status ≤ S ∧
      S ≤ W.next + c.windowSize ∧ (∀ m, W.status ≤ m → m < S → processed (W.slots m)) ∧
      (S < W.next + c.windowSize → processed (W.slots S) = false) := by
  have hle := hW.next_le
  have hend := hW.status_le.trans hW.highest_le
  simp only [Rx.advanceHighestStatus, h.highestStatus, mod_eq_iff hn₀ hn₁.le hle hend] at ha
  split at ha
  · next hns =>
    obtain ⟨sn, hwalk, rfl⟩ := Option.map_eq_some_iff.mp ha
    have hopen : W.status = W.next ∨ processed (W.slots W.next) = false := by
      by_cases hs : W.status = W.next
      · exact .inl hs
      · exact .inr (hnext (by omega))
    obtain ⟨S, rfl, h₁, h₂, h₃, h₄⟩ := h.nextUndelivered hle hend hopen hwalk
    exact ⟨S, rfl, h₁, h₂, h₃, h₄⟩
  · next hns =>
    cases ha
    refine ⟨W.status, ?_, le_rfl, hend, fun m h₀ h₁ => by omega, hstatus hns⟩
    rw [← h.highestStatus]

def Stored (c : Config) (e : Rx) (W : Window) (n : Nat) (pdu : Pdu) : Prop :=
  e.Reads c { W with
    highest := max W.highest (n + 1)
    slots := update W.slots n (W.slotWith n pdu) }

theorem Stored.sduFull (h : Stored c e W n pdu) (hn₀ : W.next ≤ n)
    (hn₁ : n < W.next + c.windowSize) : e.sduFull (n % c.snModulus) = W.completes n pdu := by
  rw [Reads.sduFull h hn₀ hn₁]
  simp only [update_self, Window.completes]

theorem Stored.pending (h : Stored c e W n pdu) (hc : W.completes n pdu = false) :
    e.Reads c (W.put n pdu) := by
  have hslots : (W.put n pdu).slots = update W.slots n (W.slotWith n pdu) := by
    simp [Window.put, hc]
  exact ⟨h.rxNext, h.highestStatus, h.nextHighest, hslots ▸ h.holds⟩

theorem Stored.complete (h : Stored c e W n pdu) (hn₀ : W.next ≤ n)
    (hn₁ : n < W.next + c.windowSize) (hc : W.completes n pdu) :
    ∃ rx, Rx.Reads c { e with rx, rxSize := e.rxSize - bytesOf (W.slotWith n pdu) }
        (W.put n pdu) ∧
      ∀ fuel, Rx.deliverActions c fuel e (n % c.snModulus) =
        (Rx.advanceHighestStatus c fuel
          { e with rx, rxSize := e.rxSize - bytesOf (W.slotWith n pdu) } (n % c.snModulus)).bind
          fun e' => (Rx.advanceRxNext c fuel e' (n % c.snModulus)).map fun s =>
            (s.1, delivery (n % c.snModulus) (W.slotWith n pdu) ++ s.2) := by
  obtain ⟨rx, hrx, hdel⟩ := Reads.reassembleAndDeliver h hn₀ hn₁
  simp only [update_self, update_idem] at hrx hdel
  have hslots : (W.put n pdu).slots =
      update W.slots n ((W.slotWith n pdu).map clearData) := by
    simp [Window.put, hc]
  refine ⟨rx, ⟨h.rxNext, h.highestStatus, h.nextHighest, hslots ▸ hrx⟩, fun fuel => ?_⟩
  rw [Rx.deliverActions, h.sduFull hn₀ hn₁, hc, if_pos rfl, hdel]

theorem next_open_put (hW : W.Wf c) (hne : n ≠ W.next) :
    processed ((W.put n pdu).slots W.next) = false := by
  rw [Window.put_slots_of_ne hne.symm]
  exact hW.next_open

theorem status_open_put (hW : W.Wf c) (hne : n ≠ W.status)
    (hlt : W.status < W.next + c.windowSize) :
    processed ((W.put n pdu).slots W.status) = false := by
  rw [Window.put_slots_of_ne hne.symm]
  exact hW.status_open hlt

theorem deliverActions (h : Stored c e W n pdu) (hW : W.Wf c) (hn₀ : W.next ≤ n)
    (hn₁ : n < W.next + c.windowSize) (hp : PduWf c.snModulus n pdu)
    (ha : Rx.deliverActions c fuel e (n % c.snModulus) = some (e', evs)) :
    ∃ W', e'.Reads c W' ∧ (W.put n pdu).Settles c W' ∧
      evs = (if W.completes n pdu then delivery (n % c.snModulus) (W.slotWith n pdu) else []) ++
        passes c W.next W'.next ∧
      e' = { e with
        rxNext := e'.rxNext
        rxHighestStatus := e'.rxHighestStatus
        rx := e'.rx
        rxSize := e.rxSize - if W.completes n pdu then bytesOf (W.slotWith n pdu) else 0 } := by
  have hput := hW.toStores.put hn₀ hn₁ hp
  cases hc : W.completes n pdu with
  | true =>
    obtain ⟨rx, hr₁, hact⟩ := h.complete hn₀ hn₁ hc
    rw [hact] at ha
    obtain ⟨e₂, ha₂, ha⟩ := Option.bind_eq_some_iff.mp ha
    obtain ⟨⟨e₃, evs₃⟩, ha₃, hr⟩ := Option.map_eq_some_iff.mp ha
    obtain ⟨rfl, rfl⟩ := Prod.mk.inj hr
    obtain ⟨S, rfl, hS₀, hS₁, hS₂, hS₃⟩ := hr₁.advanceHighestStatus hput hn₀ hn₁
      (next_open_put hW) (status_open_put hW) ha₂
    have hr₂ : Rx.Reads c { e with
          rxHighestStatus := S % c.snModulus
          rx
          rxSize := e.rxSize - bytesOf (W.slotWith n pdu) } { W.put n pdu with status := S } :=
      ⟨hr₁.rxNext, rfl, hr₁.nextHighest, hr₁.holds⟩
    obtain ⟨N, rx', rfl, hN₀, hN₁, hN₂, hN₃, hN₄, rfl⟩ :=
      hr₂.advanceRxNext hn₀ hn₁ (next_open_put hW) ha₃
    exact ⟨{ W.put n pdu with
        next := N
        status := S
        slots := fun m => if m < W.next + c.windowSize then (W.put n pdu).slots m else [] },
      ⟨rfl, rfl, hr₁.nextHighest, hN₂⟩,
      ⟨hN₀, hN₁, hN₃, hN₄, hS₀, hS₁, hS₂, hS₃, rfl, fun _ _ _ => rfl⟩, by simp; rfl, by simp⟩
  | false =>
    rw [Rx.deliverActions, h.sduFull hn₀ hn₁, hc, if_neg (by simp)] at ha
    obtain ⟨rfl, rfl⟩ := Prod.mk.inj (Option.some.inj ha)
    have hself := hW.toStores.processed_put_self hn₀ hn₁ hp
    rw [hc, Bool.or_false] at hself
    have hend := hW.status_le.trans hW.highest_le
    refine ⟨W.put n pdu, h.pending hc,
      ⟨le_rfl, Nat.le_add_right _ _, fun m h₀ h₁ => absurd h₀ (by omega), fun _ => ?_, le_rfl, hend,
        fun m h₀ h₁ => absurd h₀ (by omega), fun hlt => ?_, rfl, fun m _ h₁ => (if_pos h₁).symm⟩,
      by simp [passes, Window.put], by simp⟩
    · by_cases hne : n = W.next
      · subst hne
        exact hself.trans hW.next_open
      · exact next_open_put hW hne
    · by_cases hne : n = W.status
      · subst hne
        exact hself.trans (hW.status_open hlt)
      · exact status_open_put hW hne hlt

end Rx.Reads

end OpenAir.Rlc.Am

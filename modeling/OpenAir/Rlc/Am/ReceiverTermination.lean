import OpenAir.Rlc.Am.DataPdu
import OpenAir.Rlc.Am.ReceiverRuns

namespace OpenAir.Rlc.Am

open Rx RxManager

variable {c : Config} {e : Rx} {W : Window} {n : Nat} {pdu : Pdu}

structure Rx.FillsWindow (c : Config) (e : Rx) (pdu : Pdu) : Prop where
  status : e.rxHighestStatus = e.rxNext
  sn : pdu.sn = e.rxNext
  full : fullFrom (insertPdu pdu (e.rx.getPduFromSn e.rxNext)) (-1) = true
  others : ∀ i, 0 < i → i < c.windowSize → e.sduDelivered ((e.rxNext + i) % c.snModulus) = true

structure Window.FilledBy (c : Config) (W : Window) (n : Nat) (pdu : Pdu) : Prop where
  status : W.status = W.next
  sn : n = W.next
  full : fullFrom (W.slotWith n pdu) (-1) = true
  others : ∀ m, W.next < m → m < W.next + c.windowSize → processed (W.slots m) = true

theorem Rx.Tracks.fillsWindow_iff (h : e.Tracks c W) (hn₀ : W.next ≤ n)
    (hn₁ : n < W.next + c.windowSize) (hsn : pdu.sn = n % c.snModulus) :
    e.FillsWindow c pdu ↔ W.FilledBy c n pdu := by
  have hw := c.windowSize_pos
  have h₁ := h.wf.next_le
  have h₂ := h.wf.status_le.trans h.wf.highest_le
  have hstatus : e.rxHighestStatus = e.rxNext ↔ W.status = W.next := by
    rw [h.reads.highestStatus, h.reads.rxNext]
    exact Reads.mod_eq_iff h₁ h₂ le_rfl (by omega)
  have hsn' : pdu.sn = e.rxNext ↔ n = W.next := by
    rw [hsn, h.reads.rxNext]
    exact Reads.mod_eq_iff hn₀ hn₁.le le_rfl (by omega)
  have hslot : e.rx.getPduFromSn e.rxNext = W.slots W.next := by
    rw [h.reads.rxNext]
    exact h.reads.getPduFromSn le_rfl (by omega)
  have hdel : ∀ m, W.next ≤ m → m < W.next + c.windowSize →
      e.sduDelivered ((e.rxNext + (m - W.next)) % c.snModulus) = processed (W.slots m) := by
    intro m h₀ h₁
    rw [h.reads.rxNext, Nat.mod_add_mod, show W.next + (m - W.next) = m by omega,
      h.reads.sduDelivered h₀ h₁]
  constructor
  · rintro ⟨hs, hx, hf, ho⟩
    obtain rfl := hsn'.mp hx
    refine ⟨hstatus.mp hs, rfl, by rwa [hslot] at hf, fun m h₀ h₁ => ?_⟩
    rw [← hdel m h₀.le h₁]
    exact ho _ (by omega) (by omega)
  · rintro ⟨hs, rfl, hf, ho⟩
    refine ⟨hstatus.mpr hs, hsn'.mpr rfl, by rwa [hslot], fun i h₀ h₁ => ?_⟩
    have := hdel (W.next + i) (by omega) (by omega)
    rw [Nat.add_sub_cancel_left] at this
    rw [this]
    exact ho _ (by omega) (by omega)

theorem Window.FilledBy.completes (h : W.FilledBy c n pdu) (hW : W.Wf c)
    (hp : PduWf c.snModulus n pdu) : W.completes n pdu := by
  obtain ⟨-, rfl, hfull, -⟩ := h
  have hlt := Nat.lt_add_of_pos_right (n := W.next) c.windowSize_pos
  rw [Window.completes, hW.toStores.processed_slotWith le_rfl hlt hp, hW.next_open, hfull]
  rfl

theorem Window.FilledBy.processed_put (h : W.FilledBy c n pdu) (hW : W.Wf c)
    (hp : PduWf c.snModulus n pdu) {m : Nat} (h₀ : W.next ≤ m) (h₁ : m < W.next + c.windowSize) :
    processed ((W.put n pdu).slots m) := by
  have hc := h.completes hW hp
  obtain ⟨-, rfl, -, ho⟩ := h
  by_cases hm : m = W.next
  · subst hm
    rw [hW.toStores.processed_put_self h₀ h₁ hp, hc, Bool.or_true]
  · rw [Window.put_slots_of_ne hm]
    exact ho m (by omega) h₁

theorem Window.exists_open_put (hW : W.Wf c) (hnot : ¬ W.FilledBy c n pdu)
    (hc : W.completes n pdu) (hs : n = W.status) :
    ∃ m, W.next ≤ m ∧ m < W.next + c.windowSize ∧
      processed ((W.put n pdu).slots m) = false := by
  by_cases hn : n = W.next
  · subst hn
    by_contra hall
    push Not at hall
    simp only [Window.completes, Bool.and_eq_true] at hc
    refine hnot ⟨hs.symm, rfl, hc.2, fun m h₀ h₁ => ?_⟩
    have := hall m h₀.le h₁
    rwa [Window.put_slots_of_ne (by omega), ne_eq, Bool.not_eq_false] at this
  · exact ⟨W.next, le_rfl, Nat.lt_add_of_pos_right c.windowSize_pos, Reads.next_open_put hW hn⟩

theorem Rx.Reads.advanceHighestStatus_eq_none (h : e.Reads c W) (hle : W.next ≤ W.status)
    (hall : ∀ m, W.next ≤ m → m < W.next + c.windowSize → processed (W.slots m))
    (fuel : Nat) : Rx.advanceHighestStatus c fuel e (W.status % c.snModulus) = none := by
  rw [Rx.advanceHighestStatus, h.highestStatus, if_pos rfl, h.nextUndelivered_eq_none hle hall]
  rfl

theorem Rx.Reads.advanceHighestStatus_isSome (h : e.Reads c W) (hW : W.Stores c)
    (hn₀ : W.next ≤ n) (hn₁ : n < W.next + c.windowSize)
    (hopen : n = W.status → ∃ m, W.next ≤ m ∧ m < W.next + c.windowSize ∧
      processed (W.slots m) = false) :
    ∃ f₁ S, ∀ f, f₁ ≤ f → Rx.advanceHighestStatus c f e (n % c.snModulus) =
      some { e with rxHighestStatus := S } := by
  have hend := hW.status_le.trans hW.highest_le
  by_cases hs : n = W.status
  · obtain ⟨m, hm₀, hm₁, hm⟩ := hopen hs
    obtain ⟨f₁, S, hS⟩ := h.nextUndelivered_isSome hend hm₀ hm₁ hm
    refine ⟨f₁, S, fun f hf => ?_⟩
    have hS' : Rx.nextUndelivered c f e (W.status % c.snModulus) = some S := whileLoop.mono hf hS
    rw [Rx.advanceHighestStatus, h.highestStatus, hs, if_pos rfl, hS']
    rfl
  · refine ⟨0, e.rxHighestStatus, fun f _ => ?_⟩
    have hne : n % c.snModulus ≠ W.status % c.snModulus := fun heq =>
      hs ((mod_eq_iff hn₀ hn₁.le hW.next_le hend).mp heq)
    rw [Rx.advanceHighestStatus, h.highestStatus, if_neg hne, ← h.highestStatus]

theorem Rx.Reads.advanceRxNext_isSome (h : e.Reads c W) (S x : Nat) :
    ∃ f₁, ∀ f, f₁ ≤ f → ∃ r, Rx.advanceRxNext c f { e with rxHighestStatus := S } x = some r := by
  obtain ⟨f₁, t, ht⟩ := h.passDelivered_isSome
  refine ⟨f₁, fun f hf => ?_⟩
  have ht' : Rx.passDelivered c f { e with rxHighestStatus := S } = some t := whileLoop.mono hf ht
  rw [Rx.advanceRxNext, ht']
  split
  · exact ⟨_, rfl⟩
  · exact ⟨_, rfl⟩

theorem Rx.Tracks.store_terminates_iff (h : e.Tracks c W) (hn₀ : W.next ≤ n)
    (hn₁ : n < W.next + c.windowSize) (hp : PduWf c.snModulus n pdu) (now : UInt64) :
    (∃ fuel r, e.store c fuel now pdu = some r) ↔ ¬ W.FilledBy c n pdu := by
  obtain ⟨e₀, hst, hact, -⟩ := h.reads.stored h.wf hn₀ hn₁ hp.sn
  have hput := h.wf.toStores.put hn₀ hn₁ hp
  constructor
  · rintro ⟨fuel, r, hr⟩ hfill
    obtain ⟨rx, hr₁, hdel⟩ := hst.complete hn₀ hn₁ (hfill.completes h.wf hp)
    have hnone := hr₁.advanceHighestStatus_eq_none hput.next_le
      (fun m h₀ h₁ => hfill.processed_put h.wf hp h₀ h₁) fuel
    have hns : n % c.snModulus = (W.put n pdu).status % c.snModulus := by
      rw [hfill.sn, ← hfill.status]
      rfl
    rw [hact, hdel, hns, hnone] at hr
    cases hr
  · intro hnot
    cases hc : W.completes n pdu with
    | false =>
      have hdel : Rx.deliverActions c 0 e₀ (n % c.snModulus) = some (e₀, []) := by
        rw [Rx.deliverActions, hst.sduFull hn₀ hn₁, hc]
        rfl
      exact ⟨0, _, by rw [hact, hdel]; rfl⟩
    | true =>
      obtain ⟨rx, hr₁, hdel⟩ := hst.complete hn₀ hn₁ hc
      obtain ⟨f₁, S, hS⟩ := hr₁.advanceHighestStatus_isSome hput hn₀ hn₁
        (Window.exists_open_put h.wf hnot hc)
      obtain ⟨f₂, hN⟩ := hr₁.advanceRxNext_isSome S (n % c.snModulus)
      obtain ⟨r, hr⟩ := hN (max f₁ f₂) (le_max_right _ _)
      exact ⟨max f₁ f₂, _, by rw [hact, hdel, hS _ (le_max_left _ _), Option.bind_some, hr]; rfl⟩

theorem Rx.Tracks.recvPdu_isSome_iff {e : Entity} (h : e.rx.Tracks c W) (buffer : List Byte) :
    (∃ fuel r, e.recvPdu c fuel buffer = some r) ↔
      ∀ pdu, e.rx.acceptedPdu c buffer = some pdu → ¬ e.rx.FillsWindow c pdu := by
  rcases e.recvPdu_cases c buffer with
    ⟨hnone, _, _, _, -, hret⟩ | ⟨pdu, p, hsome, hd, ha, hret⟩
  · exact ⟨fun _ pdu hpdu => absurd (hnone.symm.trans hpdu) nofun, fun _ => ⟨0, _, hret 0⟩⟩
  · obtain ⟨n, hn₀, hn₁, hp, -⟩ := h.accepted hd ha
    have hiff := h.store_terminates_iff hn₀ hn₁ hp e.tCurrent
    rw [← h.fillsWindow_iff hn₀ hn₁ hp.sn] at hiff
    constructor
    · rintro ⟨fuel, r, hr⟩ pdu' hpdu'
      obtain rfl : pdu = pdu' := Option.some.inj (hsome.symm.trans hpdu')
      rw [hret] at hr
      obtain ⟨r', hr', -⟩ := Option.map_eq_some_iff.mp hr
      exact hiff.mp ⟨fuel, r', hr'⟩
    · intro hnot
      obtain ⟨fuel, r, hr⟩ := hiff.mpr (hnot pdu hsome)
      exact ⟨fuel, _, by rw [hret, hr]; rfl⟩

def wholePdu (sn : Nat) : Pdu := newPdu sn 0 true true [0]

structure Rx.MissesFirst (e : Rx) (k : Nat) (W : Window) : Prop where
  tracks : e.Tracks .unitTest W
  next : W.next = 0
  status : W.status = 0
  arrived : ∀ m, 0 < m → m ≤ k → processed (W.slots m) = true
  empty : ∀ m, m = 0 ∨ k < m → m < 2048 → W.slots m = []
  size : e.rxSize = 0
  maxsize : e.rxMaxsize = 500

theorem Rx.MissesFirst.accepts {k : Nat} (h : e.MissesFirst k W) {sn : Nat} (hsn : sn < 2048)
    (hnew : sn = 0 ∨ k < sn) : e.accepts .unitTest (wholePdu sn) := by
  have hmod : sn = sn % Config.unitTest.snModulus := (Nat.mod_eq_of_lt (by
    change sn < 4096
    omega)).symm
  have hin : e.snInRecvWindow .unitTest sn := by
    rw [hmod, h.tracks.reads.snInRecvWindow (by rw [h.next]; omega)
      (by rw [h.next]; change sn < 0 + 4096; omega), h.next]
    exact decide_eq_true (by change sn < 0 + 2048; omega)
  have hslot : e.rx.getPduFromSn sn = [] := by
    rw [hmod, h.tracks.reads.getPduFromSn (by rw [h.next]; omega)
      (by rw [h.next]; change sn < 0 + 2048; omega)]
    exact h.empty sn hnew hsn
  simp [Rx.accepts, wholePdu, newPdu, h.size, h.maxsize, hin, Rx.segmentAlreadyReceived, hslot,
    coveredBy]

theorem Rx.acceptedPdu_wholePdu {sn : Nat} (hsn : sn < 4096)
    (ha : e.accepts .unitTest (wholePdu sn)) :
    e.acceptedPdu .unitTest (dataPdu .unitTest false true true sn 0 [0]) = some (wholePdu sn) := by
  obtain ⟨d₁, d₂, h₁, h₂, h₃⟩ := decode_dataPdu (c := .unitTest) false true hsn
    (by decide : 0 < 2 ^ 16) (by decide : true = true ↔ 0 = 0) [0]
  change decodeDataPdu .unitTest d₂ = some (wholePdu sn) at h₃
  simp only [Rx.acceptedPdu, Option.bind_eq_bind, h₁, Option.bind_some, one_ne_zero, if_false, h₂,
    h₃, ha, if_true]

theorem Rx.MissesFirst.step {e : Entity} {k : Nat} (h : e.rx.MissesFirst k W) (hk : k + 1 < 2048) :
    ∃ l e' W', Step .unitTest e l e' ∧ e'.rx.MissesFirst (k + 1) W' := by
  have ha := h.accepts hk (.inr (Nat.lt_succ_self k))
  have hpdu := Rx.acceptedPdu_wholePdu (by omega) ha
  rcases e.recvPdu_cases .unitTest (dataPdu .unitTest false true true (k + 1) 0 [0]) with
    ⟨hnone, -⟩ | ⟨pdu, p, hsome, hd, -, hret⟩
  · cases hnone.symm.trans hpdu
  obtain rfl : wholePdu (k + 1) = pdu := Option.some.inj (hpdu.symm.trans hsome)
  have hn₀ : W.next ≤ k + 1 := by rw [h.next]; omega
  have hn₁ : k + 1 < W.next + Config.unitTest.windowSize := by
    rw [h.next]
    change k + 1 < 0 + 2048
    omega
  have hp : PduWf Config.unitTest.snModulus (k + 1) (wholePdu (k + 1)) :=
    ⟨(Nat.mod_eq_of_lt (by change k + 1 < 4096; omega)).symm, Nat.one_pos, hd.so_lt, hd.first,
      hd.data⟩
  have hnot : ¬ W.FilledBy .unitTest (k + 1) (wholePdu (k + 1)) := fun hf => by
    have := hf.sn
    rw [h.next] at this
    omega
  obtain ⟨fuel, ⟨e', evs⟩, hr⟩ := (h.tracks.store_terminates_iff hn₀ hn₁ hp e.tCurrent).mpr hnot
  obtain ⟨W', hr', ht', hset, -, hsize, hmax⟩ :=
    h.tracks.reads.store h.tracks.wf h.tracks.timer hn₀ hn₁ hp hr
  refine ⟨(.recvPdu (dataPdu .unitTest false true true (k + 1) 0 [0]), { events := evs }),
    { e with rx := { e' with statusTriggered := p || e'.statusTriggered } }, W',
    ⟨fuel, by rw [exec, hret, hr]; rfl⟩, ?_⟩
  have hslot : W.slotWith (k + 1) (wholePdu (k + 1)) = [wholePdu (k + 1)] := by
    rw [Window.slotWith, h.empty _ (.inr (Nat.lt_succ_self k)) hk]
    rfl
  have hc : W.completes (k + 1) (wholePdu (k + 1)) := by
    rw [Window.completes, hslot]
    rfl
  have hfirst : processed ((W.put (k + 1) (wholePdu (k + 1))).slots 0) = false := by
    rw [Window.put_slots_of_ne (by omega), h.empty 0 (.inl rfl) (by omega)]
    rfl
  -- the first SDU is still missing, so neither `next` nor `status` moves
  have hnext : W'.next = 0 := by
    by_contra hne
    have := hset.next_passed 0 (by change W.next ≤ 0; rw [h.next]) (by omega)
    rw [hfirst] at this
    cases this
  have hstatus : W'.status = 0 := by
    by_contra hne
    have := hset.status_passed 0 (by change W.status ≤ 0; rw [h.status]) (by omega)
    rw [hfirst] at this
    cases this
  have hslots : ∀ m, m < 2048 → W'.slots m = (W.put (k + 1) (wholePdu (k + 1))).slots m := by
    intro m hm
    refine hset.slots_eq (by omega) ?_
    change m < W.next + 2048
    omega
  have hW' := hset.wf (h.tracks.wf.toStores.put hn₀ hn₁ hp)
  refine ⟨Rx.Tracks.setStatus ⟨hr', hW', ht'⟩ _ _, hnext, hstatus, ?_, ?_, ?_, ?_⟩
  · intro m h₀ h₁
    rw [hslots m (by omega)]
    by_cases hm : m = k + 1
    · subst hm
      rw [h.tracks.wf.toStores.processed_put_self hn₀ hn₁ hp, hc, Bool.or_true]
    · rw [Window.put_slots_of_ne hm]
      exact h.arrived m h₀ (by omega)
  · intro m hm hlt
    rw [hslots m hlt, Window.put_slots_of_ne (by omega)]
    exact h.empty m (by omega) hlt
  · change e'.rxSize = 0
    rw [hsize, hc, h.size, hslot]
    rfl
  · exact hmax.trans h.maxsize

theorem exists_missesFirst {k : Nat} (hk : k < 2048) :
    ∃ e W, Reachable .unitTest e ∧ e.rx.MissesFirst k W := by
  induction k with
  | zero =>
    exact ⟨Entity.new .unitTest, Window.empty, ⟨[], .nil⟩, Entity.new_tracks, rfl, rfl,
      fun m h₀ h₁ => by omega, fun _ _ _ => rfl, rfl, rfl⟩
  | succ k ih =>
    obtain ⟨e, W, ⟨ls, hr⟩, h⟩ := ih (by omega)
    obtain ⟨l, e', W', hs, h'⟩ := h.step hk
    exact ⟨e', W', ⟨_, hr.snoc hs⟩, h'⟩

theorem Rx.MissesFirst.fillsWindow (h : e.MissesFirst 2047 W) :
    e.acceptedPdu .unitTest (dataPdu .unitTest false true true 0 0 [0]) = some (wholePdu 0) ∧
      e.FillsWindow .unitTest (wholePdu 0) := by
  refine ⟨Rx.acceptedPdu_wholePdu (by omega) (h.accepts (by omega) (.inl rfl)),
    (h.tracks.fillsWindow_iff (n := 0) (by rw [h.next]) ?_ rfl).mpr ?_⟩
  · rw [h.next]
    decide
  · refine ⟨h.status.trans h.next.symm, h.next.symm, ?_, fun m h₀ h₁ => ?_⟩
    · rw [Window.slotWith, h.empty 0 (.inl rfl) (by omega)]
      rfl
    · rw [h.next] at h₀ h₁
      exact h.arrived m h₀ (Nat.lt_succ_iff.mp (h₁ : m < 0 + 2048) |>.trans (by omega))

/-- The reception of a byte string ends unless it is a data PDU that fills the window. -/
theorem recvPdu_terminates_iff {e : Entity} (h : Reachable c e) (buffer : List Byte) :
    (∃ fuel r, e.recvPdu c fuel buffer = some r) ↔
      ∀ pdu, e.rx.acceptedPdu c buffer = some pdu → ¬ e.rx.FillsWindow c pdu := by
  obtain ⟨W, hW⟩ := h.tracks
  exact hW.recvPdu_isSome_iff buffer

/-- After the SDU of SN 1 the reception of SN 0 ends; after those of SNs 1 to 2047 it does not. -/
theorem recvPdu_terminates_iff_reordered :
    (∃ e, Reachable .unitTest e ∧ e.rx.rxNextHighest = 2 ∧
      ∀ pdu, e.rx.acceptedPdu .unitTest [0x80, 0x00, 0x07] = some pdu →
        ¬ e.rx.FillsWindow .unitTest pdu) ∧
    ∃ e, Reachable .unitTest e ∧
      ¬ ∃ fuel r, e.recvPdu .unitTest fuel (dataPdu .unitTest false true true 0 0 [0]) =
        some r := by
  constructor
  · obtain ⟨e, ls, hall, hhighest, r, hr⟩ : ∃ e ls, execAll .unitTest 5 (fun _ _ => true)
        (Entity.new .unitTest) [.recvPdu [0x80, 0x01, 0x08]] = some (e, ls) ∧
        e.rx.rxNextHighest = 2 ∧ ∃ r, e.recvPdu .unitTest 5 [0x80, 0x00, 0x07] = some r :=
      ⟨_, _, rfl, rfl, _, rfl⟩
    have hreach : Reachable .unitTest e := ⟨ls, (execAll_run hall).mono fun _ _ _ h => h.1⟩
    exact ⟨e, hreach, hhighest, (recvPdu_terminates_iff hreach _).mp ⟨5, r, hr⟩⟩
  · obtain ⟨e, W, hreach, h⟩ := exists_missesFirst (by omega : 2047 < 2048)
    exact ⟨e, hreach, fun hend =>
      (recvPdu_terminates_iff hreach _).mp hend _ h.fillsWindow.1 h.fillsWindow.2⟩

/-- When the first SDU of the window arrives last, its reception does not end. -/
theorem not_forall_recvPdu_terminates :
    ¬ ∀ (c : Config) (e : Entity) (buffer : List Byte) (d : Decoder), Reachable c e →
      (Decoder.init buffer).getBits 1 = some (1, d) →
      ∃ fuel r, e.recvPdu c fuel buffer = some r := by
  intro hall
  obtain ⟨e, W, hr, h⟩ := exists_missesFirst (by omega : 2047 < 2048)
  obtain ⟨d, -, hd, -⟩ := decode_dataPdu (c := .unitTest) false true (by decide : 0 < 4096)
    (by decide : 0 < 2 ^ 16) (by decide : true = true ↔ 0 = 0) [0]
  exact (h.tracks.recvPdu_isSome_iff _).mp (hall .unitTest e _ d hr hd) _ h.fillsWindow.1
    h.fillsWindow.2

end OpenAir.Rlc.Am

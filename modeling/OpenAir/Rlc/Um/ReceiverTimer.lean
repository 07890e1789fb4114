import OpenAir.Rlc.Um.ReceiverSize

namespace OpenAir.Rlc.Um

variable {c : Config} {x sn : Nat} {now : UInt64} {out : List Delivery}

theorem missingFrom_eq_false {l : List Pdu} (hs : l.Pairwise fun p q => p.so ≤ q.so) {b : Int}
    (hb : -1 ≤ b) :
    missingFrom l b = false ↔
      ∀ q ∈ l, ∀ i : Nat, b < i → i < q.stop → HoldsByte l i := by
  induction l generalizing b with
  | nil => simp [missingFrom]
  | cons q l ih =>
    obtain ⟨hq, hl⟩ := List.pairwise_cons.mp hs
    rw [missingFrom]
    split
    · next hgap =>
      -- the byte after `b` is before all PDUs
      refine iff_of_false (by simp) fun hall => ?_
      obtain ⟨p, hp, hso, -⟩ := hall q (by simp) (b + 1).toNat (by omega)
        (by unfold Pdu.stop; omega)
      rcases List.mem_cons.mp hp with rfl | hp
      · omega
      · have := hq p hp
        omega
    · next hgap =>
      rw [ih hl (by omega)]
      constructor
      · intro hall r hr i hi hir
        by_cases hqi : i < q.stop
        · exact ⟨q, by simp, by omega, hqi⟩
        · rcases List.mem_cons.mp hr with rfl | hr
          · exact absurd hir hqi
          · unfold Pdu.stop at hqi
            obtain ⟨p, hp, hpi⟩ := hall r hr i (by omega) hir
            exact ⟨p, by simp [hp], hpi⟩
      · intro hall r hr i hi hir
        obtain ⟨p, hp, hso, hpi⟩ := hall r (by simp [hr]) i (by omega) hir
        rcases List.mem_cons.mp hp with rfl | hp
        · unfold Pdu.stop at hpi
          omega
        · exact ⟨p, hp, hso, hpi⟩

namespace Rx

variable {e e' : Rx}

def Contiguous (e : Rx) (sn : Nat) : Prop :=
  ∀ q ∈ e.slot sn, ∀ b < q.stop, HoldsByte (e.slot sn) b

def Watched (c : Config) (e : Rx) : Prop :=
  e.tReassemblyStart = 0 →
    rank c e.rxNextHighest e.rxNextHighest ≤ rank c e.rxNextHighest e.rxNextReassembly + 1 ∧
      (e.rxNextHighest = (e.rxNextReassembly + 1) % c.snModulus → e.Contiguous e.rxNextReassembly)

theorem Ordered.slot_sorted (h : e.Ordered c) (sn : Nat) :
    (e.slot sn).Pairwise fun p q => p.so ≤ q.so := by
  refine (h.sorted.sublist List.filter_sublist).imp_of_mem fun {p q} hp hq hpq => ?_
  have hp : p.sn = sn := by simpa using (List.mem_filter.mp hp).2
  have hq : q.sn = sn := by simpa using (List.mem_filter.mp hq).2
  rcases hpq with hlt | ⟨-, hle⟩
  · rw [hp, hq] at hlt
    exact absurd hlt (lt_irrefl _)
  · exact hle

theorem Ordered.sduHasMissingBytes_eq_false (h : e.Ordered c) (hsn : sn < c.snModulus)
    (hund : e.sduDelivered sn = false) : e.sduHasMissingBytes sn = false ↔ e.Contiguous sn := by
  have hproc : processed (e.segments sn) = false := hund
  rw [sduHasMissingBytes, hproc, h.segments_eq hsn, Bool.not_false, Bool.true_and,
    missingFrom_eq_false (h.slot_sorted sn) le_rfl]
  exact forall₂_congr fun q _ => forall_congr' fun b =>
    ⟨fun hall => hall (by omega), fun hall _ => hall⟩

theorem Receiving.watched_iff (h : e.Receiving c) :
    e.Watched c ↔ (e.tReassemblyStart = 0 → ¬ e.Gap c) := by
  rw [Watched, Gap, rank_highest h.highest_lt, not_or, not_lt, not_and, Bool.not_eq_true,
    h.sduHasMissingBytes_eq_false h.reassembly_lt h.undelivered]

theorem Watched.new (rxMaxsize : Int) : ({ rxMaxsize } : Rx).Watched c :=
  fun _ => ⟨Nat.le_succ _, fun _ _ hq => by simp [slot] at hq⟩

/-- The gap the test for a restart does not see: `rx_next_highest` is 0, all SDUs from
`rx_timer_trigger` up to the last SN but one are delivered, and the last one has missing bytes. -/
def wrapGap (c : Config) (e : Rx) : Bool :=
  decide (e.rxNextHighest = 0) && decide (e.rxTimerTrigger ≠ 0) &&
    decide (∀ k < c.snModulus - 1, e.rxTimerTrigger ≤ k → e.sduDelivered k = true) &&
    e.sduHasMissingBytes (c.snModulus - 1)

theorem rank_zero (x : Nat) :
    rank c 0 x = if x < c.windowSize then x + c.windowSize else x - c.windowSize := by
  have hM := c.snModulus_eq
  have hw := c.windowSize_ge
  have hbase : (0 + c.snModulus - c.windowSize) % c.snModulus = c.windowSize := by
    rw [base_eq c.snModulus_pos, if_neg (by omega), Nat.zero_add]
  rw [rank, hbase, Cyclic.dist]
  split <;> omega

theorem Ordered.sduHasMissingBytes_expire (h : e.Ordered c) (hsn : sn < c.snModulus) :
    (e.expire c sn).sduHasMissingBytes sn = e.sduHasMissingBytes sn := by
  rw [sduHasMissingBytes, sduHasMissingBytes, h.expire.segments_eq hsn, h.segments_eq hsn,
    slot_expire, if_pos le_rfl]

theorem not_sduDelivered_of_missing (hm : e.sduHasMissingBytes sn) :
    e.sduDelivered sn = false := by
  have hproc := (Bool.and_eq_true_iff.mp hm).1
  rwa [Bool.not_eq_true'] at hproc

section

variable (h : e.Receiving c) (hrun : e.tReassemblyStart ≠ 0)
  (hnext : e.FirstUndelivered c e.rxTimerTrigger sn)
include h hrun hnext

theorem wrapGap_iff : e.wrapGap c ↔
    e.rxNextHighest = 0 ∧ sn = c.snModulus - 1 ∧ e.sduHasMissingBytes sn := by
  have hM := c.snModulus_eq
  have hw := c.windowSize_ge
  have hT := (h.trigger hrun).2
  have hTlt := h.trigger_lt
  have hlt := hnext.lt
  have hle := hnext.le
  have hlast : c.snModulus - 1 < c.snModulus := by omega
  rw [wrapGap]
  simp only [Bool.and_eq_true, decide_eq_true_eq]
  constructor
  · rintro ⟨⟨⟨hH, hT0⟩, hall⟩, hmiss⟩
    have hund := not_sduDelivered_of_missing hmiss
    rw [hH, rank_zero] at hT
    have hTw : c.windowSize ≤ e.rxTimerTrigger := by split at hT <;> omega
    have hsn : sn = c.snModulus - 1 := by
      by_contra hne
      rw [hH, rank_zero, rank_zero, if_neg (by omega)] at hle
      by_cases hsw : sn < c.windowSize
      · -- the loop would have gone past the last SN
        have := hnext.before (c.snModulus - 1) hlast
          (by rw [hH, rank_zero, rank_zero, if_neg (by omega), if_neg (by omega)]; omega)
          (by rw [hH, rank_zero, rank_zero, if_pos hsw, if_neg (by omega)]; omega)
        rw [hund] at this
        cases this
      · rw [if_neg hsw] at hle
        have := hall sn (by omega) (by omega)
        rw [hnext.stop] at this
        cases this
    exact ⟨hH, hsn, hsn ▸ hmiss⟩
  · rintro ⟨hH, rfl, hmiss⟩
    rw [hH, rank_zero, rank_zero, if_neg (by omega : ¬ c.snModulus - 1 < c.windowSize)]
      at hle
    have hTw : c.windowSize ≤ e.rxTimerTrigger := by split at hle <;> omega
    refine ⟨⟨⟨hH, by omega⟩, fun k hk hTk => hnext.before k (by omega) ?_ ?_⟩, hmiss⟩
    · rw [hH, rank_zero, rank_zero, if_neg (by omega), if_neg (by omega)]
      omega
    · rw [hH, rank_zero, rank_zero, if_neg (by omega), if_neg (by omega)]
      omega

theorem not_restarts_of_wrapGap (hgap : e.wrapGap c) : ¬ (e.expire c sn).Restarts c := by
  have hM := c.snModulus_eq
  have hw := c.windowSize_ge
  obtain ⟨hH, rfl, -⟩ := (wrapGap_iff h hrun hnext).mp hgap
  rintro (hlt | ⟨heq, -⟩)
  · change rank c e.rxNextHighest (c.snModulus - 1) + 1 < c.windowSize at hlt
    rw [hH, rank_zero, if_neg (by omega)] at hlt
    omega
  · change e.rxNextHighest = c.snModulus - 1 + 1 at heq
    omega

theorem gap_expire_iff (hre : ¬ (e.expire c sn).Restarts c) :
    (e.expire c sn).Gap c ↔ e.wrapGap c := by
  have hlt := hnext.lt
  have hmiss := h.toOrdered.sduHasMissingBytes_expire hnext.lt
  change ¬ (rank c e.rxNextHighest sn + 1 < c.windowSize ∨ (e.rxNextHighest = sn + 1 ∧
    (e.expire c sn).sduHasMissingBytes sn)) at hre
  rw [hmiss, not_or] at hre
  change rank c e.rxNextHighest sn + 1 < c.windowSize ∨
    (e.rxNextHighest = (sn + 1) % c.snModulus ∧ (e.expire c sn).sduHasMissingBytes sn) ↔ _
  rw [wrapGap_iff h hrun hnext, hmiss, or_iff_right hre.1]
  by_cases hsn : sn + 1 < c.snModulus
  · rw [Nat.mod_eq_of_lt hsn]
    exact iff_of_false hre.2 fun hc => by omega
  · have hsn : sn = c.snModulus - 1 := by omega
    rw [show sn + 1 = c.snModulus by omega, Nat.mod_self]
    simp [hsn]

end

namespace Receiving

variable (h : e.Receiving c)
include h

theorem watched_receives (hw : e.Watched c) (hr : Receives c now e e' out) (hnow : now ≠ 0) :
    e'.Watched c := by
  have hr' := h.receives hr
  cases hr with
  | dropped => exact hw
  | whole => exact hw
  | @stored q e₂ e' out hq hacc hacts htimer =>
    rw [hr'.watched_iff]
    intro h0
    have hgap : e'.Gap c ↔ e₂.Gap c := by
      rw [htimer.eq]
      rfl
    rw [hgap]
    exact htimer.gap h0 hnow

theorem watched_ticks (hw : e.Watched c) (ht : Ticks c now e e') :
    e'.Watched c ↔ ¬ (e.Expired c now ∧ e.wrapGap c) := by
  have ht' := h.ticks ht
  cases ht with
  | idle hidle => exact iff_of_true hw fun hc => hidle hc.1
  | @restarted sn hexp hnext hre =>
    refine iff_of_true (fun h0 => ?_) fun hc =>
      not_restarts_of_wrapGap h hexp.1 hnext hc.2 hre
    -- the timer is started with a time after its first start
    have hlt := UInt64.lt_iff_toNat_lt.mp hexp.2
    rw [show now = 0 from h0, UInt64.toNat_zero] at hlt
    omega
  | stopped hexp hnext hre =>
    rw [ht'.watched_iff, gap_expire_iff h hexp.1 hnext hre]
    exact ⟨fun hn hc => hn rfl hc.2, fun hn _ hc => hn ⟨hexp, hc⟩⟩

end Receiving

end Rx

namespace Entity

variable {e e' : Entity} {l : Op × Output}

def timed (e : Entity) : Op → Bool
  | .recvPdu _ => decide (e.tCurrent ≠ 0)
  | _ => true

def watchesWrap (c : Config) (e : Entity) : Op → Bool
  | .setTime now => !(decide (e.rx.Expired c now) && e.rx.wrapGap c)
  | _ => true

theorem watched_step (h : e.rx.Receiving c) (hw : e.rx.Watched c) (hs : Step c e l e')
    (ht : e.timed l.1) : e'.rx.Watched c ↔ e.watchesWrap c l.1 := by
  obtain ⟨hop, -, hrx⟩ | ⟨pdu, hop, hrx⟩ | ⟨now, hop, -, hrx⟩ := rx_cases h hs
  · refine iff_of_true ?_ ?_
    · rcases hrx with hrx | hrx
      · exact hrx ▸ hw
      · exact hrx ▸ .new _
    · cases hl : l.1 <;> first | rfl | simp [hl, Op.receives] at hop
  · rw [hop] at ht ⊢
    exact iff_of_true (h.watched_receives hw hrx (of_decide_eq_true ht)) rfl
  · rw [hop]
    refine (h.watched_ticks hw hrx).trans ?_
    simp [watchesWrap, imp_iff_not_or]

theorem watched_of_reachableBy
    (h : ReachableBy c (fun e op => e.timed op ∧ e.watchesWrap c op) e) :
    e.rx.Watched c := by
  obtain ⟨ls, hrun⟩ := h
  refine (hrun.invariant (fun e : Entity => e.rx.Receiving c ∧ e.rx.Watched c)
    ⟨.new _, .new _⟩ ?_).2
  rintro s l t ⟨hr, hw⟩ ⟨hstep, ht, hkeep⟩
  exact ⟨receiving_step hr hstep, (watched_step hr hw hstep ht).mpr hkeep⟩

/-- The timer runs for every gap as long as no expiry finds one at the wrap, and the first that does
leaves it unwatched. -/
theorem gap_watched
    (h : ReachableBy c (fun e op => e.timed op = true ∧ e.watchesWrap c op = true) e) :
    e.rx.Watched c ∧ ∀ l e', Step c e l e' → e.timed l.1 = true →
      (e'.rx.Watched c ↔ e.watchesWrap c l.1 = true) :=
  ⟨watched_of_reachableBy h, fun _ _ hs ht =>
    watched_step (receiving_of_reachableBy h) (watched_of_reachableBy h) hs ht⟩

theorem gap_watched_restart :
    ∃ e, ReachableBy .six (fun e op => e.timed op = true ∧
        e.watchesWrap .six op = true) e ∧
      e.rx.Watched .six ∧ e.rx.rxNextReassembly = 2 ∧ e.rx.rxNextHighest = 3 ∧
      e.rx.tReassemblyStart = 100 := by
  have hobs : (execAll .six 5
      (fun e op => e.timed op && e.watchesWrap .six op)
      (.new .six) [.setTime 1, .recvPdu [0x41, 7], .recvPdu [0x82, 0, 1, 8],
        .setTime 100]).map (fun r => (r.1.rx.rxNextReassembly, r.1.rx.rxNextHighest,
          r.1.rx.tReassemblyStart)) = some (2, 3, 100) := by
    decide
  obtain ⟨⟨e, ls⟩, hrun, heq⟩ := Option.map_eq_some_iff.mp hobs
  have hreach : ReachableBy .six (fun e op => e.timed op = true ∧
      e.watchesWrap .six op = true) e :=
    ⟨ls, (execAll_run hrun).mono fun _ _ _ hs => ⟨hs.1, Bool.and_eq_true_iff.mp hs.2⟩⟩
  simp only [Prod.mk.injEq] at heq
  exact ⟨e, hreach, (gap_watched hreach).1, heq.1, heq.2.1, heq.2.2⟩

/-- The last segment of the SN 63 is all that has come of it when the timer expires for it. -/
theorem not_forall_gap_watched :
    ¬ ∀ c e, ReachableBy c (fun e op => op.receives = true ∧ e.timed op = true) e →
      e.tCurrent ≠ 0 → e.rx.Watched c := by
  intro h
  have hobs : (execAll .six 5 (fun e op => op.receives && e.timed op)
      (.new .six) [.setTime 1, .recvPdu [0x5f, 7], .recvPdu [0x7e, 7],
        .setTime 100, .recvPdu [0xbf, 0, 5, 7], .setTime 200]).map
          (fun r => (r.1.tCurrent, r.1.rx.tReassemblyStart, r.1.rx.rxNextHighest,
            r.1.rx.rxNextReassembly, r.1.rx.rxList)) =
      some (200, 0, 0, 63, [⟨63, some [7], 1, 5, false, true⟩]) := by
    decide
  obtain ⟨⟨e, ls⟩, hrun, heq⟩ := Option.map_eq_some_iff.mp hobs
  simp only [Prod.mk.injEq] at heq
  obtain ⟨hnow, hstart, hH, hN, hlist⟩ := heq
  have hw :=
    h _ e ⟨ls, (execAll_run hrun).mono fun _ _ _ hs => ⟨hs.1, Bool.and_eq_true_iff.mp hs.2⟩⟩
    (by rw [hnow]; decide)
  -- byte 0 is missing before the segment at offset 5
  have hbyte := (hw hstart).2 (by rw [hH, hN]; rfl)
  rw [Rx.Contiguous, Rx.slot, hN, hlist] at hbyte
  obtain ⟨p, hp, hso, -⟩ := hbyte ⟨63, some [7], 1, 5, false, true⟩ (by decide) 0 (by decide)
  rw [List.mem_filter, List.mem_singleton] at hp
  rw [hp.1] at hso
  exact absurd hso (by decide)

end Entity

end OpenAir.Rlc.Um

import OpenAir.Rlc.Um.ReceiveLaws
import OpenAir.Rlc.Um.Step

namespace OpenAir.Rlc.Um

open RxManager

variable {c : Config} {e e' e₂ : Rx} {q : Pdu} {x y s sn : Nat} {fuel : Nat} {now : UInt64}
  {out : List Delivery} {buffer : List Byte}

theorem Config.snModulus_pos (c : Config) : 0 < c.snModulus := by
  have := c.snModulus_eq
  have := c.windowSize_ge
  omega

namespace Rx

structure Receiving (c : Config) (e : Rx) : Prop extends e.Stores c where
  inWindow : e.InWindow c
  undelivered : e.sduDelivered e.rxNextReassembly = false
  trigger : e.tReassemblyStart ≠ 0 →
    rank c e.rxNextHighest e.rxNextReassembly < rank c e.rxNextHighest e.rxTimerTrigger ∧
      rank c e.rxNextHighest e.rxTimerTrigger ≤ c.windowSize

theorem Receiving.new (rxMaxsize : Int) : ({ rxMaxsize } : Rx).Receiving c where
  highest_lt := c.snModulus_pos
  sn_lt := by simp
  sorted := by simp
  reassembly_lt := c.snModulus_pos
  reassembly_le := (rank_highest (c := c) c.snModulus_pos).le
  trigger_lt := c.snModulus_pos
  head := by simp [slot]
  inWindow := by simp [InWindow]
  undelivered := rfl
  trigger := by simp

def Settled (c : Config) (e : Rx) (x : Nat) : Prop :=
  rank c e.rxNextHighest x < rank c e.rxNextHighest e.rxNextReassembly ∨ e.sduDelivered x = true

namespace Acts

variable (h : e.Stores c) (hx : x < c.snModulus) (hw : e.InWindowBut c x)
  (hfullin : e.sduFull x → rank c e.rxNextHighest x < c.windowSize)
include h hx hw hfullin

theorem receives (hund : e.sduDelivered e.rxNextReassembly = false) (ha : Acts c e x e' out) :
    e'.Stores c ∧ e'.InWindow c ∧ e'.sduDelivered e'.rxNextReassembly = false := by
  cases ha with
  | delivers hfull hne =>
    refine ⟨h.reassembleAndDeliver hx hfull,
      (hw.inWindow (hfullin hfull)).reassembleAndDeliver h.toOrdered hx, ?_⟩
    have hdel := sduDelivered_reassembleAndDeliver h.toOrdered hx hfull h.reassembly_lt
    rwa [decide_eq_false (Ne.symm hne), Bool.false_or, hund] at hdel
  | passes hfull heq hnext =>
    have hst := h.reassembleAndDeliver hx hfull
    exact ⟨⟨⟨hst.highest_lt, hst.sn_lt, hst.sorted⟩, hnext.lt, hnext.rank_le, hst.trigger_lt,
      hst.head⟩, (hw.inWindow (hfullin hfull)).reassembleAndDeliver h.toOrdered hx, hnext.stop⟩
  | waits hfull hin => exact ⟨h, hw.inWindow hin, hund⟩
  | moves hfull hout hin =>
    have hord := h.toOrdered.move hx hout (hw.rank_le hout)
    have hslot := slot_move h.toOrdered hx hout (hw.rank_le hout)
    refine ⟨⟨hord, h.reassembly_lt, hin.le, h.trigger_lt, fun s p hp => ?_⟩,
      .move h.toOrdered hx hout (hw.rank_le hout), ?_⟩
    · rw [hslot] at hp
      split at hp
      · exact h.head s p hp
      · simp at hp
    · exact (sduDelivered_move h.toOrdered hx hout (hw.rank_le hout) h.reassembly_lt hin).trans hund
  | jumps hfull hout hin hnext =>
    have hord := h.toOrdered.move hx hout (hw.rank_le hout)
    have hslot := slot_move h.toOrdered hx hout (hw.rank_le hout)
    refine ⟨⟨⟨hord.highest_lt, hord.sn_lt, hord.sorted⟩, hnext.lt, hnext.rank_le, h.trigger_lt,
      fun s p hp => ?_⟩, .move h.toOrdered hx hout (hw.rank_le hout), hnext.stop⟩
    change p ∈ ((e.move c x).slot s).head? at hp
    rw [hslot] at hp
    split at hp
    · exact h.head s p hp
    · simp at hp

omit hfullin in
theorem settled (ha : Acts c e x e' out) (hy : y < c.snModulus)
    (hin : rank c e.rxNextHighest y < c.windowSize)
    (hin' : rank c e'.rxNextHighest y < c.windowSize) (hset : e.Settled c y) : e'.Settled c y := by
  cases ha with
  | delivers hfull hne =>
    refine hset.imp id fun hd => ?_
    rw [sduDelivered_reassembleAndDeliver h.toOrdered hx hfull hy, hd, Bool.or_true]
  | @passes sn hfull heq hnext =>
    refine hset.imp (fun hlt => ?_) fun hd => ?_
    · have hle : rank c e.rxNextHighest x ≤ rank c e.rxNextHighest sn := hnext.le
      rw [heq] at hle
      exact lt_of_lt_of_le hlt hle
    · have := sduDelivered_reassembleAndDeliver h.toOrdered hx hfull hy
      rw [hd, Bool.or_true] at this
      exact this
  | waits hfull hin => exact hset
  | moves hfull hout hN =>
    have hclose := (rank_move_lt_iff h.highest_lt hy hx hout (by omega)).mp hin'
    refine hset.imp (fun hlt => ?_) fun hd => ?_
    · have hy' := rank_move_of_lt h.highest_lt hy hx hout hclose
      have hN' := rank_move_of_lt h.highest_lt h.reassembly_lt hx hout (by omega)
      rw [move_rxNextHighest, move_rxNextReassembly]
      omega
    · exact (sduDelivered_move h.toOrdered hx hout (hw.rank_le hout) hy hin').trans hd
  | jumps hfull hout hN hnext =>
    have hle := h.reassembly_le
    have hclose := (rank_move_lt_iff h.highest_lt hy hx hout (by omega)).mp hin'
    have hfar := (rank_move_lt_iff h.highest_lt h.reassembly_lt hx hout (by omega)).not.mp hN.not_gt
    exact hset.elim (fun hlt => by omega) fun hd =>
      .inr ((sduDelivered_move h.toOrdered hx hout (hw.rank_le hout) hy hin').trans hd)

omit hw hfullin in
theorem delivery (ha : Acts c e x e' out) :
    out = [] ∨ e.sduFull x ∧ e'.sduDelivered x ∧ ∃ sdu, out = [⟨some x, sdu⟩] := by
  have hout : (e.reassembleAndDeliver x).2 = [] ∨
      ∃ sdu, (e.reassembleAndDeliver x).2 = [⟨some x, sdu⟩] := by
    unfold reassembleAndDeliver
    dsimp only
    split
    · exact .inl rfl
    · exact .inr ⟨_, rfl⟩
  have hdone (hfull : e.sduFull x) : (e.reassembleAndDeliver x).1.sduDelivered x := by
    rw [sduDelivered_reassembleAndDeliver h.toOrdered hx hfull hx]
    simp
  cases ha with
  | delivers hfull hne => exact hout.imp id fun ho => ⟨hfull, hdone hfull, ho⟩
  | passes hfull heq hnext => exact hout.imp id fun ho => ⟨hfull, hdone hfull, ho⟩
  | waits => exact .inl rfl
  | moves => exact .inl rfl
  | jumps => exact .inl rfl

end Acts

def Gap (c : Config) (e : Rx) : Prop :=
  rank c e.rxNextHighest e.rxNextReassembly + 1 < c.windowSize ∨
    (e.rxNextHighest = (e.rxNextReassembly + 1) % c.snModulus ∧
      e.sduHasMissingBytes e.rxNextReassembly = true)

theorem Stores.snCompareRx_succ (h : e.Stores c) :
    e.snCompareRx c e.rxNextHighest ((e.rxNextReassembly + 1) % c.snModulus) > 0 ↔
      rank c e.rxNextHighest e.rxNextReassembly + 1 < c.windowSize := by
  have hM := c.snModulus_eq
  have hw := c.windowSize_ge
  have hle := h.reassembly_le
  rw [snCompareRx_eq h.highest_lt h.highest_lt (Nat.mod_lt _ c.snModulus_pos),
    rank_highest h.highest_lt, rank_succ h.highest_lt h.reassembly_lt (by omega)]
  omega

structure SetsTimer (c : Config) (now : UInt64) (e e' : Rx) : Prop where
  eq : e' = { e with tReassemblyStart := e'.tReassemblyStart, rxTimerTrigger := e'.rxTimerTrigger }
  trigger_lt : e'.rxTimerTrigger < c.snModulus
  trigger : e'.tReassemblyStart ≠ 0 →
    rank c e.rxNextHighest e.rxNextReassembly < rank c e.rxNextHighest e'.rxTimerTrigger ∧
      rank c e.rxNextHighest e'.rxTimerTrigger ≤ c.windowSize
  gap : e'.tReassemblyStart = 0 → now ≠ 0 → ¬ e.Gap c

theorem Gap.reassembly_lt (h : e.Stores c) (hg : e.Gap c) :
    rank c e.rxNextHighest e.rxNextReassembly < rank c e.rxNextHighest e.rxNextHighest := by
  have hw := c.windowSize_ge
  have hM := c.snModulus_eq
  have hle := h.reassembly_le
  rw [rank_highest h.highest_lt]
  rcases hg with hlt | ⟨heq, -⟩
  · omega
  · have hs := rank_succ h.highest_lt h.reassembly_lt (by omega)
    rw [← heq, rank_highest h.highest_lt] at hs
    omega

theorem setsTimer (h : e.Stores c) :
    SetsTimer c now e (startTReassembly c now (stopTReassembly c e)) := by
  have hgap : (e.snCompareRx c e.rxNextHighest ((e.rxNextReassembly + 1) % c.snModulus) > 0 ∨
      (e.rxNextHighest = (e.rxNextReassembly + 1) % c.snModulus ∧
        e.sduHasMissingBytes e.rxNextReassembly)) ↔ e.Gap c := by
    rw [h.snCompareRx_succ, Gap]
  -- starting a timer that does not run
  have start (e₁ : Rx) (he₁ : e₁ = { e with tReassemblyStart := 0 }) :
      SetsTimer c now e (startTReassembly c now e₁) := by
    subst he₁
    unfold startTReassembly
    split
    · next hc =>
      have hg := hgap.mp hc.2
      exact ⟨rfl, h.highest_lt, fun _ => ⟨hg.reassembly_lt h, (rank_highest h.highest_lt).le⟩,
        fun h0 hnow => absurd h0 hnow⟩
    · next hc =>
      exact ⟨rfl, h.trigger_lt, fun hne => absurd rfl hne,
        fun _ _ hg => hc ⟨rfl, hgap.mpr hg⟩⟩
  unfold stopTReassembly
  split
  · exact start _ rfl
  · next hkeep =>
    by_cases hrun : e.tReassemblyStart = 0
    · exact start e (by rw [← hrun])
    · -- the timer goes on
      have hgo : startTReassembly c now e = e := by
        unfold startTReassembly
        rw [if_neg (fun hc => hrun hc.1)]
      rw [hgo]
      refine ⟨rfl, h.trigger_lt, fun _ => ?_, fun h0 => absurd h0 hrun⟩
      rw [snCompareRx_eq h.highest_lt h.trigger_lt h.reassembly_lt,
        snCompareRx_eq h.highest_lt h.trigger_lt h.highest_lt, rank_highest h.highest_lt] at hkeep
      have hkeep : ¬ ((rank c e.rxNextHighest e.rxTimerTrigger : Int) -
          rank c e.rxNextHighest e.rxNextReassembly ≤ 0) ∧
          ¬ ((rank c e.rxNextHighest e.rxTimerTrigger : Int) - c.windowSize > 0) :=
        ⟨fun h' => hkeep ⟨hrun, .inl h'⟩, fun h' => hkeep ⟨hrun, .inr (.inl h')⟩⟩
      omega

end Rx

theorem isSegment_of_decodeSegment {reserved isFirst isLast : Bool} {d : Decoder}
    (hd : decodeSegment reserved c.snFieldLength isFirst isLast d = some q)
    (hwhole : (isFirst && isLast) = false) : IsSegment c q := by
  obtain ⟨sn, so, data, rfl, hsn, -, hfirst⟩ := of_decodeSegment hd
  exact ⟨hsn, ⟨_, rfl, rfl⟩, hfirst, by simpa [newPdu] using hwhole⟩

namespace Rx

inductive Receives (c : Config) (now : UInt64) (e : Rx) : Rx → List Delivery → Prop
  | dropped : Receives c now e e []
  | whole (sdu : List Byte) : Receives c now e e [{ sn := none, sdu }]
  | stored {q : Pdu} {e₂ e' : Rx} {out : List Delivery} (hq : IsSegment c q)
      (hacc : rank c e.rxNextHighest e.rxNextReassembly ≤ rank c e.rxNextHighest q.sn)
      (hacts : Acts c (e.add c q) q.sn e₂ out) (htimer : SetsTimer c now e₂ e') :
      Receives c now e e' out

namespace Receiving

variable (h : e.Receiving c)
include h

theorem add_inWindowBut : (e.add c q).InWindowBut c q.sn := by
  intro p hp
  rcases mem_add.mp hp with rfl | hp
  · exact .inr rfl
  · exact .inl (h.inWindow p hp)

theorem add_full (hq : IsSegment c q) (hfull : (e.add c q).sduFull q.sn) :
    rank c (e.add c q).rxNextHighest q.sn < c.windowSize := by
  by_contra hout
  rw [sduFull_add_of_out h.toStores hq h.inWindow (not_lt.mp hout)] at hfull
  cases hfull

theorem rank_le_of_accepts (hq : IsSegment c q) (hacc : e.accepts c q) :
    rank c e.rxNextHighest e.rxNextReassembly ≤ rank c e.rxNextHighest q.sn := by
  have := (Bool.and_eq_true_iff.mp hacc).2
  rw [decide_eq_true_eq, snCompareRx_eq h.highest_lt hq.sn_lt h.reassembly_lt] at this
  omega

theorem acts (hq : IsSegment c q) (ha : (e.add c q).actions c fuel q.sn = some (e₂, out)) :
    Acts c (e.add c q) q.sn e₂ out :=
  acts_of_actions (h.toStores.add hq) hq.sn_lt h.add_inWindowBut (h.add_full hq) ha

theorem acts_receives (hq : IsSegment c q) (ha : Acts c (e.add c q) q.sn e₂ out) :
    e₂.Stores c ∧ e₂.InWindow c ∧ e₂.sduDelivered e₂.rxNextReassembly = false :=
  ha.receives (h.toStores.add hq) hq.sn_lt h.add_inWindowBut (h.add_full hq)
    ((sduDelivered_add h.toStores hq h.reassembly_lt).trans h.undelivered)

theorem recvPdu_receives (hr : e.recvPdu c fuel now buffer = some (e', out)) :
    Receives c now e e' out := by
  unfold Rx.recvPdu at hr
  split at hr
  · cases hr
    exact .dropped
  · next si d hsi =>
    dsimp only at hr
    split at hr
    · cases hr
      split
      · exact .dropped
      · exact .whole _
    · next hwhole =>
      split at hr
      · cases hr
        exact .dropped
      · next q hd =>
        have hq := isSegment_of_decodeSegment hd (by simpa using hwhole)
        split at hr
        · next hacc =>
          obtain ⟨⟨e₂, out⟩, ha, heq⟩ := Option.map_eq_some_iff.mp hr
          cases heq
          have hacts := h.acts hq ha
          exact .stored hq (h.rank_le_of_accepts hq hacc) hacts
            (setsTimer (h.acts_receives hq hacts).1)
        · cases hr
          exact .dropped

theorem exists_recvPdu (now : UInt64) (buffer : List Byte) :
    ∃ fuel r, e.recvPdu c fuel now buffer = some r := by
  unfold Rx.recvPdu
  split
  · exact ⟨0, _, rfl⟩
  · dsimp only
    split
    · exact ⟨0, _, rfl⟩
    · next hwhole =>
      split
      · exact ⟨0, _, rfl⟩
      · next q hd =>
        have hq := isSegment_of_decodeSegment hd (by simpa using hwhole)
        split
        · obtain ⟨fuel, r, ha⟩ := exists_actions (h.toStores.add hq) hq.sn_lt h.add_inWindowBut
            (h.add_full hq)
          exact ⟨fuel, _, Option.map_eq_some_iff.mpr ⟨r, ha, rfl⟩⟩
        · exact ⟨0, _, rfl⟩

theorem receives (hr : Receives c now e e' out) : e'.Receiving c := by
  cases hr with
  | dropped => exact h
  | whole => exact h
  | stored hq hacc hacts htimer =>
    obtain ⟨hst, hw, hund⟩ := h.acts_receives hq hacts
    have heq := htimer.eq
    have hlt := htimer.trigger_lt
    have htr := htimer.trigger
    rw [heq]
    exact ⟨⟨⟨hst.highest_lt, hst.sn_lt, hst.sorted⟩, hst.reassembly_lt, hst.reassembly_le, hlt,
      hst.head⟩, hw, hund, htr⟩

end Receiving

def expire (c : Config) (e : Rx) (sn : Nat) : Rx :=
  { e with
    tReassemblyStart := 0
    rxNextReassembly := sn
    rxList := e.rxList.filter fun p =>
      decide (rank c e.rxNextHighest sn ≤ rank c e.rxNextHighest p.sn) }

def Expired (c : Config) (now : UInt64) (e : Rx) : Prop :=
  e.tReassemblyStart ≠ 0 ∧ now > e.tReassemblyStart + c.tReassembly

def Restarts (c : Config) (e : Rx) : Prop :=
  rank c e.rxNextHighest e.rxNextReassembly + 1 < c.windowSize ∨
    (e.rxNextHighest = e.rxNextReassembly + 1 ∧ e.sduHasMissingBytes e.rxNextReassembly = true)

inductive Ticks (c : Config) (now : UInt64) (e : Rx) : Rx → Prop
  | idle (hidle : ¬ e.Expired c now) : Ticks c now e e
  | restarted {sn : Nat} (hexp : e.Expired c now) (hnext : e.FirstUndelivered c e.rxTimerTrigger sn)
      (hre : (e.expire c sn).Restarts c) :
      Ticks c now e
        { e.expire c sn with tReassemblyStart := now, rxTimerTrigger := e.rxNextHighest }
  | stopped {sn : Nat} (hexp : e.Expired c now) (hnext : e.FirstUndelivered c e.rxTimerTrigger sn)
      (hre : ¬ (e.expire c sn).Restarts c) : Ticks c now e (e.expire c sn)

theorem slot_expire (s : Nat) : (e.expire c sn).slot s =
    if rank c e.rxNextHighest sn ≤ rank c e.rxNextHighest s then e.slot s else [] := by
  rw [slot, expire]
  exact filter_sn_filter e.rxList (fun s => rank c e.rxNextHighest sn ≤ rank c e.rxNextHighest s) s

theorem Ordered.expire (h : e.Ordered c) : (e.expire c sn).Ordered c where
  highest_lt := h.highest_lt
  sn_lt p hp := h.sn_lt p (List.mem_filter.mp hp).1
  sorted := h.sorted.sublist List.filter_sublist

theorem sduDelivered_expire (h : e.Ordered c) (hs : s < c.snModulus)
    (hle : rank c e.rxNextHighest sn ≤ rank c e.rxNextHighest s) :
    (e.expire c sn).sduDelivered s = e.sduDelivered s := by
  rw [h.expire.sduDelivered_eq hs, slot_expire, if_pos hle, h.sduDelivered_eq hs]

namespace Receiving

variable (h : e.Receiving c)
include h

theorem expire (hnext : e.FirstUndelivered c e.rxTimerTrigger sn) :
    (e.expire c sn).Receiving c where
  toOrdered := h.toOrdered.expire
  reassembly_lt := hnext.lt
  reassembly_le := hnext.rank_le
  trigger_lt := h.trigger_lt
  head s p hp := by
    rw [slot_expire] at hp
    split at hp
    · exact h.head s p hp
    · simp at hp
  inWindow p hp := h.inWindow p (List.mem_filter.mp hp).1
  undelivered := (sduDelivered_expire h.toOrdered hnext.lt le_rfl).trans hnext.stop
  trigger := fun hne => absurd rfl hne

theorem checkTReassembly_ticks (hr : e.checkTReassembly c fuel now = some e') :
    Ticks c now e e' := by
  unfold Rx.checkTReassembly at hr
  split at hr
  · next hidle =>
    cases hr
    exact .idle fun hexp => hidle.elim hexp.1 (by simpa using hexp.2)
  · next hexp =>
    have hexp : e.Expired c now := by simpa [Expired] using hexp
    obtain ⟨sn, hn, rfl⟩ := Option.map_eq_some_iff.mp hr
    have hnext := firstUndelivered_of_eq_some h.toOrdered h.inWindow h.trigger_lt
      (h.trigger hexp.1).2 hn
    have htest (p) (hp : p ∈ e.rxList) : decide (e.snCompareRx c p.sn sn < 0) ↔
        ¬ rank c e.rxNextHighest sn ≤ rank c e.rxNextHighest p.sn := by
      rw [snCompareRx_eq h.highest_lt (h.sn_lt p hp) hnext.lt, decide_eq_true_eq]
      omega
    have hlist : (e.rxList.dropWhile fun p => decide (e.snCompareRx c p.sn sn < 0)) =
        (e.expire c sn).rxList := by
      rw [Sorted.dropWhile_eq_filter]
      · refine List.filter_congr fun p hp => ?_
        rw [Bool.eq_iff_iff, Bool.not_eq_true', ← Bool.not_eq_true, htest p hp, not_not,
          decide_eq_true_eq]
      · refine h.sorted.imp_of_mem fun {p r} hp hr hpr hP => ?_
        have := hpr.rank_le
        rw [htest r hr] at hP
        rw [htest p hp]
        omega
    have hstate : ({ e with
        tReassemblyStart := 0
        rxNextReassembly := sn
        rxList := e.rxList.dropWhile fun p => decide (e.snCompareRx c p.sn sn < 0) } : Rx) =
        e.expire c sn := by
      rw [hlist]
      rfl
    change Ticks c now e ((fun e₃ : Rx =>
      if e₃.snCompareRx c e₃.rxNextHighest ((sn + 1) % c.snModulus) > 0 ∨
          (e₃.rxNextHighest = sn + 1 ∧ e₃.sduHasMissingBytes sn) then
        { e₃ with tReassemblyStart := now, rxTimerTrigger := e₃.rxNextHighest }
      else e₃) { e with
        tReassemblyStart := 0
        rxNextReassembly := sn
        rxList := e.rxList.dropWhile fun p => decide (e.snCompareRx c p.sn sn < 0) })
    rw [hstate]
    dsimp only
    have hre := (h.expire hnext).toStores.snCompareRx_succ
    split
    · next hc =>
      refine .restarted hexp hnext ?_
      exact hc.imp hre.mp id
    · next hc =>
      exact .stopped hexp hnext fun hr => hc (hr.imp hre.mpr id)

theorem exists_checkTReassembly (now : UInt64) :
    ∃ fuel e', e.checkTReassembly c fuel now = some e' := by
  unfold Rx.checkTReassembly
  split
  · exact ⟨0, _, rfl⟩
  · obtain ⟨fuel, sn, hn⟩ := exists_nextUndelivered h.toOrdered h.inWindow h.trigger_lt
    exact ⟨fuel, _, Option.map_eq_some_iff.mpr ⟨sn, hn, rfl⟩⟩

end Receiving

end Rx

end OpenAir.Rlc.Um

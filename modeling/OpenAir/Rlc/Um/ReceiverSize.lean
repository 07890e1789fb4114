import Mathlib.Algebra.BigOperators.Group.List.Basic
import OpenAir.Rlc.Um.ReceiverWindow

namespace OpenAir.Rlc.Um

variable {c : Config} {x s sn : Nat} {now : UInt64} {out : List Delivery}

def byteSum (l : List Pdu) : Int := (l.map fun p => (p.size : Int)).sum

@[simp] theorem byteSum_append (l l' : List Pdu) : byteSum (l ++ l') = byteSum l + byteSum l' := by
  simp [byteSum]

theorem byteSum_perm {l l' : List Pdu} (h : l.Perm l') : byteSum l = byteSum l' :=
  (h.map _).sum_eq

theorem byteSum_clear (l : List Pdu) : byteSum (l.map clear) = 0 := by
  induction l with
  | nil => rfl
  | cons p l ih => simpa [byteSum, clear] using ih

@[simp] theorem byteSum_cons (p : Pdu) (l : List Pdu) : byteSum (p :: l) = p.size + byteSum l := by
  simp [byteSum]

theorem byteSum_filter_le (l : List Pdu) (P : Pdu → Bool) : byteSum (l.filter P) ≤ byteSum l := by
  induction l with
  | nil => exact le_rfl
  | cons p l ih =>
    rw [List.filter_cons]
    split
    · rw [byteSum_cons, byteSum_cons]
      omega
    · rw [byteSum_cons]
      omega

theorem byteSum_filter (l : List Pdu) (P : Pdu → Bool) :
    byteSum (l.filter P) = byteSum l ↔ ∀ p ∈ l, P p = false → p.size = 0 := by
  induction l with
  | nil => simp
  | cons p l ih =>
    rw [List.forall_mem_cons, ← ih, byteSum_cons]
    cases hP : P p with
    | true =>
      rw [List.filter_cons_of_pos hP, byteSum_cons, add_right_inj]
      simp
    | false =>
      have hle := byteSum_filter_le l P
      rw [List.filter_cons_of_neg (by simp [hP])]
      simp only [true_implies]
      omega

namespace Rx

variable {e e' : Rx}

def Counted (e : Rx) : Prop := e.rxSize = byteSum e.rxList

def givesUp (c : Config) (e : Rx) (s : Nat) : Bool :=
  decide (rank c e.rxNextHighest s < rank c e.rxNextHighest e.rxTimerTrigger) ||
    decide (∀ k < c.snModulus, rank c e.rxNextHighest e.rxTimerTrigger ≤ rank c e.rxNextHighest k →
      rank c e.rxNextHighest k ≤ rank c e.rxNextHighest s → e.sduDelivered k = true)

theorem FirstUndelivered.givesUp_iff (hnext : e.FirstUndelivered c e.rxTimerTrigger sn) (s : Nat) :
    e.givesUp c s ↔ rank c e.rxNextHighest s < rank c e.rxNextHighest sn := by
  rw [givesUp, Bool.or_eq_true, decide_eq_true_eq, decide_eq_true_eq]
  constructor
  · rintro (hlt | hall)
    · exact hlt.trans_le hnext.le
    · by_contra hle
      have := hall sn hnext.lt hnext.le (not_lt.mp hle)
      rw [hnext.stop] at this
      cases this
  · intro hlt
    by_cases hT : rank c e.rxNextHighest s < rank c e.rxNextHighest e.rxTimerTrigger
    · exact .inl hT
    · exact .inr fun k hk hTk hks => hnext.before k hk hTk (hks.trans_lt hlt)

namespace Counted

variable (h : e.Counted)
include h

theorem add (q : Pdu) : (e.add c q).Counted := by
  have hperm := byteSum_perm (pduListAdd_perm (e.snCompareRx c) q e.rxList)
  rw [byteSum_cons] at hperm
  unfold Counted at h ⊢
  rw [Rx.add]
  dsimp only
  omega

theorem reassembleAndDeliver (x : Nat) : (e.reassembleAndDeliver x).1.Counted := by
  have hsplit : e.rxList = e.rxList.takeWhile (·.sn ≠ x) ++
      (e.segments x ++ (e.rxList.dropWhile (·.sn ≠ x)).dropWhile (·.sn = x)) := by
    rw [segments, List.takeWhile_append_dropWhile, List.takeWhile_append_dropWhile]
  have hsum := congrArg byteSum hsplit
  have hclear := byteSum_clear (e.segments x)
  simp only [byteSum_append] at hsum
  unfold Counted at h ⊢
  change e.rxSize - byteSum (e.segments x) = byteSum (e.rxList.takeWhile (·.sn ≠ x) ++
    (e.segments x).map clear ++ (e.rxList.dropWhile (·.sn ≠ x)).dropWhile (·.sn = x))
  simp only [byteSum_append]
  omega

theorem move (x : Nat) : (e.move c x).Counted := by
  unfold Counted at h ⊢
  rw [Rx.move, discardOutOfWindow]
  dsimp only
  generalize (fun p : Pdu => decide (_ ≥ (0 : Int))) = P
  have hsum := congrArg byteSum (List.takeWhile_append_dropWhile (p := P) (l := e.rxList))
  rw [byteSum_append] at hsum
  change e.rxSize - byteSum (e.rxList.takeWhile P) = _
  omega

theorem receives (hr : Receives c now e e' out) : e'.Counted := by
  cases hr with
  | dropped => exact h
  | whole => exact h
  | @stored q e₂ e' out hq hacc hacts htimer =>
    rw [htimer.eq]
    have hadd := h.add (c := c) q
    cases hacts with
    | delivers => exact hadd.reassembleAndDeliver _
    | passes => exact hadd.reassembleAndDeliver _
    | waits => exact hadd
    | moves => exact hadd.move _
    | jumps => exact hadd.move _

theorem ticks (ht : Ticks c now e e') :
    e'.Counted ↔ (e.Expired c now → ∀ p ∈ e.rxList, e.givesUp c p.sn → p.size = 0) := by
  have hexpire {sn : Nat} (hnext : e.FirstUndelivered c e.rxTimerTrigger sn) :
      (e.expire c sn).Counted ↔ ∀ p ∈ e.rxList, e.givesUp c p.sn → p.size = 0 := by
    have hfilter := byteSum_filter e.rxList fun p =>
      decide (rank c e.rxNextHighest sn ≤ rank c e.rxNextHighest p.sn)
    unfold Counted at h ⊢
    rw [Rx.expire]
    dsimp only
    rw [h, eq_comm, hfilter]
    refine forall₂_congr fun p hp => ?_
    rw [hnext.givesUp_iff, decide_eq_false_iff_not, not_le]
  cases ht with
  | idle hidle => exact ⟨fun _ hexp => absurd hexp hidle, fun _ => h⟩
  | restarted hexp hnext hre =>
    refine (hexpire hnext).trans ⟨fun hall _ => hall, fun hall => hall hexp⟩
  | stopped hexp hnext hre =>
    refine (hexpire hnext).trans ⟨fun hall _ => hall, fun hall => hall hexp⟩

end Counted

instance (now : UInt64) (e : Rx) : Decidable (e.Expired c now) :=
  inferInstanceAs (Decidable (_ ∧ _))

end Rx

namespace Entity

variable {e e' : Entity} {l : Op × Output}

def keepsRxSize (c : Config) (e : Entity) : Op → Bool
  | .setTime now => !decide (e.rx.Expired c now) ||
      e.rx.rxList.all fun p => !e.rx.givesUp c p.sn || decide (p.size = 0)
  | _ => true

theorem keepsRxSize_setTime : e.keepsRxSize c (.setTime now) ↔
    (e.rx.Expired c now → ∀ p ∈ e.rx.rxList, e.rx.givesUp c p.sn → p.size = 0) := by
  simp only [keepsRxSize, Bool.or_eq_true, Bool.not_eq_true', decide_eq_false_iff_not,
    List.all_eq_true, decide_eq_true_eq, imp_iff_not_or, Bool.not_eq_true]

theorem counted_rx_step (h : e.rx.Receiving c) (hc : e.rx.Counted) (hs : Step c e l e') :
    e'.rx.Counted ↔ e.keepsRxSize c l.1 := by
  obtain ⟨hop, -, hrx⟩ | ⟨pdu, hop, hrx⟩ | ⟨now, hop, -, hrx⟩ := rx_cases h hs
  · refine iff_of_true ?_ ?_
    · rcases hrx with hrx | hrx
      · exact hrx ▸ hc
      · exact hrx ▸ rfl
    · cases hl : l.1 <;> first | rfl | simp [hl, Op.receives] at hop
  · rw [hop]
    exact iff_of_true (hc.receives hrx) rfl
  · rw [hop, keepsRxSize_setTime]
    exact hc.ticks hrx

theorem counted_of_reachableBy (h : ReachableBy c (fun e op => e.keepsRxSize c op) e) :
    e.rx.Counted := by
  obtain ⟨ls, hrun⟩ := h
  have hnew : (Entity.new c).rx.Counted := rfl
  refine (hrun.invariant (fun e : Entity => e.rx.Receiving c ∧ e.rx.Counted) ⟨.new _, hnew⟩ ?_).2
  rintro s l t ⟨hr, hc⟩ ⟨hstep, hkeep⟩
  exact ⟨receiving_step hr hstep, (counted_rx_step hr hc hstep).mpr hkeep⟩

/-- `rx_size` is right as long as no expiry gives up stored data, and the first that does makes it
wrong. -/
theorem rx_size_counted (h : ReachableBy c (fun e op => e.keepsRxSize c op = true) e) :
    e.rx.Counted ∧ ∀ l e', Step c e l e' → (e'.rx.Counted ↔ e.keepsRxSize c l.1 = true) :=
  ⟨counted_of_reachableBy h, fun _ _ hs =>
    counted_rx_step (receiving_of_reachableBy h) (counted_of_reachableBy h) hs⟩

theorem rx_size_counted_expiry :
    ∃ e, ReachableBy .six
        (fun e op => e.keepsRxSize .six op = true) e ∧
      e.rx.Counted ∧ e.rx.rxNextReassembly = 2 ∧ e.rx.rxSize = 1 := by
  have hobs : (execAll .six 5 (keepsRxSize .six)
      (.new .six) [.setTime 1, .recvPdu [0x41, 7], .recvPdu [0x81, 0, 1, 8],
        .recvPdu [0x42, 9], .setTime 100]).map
          (fun r => (r.1.rx.rxNextReassembly, r.1.rx.rxSize)) = some (2, 1) := by
    decide
  obtain ⟨e, ls, hreach, heq⟩ := exists_reachableBy hobs
  simp only [Prod.mk.injEq] at heq
  exact ⟨e, hreach, (rx_size_counted hreach).1, heq.1, heq.2⟩

/-- Two first segments with a gap between them are discarded when the timer expires. -/
theorem not_forall_rx_size_counted :
    ¬ ∀ c e, ReachableBy c (fun _ op => op.receives = true) e → e.rx.Counted := by
  intro h
  have hobs : (execAll .six 5 (fun _ op => op.receives)
      (.new .six) [.setTime 1, .recvPdu [0x40, 7], .recvPdu [0x42, 7],
        .setTime 100]).map (fun r => (r.1.rx.rxList, r.1.rx.rxSize)) = some ([], 2) := by
    decide
  obtain ⟨e, ls, hreach, heq⟩ := exists_reachableBy hobs
  have hsize := h _ e hreach
  simp only [Prod.mk.injEq] at heq
  rw [Rx.Counted, heq.1, heq.2] at hsize
  exact absurd hsize (by decide)

end Entity

end OpenAir.Rlc.Um

import OpenAir.Rlc.Um.ReceiverSteps

namespace OpenAir.Rlc.Um

variable {c : Config} {x sn : Nat} {now : UInt64} {out : List Delivery}

def deliveriesOf (x : Nat) (out : List Delivery) : Nat := out.countP (·.sn = some x)

theorem deliveriesOf_append (out out' : List Delivery) :
    deliveriesOf x (out ++ out') = deliveriesOf x out + deliveriesOf x out' :=
  List.countP_append

namespace Rx

variable {e e' : Rx}

def SnInWindow (c : Config) (e : Rx) (x : Nat) : Prop :=
  x < c.snModulus ∧ rank c e.rxNextHighest x < c.windowSize

structure Settles (c : Config) (x : Nat) (e e' : Rx) (out : List Delivery) : Prop where
  keeps : e.Settled c x → e'.Settled c x
  once : deliveriesOf x out = 0 ∨ deliveriesOf x out = 1 ∧ ¬ e.Settled c x ∧ e'.Settled c x

namespace Receiving

variable (h : e.Receiving c)
include h

theorem ticks (ht : Ticks c now e e') : e'.Receiving c := by
  cases ht with
  | idle => exact h
  | @restarted sn hexp hnext hre =>
    have hx := h.expire hnext
    have hM := c.snModulus_eq
    have hw := c.windowSize_ge
    have hlt : rank c e.rxNextHighest sn < rank c e.rxNextHighest e.rxNextHighest := by
      rw [rank_highest h.highest_lt]
      rcases hre with hlt | ⟨heq, -⟩
      · change rank c e.rxNextHighest sn + 1 < c.windowSize at hlt
        omega
      · change e.rxNextHighest = sn + 1 at heq
        have hle := hnext.rank_le
        have hs := rank_succ h.highest_lt hnext.lt (by omega)
        rw [← heq, Nat.mod_eq_of_lt h.highest_lt, rank_highest h.highest_lt] at hs
        omega
    exact ⟨⟨⟨hx.highest_lt, hx.sn_lt, hx.sorted⟩, hx.reassembly_lt, hx.reassembly_le, h.highest_lt,
      hx.head⟩, hx.inWindow, hx.undelivered, fun _ => ⟨hlt, (rank_highest h.highest_lt).le⟩⟩
  | stopped hexp hnext hre => exact h.expire hnext

theorem settles_receives (hr : Receives c now e e' out) (hin : e.SnInWindow c x)
    (hin' : e'.SnInWindow c x) : Settles c x e e' out := by
  cases hr with
  | dropped => exact ⟨id, .inl rfl⟩
  | whole => exact ⟨id, .inl rfl⟩
  | @stored q e₂ e' out hq hacc hacts htimer =>
    have hst := h.toStores.add hq
    have hadd : (e.add c q).Settled c x ↔ e.Settled c x := by
      unfold Settled
      rw [sduDelivered_add h.toStores hq hin.1]
      rfl
    have htime : e'.Settled c x ↔ e₂.Settled c x := by
      rw [htimer.eq]
      rfl
    have hin₂ : rank c e₂.rxNextHighest x < c.windowSize := by
      rw [htimer.eq] at hin'
      exact hin'.2
    refine ⟨fun hs => htime.mpr (hacts.settled hst hq.sn_lt h.add_inWindowBut hin.1 hin.2 hin₂
      (hadd.mpr hs)), ?_⟩
    rcases hacts.delivery hst hq.sn_lt with rfl | ⟨hfull, hdone, sdu, rfl⟩
    · exact .inl rfl
    · by_cases hx : q.sn = x
      · subst hx
        refine .inr ⟨by simp [deliveriesOf], ?_, htime.mpr (.inr hdone)⟩
        rintro (hlt | hdel)
        · omega
        · rw [hst.sduFull_eq hq.sn_lt, processed_add h.toStores hq, ← h.sduDelivered_eq hq.sn_lt,
            hdel] at hfull
          simp at hfull
      · exact .inl (by simp [deliveriesOf, hx])

theorem settled_expire (hrun : e.tReassemblyStart ≠ 0)
    (hnext : e.FirstUndelivered c e.rxTimerTrigger sn) (hx : x < c.snModulus)
    (hs : e.Settled c x) : (e.expire c sn).Settled c x := by
  rcases hs with hlt | hdel
  · exact .inl (hlt.trans ((h.trigger hrun).1.trans_le hnext.le))
  · by_cases hle : rank c e.rxNextHighest sn ≤ rank c e.rxNextHighest x
    · exact .inr ((sduDelivered_expire h.toOrdered hx hle).trans hdel)
    · exact .inl (not_le.mp hle)

theorem settles_ticks (ht : Ticks c now e e') (hin : e.SnInWindow c x) : Settles c x e e' [] := by
  refine ⟨fun hs => ?_, .inl rfl⟩
  cases ht with
  | idle => exact hs
  | restarted hexp hnext hre => exact h.settled_expire hexp.1 hnext hin.1 hs
  | stopped hexp hnext hre => exact h.settled_expire hexp.1 hnext hin.1 hs

end Receiving

end Rx

namespace Entity

variable {e e' : Entity} {l : Op × Output} {ls : List (Op × Output)}

theorem rx_cases (h : e.rx.Receiving c) (hs : Step c e l e') :
    (l.1.receives = false ∧ l.2.deliveries = [] ∧
      (e'.rx = e.rx ∨ e'.rx = e.reestablishment.rx)) ∨
    (∃ pdu, l.1 = .recvPdu pdu ∧ Rx.Receives c e.tCurrent e.rx e'.rx l.2.deliveries) ∨
    ∃ now, l.1 = .setTime now ∧ l.2.deliveries = [] ∧ Rx.Ticks c now e.rx e'.rx := by
  obtain ⟨fuel, hexec⟩ := hs
  obtain ⟨op, out⟩ := l
  cases op with
  | recvPdu pdu =>
    obtain ⟨⟨rx, ds⟩, hr, heq⟩ := Option.map_eq_some_iff.mp hexec
    cases heq
    exact .inr (.inl ⟨pdu, rfl, h.recvPdu_receives hr⟩)
  | setTime now =>
    obtain ⟨rx, hr, heq⟩ := Option.map_eq_some_iff.mp hexec
    cases heq
    exact .inr (.inr ⟨now, rfl, rfl, h.checkTReassembly_ticks hr⟩)
  | reestablishment =>
    cases hexec
    exact .inl ⟨rfl, rfl, .inr rfl⟩
  | discardSdu sduId =>
    cases hexec
    exact .inl ⟨rfl, rfl, .inl rfl⟩
  | recvSdu | generatePdu =>
    obtain ⟨r, hr, heq⟩ := Option.map_eq_some_iff.mp hexec
    cases heq
    exact .inl ⟨rfl, rfl, .inl rfl⟩

theorem receiving_step (h : e.rx.Receiving c) (hs : Step c e l e') : e'.rx.Receiving c := by
  obtain ⟨-, -, hrx | hrx⟩ | ⟨pdu, -, hrx⟩ | ⟨now, -, -, hrx⟩ := rx_cases h hs
  · exact hrx ▸ h
  · exact hrx ▸ .new _
  · exact h.receives hrx
  · exact h.ticks hrx

theorem settles_step (h : e.rx.Receiving c) (hs : Step c e l e') (hin : e.rx.SnInWindow c x)
    (hin' : e'.rx.SnInWindow c x) : e.rx.Settles c x e'.rx l.2.deliveries := by
  obtain ⟨-, hds, hrx | hrx⟩ | ⟨pdu, -, hrx⟩ | ⟨now, -, hds, hrx⟩ := rx_cases h hs
  · rw [hds, hrx]
    exact ⟨id, .inl rfl⟩
  · -- every SN of the window is before the new `rx_next_reassembly`
    rw [hrx] at hin'
    rw [hds, hrx]
    refine ⟨fun _ => .inl (hin'.2.trans_eq ?_), .inl rfl⟩
    exact (rank_highest (c := c) c.snModulus_pos).symm
  · exact h.settles_receives hrx hin hin'
  · rw [hds]
    exact h.settles_ticks hrx hin

theorem receiving_of_reachableBy {good : Entity → Op → Prop} (h : ReachableBy c good e) :
    e.rx.Receiving c := by
  obtain ⟨ls, hrun⟩ := h
  exact hrun.invariant (fun e : Entity => e.rx.Receiving c) (.new _)
    fun _ _ _ h hs => receiving_step h hs.1

def deliveries (ls : List (Op × Output)) : List Delivery := ls.flatMap (·.2.deliveries)

theorem deliveriesOf_le_one (h : e.rx.Receiving c)
    (hrun : Run (fun s l t => Step c s l t ∧ s.rx.SnInWindow c x ∧ t.rx.SnInWindow c x) e ls e') :
    deliveriesOf x (deliveries ls) ≤ 1 := by
  have hinv := hrun.trace_invariant
    (fun ls (s : Entity) => s.rx.Receiving c ∧ (deliveriesOf x (deliveries ls) = 0 ∨
      deliveriesOf x (deliveries ls) = 1 ∧ s.rx.Settled c x)) ⟨h, .inl rfl⟩ ?_
  · omega
  · rintro ls s l t ⟨hs, hcount⟩ ⟨hstep, hin, hin'⟩
    obtain ⟨hkeep, honce⟩ := settles_step hs hstep hin hin'
    refine ⟨receiving_step hs hstep, ?_⟩
    have hsum : deliveriesOf x (deliveries (ls ++ [l])) =
        deliveriesOf x (deliveries ls) + deliveriesOf x l.2.deliveries := by
      rw [← deliveriesOf_append]
      simp [deliveries]
    rw [hsum]
    rcases hcount with h0 | ⟨h1, hset⟩ <;> rcases honce with h0' | ⟨h1', hnot, hset'⟩
    · exact .inl (by omega)
    · exact .inr ⟨by omega, hset'⟩
    · exact .inr ⟨by omega, hkeep hset⟩
    · exact absurd hset hnot

/-- The PDUs of the list are in the window and in its order, `rx_next_reassembly` is in the window
or at its end, every call returns, and an SN is delivered once while it is in the window. -/
theorem receiver_window {good : Entity → Op → Prop} (h : ReachableBy c good e) :
    (∀ p ∈ e.rx.rxList, e.rx.SnInWindow c p.sn) ∧
    e.rx.rxList.Pairwise (Before c e.rx.rxNextHighest) ∧
    (e.rx.rxNextReassembly < c.snModulus ∧
      rank c e.rx.rxNextHighest e.rx.rxNextReassembly ≤ c.windowSize) ∧
    (∀ now pdu, ∃ fuel r, e.rx.recvPdu c fuel now pdu = some r) ∧
    (∀ now, ∃ fuel rx, e.rx.checkTReassembly c fuel now = some rx) ∧
    ∀ x ls e', Run (fun s l t => Step c s l t ∧ s.rx.SnInWindow c x ∧ t.rx.SnInWindow c x) e ls e' →
      deliveriesOf x (deliveries ls) ≤ 1 := by
  have hr := receiving_of_reachableBy h
  exact ⟨fun p hp => ⟨hr.sn_lt p hp, hr.inWindow p hp⟩, hr.sorted,
    ⟨hr.reassembly_lt, hr.reassembly_le⟩, hr.exists_recvPdu, hr.exists_checkTReassembly,
    fun _ _ _ hrun => deliveriesOf_le_one hr hrun⟩

theorem receiver_window_segments :
    ∃ e ls e', ReachableBy .six (fun _ _ => True) e ∧ e.rx.rxList ≠ [] ∧
      Run (fun s l t => Step .six s l t ∧ s.rx.SnInWindow .six 0 ∧
        t.rx.SnInWindow .six 0) e ls e' ∧
      deliveries ls = [⟨some 0, [7, 8]⟩] ∧ deliveriesOf 0 (deliveries ls) ≤ 1 := by
  have hobs : ((execAll .six 5 (fun _ _ => true) (.new .six)
      [.setTime 1, .recvPdu [0x40, 7]]).bind fun r =>
        (exec .six 5 r.1 (.recvPdu [0x80, 0, 1, 8])).map fun r' =>
          (r.1.rx.rxNextHighest, r.1.rx.rxList.length, r'.1.rx.rxNextHighest, r'.2.deliveries)) =
      some (1, 1, 1, [⟨some 0, [7, 8]⟩]) := by decide
  obtain ⟨⟨e, ls⟩, hrun, hobs⟩ := Option.bind_eq_some_iff.mp hobs
  obtain ⟨⟨e', out⟩, hexec, heq⟩ := Option.map_eq_some_iff.mp hobs
  simp only [Prod.mk.injEq] at heq
  obtain ⟨hH, hlen, hH', hout⟩ := heq
  have hreach : ReachableBy .six (fun _ _ => True) e :=
    ⟨ls, (execAll_run hrun).mono fun _ _ _ hs => ⟨hs.1, trivial⟩⟩
  have hin : e.rx.SnInWindow .six 0 := by
    rw [Rx.SnInWindow, hH]
    decide
  have hin' : e'.rx.SnInWindow .six 0 := by
    rw [Rx.SnInWindow, hH']
    decide
  have hstep : Run (fun s l t => Step .six s l t ∧
      s.rx.SnInWindow .six 0 ∧ t.rx.SnInWindow .six 0) e
      [(.recvPdu [0x80, 0, 1, 8], out)] e' := .cons ⟨⟨5, hexec⟩, hin, hin'⟩ .nil
  exact ⟨e, _, e', hreach, List.ne_nil_of_length_pos (by omega), hstep,
    by simpa [deliveries] using hout, (receiver_window hreach).2.2.2.2.2 0 _ e' hstep⟩

end Entity

end OpenAir.Rlc.Um

import Mathlib.Algebra.Order.Group.Int
import OpenAir.Rlc.Um.TransmitLaws

namespace OpenAir.Rlc.Um

open List

variable {c : Config} {e e' : Tx}

structure Tx.Counted (c : Config) (e : Tx) : Prop where
  txSize : e.txSize = dataSizes e.txList
  bstatusTxSize : e.bstatusTxSize = pduSizes c e.txList
  txEnd : e.txEnd = e.txList.getLast?

/-- The calls that lose no data of `tx_list` without sending it: no PDU of a size with room for the
header of a whole SDU only, and no discard of an SDU with data. -/
def Entity.keepsTxSize (c : Config) (e : Entity) : Op → Bool
  | .generatePdu size => !e.tx.txList.head?.any fun s => decide (Squeezed c s size)
  | .discardSdu sduId => (e.tx.discarded sduId).all fun s => s.size = 0
  | _ => true

structure Tx.Sound (c : Config) (e : Tx) : Prop extends e.Counted c where
  holds : e.heap.Holds e.txList

theorem getLast?_eraseMid {l₁ l₂ : List Segment} {cur : Segment}
    (hid : ((l₁ ++ cur :: l₂).map Segment.id).Nodup) :
    (if (l₁ ++ cur :: l₂).getLast?.map Segment.id = some cur.id then l₁.getLast?
      else (l₁ ++ cur :: l₂).getLast?) = (l₁ ++ l₂).getLast? := by
  cases l₂ with
  | nil => simp
  | cons x l₂ =>
    obtain ⟨w, hw⟩ : ∃ w, (x :: l₂).getLast? = some w :=
      ⟨_, List.getLast?_eq_getLast_of_ne_nil (by simp)⟩
    have hne : w.id ≠ cur.id := by
      rw [map_append, map_cons] at hid
      intro heq
      have := (nodup_cons.mp (nodup_append.mp hid).2.1).1
      exact this (heq ▸ mem_map_of_mem (mem_of_getLast? hw))
    simp [List.getLast?_append, List.getLast?_cons_cons, hw, hne]

namespace Tx.Sound

variable {size : Nat} {pdu : List Byte} (h : e.Sound c)
include h

theorem generates (hg : Generates c size e e' pdu) :
    (e'.Counted c ↔ ∀ s rest, e.txList = s :: rest → ¬ Squeezed c s size) ∧
      (e'.Counted c → e'.Sound c) := by
  cases hg with
  | nothing hsmall =>
    refine ⟨⟨fun _ s rest hl hsq => ?_, fun _ => h.toCounted⟩, fun _ => h⟩
    exact (hsmall s rest hl).not_ge hsq.header_lt
  | @lost s rest heap hl hsq =>
    have hnot : ¬ Tx.Counted c { e with
        txList := rest
        txEnd := if rest = [] then none else e.txEnd
        heap := heap
        bstatusTxSize := e.bstatusTxSize - pduSize c s } := by
      intro hc
      have h₁ := h.txSize
      have h₂ : e.txSize = dataSizes rest := hc.txSize
      have h₃ := hsq.2.2.2.2
      rw [hl, dataSizes_cons] at h₁
      omega
    exact ⟨⟨fun hc => absurd hc hnot, fun hall => absurd hsq (hall s rest hl)⟩,
      fun hc => absurd hc hnot⟩
  | @sent s s₁ l rest heap pdu hl hfit hcut hpdu =>
    have hlive : e.heap.Live s.sdu := h.holds.live s (by simp [hl])
    have hholds : (e.assignSn s).Holds (s :: rest) := by
      have := h.holds
      rw [hl] at this
      exact this.modify (by simp) hlive
    have hcounted : Tx.Counted c { e with
        txNext := if !s₁.isFirst && s₁.isLast then (e.txNext + 1) % c.snModulus else e.txNext
        heap := (freeSduSegment heap s₁).1
        txList := l ++ rest
        txEnd := (if rest = [] then none else e.txEnd).or l.head?
        txSize := e.txSize - s₁.size
        bstatusTxSize := e.bstatusTxSize - pduSize c s + pduSizes c l } := by
      refine ⟨?_, ?_, ?_⟩
      · have := h.txSize
        have hsize := hcut.size_eq
        rw [hl, dataSizes_cons] at this
        simp only [dataSizes_append]
        omega
      · have := h.bstatusTxSize
        rw [hl, pduSizes_cons] at this
        simp only [pduSizes_append]
        omega
      · have := h.txEnd
        rw [hl] at this
        cases rest with
        | nil => cases hcut <;> rfl
        | cons r rs =>
          rw [List.getLast?_cons_cons] at this
          simp only [cons_ne_nil, if_false, this, List.getLast?_append]
          cases hlast : (r :: rs).getLast? with
          | none => simp at hlast
          | some w => rfl
    refine ⟨⟨fun _ s' rest' hl' hsq => ?_, fun _ => hcounted⟩, fun hc => ⟨hc, ?_⟩⟩
    · rw [hl] at hl'
      cases hl'
      exact hcut.not_squeezed hsq
    · exact (hcut.holds hholds).freeSduSegment

theorem discardSdu (sduId : Int) :
    ((e.discardSdu c sduId).Counted c ↔ ∀ s, e.discarded sduId = some s → s.size = 0) ∧
      (Tx.Sound c (e.discardSdu c sduId) ∨ ¬ (e.discardSdu c sduId).Counted c) := by
  rcases discardSdu_cases c e sduId with ⟨hnone, heq⟩ | ⟨l₁, cur, l₂, hsome, hl, heq⟩
  · rw [heq]
    exact ⟨⟨fun _ s hs => by simp [hnone] at hs, fun _ => h.toCounted⟩, .inl h⟩
  · have hsize := h.txSize
    have hb := h.bstatusTxSize
    have hend := h.txEnd
    have hholds := h.holds
    rw [hl] at hsize hb hend hholds
    simp only [dataSizes_append, dataSizes_cons, pduSizes_append, pduSizes_cons] at hsize hb
    have hiff : (e.discardSdu c sduId).Counted c ↔ cur.size = 0 := by
      rw [heq]
      constructor
      · intro hc
        have : e.txSize = dataSizes (l₁ ++ l₂) := hc.txSize
        rw [dataSizes_append] at this
        omega
      · intro hz
        refine ⟨?_, ?_, ?_⟩
        · simp only [dataSizes_append]
          omega
        · simp only [pduSizes_append]
          omega
        · simp only [hend]
          exact getLast?_eraseMid hholds.id_nodup
    refine ⟨?_, ?_⟩
    · rw [hiff, hsome]
      simp
    · by_cases hc : (e.discardSdu c sduId).Counted c
      · refine .inl ⟨hc, ?_⟩
        rw [heq]
        exact (hholds.perm perm_middle).freeSduSegment
      · exact .inr hc

theorem recvSdu {sdu : List Byte} {sduId : Int} (hr : e.recvSdu c sdu sduId = some e') :
    e'.Sound c := by
  rcases recvSdu_appends h.holds.id_nodup hr with ⟨rfl, -⟩ | ⟨-, l₁, l₂, happ, rfl⟩
  · exact h
  · obtain rfl := happ.tail h.txEnd
    have heq : e.txList = l₁ := by simpa using happ.eq
    have hsize := h.txSize
    have hb := h.bstatusTxSize
    have hholds := h.holds
    rw [heq] at hsize hb hholds
    refine ⟨⟨?_, ?_, ?_⟩, ?_⟩
    · simp only [dataSizes_append, dataSizes_cons, dataSizes_nil, hsize]
      simp [newSdu]
    · simp [hb]
    · simp
    · exact (Heap.Holds.newSdu sdu sduId hholds).perm (perm_append_singleton _ _).symm

end Tx.Sound

theorem Tx.Sound.new (c : Config) : (Entity.new c).tx.Sound c :=
  ⟨⟨rfl, rfl, rfl⟩, .nil⟩

theorem Tx.Sound.reestablishment {e : Entity} (h : e.tx.Sound c) : e.reestablishment.tx.Sound c :=
  ⟨⟨rfl, rfl, rfl⟩, holds_freeSduSegmentList ((append_nil e.tx.txList).symm ▸ h.holds)⟩

namespace Entity

variable {e e' : Entity} {l : Op × Output}

theorem keepsTxSize_generatePdu {size : Nat} : e.keepsTxSize c (.generatePdu size) ↔
    ∀ s rest, e.tx.txList = s :: rest → ¬ Squeezed c s size := by
  unfold keepsTxSize
  cases e.tx.txList with
  | nil => simp
  | cons s rest => simp

theorem keepsTxSize_discardSdu {sduId : Int} : e.keepsTxSize c (.discardSdu sduId) ↔
    ∀ s, e.tx.discarded sduId = some s → s.size = 0 := by
  simp only [keepsTxSize, Option.all_eq_true, decide_eq_true_eq]

theorem counted_step (h : e.tx.Sound c) (hs : Step c e l e') :
    (e'.tx.Counted c ↔ e.keepsTxSize c l.1) ∧ (e'.tx.Counted c → e'.tx.Sound c) := by
  obtain ⟨fuel, hexec⟩ := hs
  obtain ⟨op, out⟩ := l
  -- the calls that do not touch the transmitting side, or always keep it sound
  have sound (hk : e.keepsTxSize c op) (h' : e'.tx.Sound c) :
      (e'.tx.Counted c ↔ e.keepsTxSize c op) ∧ (e'.tx.Counted c → e'.tx.Sound c) :=
    ⟨⟨fun _ => hk, fun _ => h'.toCounted⟩, fun _ => h'⟩
  cases op with
  | recvSdu sdu sduId =>
    obtain ⟨tx, hr, heq⟩ := Option.map_eq_some_iff.mp hexec
    cases heq
    exact sound rfl (h.recvSdu hr)
  | generatePdu size =>
    obtain ⟨⟨tx, pdu⟩, hr, heq⟩ := Option.map_eq_some_iff.mp hexec
    cases heq
    rw [keepsTxSize_generatePdu]
    exact h.generates (Tx.generateTxPdu_generates hr)
  | recvPdu pdu =>
    obtain ⟨r, hr, heq⟩ := Option.map_eq_some_iff.mp hexec
    cases heq
    exact sound rfl h
  | setTime now =>
    obtain ⟨rx, hr, heq⟩ := Option.map_eq_some_iff.mp hexec
    cases heq
    exact sound rfl h
  | discardSdu sduId =>
    cases hexec
    obtain ⟨hiff, hor⟩ := h.discardSdu sduId
    rw [keepsTxSize_discardSdu]
    exact ⟨hiff, fun hc => hor.resolve_right (not_not.mpr hc)⟩
  | reestablishment =>
    cases hexec
    exact sound rfl h.reestablishment

theorem sound_of_reachableBy (h : ReachableBy c (fun e op => e.keepsTxSize c op) e) :
    e.tx.Sound c := by
  obtain ⟨ls, hrun⟩ := h
  refine hrun.invariant (fun e : Entity => e.tx.Sound c) (.new c) fun s l t hs hstep => ?_
  obtain ⟨hiff, hsound⟩ := counted_step hs hstep.1
  exact hsound (hiff.mpr hstep.2)

/-- The counters are right as long as no call loses data of `tx_list`, and the first such call makes
them wrong. -/
theorem tx_counted (h : ReachableBy c (fun e op => e.keepsTxSize c op = true) e) :
    e.tx.Counted c ∧
      ∀ l e', Step c e l e' → (e'.tx.Counted c ↔ e.keepsTxSize c l.1 = true) :=
  ⟨(sound_of_reachableBy h).toCounted, fun _ _ hs => (counted_step (sound_of_reachableBy h) hs).1⟩

theorem tx_counted_segments :
    ∃ e, ReachableBy .six
        (fun e op => e.keepsTxSize .six op = true) e ∧
      e.tx.Counted .six ∧ e.tx.txList.map Segment.size = [1] ∧ e.tx.txSize = 1 := by
  have hobs : (execAll .six 5 (keepsTxSize .six)
      (.new .six) [.recvSdu [1, 2, 3] 7, .recvSdu [] 8, .discardSdu 8,
        .generatePdu 3]).map (fun r => (r.1.tx.txList.map Segment.size, r.1.tx.txSize)) =
      some ([1], 1) := by decide
  obtain ⟨e, ls, hreach, heq⟩ := exists_reachableBy hobs
  simp only [Prod.mk.injEq] at heq
  exact ⟨e, hreach, (tx_counted hreach).1, heq.1, heq.2⟩

/-- A discarded SDU stays in `tx_size`. -/
theorem not_forall_tx_counted :
    ¬ ∀ c e, ReachableBy c (fun _ op => op.receives = false) e → e.tx.Counted c := by
  intro h
  have hobs : (execAll .six 5 (fun _ op => !op.receives)
      (.new .six) [.recvSdu [1, 2, 3] 7, .discardSdu 7]).map
        (fun r => (r.1.tx.txList.map Segment.size, r.1.tx.txSize)) = some ([], 3) := by
    decide
  obtain ⟨⟨e, ls⟩, hrun, heq⟩ := Option.map_eq_some_iff.mp hobs
  have hreach : ReachableBy .six (fun _ op => op.receives = false) e :=
    ⟨ls, (execAll_run hrun).mono fun _ _ _ hs => ⟨hs.1, by simpa using hs.2⟩⟩
  simp only [Prod.mk.injEq, map_eq_nil_iff] at heq
  have hsize := (h _ e hreach).txSize
  rw [heq.1, heq.2] at hsize
  exact absurd hsize (by decide)

end Entity

end OpenAir.Rlc.Um

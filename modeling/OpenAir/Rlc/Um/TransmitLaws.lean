import OpenAir.Rlc.SduLaws
import OpenAir.Rlc.Um.Step

namespace OpenAir.Rlc.Um

variable {c : Config} {e e' : Tx} {s : Segment} {l rest : List Segment} {size : Nat}
  {pdu : List Byte}

def pduSizes (c : Config) (l : List Segment) : Int := (l.map (pduSize c)).sum

@[simp] theorem pduSizes_nil : pduSizes c [] = 0 := rfl

@[simp] theorem pduSizes_cons (s : Segment) (l : List Segment) :
    pduSizes c (s :: l) = pduSize c s + pduSizes c l := by simp [pduSizes]

@[simp] theorem pduSizes_append (l₁ l₂ : List Segment) :
    pduSizes c (l₁ ++ l₂) = pduSizes c l₁ + pduSizes c l₂ := by simp [pduSizes]

def dataSizes (l : List Segment) : Int := (l.map fun s => (s.size : Int)).sum

@[simp] theorem dataSizes_nil : dataSizes [] = 0 := rfl

@[simp] theorem dataSizes_cons (s : Segment) (l : List Segment) :
    dataSizes (s :: l) = s.size + dataSizes l := by simp [dataSizes]

@[simp] theorem dataSizes_append (l₁ l₂ : List Segment) :
    dataSizes (l₁ ++ l₂) = dataSizes l₁ + dataSizes l₂ := by simp [dataSizes]

/-- A whole SDU for which a PDU of this size has room, but not for a first segment. -/
def Squeezed (c : Config) (s : Segment) (size : Nat) : Prop :=
  c.snFieldLength = 12 ∧ size = 2 ∧ s.isFirst = true ∧ s.isLast = true ∧ 2 ≤ s.size

instance (s : Segment) (size : Nat) : Decidable (Squeezed c s size) :=
  inferInstanceAs (Decidable (_ ∧ _ ∧ _ ∧ _ ∧ _))

theorem Squeezed.header_lt (h : Squeezed c s size) : computePduHeaderSize c s + 1 ≤ size := by
  obtain ⟨-, rfl, hf, hl, -⟩ := h
  simp [computePduHeaderSize, hf, hl]

inductive Cut (c : Config) (size : Nat) (s : Segment) (h : Heap) :
    Segment → List Segment → Heap → Prop
  | whole (hfit : computePduHeaderSize c s + s.size ≤ size) : Cut c size s h s [] h
  | split (hs : s.Splits s₁ s₂ h.fresh) (hfit : computePduHeaderSize c s₁ + s₁.size = size) :
      Cut c size s h s₁ [s₂] (h.split s.sdu)

namespace Cut

variable {h h' : Heap} {s₁ : Segment} (hc : Cut c size s h s₁ l h')
include hc

theorem holds {other : List Segment} (hh : h.Holds (s :: other)) :
    h'.Holds (s₁ :: (l ++ other)) := by
  cases hc with
  | whole hfit => exact hh
  | split hs hfit => exact hh.split hs

theorem header_le : computePduHeaderSize c s₁ ≤ size := by
  cases hc with
  | whole hfit => omega
  | split hs hfit => omega

theorem size_eq : (s₁.size : Int) + dataSizes l = s.size := by
  cases hc with
  | whole hfit => simp
  | split hs hfit =>
    have h₁ := hs.so₁
    have h₂ := hs.so₂
    have h₃ := hs.stop₂
    unfold Segment.stop at h₂ h₃
    rw [dataSizes_cons, dataSizes_nil]
    omega

theorem not_squeezed : ¬ Squeezed c s size := by
  rintro ⟨h12, rfl, hf, hlast, hsize⟩
  cases hc with
  | whole hfit =>
    simp [computePduHeaderSize, hf, hlast] at hfit
    omega
  | split hs hfit =>
    have hpos := hs.size₁
    simp [computePduHeaderSize, hs.first₁, hs.last₁, hf, h12] at hfit
    omega

end Cut

theorem computePduHeaderSize_last (s : Segment) :
    computePduHeaderSize c s ≤ computePduHeaderSize c { s with isLast := false } := by
  unfold computePduHeaderSize
  cases s.isFirst <;> cases s.isLast <;> simp

namespace Tx

theorem resegment_cases (e : Tx) (hfit : computePduHeaderSize c s + 1 ≤ size)
    (hlong : computePduHeaderSize c s + s.size > size) :
    (Squeezed c s size ∧ ∃ heap, e.resegment c s size = ({ e with heap }, none)) ∨
    ∃ s₁ s₂, s.Splits s₁ s₂ e.heap.fresh ∧ computePduHeaderSize c s₁ + s₁.size = size ∧
      e.resegment c s size = ({ e with heap := e.heap.split s.sdu }, some (s₁, s₂)) := by
  have hle := computePduHeaderSize_last (c := c) s
  unfold resegment
  dsimp only
  split
  · next hshort =>
    refine .inl ⟨?_, _, rfl⟩
    unfold computePduHeaderSize at hfit hlong hshort
    cases hf : s.isFirst <;> cases hl : s.isLast <;>
      rcases c.snFieldLength_eq with h | h <;> simp [hf, hl, h] at hfit hlong hshort <;>
      first
      | omega
      | exact ⟨h, by omega, hf, hl, by omega⟩
  · next hroom =>
    have hsize : s.size - (computePduHeaderSize c { s with isLast := false } + s.size - size) =
        size - computePduHeaderSize c { s with isLast := false } := by omega
    refine .inr ⟨_, _, ?_, ?_, rfl⟩
    · refine ⟨rfl, rfl, rfl, rfl, rfl, rfl, ?_, ?_, ?_, rfl, rfl, rfl, rfl⟩
      all_goals
        simp only [Segment.stop, hsize]
        omega
    · simp only [hsize]
      have : computePduHeaderSize c { s with
          size := size - computePduHeaderSize c { s with isLast := false }, isLast := false } =
          computePduHeaderSize c { s with isLast := false } := rfl
      omega

def assignSn (e : Tx) (s : Segment) : Heap :=
  e.heap.modify s.sdu fun sdu => { sdu with sn := some e.txNext }

inductive Generates (c : Config) (size : Nat) (e : Tx) : Tx → List Byte → Prop
  | nothing (h : ∀ s rest, e.txList = s :: rest → size < computePduHeaderSize c s + 1) :
      Generates c size e e []
  | lost {s : Segment} {rest : List Segment} {heap : Heap} (hl : e.txList = s :: rest)
      (hs : Squeezed c s size) :
      Generates c size e { e with
        txList := rest
        txEnd := if rest = [] then none else e.txEnd
        heap := heap
        bstatusTxSize := e.bstatusTxSize - pduSize c s } []
  | sent {s s₁ : Segment} {l rest : List Segment} {heap : Heap} {pdu : List Byte}
      (hl : e.txList = s :: rest) (hfit : computePduHeaderSize c s + 1 ≤ size)
      (hcut : Cut c size s (e.assignSn s) s₁ l heap)
      (hpdu : serializeSdu c { e with heap := heap } s₁ size = some pdu) :
      Generates c size e { e with
        txNext := if !s₁.isFirst && s₁.isLast then (e.txNext + 1) % c.snModulus else e.txNext
        heap := (freeSduSegment heap s₁).1
        txList := l ++ rest
        txEnd := (if rest = [] then none else e.txEnd).or l.head?
        txSize := e.txSize - s₁.size
        bstatusTxSize := e.bstatusTxSize - pduSize c s + pduSizes c l } pdu

theorem Generates.squeezed (hg : Generates c size e e' pdu) (hl : e.txList = s :: rest)
    (hsq : Squeezed c s size) : pdu = [] ∧ e'.txList = rest := by
  cases hg with
  | nothing hsmall => exact absurd hsq.header_lt (hsmall s rest hl).not_ge
  | lost hl' =>
    rw [hl] at hl'
    cases hl'
    exact ⟨rfl, rfl⟩
  | sent hl' _ hcut =>
    rw [hl] at hl'
    cases hl'
    exact absurd hsq hcut.not_squeezed

theorem sendSegment_eq {s₁ : Segment} (h : e.sendSegment c s₁ size = some (e', pdu)) :
    serializeSdu c { e with heap := e.heap } s₁ size = some pdu ∧ e' = { e with
      txNext := if !s₁.isFirst && s₁.isLast then (e.txNext + 1) % c.snModulus else e.txNext
      heap := (freeSduSegment e.heap s₁).1
      txSize := e.txSize - s₁.size } := by
  obtain ⟨pdu', hser, heq⟩ := Option.map_eq_some_iff.mp h
  cases heq
  unfold nextSn at hser ⊢
  split at hser
  · next hlast => exact ⟨hser, by simp [hlast]⟩
  · next hlast => exact ⟨hser, by simp [hlast]⟩

theorem generateTxPdu_generates (h : e.generateTxPdu c size = some (e', pdu)) :
    Generates c size e e' pdu := by
  unfold generateTxPdu at h
  split at h
  · next hnil =>
    cases h
    exact .nothing fun s rest hl => by simp [hnil] at hl
  · next s rest hl =>
    split at h
    · next hsmall =>
      cases h
      refine .nothing fun s' rest' hl' => ?_
      rw [hl] at hl'
      cases hl'
      exact hsmall
    · next hfit =>
      dsimp only at h
      split at h
      · next hlong =>
        rcases resegment_cases (e.takeTx c s rest) (not_lt.mp hfit) hlong with
          ⟨hsq, heap, heq⟩ | ⟨s₁, s₂, hs, hsize, heq⟩
        · rw [heq] at h
          cases h
          exact .lost hl hsq
        · rw [heq] at h
          obtain ⟨hser, rfl⟩ := sendSegment_eq h
          have hcut : Cut c size s (e.assignSn s) s₁ [s₂] ((e.assignSn s).split s.sdu) :=
            .split hs hsize
          have := Generates.sent (e := e) hl (not_lt.mp hfit) hcut hser
          rw [pduSizes_cons, pduSizes_nil, add_zero] at this
          unfold putBack takeTx
          dsimp only
          cases hend : (if rest = [] then none else e.txEnd) with
          | none => rwa [hend] at this
          | some t => rwa [hend] at this
      · next hshort =>
        obtain ⟨hser, rfl⟩ := sendSegment_eq h
        have := Generates.sent (e := e) hl (not_lt.mp hfit) (.whole (by omega)) hser
        rw [List.nil_append, List.head?_nil, Option.or_none, pduSizes_nil, add_zero] at this
        exact this

theorem recvSdu_appends {sdu : List Byte} {sduId : Int} (hid : (e.txList.map Segment.id).Nodup)
    (h : e.recvSdu c sdu sduId = some e') :
    (e' = e ∧ e.txSize + sdu.length > e.txMaxsize) ∨
    (e.txSize + sdu.length ≤ e.txMaxsize ∧
      ∃ l₁ l₂, Appends e.txList e.txEnd (newSdu e.heap sdu sduId).2 l₁ l₂ ∧ e' = { e with
        heap := (newSdu e.heap sdu sduId).1
        txList := l₁ ++ [(newSdu e.heap sdu sduId).2]
        txEnd := some (newSdu e.heap sdu sduId).2
        txSize := e.txSize + sdu.length
        bstatusTxSize := e.bstatusTxSize + pduSize c (newSdu e.heap sdu sduId).2 }) := by
  unfold recvSdu at h
  split at h
  · cases h
  · split at h
    · next hfull =>
      cases h
      exact .inl ⟨rfl, hfull⟩
    · next hroom =>
      obtain ⟨⟨l, w⟩, hr, rfl⟩ := Option.map_eq_some_iff.mp h
      obtain ⟨l₁, l₂, happ, rfl, rfl⟩ := sduSegmentListAppend_appends hid hr
      exact .inr ⟨by omega, l₁, l₂, happ, rfl⟩

def discarded (e : Tx) (sduId : Int) : Option Segment :=
  (e.txList.find? (e.found sduId)).filter fun s => s.isFirst && s.isLast

theorem discardSdu_cases (c : Config) (e : Tx) (sduId : Int) :
    (e.discarded sduId = none ∧ e.discardSdu c sduId = e) ∨
    ∃ l₁ cur l₂, e.discarded sduId = some cur ∧ e.txList = l₁ ++ cur :: l₂ ∧
      e.discardSdu c sduId = { e with
        txList := l₁ ++ l₂
        txEnd := if e.txEnd.map Segment.id = some cur.id then l₁.getLast? else e.txEnd
        bstatusTxSize := e.bstatusTxSize - pduSize c cur
        heap := (freeSduSegment e.heap cur).1 } := by
  unfold discardSdu discarded
  split
  · next hfind => exact .inl ⟨by simp [hfind], rfl⟩
  · next cur hfind =>
    rw [hfind]
    split
    · next hpart =>
      refine .inl ⟨?_, rfl⟩
      cases hf : cur.isFirst <;> simp_all [Option.filter]
    · next hwhole =>
      obtain ⟨hcur, l₁, l₂, hl, hbefore⟩ := List.find?_eq_some_iff_append.mp hfind
      have hwhole : cur.isFirst ∧ cur.isLast := by simpa using hwhole
      refine .inr ⟨l₁, cur, l₂, by simp [Option.filter, hwhole], hl, ?_⟩
      rw [hl, List.takeWhile_append_of_pos hbefore, List.dropWhile_append_of_pos hbefore,
        List.takeWhile_cons, List.dropWhile_cons, hcur]
      simp

end Tx

end OpenAir.Rlc.Um

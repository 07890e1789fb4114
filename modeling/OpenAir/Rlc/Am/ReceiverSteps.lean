import OpenAir.Rlc.Am.MergeRounds
import OpenAir.Rlc.Am.Step
import OpenAir.Rlc.Am.TimerLaws
import OpenAir.Rlc.PduLaws

namespace OpenAir.Rlc.Am

open RxManager

variable {c : Config}

def Event.isRx : Event → Bool
  | .deliverSdu _ _ => true
  | .rxNextPassed _ => true
  | _ => false

def Event.TxOnly (evs : List Event) : Prop := ∀ ev ∈ evs, ev.isRx = false

theorem Event.TxOnly.nil : Event.TxOnly [] := by
  intro ev hev
  cases hev

theorem Event.TxOnly.append {evs evs' : List Event} (h : Event.TxOnly evs)
    (h' : Event.TxOnly evs') : Event.TxOnly (evs ++ evs') := by
  intro ev hev
  rcases List.mem_append.mp hev with hev | hev
  · exact h ev hev
  · exact h' ev hev

namespace Merge

variable {ackSn : Nat} {m : Merge}

theorem release_txOnly (h : Event.TxOnly m.events) (s : Segment) :
    Event.TxOnly (m.release s).events := by
  refine h.append ?_
  intro ev hev
  split at hev <;> simp at hev <;> rcases hev with rfl | rfl <;> rfl

theorem nackWait_txOnly (h : Event.TxOnly m.events) (s : Segment) (rest : List Segment) :
    Event.TxOnly (m.nackWait c s rest).events := by
  refine h.append ?_
  intro ev hev
  split at hev <;> simp at hev
  subst hev
  rfl

theorem txOnly_rule : RoundRule c ackSn fun _ m => Event.TxOnly m.events where
  round n ns m m' h hr := by
    cases hr with
    | nackWait hp ho => exact nackWait_txOnly h _ _
    | ackWait hp hn ha => exact release_txOnly (m := m.unlinkWait _ _) h _
    | ackRetx hp hn ha => exact release_txOnly (m := { m with curRetx := _, tx := _ }) h _
    | nackRetx | keepRest | keepWait | keepRetx => exact h
  done n ns m m' h hr := by
    cases hr with
    | afterWait | afterRetx => exact h
  exhausted n ns m m' h hr k := by
    cases hr with
    | exhausted | splice => exact h
  stopPoll ns m n h := by
    unfold Merge.stopPoll
    split <;> exact h

end Merge

theorem Tx.processControlPdu_txOnly (e : Tx) (buffer : List Byte) :
    Event.TxOnly (e.processControlPdu c buffer).2 := by
  unfold Tx.processControlPdu
  split
  · exact .nil
  · next ackSn ns _ =>
    have h₁ : Event.TxOnly ((e.mergeStart c ackSn).nacksLoop c ackSn ns).events :=
      Merge.txOnly_rule.nacksLoop (c := c) .nil
    obtain ⟨m, hm, htx, -⟩ := Merge.ackLoops_rule c ackSn
      (fun m s rest h _ _ => Merge.release_txOnly (m := m.unlinkWait s rest) h s)
      (fun m h _ => h)
      (fun m s rest h _ _ => Merge.release_txOnly (m := { m with curRetx := _, tx := _ }) h s) h₁
    rw [Tx.merge, hm]
    exact htx

theorem Tx.checkTPollRetransmit_txOnly {e e' : Tx} {now : UInt64} {evs : List Event}
    (h : e.checkTPollRetransmit c now = some (e', evs)) : Event.TxOnly evs := by
  unfold Tx.checkTPollRetransmit at h
  split at h
  · cases h
    exact .nil
  · dsimp only at h
    split at h
    · cases h
      exact .nil
    · split at h
      · cases h
      · cases h
        intro ev hev
        split at hev <;> simp at hev
        subst hev
        rfl

structure PduDecoded (c : Config) (pdu : Pdu) : Prop where
  sn : pdu.sn < c.snModulus
  so_lt : pdu.so < 2 ^ 16
  first : pdu.isFirst = true ↔ pdu.so = 0
  data : ∃ d, pdu.data = some d ∧ d.length = pdu.size

theorem decodeDataPdu_decoded {d : Decoder} {pdu : Pdu} (h : decodeDataPdu c d = some pdu) :
    PduDecoded c pdu := by
  obtain ⟨⟨si, d₁⟩, -, h⟩ := Option.bind_eq_some_iff.mp h
  obtain ⟨sn, so, data, rfl, hsn, hso, hfirst⟩ := of_decodeSegment h
  exact ⟨hsn, hso, hfirst, _, rfl, rfl⟩

def Rx.acceptedPdu (c : Config) (e : Rx) (buffer : List Byte) : Option Pdu := do
  let (dc, d) ← (Decoder.init buffer).getBits 1
  let (_, d) ← (if dc = 0 then none else d.getBits 1)
  let pdu ← decodeDataPdu c d
  (if e.accepts c pdu then some pdu else none)

theorem Rx.poll_eq (e : Rx) (p : Bool) :
    e.poll p = { e with statusTriggered := p || e.statusTriggered } := by
  cases p <;> rfl

theorem Entity.recvPdu_cases (c : Config) (e : Entity) (buffer : List Byte) :
    (e.rx.acceptedPdu c buffer = none ∧ ∃ tx evs triggered, Event.TxOnly evs ∧
      ∀ fuel, e.recvPdu c fuel buffer =
        some ({ e with tx, rx := { e.rx with statusTriggered := triggered } }, evs)) ∨
      ∃ pdu p, e.rx.acceptedPdu c buffer = some pdu ∧ PduDecoded c pdu ∧
        e.rx.accepts c pdu ∧
        ∀ fuel, e.recvPdu c fuel buffer = (e.rx.store c fuel e.tCurrent pdu).map fun r =>
          ({ e with rx := { r.1 with statusTriggered := p || r.1.statusTriggered } }, r.2) := by
  unfold Entity.recvPdu Rx.acceptedPdu Rx.recvDataPdu
  cases h₁ : (Decoder.init buffer).getBits 1 with
  | none => exact .inl ⟨rfl, e.tx, [], e.rx.statusTriggered, .nil, fun _ => rfl⟩
  | some r₁ =>
    obtain ⟨dc, d⟩ := r₁
    by_cases hdc : dc = 0
    · exact .inl ⟨by simp [hdc], (e.tx.processControlPdu c buffer).1,
        (e.tx.processControlPdu c buffer).2, e.rx.statusTriggered,
        e.tx.processControlPdu_txOnly buffer, fun _ => by simp [hdc]⟩
    · cases h₂ : d.getBits 1 with
      | none =>
        exact .inl ⟨by simp [hdc, h₂], e.tx, [], e.rx.statusTriggered, .nil,
          fun _ => by simp [hdc, h₂]⟩
      | some r₂ =>
        obtain ⟨p, d'⟩ := r₂
        cases h₃ : decodeDataPdu c d' with
        | none =>
          exact .inl ⟨by simp [hdc, h₂, h₃], e.tx, [], p = 1 || e.rx.statusTriggered, .nil,
            fun _ => by simp [hdc, h₂, h₃, Rx.poll_eq]⟩
        | some pdu =>
          cases ha : e.rx.accepts c pdu with
          | false =>
            exact .inl ⟨by simp [hdc, h₂, h₃, ha], e.tx, [], p = 1 || e.rx.statusTriggered, .nil,
              fun _ => by simp [hdc, h₂, h₃, ha, Rx.poll_eq]⟩
          | true =>
            refine .inr ⟨pdu, p = 1, by simp [hdc, h₂, h₃, ha], decodeDataPdu_decoded h₃, ha,
              fun fuel => ?_⟩
            simp [hdc, h₂, h₃, ha, Function.comp_def, Rx.poll_eq]

inductive Rx.Moves (c : Config) (e : Rx) : Op → List Event → Rx → Prop
  | keep (triggered : Bool) (prohibit : UInt64) (hev : Event.TxOnly evs) :
      Rx.Moves c e op evs
        { e with statusTriggered := triggered, tStatusProhibitStart := prohibit }
  | store (hpdu : e.acceptedPdu c buffer = some pdu) (hd : PduDecoded c pdu)
      (ha : e.accepts c pdu = true) (hs : e.store c fuel now pdu = some (e', evs))
      (triggered : Bool) :
      Rx.Moves c e (.recvPdu buffer) evs { e' with statusTriggered := triggered }
  | expire (hev : Event.TxOnly evs) (hc : e.checkTReassembly c fuel now = some e') :
      Rx.Moves c e (.setTime now) evs e'

namespace Rx

variable {e e' : Rx} {fuel size : Nat} {now : UInt64}

theorem generateStatus_keeps {pdu : List Byte}
    (h : e.generateStatus c fuel now size = some (e', pdu)) :
    ∃ triggered prohibit,
      e' = { e with statusTriggered := triggered, tStatusProhibitStart := prohibit } := by
  unfold generateStatus at h
  split at h
  · cases h
    exact ⟨_, _, rfl⟩
  · simp only [Option.bind_eq_bind, Option.bind_eq_some_iff, Option.pure_def, Prod.exists] at h
    obtain ⟨_, _, _, _, _, h⟩ := h
    cases h
    exact ⟨_, _, rfl⟩

end Rx

theorem Entity.generateDataPdu_rx {e e' : Entity} {size : Nat} {pdu : List Byte}
    (h : e.generateDataPdu c size = some (e', pdu)) : e'.rx = e.rx := by
  unfold generateDataPdu at h
  simp only [Option.bind_eq_bind, Option.bind_eq_some_iff, Option.pure_def, Prod.exists] at h
  obtain ⟨_, _, _, _, _, _, h⟩ := h
  cases h
  rfl

theorem exec_rx_moves {fuel : Nat} {e e' : Entity} {op : Op} {out : Output}
    (h : exec c fuel e op = .ok (e', out)) (hop : op.plain) :
    e.rx.Moves c op out.events e'.rx := by
  cases op with
  | reestablishment => cases hop
  | recvSdu sdu sduId =>
    rw [exec] at h
    split at h
    · cases h
    · cases h
      exact .keep _ _ .nil
  | generatePdu size =>
    rw [exec] at h
    split at h
    · cases h
    · next e₁ pdu hg =>
      cases h
      unfold Entity.generatePdu at hg
      split at hg
      · split at hg
        · cases hg
        · next rx pdu' hst =>
          obtain ⟨b, t, rfl⟩ := Rx.generateStatus_keeps hst
          split at hg
          · cases hg
            exact .keep _ _ .nil
          · rw [Entity.generateDataPdu_rx hg]
            exact .keep _ _ .nil
      · rw [Entity.generateDataPdu_rx hg]
        exact .keep _ _ .nil
  | recvPdu pdu =>
    rw [exec] at h
    split at h
    · cases h
    · next e₁ evs hg =>
      cases h
      rcases e.recvPdu_cases c pdu with
        ⟨-, tx, evs', b, hev, hret⟩ | ⟨pdu', p, hsome, hd, ha, hret⟩
      · rw [hret] at hg
        cases hg
        exact .keep _ _ hev
      · rw [hret] at hg
        obtain ⟨⟨rx, evs₁⟩, hr, heq⟩ := Option.map_eq_some_iff.mp hg
        cases heq
        exact .store hsome hd ha hr _
  | setTime now =>
    rw [exec] at h
    split at h
    · cases h
    · next e₁ evs hg =>
      cases h
      unfold Entity.setTime at hg
      split at hg
      · cases hg
      · next tx evs₁ htx =>
        split at hg
        · cases hg
        · next rx hrx =>
          cases hg
          exact .expire (Tx.checkTPollRetransmit_txOnly htx) hrx
  | discardSdu sduId =>
    cases h
    exact .keep _ _ .nil

end OpenAir.Rlc.Am

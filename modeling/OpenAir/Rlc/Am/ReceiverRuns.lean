import OpenAir.Rlc.Am.ReceiverSteps

namespace OpenAir.Rlc.Am

open Rx RxManager

variable {c : Config}

structure Rx.Tracks (c : Config) (e : Rx) (W : Window) : Prop where
  reads : e.Reads c W
  wf : W.Wf c
  timer : e.TimerWf c W

inductive Window.Moves (c : Config) (W : Window) :
    Option (Nat × Pdu) → List Event → Int → Window → Prop
  | same (hev : Event.TxOnly evs) : Window.Moves c W none evs 0 W
  | expire (hev : Event.TxOnly evs) (hle : W.status ≤ S) :
      Window.Moves c W none evs 0 { W with status := S }
  | store (hn₀ : W.next ≤ n) (hn₁ : n < W.next + c.windowSize) (hp : PduWf c.snModulus n pdu)
      (hnew : coveredBy (W.slots n) pdu.so pdu.size = false) (hs : (W.put n pdu).Settles c W') :
      Window.Moves c W (some (n, pdu))
        ((if W.completes n pdu then delivery (n % c.snModulus) (W.slotWith n pdu) else []) ++
          passes c W.next W'.next)
        (pdu.size - if W.completes n pdu then bytesOf (W.slotWith n pdu) else 0) W'

def Window.empty : Window := { next := 0, status := 0, highest := 0, slots := fun _ => [] }

theorem Window.empty_wf : Window.empty.Wf c where
  next_le := le_rfl
  status_le := le_rfl
  highest_le := Nat.zero_le _
  slot _ _ _ := .nil
  full _ _ _ := rfl
  stored _ _ _ h := absurd rfl h
  before_highest h := absurd h (Nat.lt_irrefl 0)
  before_status h := absurd h (Nat.lt_irrefl 0)
  next_open := rfl
  status_open _ := rfl

namespace Rx.Tracks

variable {e e' : Rx} {W : Window} {op : Op} {evs : List Event}

theorem of_empty (h : e.rx.Holds c.windowSize 0 fun _ => []) (hn : e.rxNext = 0)
    (hs : e.rxHighestStatus = 0) (hh : e.rxNextHighest = 0) (ht : e.tReassemblyStart = 0) :
    e.Tracks c Window.empty where
  reads := ⟨by simp [hn, Window.empty], by simp [hs, Window.empty], by simp [hh, Window.empty], h⟩
  wf := Window.empty_wf
  timer h0 := absurd ht h0

theorem setStatus (h : e.Tracks c W) (triggered : Bool) (prohibit : UInt64) :
    Rx.Tracks c { e with statusTriggered := triggered, tStatusProhibitStart := prohibit } W where
  reads := ⟨h.reads.rxNext, h.reads.highestStatus, h.reads.nextHighest, h.reads.holds⟩
  wf := h.wf
  timer h0 :=
    let ⟨T, hT⟩ := h.timer h0
    ⟨T, hT.reads, hT.next_lt, hT.le_highest, hT.before, hT.passed⟩

theorem accepted (h : e.Tracks c W) {pdu : Pdu} (hd : PduDecoded c pdu)
    (ha : e.accepts c pdu) :
    ∃ n, W.next ≤ n ∧ n < W.next + c.windowSize ∧ PduWf c.snModulus n pdu ∧
      coveredBy (W.slots n) pdu.so pdu.size = false := by
  simp only [Rx.accepts, Bool.and_eq_true, decide_eq_true_eq, Bool.not_eq_true'] at ha
  obtain ⟨⟨⟨hpos, -⟩, hwin⟩, hnew⟩ := ha
  obtain ⟨n, hn₀, hn₁, hsn⟩ := h.reads.lift_mem hd.sn hwin
  refine ⟨n, hn₀, hn₁, ⟨hsn, hpos, hd.so_lt, hd.first, hd.data⟩, ?_⟩
  rwa [Rx.segmentAlreadyReceived, hsn, h.reads.getPduFromSn hn₀ hn₁] at hnew

theorem moves (h : e.Tracks c W) (hm : e.Moves c op evs e') :
    ∃ stored δ W', W.Moves c stored evs δ W' ∧ e'.Tracks c W' ∧ e'.rxSize = e.rxSize + δ ∧
      e'.rxMaxsize = e.rxMaxsize ∧ ∀ n pdu, stored = some (n, pdu) →
        ∃ buffer, op = .recvPdu buffer ∧ e.acceptedPdu c buffer = some pdu := by
  cases hm with
  | keep b t hev =>
    exact ⟨none, 0, W, .same hev, h.setStatus b t, (Int.add_zero _).symm, rfl, nofun⟩
  | store hpdu hd ha hs b =>
    obtain ⟨n, hn₀, hn₁, hp, hnew⟩ := h.accepted hd ha
    obtain ⟨W', hr, ht, hset, rfl, hsize, hmax⟩ := h.reads.store h.wf h.timer hn₀ hn₁ hp hs
    have hW' := hset.wf (h.wf.toStores.put hn₀ hn₁ hp)
    refine ⟨_, _, W', .store hn₀ hn₁ hp hnew hset, setStatus ⟨hr, hW', ht⟩ b _, ?_, hmax, ?_⟩
    · rw [hsize]
      omega
    · rintro n' pdu' heq
      cases heq
      exact ⟨_, rfl, hpdu⟩
  | expire hev hc =>
    obtain ⟨S, hr, ht, hW, hle, hsize, hmax⟩ := h.reads.checkTReassembly h.wf h.timer hc
    exact ⟨none, 0, _, .expire hev hle, ⟨hr, hW, ht⟩, by rw [hsize, Int.add_zero], hmax, nofun⟩

end Rx.Tracks

theorem Entity.new_tracks : (Entity.new c).rx.Tracks c Window.empty := by
  refine .of_empty ?_ rfl rfl rfl rfl
  rw [Entity.new, c.two_pow_pred]
  exact .new _

theorem Entity.reestablishment_tracks {e : Entity} {W : Window} (h : e.rx.Tracks c W) :
    e.reestablishment.rx.Tracks c Window.empty := by
  refine .of_empty ⟨h.reads.holds.size, ?_, fun _ _ _ => rfl⟩ rfl rfl rfl rfl
  simp [Entity.reestablishment, RxManager.clear]

theorem Step.tracks {e e' : Entity} {l : Op × Output} {W : Window} (hs : Step c e l e')
    (h : e.rx.Tracks c W) : ∃ W', e'.rx.Tracks c W' := by
  obtain ⟨fuel, hs⟩ := hs
  obtain ⟨op, out⟩ := l
  cases hop : op.plain with
  | true =>
    obtain ⟨_, _, W', -, h', -⟩ := h.moves (exec_rx_moves hs hop)
    exact ⟨W', h'⟩
  | false =>
    cases op with
    | reestablishment =>
      cases hs
      exact ⟨_, Entity.reestablishment_tracks h⟩
    | _ => cases hop

theorem Reachable.tracks {e : Entity} (h : Reachable c e) : ∃ W, e.rx.Tracks c W := by
  obtain ⟨ls, h⟩ := h
  exact h.invariant (fun e => ∃ W, e.rx.Tracks c W) ⟨_, Entity.new_tracks⟩
    fun e l e' ⟨_, hW⟩ hs => hs.tracks hW

end OpenAir.Rlc.Am

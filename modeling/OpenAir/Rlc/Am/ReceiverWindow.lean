import OpenAir.Rlc.Am.ReceiverRuns

namespace OpenAir.Rlc.Am

open Rx RxManager List

variable {c : Config} {e e' : Rx} {W W' : Window} {evs evs' : List Event} {n x : Nat}

/-- SNs are read modulo base `rx_next`. -/
structure Rx.WindowInv (c : Config) (e : Rx) : Prop where
  status_le : e.snCompareRx c e.rxHighestStatus e.rxNextHighest ≤ 0
  highest_le : e.modulusRx c e.rxNextHighest ≤ c.windowSize
  slot : ∀ pos < e.rx.size, ∃! i, i < c.windowSize ∧
    e.rx.getPos ((e.rxNext + i) % c.snModulus) = pos ∧
    (∀ p ∈ e.rx.rxList pos, p.sn = (e.rxNext + i) % c.snModulus) ∧
    (e.rx.rxList pos).Pairwise (fun p q => p.so ≤ q.so) ∧
    (e.rx.rxList pos ≠ [] → i < e.modulusRx c e.rxNextHighest)
  next_open : e.sduDelivered e.rxNext = false
  status_open : e.snInRecvWindow c e.rxHighestStatus = true →
    e.sduDelivered e.rxHighestStatus = false

structure Rx.Forward (c : Config) (e e' : Rx) : Prop where
  next_le : e.modulusRx c e'.rxNext ≤ c.windowSize
  status_le : e.snCompareRx c e.rxHighestStatus e'.rxHighestStatus ≤ 0
  status_le_end : e.modulusRx c e'.rxHighestStatus ≤ c.windowSize

theorem Rx.Tracks.windowInv (h : e.Tracks c W) : e.WindowInv c := by
  have hw := c.windowSize_pos
  have hlt := c.windowSize_lt
  have h₁ := h.wf.next_le
  have h₂ := h.wf.status_le
  have h₃ := h.wf.highest_le
  have hhigh : e.modulusRx c e.rxNextHighest = W.highest - W.next := by
    rw [h.reads.nextHighest, h.reads.modulusRx (by omega) (by omega)]
  have hstart := h.reads.holds.snStart
  have hsize := h.reads.holds.size
  refine ⟨?_, ?_, ?_, ?_, ?_⟩
  · rw [h.reads.highestStatus, h.reads.nextHighest,
      h.reads.snCompareRx h₁ (by omega) (by omega) (by omega)]
    omega
  · rw [hhigh]
    omega
  · intro pos hpos
    rw [hsize] at hpos
    obtain ⟨n, hn₀, hn₁, hn⟩ := exists_getPos_eq hw hsize hstart hpos
    have hsn : ∀ i, (e.rxNext + i) % c.snModulus = (W.next + i) % (2 * c.windowSize) := by
      intro i
      rw [h.reads.rxNext, c.snModulus_eq, Nat.mod_add_mod]
    have hget : e.rx.rxList pos = W.slots n := by
      rw [← hn]
      exact h.reads.holds.get n hn₀ hn₁
    have hslot := h.wf.slot n hn₀ hn₁
    have hni : W.next + (n - W.next) = n := by omega
    refine ⟨n - W.next, ⟨by omega, ?_, ?_, ?_, ?_⟩, ?_⟩
    · rw [hsn, hni, hn]
    · intro p hp
      rw [hget] at hp
      rw [hsn, hni, hslot.sn p hp, c.snModulus_eq]
    · rw [hget]
      exact hslot.sorted
    · intro hne
      rw [hget] at hne
      have := h.wf.stored n hn₀ hn₁ hne
      rw [hhigh]
      omega
    · rintro i ⟨hi, hpi, -⟩
      rw [hsn, ← hn] at hpi
      have := getPos_inj hw hsize hstart (by omega) (by omega) hn₀ hn₁ hpi
      omega
  · rw [h.reads.rxNext, h.reads.sduDelivered le_rfl (by omega)]
    exact h.wf.next_open
  · rw [h.reads.highestStatus, h.reads.snInRecvWindow h₁ (by omega), decide_eq_true_eq]
    intro hin
    rw [h.reads.sduDelivered h₁ hin]
    exact h.wf.status_open hin

theorem Window.Moves.forward {stored : Option (Nat × Pdu)} {δ : Int}
    (hm : W.Moves c stored evs δ W') (hW : W.Wf c) (hW' : W'.Wf c) :
    W.next ≤ W'.next ∧ W.status ≤ W'.status ∧ W'.next ≤ W.next + c.windowSize ∧
      W'.status ≤ W.next + c.windowSize := by
  have h₂ := hW.status_le
  have h₃ := hW.highest_le
  cases hm with
  | same hev => exact ⟨le_rfl, le_rfl, by omega, by omega⟩
  | expire hev hle => exact ⟨le_rfl, hle, by dsimp only; omega, hW'.status_le.trans h₃⟩
  | store hn₀ hn₁ hp hnew hs => exact ⟨hs.next_le, hs.status_le, hs.next_le_end, hs.status_le_end⟩

theorem Rx.Tracks.forward (h : e.Tracks c W) (h' : e'.Tracks c W') {stored : Option (Nat × Pdu)}
    {δ : Int} (hm : W.Moves c stored evs δ W') : e.Forward c e' := by
  have hlt := c.windowSize_lt
  obtain ⟨h₁, h₂, h₃, h₄⟩ := hm.forward h.wf h'.wf
  have h₅ := h.wf.next_le
  refine ⟨?_, ?_, ?_⟩
  · rw [h'.reads.rxNext, h.reads.modulusRx h₁ (by omega)]
    omega
  · rw [h.reads.highestStatus, h'.reads.highestStatus,
      h.reads.snCompareRx h₅ (by omega) (by omega) (by omega)]
    omega
  · rw [h'.reads.highestStatus, h.reads.modulusRx (by omega) (by omega)]
    omega

def Fresh (x : Nat) (evs : List Event) : Prop :=
  ∀ pre sdu post, evs = pre ++ .deliverSdu x sdu :: post → .rxNextPassed x ∈ post

def OnceBetweenPassages (evs : List Event) : Prop :=
  ∀ pre x sdu mid sdu' post,
    evs = pre ++ .deliverSdu x sdu :: (mid ++ .deliverSdu x sdu' :: post) → .rxNextPassed x ∈ mid

theorem eq_of_append_eq {pre post : List Event} {sdu : List Byte}
    (hno : .deliverSdu x sdu ∉ evs') (heq : evs ++ evs' = pre ++ .deliverSdu x sdu :: post) :
    ∃ as, evs = pre ++ .deliverSdu x sdu :: as ∧ post = as ++ evs' := by
  rcases append_eq_append_iff.mp heq with ⟨as, rfl, has⟩ | ⟨as, rfl, has⟩
  · exact absurd (by rw [has]; simp) hno
  · cases as with
    | nil => exact absurd (by rw [← nil_append evs', ← has]; simp) hno
    | cons a as =>
      obtain ⟨rfl, rfl⟩ := List.cons.inj has
      exact ⟨as, rfl, rfl⟩

theorem Fresh.append (h : Fresh x evs) (hno : ∀ sdu, .deliverSdu x sdu ∉ evs') :
    Fresh x (evs ++ evs') := by
  intro pre sdu post heq
  obtain ⟨as, rfl, rfl⟩ := eq_of_append_eq (hno sdu) heq
  exact mem_append_left _ (h pre sdu as rfl)

theorem Fresh.of_passed (hp : .rxNextPassed x ∈ evs') (hno : ∀ sdu, .deliverSdu x sdu ∉ evs') :
    Fresh x (evs ++ evs') := by
  intro pre sdu post heq
  obtain ⟨as, rfl, rfl⟩ := eq_of_append_eq (hno sdu) heq
  exact mem_append_right _ hp

theorem OnceBetweenPassages.append (h : OnceBetweenPassages evs)
    (hno : ∀ x sdu, .deliverSdu x sdu ∉ evs') : OnceBetweenPassages (evs ++ evs') := by
  intro pre x sdu mid sdu' post heq
  rw [← cons_append, ← append_assoc] at heq
  obtain ⟨as, hev, -⟩ := eq_of_append_eq (hno x sdu') heq
  exact h pre x sdu mid sdu' as (by rw [hev]; simp)

theorem OnceBetweenPassages.deliver (h : OnceBetweenPassages evs) (hf : Fresh x evs)
    (sdu : List Byte) : OnceBetweenPassages (evs ++ [.deliverSdu x sdu]) := by
  intro pre y d mid d' post heq
  rw [← cons_append, ← append_assoc] at heq
  rcases eq_nil_or_concat post with rfl | ⟨post', z, rfl⟩
  · obtain ⟨hev, hlast⟩ := append_inj' heq rfl
    obtain ⟨rfl, rfl⟩ : x = y ∧ sdu = d' := by simpa using hlast
    exact hf pre d mid hev
  · rw [concat_eq_append, ← cons_append, ← append_assoc] at heq
    obtain ⟨hev, -⟩ := append_inj' heq rfl
    exact h pre y d mid d' post' (by rw [hev]; simp)

theorem mem_passes {R N : Nat} : .rxNextPassed x ∈ passes c R N ↔
    ∃ n, R ≤ n ∧ n < N ∧ n % c.snModulus = x := by
  simp only [passes, mem_map, mem_range, Event.rxNextPassed.injEq]
  constructor
  · rintro ⟨i, hi, rfl⟩
    exact ⟨R + i, by omega, by omega, rfl⟩
  · rintro ⟨n, h₀, h₁, rfl⟩
    exact ⟨n - R, by omega, by rw [show R + (n - R) = n by omega]⟩

theorem deliverSdu_notMem_passes {R N : Nat} (sdu : List Byte) :
    .deliverSdu x sdu ∉ passes c R N := by
  simp [passes]

structure Window.Delivered (c : Config) (W : Window) (evs : List Event) : Prop where
  once : OnceBetweenPassages evs
  fresh : ∀ x, (∀ n, W.next ≤ n → n < W.next + c.windowSize → n % c.snModulus = x →
    processed (W.slots n) = false) → Fresh x evs

theorem Event.TxOnly.deliverSdu_notMem (h : Event.TxOnly evs) (x : Nat) (sdu : List Byte) :
    .deliverSdu x sdu ∉ evs := by
  intro hev
  cases h _ hev

theorem delivery_eq (sn : Nat) (l : List Pdu) :
    delivery sn l = [] ∨ ∃ sdu, delivery sn l = [.deliverSdu sn sdu] := by
  unfold delivery
  split
  · exact .inl rfl
  · exact .inr ⟨_, rfl⟩

namespace Window.Delivered

theorem put (h : W.Delivered c evs) (hW : W.Wf c) {pdu : Pdu} (hn₀ : W.next ≤ n)
    (hn₁ : n < W.next + c.windowSize) (hp : PduWf c.snModulus n pdu) :
    (W.put n pdu).Delivered c (evs ++
      if W.completes n pdu then delivery (n % c.snModulus) (W.slotWith n pdu) else []) := by
  have hlt := c.windowSize_lt
  -- an SN that is not processed now was not processed before
  have hkeep : ∀ x, (∀ m, W.next ≤ m → m < W.next + c.windowSize → m % c.snModulus = x →
      processed ((W.put n pdu).slots m) = false) → Fresh x evs := by
    intro x hx
    refine h.fresh x fun m h₀ h₁ hm => ?_
    by_contra hpr
    have := hW.toStores.processed_put hn₀ hn₁ hp (by simpa using hpr)
    rw [hx m h₀ h₁ hm] at this
    cases this
  cases hc : W.completes n pdu with
  | false =>
    rw [if_neg (by simp), append_nil]
    exact ⟨h.once, hkeep⟩
  | true =>
    rw [if_pos rfl]
    rcases delivery_eq (n % c.snModulus) (W.slotWith n pdu) with hd | ⟨sdu, hd⟩
    · rw [hd, append_nil]
      exact ⟨h.once, hkeep⟩
    · rw [hd]
      refine ⟨h.once.deliver (h.fresh _ fun m h₀ h₁ hm => ?_) sdu, fun x hx => ?_⟩
      · obtain rfl := Cyclic.mod_injOn h₀ (by omega) hn₀ (by omega) hm
        rw [Window.completes, hW.toStores.processed_slotWith h₀ h₁ hp] at hc
        simp only [Bool.and_eq_true, Bool.not_eq_true'] at hc
        exact hc.1
      · refine (hkeep x hx).append fun sdu' hmem => ?_
        have hsn : n % c.snModulus = x := by simp at hmem; exact hmem.1.symm
        have := hx n hn₀ hn₁ hsn
        rw [hW.toStores.processed_put_self hn₀ hn₁ hp, hc, Bool.or_true] at this
        cases this

theorem settle (h : W.Delivered c evs) (hs : W.Settles c W') :
    W'.Delivered c (evs ++ passes c W.next W'.next) := by
  refine ⟨h.once.append fun x sdu => deliverSdu_notMem_passes sdu, fun x hx => ?_⟩
  by_cases hpass : .rxNextPassed x ∈ passes c W.next W'.next
  · exact .of_passed hpass deliverSdu_notMem_passes
  · refine (h.fresh x fun m h₀ h₁ hm => ?_).append deliverSdu_notMem_passes
    have hle : W'.next ≤ m := by
      by_contra hlt
      exact hpass (mem_passes.mpr ⟨m, h₀, by omega, hm⟩)
    have := hs.next_le
    rw [← hs.slots_eq hle h₁]
    exact hx m hle (by omega) hm

theorem moves (h : W.Delivered c evs) (hW : W.Wf c) {stored : Option (Nat × Pdu)} {δ : Int}
    (hm : W.Moves c stored evs' δ W') : W'.Delivered c (evs ++ evs') := by
  cases hm with
  | same hev =>
    exact ⟨h.once.append hev.deliverSdu_notMem, fun x hx =>
      (h.fresh x hx).append (hev.deliverSdu_notMem x)⟩
  | expire hev hle =>
    exact ⟨h.once.append hev.deliverSdu_notMem, fun x hx =>
      (h.fresh x hx).append (hev.deliverSdu_notMem x)⟩
  | store hn₀ hn₁ hp hnew hs =>
    rw [← append_assoc]
    exact (h.put hW hn₀ hn₁ hp).settle hs

end Window.Delivered

theorem Run.delivered {e : Entity} {ls : List (Op × Output)}
    (h : Run (fun s l t => Step c s l t ∧ l.1.plain) (Entity.new c) ls e) :
    ∃ W, e.rx.Tracks c W ∧ W.Delivered c (ls.flatMap fun l => l.2.events) := by
  refine h.trace_invariant
    (fun ls (e : Entity) => ∃ W, e.rx.Tracks c W ∧ W.Delivered c (ls.flatMap fun l => l.2.events))
    ⟨_, Entity.new_tracks, ?_, ?_⟩ ?_
  · intro pre x sdu mid sdu' post heq
    simp at heq
  · intro x _ pre sdu post heq
    simp at heq
  · rintro ls e l e' ⟨W, hW, hd⟩ ⟨⟨fuel, hs⟩, hop⟩
    obtain ⟨_, δ, W', hm, hW', -⟩ := hW.moves (exec_rx_moves hs hop)
    refine ⟨W', hW', ?_⟩
    rw [flatMap_append, flatMap_singleton]
    exact hd.moves hW.wf hm

/-- In every state of every run the receive window is well formed, every further call moves it
forward, and the calls of `deliver_sdu` for one SN are separated by passages of `rx_next`. -/
theorem receive_window_invariant {e : Entity} {ls : List (Op × Output)}
    (h : Run (fun s l t => Step c s l t ∧ l.1.plain = true) (Entity.new c) ls e) :
    e.rx.WindowInv c ∧
      (∀ l e', Step c e l e' → l.1.plain = true → e.rx.Forward c e'.rx) ∧
      OnceBetweenPassages (ls.flatMap fun l => l.2.events) := by
  obtain ⟨W, hW, hd⟩ := Run.delivered h
  refine ⟨hW.windowInv, ?_, hd.once⟩
  rintro l e' ⟨fuel, hs⟩ hop
  obtain ⟨_, δ, W', hm, hW', -⟩ := hW.moves (exec_rx_moves hs hop)
  exact hW.forward hW' hm

/-- The SDU of SN 1 arrives before that of SN 0, and again. -/
theorem receive_window_invariant_reordered :
    ∃ e ls, Run (fun s l t => Step .unitTest s l t ∧ l.1.plain = true) (Entity.new .unitTest) ls e ∧
      (ls.flatMap fun l => l.2.events) =
        [.deliverSdu 1 [8], .deliverSdu 0 [7], .rxNextPassed 0, .rxNextPassed 1] ∧
      e.rx.rxNext = 2 ∧ e.rx.WindowInv .unitTest ∧
      OnceBetweenPassages (ls.flatMap fun l => l.2.events) := by
  obtain ⟨e, ls, hall, hevents, hnext⟩ : ∃ e ls, execAll .unitTest 5 (fun _ op => op.plain)
      (Entity.new .unitTest) [.recvPdu [0x80, 0x01, 0x08], .recvPdu [0x80, 0x01, 0x08],
        .recvPdu [0x80, 0x00, 0x07], .recvPdu [0x80, 0x01, 0x08]] = some (e, ls) ∧
      (ls.flatMap fun l => l.2.events) =
        [.deliverSdu 1 [8], .deliverSdu 0 [7], .rxNextPassed 0, .rxNextPassed 1] ∧
      e.rx.rxNext = 2 := ⟨_, _, rfl, rfl, rfl⟩
  have h := receive_window_invariant (execAll_run hall)
  exact ⟨e, ls, execAll_run hall, hevents, hnext, h.1, h.2.2⟩

end OpenAir.Rlc.Am

import OpenAir.Rlc.Am.ReceiverRuns
import Mathlib.Algebra.BigOperators.Intervals

namespace OpenAir.Rlc.Am

open Rx RxManager Finset

variable {c : Config} {e e' : Rx} {W W' : Window} {evs : List Event} {n : Nat} {pdu : Pdu}

def heldIn (l : List Pdu) : Int := (l.map fun p => if p.data.isSome then (p.size : Int) else 0).sum

def Rx.heldBytes (e : Rx) : Int := ∑ pos ∈ range e.rx.size, heldIn (e.rx.rxList pos)

def Window.held (c : Config) (W : Window) : Int :=
  ∑ n ∈ Ico W.next (W.next + c.windowSize), heldIn (W.slots n)

theorem heldIn_insertPdu (q : Pdu) (l : List Pdu) :
    heldIn (insertPdu q l) = (if q.data.isSome then (q.size : Int) else 0) + heldIn l :=
  ((insertPdu_perm q l).map _).sum_eq.trans List.sum_cons

theorem heldIn_clear (l : List Pdu) : heldIn (l.map clearData) = 0 := by
  induction l with
  | nil => rfl
  | cons p l ih => simpa [heldIn, clearData] using ih

theorem heldIn_eq_bytesOf {l : List Pdu} (h : ∀ p ∈ l, p.data ≠ none) : heldIn l = bytesOf l := by
  induction l with
  | nil => rfl
  | cons p l ih =>
    have hp : p.data.isSome := Option.ne_none_iff_isSome.mp (h p (by simp))
    have := ih fun q hq => h q (by simp [hq])
    simpa [heldIn, bytesOf, hp] using this

theorem heldIn_eq_zero {l : List Pdu} (h : ∀ p ∈ l, p.data = none) : heldIn l = 0 := by
  induction l with
  | nil => rfl
  | cons p l ih =>
    have := ih fun q hq => h q (by simp [hq])
    simpa [heldIn, h p (by simp)] using this

theorem Rx.Reads.heldBytes (h : e.Reads c W) : e.heldBytes = W.held c := by
  have hw := c.windowSize_pos
  have hsize := h.holds.size
  have hstart := h.holds.snStart
  rw [Rx.heldBytes, Window.held, hsize]
  symm
  refine sum_nbij (fun n => e.rx.getPos (n % (2 * c.windowSize))) ?_ ?_ ?_ ?_
  · intro n _
    rw [mem_range, getPos, hsize]
    exact Nat.mod_lt _ hw
  · intro m hm n hn heq
    simp only [coe_Ico, Set.mem_Ico] at hm hn
    exact getPos_inj hw hsize hstart hm.1 hm.2 hn.1 hn.2 heq
  · intro pos hpos
    simp only [coe_range, Set.mem_Iio] at hpos
    obtain ⟨n, hn₀, hn₁, hn⟩ := exists_getPos_eq hw hsize hstart hpos
    exact ⟨n, by simpa using ⟨hn₀, hn₁⟩, hn⟩
  · intro n hn
    rw [mem_Ico] at hn
    rw [← h.holds.get n hn.1 hn.2]
    rfl

def Window.Clean (c : Config) (W : Window) : Prop :=
  ∀ n, W.next ≤ n → n < W.next + c.windowSize → processed (W.slots n) = true →
    ∀ p ∈ W.slots n, p.data = none

namespace Window

theorem held_put (hn₀ : W.next ≤ n) (hn₁ : n < W.next + c.windowSize) :
    (W.put n pdu).held c = W.held c - heldIn (W.slots n) + heldIn ((W.put n pdu).slots n) := by
  have hmem : n ∈ Ico W.next (W.next + c.windowSize) := mem_Ico.mpr ⟨hn₀, hn₁⟩
  have hrest : ∑ m ∈ (Ico W.next (W.next + c.windowSize)).erase n, heldIn ((W.put n pdu).slots m) =
      ∑ m ∈ (Ico W.next (W.next + c.windowSize)).erase n, heldIn (W.slots m) :=
    sum_congr rfl fun m hm => by rw [put_slots_of_ne (ne_of_mem_erase hm)]
  have h₁ := add_sum_erase _ (fun m => heldIn ((W.put n pdu).slots m)) hmem
  have h₂ := add_sum_erase _ (fun m => heldIn (W.slots m)) hmem
  rw [Window.held, Window.held, ← h₂]
  change ∑ m ∈ Ico W.next (W.next + c.windowSize), heldIn ((W.put n pdu).slots m) = _
  rw [← h₁, hrest]
  ring

theorem Stores.held_put (hW : W.Stores c) (hn₀ : W.next ≤ n) (hn₁ : n < W.next + c.windowSize)
    (hp : PduWf c.snModulus n pdu) (hopen : processed (W.slots n) = false) :
    (W.put n pdu).held c =
      W.held c + (pdu.size - if W.completes n pdu then bytesOf (W.slotWith n pdu) else 0) := by
  obtain ⟨d, hd, -⟩ := hp.data
  have hins : heldIn (W.slotWith n pdu) = pdu.size + heldIn (W.slots n) := by
    rw [slotWith, heldIn_insertPdu, hd]
    rfl
  have hslot : ∀ p ∈ W.slotWith n pdu, p.data ≠ none :=
    ((hW.slot n hn₀ hn₁).insertPdu (hW.full n hn₀ hn₁) hp).held
      ((hW.processed_slotWith hn₀ hn₁ hp).trans hopen)
  rw [Window.held_put hn₀ hn₁, put_slots_self]
  split
  · rw [heldIn_clear, ← heldIn_eq_bytesOf hslot, hins]
    ring
  · rw [hins]
    ring

theorem Stores.clean_put (hW : W.Stores c) (h : W.Clean c) (hn₀ : W.next ≤ n)
    (hn₁ : n < W.next + c.windowSize) (hp : PduWf c.snModulus n pdu)
    (hopen : processed (W.slots n) = false) : (W.put n pdu).Clean c := by
  intro m h₀ h₁ hpr
  by_cases hm : m = n
  · subst hm
    rw [hW.processed_put_self hn₀ hn₁ hp, hopen, Bool.false_or] at hpr
    rw [put_slots_self, if_pos hpr]
    intro p hp'
    obtain ⟨q, -, rfl⟩ := List.mem_map.mp hp'
    rfl
  · rw [put_slots_of_ne hm] at hpr ⊢
    exact h m h₀ h₁ hpr

theorem Settles.clean (hs : W.Settles c W') (h : W.Clean c) : W'.Clean c := by
  intro n h₀ h₁ hpr
  rw [hs.slots n h₀ h₁] at hpr ⊢
  split at hpr
  · next hn =>
    have := hs.next_le
    rw [if_pos hn]
    exact h n (by omega) hn hpr
  · cases hpr

theorem Settles.held (hs : W.Settles c W') (h : W.Clean c) : W'.held c = W.held c := by
  have h₁ := hs.next_le
  have h₂ := hs.next_le_end
  have hpassed : ∑ n ∈ Ico W.next W'.next, heldIn (W.slots n) = 0 := by
    refine sum_eq_zero fun n hn => ?_
    rw [mem_Ico] at hn
    exact heldIn_eq_zero (h n hn.1 (by omega) (hs.next_passed n hn.1 hn.2))
  have hnew :
      ∑ n ∈ Ico (W.next + c.windowSize) (W'.next + c.windowSize), heldIn (W'.slots n) = 0 := by
    refine sum_eq_zero fun n hn => ?_
    rw [mem_Ico] at hn
    rw [hs.slots n (by omega) hn.2, if_neg (by omega)]
    rfl
  have hkept : ∑ n ∈ Ico W'.next (W.next + c.windowSize), heldIn (W'.slots n) =
      ∑ n ∈ Ico W'.next (W.next + c.windowSize), heldIn (W.slots n) := by
    refine sum_congr rfl fun n hn => ?_
    rw [mem_Ico] at hn
    rw [hs.slots_eq hn.1 hn.2]
  rw [Window.held, Window.held, ← sum_Ico_consecutive _ h₂ (by omega), hnew, hkept, add_zero,
    ← sum_Ico_consecutive _ h₁ h₂, hpassed, zero_add]

end Window

def Entity.ReceivesOpen (c : Config) (e : Entity) : Op → Prop
  | .recvPdu buffer =>
    ∀ pdu, e.rx.acceptedPdu c buffer = some pdu → e.rx.sduDelivered pdu.sn = false
  | _ => True

structure Rx.Accounts (c : Config) (e : Rx) (W : Window) : Prop extends e.Tracks c W where
  clean : W.Clean c
  size : e.rxSize = W.held c

theorem Window.held_empty : Window.empty.held c = 0 := sum_eq_zero fun _ _ => rfl

theorem Window.clean_empty : Window.empty.Clean c := nofun

theorem Window.Moves.held {stored : Option (Nat × Pdu)} {δ : Int} (hm : W.Moves c stored evs δ W')
    (hW : W.Wf c) (h : W.Clean c)
    (hopen : ∀ n pdu, stored = some (n, pdu) → W.next ≤ n → n < W.next + c.windowSize →
      pdu.sn = n % c.snModulus → processed (W.slots n) = false) :
    W'.Clean c ∧ W'.held c = W.held c + δ := by
  cases hm with
  | same hev => exact ⟨h, (add_zero _).symm⟩
  | expire hev hle => exact ⟨h, (add_zero _).symm⟩
  | store hn₀ hn₁ hp hnew hs =>
    have hpr := hopen _ _ rfl hn₀ hn₁ hp.sn
    have hclean := hW.toStores.clean_put h hn₀ hn₁ hp hpr
    exact ⟨hs.clean hclean, by rw [hs.held hclean, hW.toStores.held_put hn₀ hn₁ hp hpr]⟩

theorem Step.accounts {e e' : Entity} {l : Op × Output} (h : e.rx.Accounts c W)
    (hs : Step c e l e') (hopen : e.ReceivesOpen c l.1) : ∃ W', e'.rx.Accounts c W' := by
  obtain ⟨fuel, hs⟩ := hs
  obtain ⟨op, out⟩ := l
  cases hop : op.plain with
  | true =>
    obtain ⟨stored, δ, W', hm, hW', hsize, -, hpdu⟩ := h.toTracks.moves (exec_rx_moves hs hop)
    obtain ⟨hclean, hheld⟩ := hm.held h.wf h.clean fun n pdu hst hn₀ hn₁ hsn => by
      obtain ⟨buffer, rfl, hacc⟩ := hpdu n pdu hst
      rw [← h.reads.sduDelivered hn₀ hn₁, ← hsn]
      exact hopen _ hacc
    exact ⟨W', hW', hclean, by rw [hsize, h.size, hheld]⟩
  | false =>
    cases op with
    | reestablishment =>
      cases hs
      exact ⟨_, Entity.reestablishment_tracks h.toTracks, Window.clean_empty,
        Window.held_empty.symm⟩
    | _ => cases hop

/-- As long as no PDU is stored for a delivered SDU, `rx_size` is the number of bytes held; it is 0
when nothing is held. -/
theorem rxSize_eq_heldBytes {e : Entity} (h : ReachableBy c (fun e op => e.ReceivesOpen c op) e) :
    e.rx.rxSize = e.rx.heldBytes ∧
      ((∀ pos < e.rx.rx.size, ∀ p ∈ e.rx.rx.rxList pos, p.data = none) → e.rx.rxSize = 0) := by
  obtain ⟨ls, h⟩ := h
  obtain ⟨W, hW⟩ := h.invariant (fun e => ∃ W, e.rx.Accounts c W)
    ⟨_, Entity.new_tracks, Window.clean_empty, Window.held_empty.symm⟩
    fun e l e' ⟨_, hW⟩ hs => Step.accounts hW hs.1 hs.2
  have hsize : e.rx.rxSize = e.rx.heldBytes := hW.size.trans hW.reads.heldBytes.symm
  refine ⟨hsize, fun hnone => hsize.trans ?_⟩
  exact sum_eq_zero fun pos hpos => heldIn_eq_zero (hnone pos (mem_range.mp hpos))

theorem rxSize_eq_heldBytes_segment :
    ∃ e, ReachableBy .unitTest (fun e op => e.ReceivesOpen .unitTest op) e ∧ e.rx.rxSize = 1 ∧
      e.rx.rxSize = e.rx.heldBytes := by
  obtain ⟨e, out, hs, hsize⟩ : ∃ e out, Step .unitTest (Entity.new .unitTest)
      (.recvPdu [0x90, 0x00, 0x07], out) e ∧ e.rx.rxSize = 1 := ⟨_, _, ⟨5, rfl⟩, rfl⟩
  have hr : ReachableBy .unitTest (fun e op => e.ReceivesOpen .unitTest op) e :=
    ⟨_, .snoc .nil ⟨hs, fun _ _ => rfl⟩⟩
  exact ⟨e, hr, hsize, (rxSize_eq_heldBytes hr).1⟩

/-- A segment behind the end of a delivered SDU is counted, and freed without being discounted. -/
theorem not_forall_rxSize_eq_heldBytes :
    ¬ ∀ (c : Config) (e : Entity), ReachableBy c (fun _ op => op.receives = true) e →
      e.rx.rxSize = e.rx.heldBytes := by
  intro hall
  have hobs : (execAll .unitTest 5 (fun _ op => op.receives) (Entity.new .unitTest)
      [.recvPdu [0x80, 0x01, 0x07], .recvPdu [0xa0, 0x01, 0x00, 0x05, 0x07],
        .recvPdu [0x80, 0x00, 0x07]]).map (fun r => (r.1.rx.rxSize, r.1.rx.heldBytes)) =
      some (1, 0) := by decide +kernel
  obtain ⟨⟨e, ls⟩, hrun, heq⟩ := Option.map_eq_some_iff.mp hobs
  obtain ⟨hsize, hheld⟩ := Prod.mk.inj heq
  have := hall .unitTest e ⟨ls, execAll_run hrun⟩
  rw [hsize, hheld] at this
  cases this

end OpenAir.Rlc.Am

import OpenAir.Rlc.Am.ReceiverRuns
import OpenAir.Rlc.Am.StatusReport

namespace OpenAir.Rlc.Am

def SnNack.Covers (n : SnNack) (sn b : Nat) : Prop :=
  n.sn = sn ∧ n.soStart ≤ b ∧ ∀ x, n.soEnd = some x → b ≤ x

theorem SnNack.Covers.wire {c : Config} {n : SnNack} {sn b : Nat} (h : n.Covers sn b) :
    (n.wire c).Covers (sn % c.snModulus) b :=
  ⟨congrArg (· % c.snModulus) h.1, (Nat.mod_le _ _).trans h.2.1, h.2.2⟩

theorem SnNack.Covers.toEnd {n : SnNack} {sn b : Nat} (h : n.Covers sn b) : n.toEnd.Covers sn b :=
  ⟨h.1, h.2.1, nofun⟩

def Window.Tells (W : Window) (rep : List SnNack) (m b : Nat) : Prop :=
  (∃ x ∈ rep, x.Covers m b) ∨ m < W.status ∧ Passed (W.slots m) b

def Window.Told (W : Window) (rep : List SnNack) (n b : Nat) : Prop :=
  ∀ m b', W.next ≤ m → (m < n ∨ m = n ∧ b' < b) → W.Tells rep m b'

variable {c : Config} {W : Window} {rep rep' : List SnNack} {n b a s z v m b' : Nat}
  {t : Option Nat}

theorem Window.Tells.append (h : W.Tells rep m b) : W.Tells (rep ++ rep') m b :=
  h.imp_left fun ⟨x, hx, hc⟩ => ⟨x, List.mem_append_left _ hx, hc⟩

theorem Window.Tells.toEnd (h : W.Tells rep m b) : W.Tells (rep.modifyLast SnNack.toEnd) m b := by
  refine h.imp_left fun ⟨x, hx, hc⟩ => ?_
  rcases mem_modifyLast hx with hx | hx
  · exact ⟨x, hx, hc⟩
  · exact ⟨x.toEnd, hx, hc.toEnd⟩

theorem spanNack_mem (h₀ : a ≤ m) (h₁ : m < v) : spanNack a s z t m ∈ spanNacks a s z t a v :=
  List.mem_map_of_mem (List.mem_range'_1.mpr (by omega))

theorem spanNack_covers (hs : m = a → s ≤ b) (ht : m = z → ∀ x, t = some x → b ≤ x) :
    (spanNack a s z t m).Covers m b := by
  refine ⟨rfl, ?_, fun x hx => ?_⟩
  · unfold spanNack
    dsimp only
    split
    · exact hs ‹_›
    · omega
  · unfold spanNack at hx
    dsimp only at hx
    split at hx
    · exact ht ‹_› x hx
    · cases hx

namespace Window.Told

variable (h : W.Told rep n b) (hg : W.Gap n b a s z t)
include h hg

theorem before (hm : W.next ≤ m) (hlt : m < a ∨ m = a ∧ b' < s) : W.Tells rep m b' := by
  have hstatus := hg.lt_status
  by_cases hbefore : m < n ∨ m = n ∧ b' < b
  · exact h m b' hm hbefore
  · exact .inr ⟨by omega, hg.passed m b' (by omega) (by omega) hlt⟩

theorem gap (hm : W.next ≤ m) (hv : m < v) (ht : m = z → ∀ x, t = some x → b' ≤ x) :
    W.Tells (rep ++ spanNacks a s z t a v) m b' := by
  by_cases hlt : m < a ∨ m = a ∧ b' < s
  · exact (h.before hg hm hlt).append
  · exact .inl ⟨_, List.mem_append_right _ (spanNack_mem (by omega) hv),
      spanNack_covers (by omega) ht⟩

theorem gap_toEnd (hm : W.next ≤ m) (hv : m < v) (hz : v ≤ z + 1) (ha : a < v) :
    W.Tells ((rep ++ spanNacks a s z t a v).modifyLast SnNack.toEnd) m b' := by
  by_cases hlast : m + 1 = v
  · by_cases hlt : m < a ∨ m = a ∧ b' < s
    · exact (h.before hg hm hlt).append.toEnd
    · have hsplit : spanNacks a s z t a v = spanNacks a s z t a m ++ [spanNack a s z t m] := by
        rw [← spanNacks_append (show a ≤ m by omega) hv.le]
        simp [spanNacks, show v - m = 1 by omega]
      rw [hsplit, ← List.append_assoc, List.modifyLast_concat]
      refine .inl ⟨(spanNack a s z t m).toEnd, by simp, rfl, ?_, fun _ h => by cases h⟩
      exact (spanNack_covers (z := m + 1) (t := none) (b := b') (by omega) (by omega)).2.1
  · exact (h.gap hg hm hv (by omega)).toEnd

end Window.Told

structure Window.ToldTo (c : Config) (W : Window) (rep : List SnNack) (k n b : Nat) : Prop where
  next_le : W.next ≤ n
  told : W.Told rep n b
  ack : ∃ A, (k + 1) % c.snModulus = A % c.snModulus ∧ W.next ≤ A ∧ A ≤ W.status ∧
    W.Told (rep.modifyLast SnNack.toEnd) A 0

def Window.ToldAck (c : Config) (W : Window) (_ : Bool) (rep : List SnNack) (k : Nat) : Prop :=
  ∃ A, (k + 1) % c.snModulus = A % c.snModulus ∧ W.next ≤ A ∧ A < W.next + c.snModulus ∧
    W.Told rep A 0

theorem succ_mod_congr {k k' M : Nat} (h : k % M = k' % M) : (k + 1) % M = (k' + 1) % M := by
  rw [← Cyclic.succ_mod, h, Cyclic.succ_mod]

theorem Window.Gap.start_le (hg : W.Gap n b a s z t) : n ≤ a := by
  have := hg.start
  omega

namespace Window.ToldTo

variable {k k' : Nat} {l : List Pdu} (h : W.ToldTo c rep k n b)
include h

theorem done (hW : W.Stores c) (hpassed : ∀ m b', n ≤ m → (m = n → b ≤ b') → m < W.status →
    Passed (W.slots m) b') : W.ToldAck c false rep k := by
  have hend := hW.status_le_end
  have hlt := c.windowSize_lt
  obtain ⟨A, hA, hA₀, hA₁, -⟩ := h.ack
  refine ⟨A, hA, hA₀, by omega, fun m b' hm hlt' => ?_⟩
  by_cases hbefore : m < n ∨ m = n ∧ b' < b
  · exact h.told m b' hm hbefore
  · exact .inr ⟨by omega, hpassed m b' (by omega) (by omega) (by omega)⟩

theorem next {n' b'' : Nat} (hg : W.Gap n b a s z t) (hk : k' % c.snModulus = z % c.snModulus)
    (hn : W.next ≤ n') (hpos : ∀ m b', m < n' ∨ m = n' ∧ b' < b'' →
      m < z + 1 ∧ (m = z → ∀ x, t = some x → b' ≤ x))
    (hA : ∃ A, (z + 1) % c.snModulus = A % c.snModulus ∧ W.next ≤ A ∧ A ≤ W.status ∧ A ≤ z + 1) :
    W.ToldTo c (rep ++ spanNacks a s z t a (z + 1)) k' n' b'' := by
  have hle := hg.le
  obtain ⟨A, hA, hA₀, hA₁, hA₂⟩ := hA
  refine ⟨hn, fun m b' hm hlt' => ?_, A, (succ_mod_congr hk).trans hA, hA₀, hA₁,
    fun m b' hm hlt' => h.told.gap_toEnd hg hm (by omega) le_rfl (by omega)⟩
  obtain ⟨hmz, ht⟩ := hpos m b' hlt'
  exact h.told.gap hg hm hmz ht

theorem cut (hW : W.Stores c) (hg : W.Gap n b a s z t) (hn : W.GapNext c z t l) (hv : v ≤ z)
    (hk : v = a ∧ k' = k ∨ a < v ∧ k' % c.snModulus = (v - 1) % c.snModulus) :
    W.ToldAck c true ((rep ++ spanNacks a s z t a v).modifyLast SnNack.toEnd) k' := by
  have hend := hW.status_le_end
  have hlt := c.windowSize_lt
  have hnext := h.next_le
  have hle := hg.start_le
  have hz : z ≤ W.next + c.snModulus := by
    cases hn with
    | finished hz => omega
    | first hp hso hz =>
      have := hp.le_status
      omega
    | inside hp hso hz => omega
    | around => omega
  rcases hk with ⟨rfl, rfl⟩ | ⟨hav, hk⟩
  · obtain ⟨A, hA, hA₀, hA₁, htold⟩ := h.ack
    exact ⟨A, hA, hA₀, by omega, by simpa using htold⟩
  · have hack : (k' + 1) % c.snModulus = v % c.snModulus := by
      rw [succ_mod_congr hk, Nat.sub_add_cancel (by omega)]
    by_cases hvM : v = W.next + c.snModulus
    · -- the whole circle is asked for, so that ACK_SN is `rx_next`
      exact ⟨W.next, by rw [hack, hvM, Nat.add_mod_right], le_rfl, by omega,
        fun m b' hm => by omega⟩
    · exact ⟨v, hack, by omega, by omega, fun m b' hm hlt' =>
        h.told.gap_toEnd hg hm (by omega) (by omega) hav⟩

end Window.ToldTo

theorem toldTo_invariant (hW : W.Stores c) : StatusInvariant c W (W.ToldTo c) (W.ToldAck c) where
  done h hpassed := h.done hW hpassed
  finished h hg hz _ hk := by
    have := h.next_le
    have := hg.start_le
    have := hg.lt_status
    have := hW.status_le_end
    have := c.windowSize_lt
    exact ⟨_, succ_mod_congr hk, by omega, by omega, fun m b' hm hlt' =>
      h.told.gap hg hm (by omega) nofun⟩
  first h hg hp _ hk :=
    h.next hg hk hp.next_le (fun m b' hm => ⟨by omega, nofun⟩)
      ⟨_, rfl, hp.next_le, hp.le_status, le_rfl⟩
  inside h hg hp hso hz hk := by
    have := hp.next_le
    refine h.next hg hk hp.next_le (fun m b' hm => ⟨by omega, fun hmz x hx => ?_⟩)
      ⟨_, rfl, by omega, by omega, le_rfl⟩
    cases hx
    omega
  around h hg hstatus _ hso hk := by
    have := c.windowSize_ge
    have := c.windowSize_lt
    exact h.next hg hk le_rfl (fun m b' hm => ⟨by omega, by omega⟩)
      ⟨W.next + 1, by rw [show W.next + c.snModulus + 1 = W.next + 1 + c.snModulus by omega,
        Nat.add_mod_right], by omega, by omega, by omega⟩
  cut h hg hn _ hv hk := h.cut hW hg hn hv hk

def Rx.ReceivedByte (e : Rx) (sn b : Nat) : Prop :=
  ∃ p ∈ e.rx.getPduFromSn sn, p.sn = sn ∧
    (p.so ≤ b ∧ b < p.so + p.size ∨ p.isLast = true ∧ p.so + p.size ≤ b)

theorem Rx.Reads.receivedByte {e : Rx} (h : e.Reads c W) (hW : W.Stores c) (h₀ : W.next ≤ n)
    (h₁ : n < W.next + c.windowSize) :
    e.ReceivedByte (n % c.snModulus) b ↔ Received (W.slots n) b := by
  have hwf := hW.slot n h₀ h₁
  rw [Rx.ReceivedByte, h.getPduFromSn h₀ h₁]
  constructor
  · rintro ⟨p, hp, -, hor⟩
    exact hor.imp (fun hb => ⟨p, hp, hb⟩) fun hb => ⟨p, hp, hb⟩
  · rintro (⟨p, hp, hb⟩ | ⟨p, hp, hb⟩)
    · exact ⟨p, hp, hwf.sn p hp, .inl hb⟩
    · exact ⟨p, hp, hwf.sn p hp, .inr hb⟩

/-- A STATUS PDU of any size, cut or not, asks for every byte before ACK_SN that has not been
received; and `generate_status` returns. -/
theorem generateStatus_sound {e : Entity} (h : Reachable c e) {size : Nat} (hsize : 3 ≤ size) :
    (∀ fuel now e' pdu, e.rx.generateStatus c fuel now size = some (e', pdu) →
      ∃ ackSn ns, decodeControl c pdu = some (ackSn, ns) ∧
        ∀ sn < c.snModulus, e.rx.modulusRx c sn < e.rx.modulusRx c ackSn → ∀ b,
          (∃ n ∈ ns.flatMap (Nack.sns c), n.Covers sn b) ∨ e.rx.ReceivedByte sn b) ∧
    ∃ N, ∀ fuel ≥ N, ∀ now, (e.rx.generateStatus c fuel now size).isSome = true := by
  obtain ⟨W, hW⟩ := h.tracks
  have hS := hW.wf.toStores
  have hend := hS.status_le_end
  refine ⟨fun fuel now e' pdu hr => ?_, _, fun fuel hfuel now =>
    hW.reads.isSome_generateStatus hS now hfuel⟩
  obtain ⟨cut, rep, k, ns, ⟨A, hA, hA₀, hA₁, htold⟩, hd, -⟩ :=
    hW.reads.generateStatus hS (toldTo_invariant hS) (fun k hk => ⟨le_rfl, fun m b' hm => by omega,
      W.next, hk, le_rfl, hS.next_le, fun m b' hm => by omega⟩) hsize hr
  refine ⟨_, ns, hd.decode, fun sn hsn hlt b => ?_⟩
  rw [hA, hW.reads.modulusRx hA₀ hA₁] at hlt
  -- the number behind `sn`
  obtain ⟨m, hm₀, hm₁, rfl⟩ : ∃ m, W.next ≤ m ∧ m < W.next + c.snModulus ∧ sn = m % c.snModulus :=
    ⟨_, Cyclic.le_lift _ _ _, Cyclic.lift_lt hsn, (Cyclic.lift_mod hsn).symm⟩
  rw [hW.reads.modulusRx hm₀ hm₁] at hlt
  rcases htold m b hm₀ (.inl (by omega)) with ⟨x, hx, hc⟩ | ⟨hms, hp⟩
  · refine .inl ⟨x.wire c, ?_, hc.wire⟩
    rw [hd.sns]
    exact List.mem_map_of_mem hx
  · exact .inr ((hW.reads.receivedByte hS hm₀ (by omega)).mpr hp.received)

theorem generateStatus_sound_nack :
    ∃ e e' pdu, Reachable .unitTest e ∧ e.rx.rxHighestStatus = 2 ∧
      e.rx.generateStatus .unitTest 50 100 5 = some (e', pdu) ∧
      pdu = [0x00, 0x01, 0x80, 0x00, 0x00] ∧
      ∃ ackSn ns, decodeControl .unitTest pdu = some (ackSn, ns) ∧
        ∀ sn < Config.unitTest.snModulus,
          e.rx.modulusRx .unitTest sn < e.rx.modulusRx .unitTest ackSn → ∀ b,
          (∃ n ∈ ns.flatMap (Nack.sns .unitTest), n.Covers sn b) ∨ e.rx.ReceivedByte sn b := by
  have hobs : (execAll .unitTest 5 (fun _ _ => true) (Entity.new .unitTest)
      [.setTime 1, .recvPdu [0x80, 0x01, 0x07], .setTime 100]).map
      (fun r => (r.1.rx.rxHighestStatus,
        (r.1.rx.generateStatus .unitTest 50 100 5).map (·.2))) =
      some (2, some [0x00, 0x01, 0x80, 0x00, 0x00]) := by decide
  obtain ⟨e, ls, hreach, heq⟩ := exists_reachable hobs
  simp only [Prod.mk.injEq] at heq
  obtain ⟨⟨e', pdu⟩, hr, hpdu⟩ := Option.map_eq_some_iff.mp heq.2
  exact ⟨e, e', pdu, hreach, heq.1, hr, hpdu,
    (generateStatus_sound hreach (by decide)).1 _ _ _ _ hr⟩

end OpenAir.Rlc.Am

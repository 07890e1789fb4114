import Mathlib.Algebra.Order.BigOperators.Group.Finset
import OpenAir.Rlc.Am.StatusMissing
import OpenAir.Rlc.Am.StatusWalk

namespace OpenAir.Rlc.Am

open List

variable {c : Config} {e : Rx} {W : Window} {rep : List SnNack}

@[simp] theorem SnNack.wire_toEnd (n : SnNack) : n.toEnd.wire c = (n.wire c).toEnd := rfl

theorem modifyLast_map {α β : Type*} {f : α → β} {g : α → α} {g' : β → β}
    (h : ∀ a, f (g a) = g' (f a)) (l : List α) :
    (l.map f).modifyLast g' = (l.modifyLast g).map f := by
  rcases eq_nil_or_concat l with rfl | ⟨l, a, rfl⟩
  · rfl
  · simp only [concat_eq_append, map_append, map_singleton, modifyLast_concat, h]

theorem mem_modifyLast {α : Type*} {f : α → α} {l : List α} {x : α} (h : x ∈ l) :
    x ∈ l.modifyLast f ∨ f x ∈ l.modifyLast f := by
  rcases eq_nil_or_concat l with rfl | ⟨l, y, rfl⟩
  · cases h
  · rw [concat_eq_append, mem_append, mem_singleton] at h
    rw [concat_eq_append, modifyLast_concat]
    rcases h with h | rfl
    · exact .inl (by simp [h])
    · exact .inr (by simp)

theorem length_modifyLast {α : Type*} {f : α → α} (l : List α) :
    (l.modifyLast f).length = l.length := by
  rcases eq_nil_or_concat l with rfl | ⟨l, a, rfl⟩
  · rfl
  · simp [modifyLast_concat]

theorem NackField.sns_patch {f : NackField} (h : 0 < f.toNack.range) :
    f.patch.sns c = (f.sns c).modifyLast SnNack.toEnd ∧ f.sns c ≠ [] := by
  obtain ⟨k, hk⟩ := Nat.exists_eq_succ_of_ne_zero h.ne'
  have hrange : f.patch.toNack.range = k.succ := hk
  have hstart : f.patch.toNack.soStart = f.toNack.soStart := by
    obtain ⟨sn, so, range⟩ := f
    cases so <;> rfl
  have hend : f.patch.toNack.soEnd = none := by
    obtain ⟨sn, so, range⟩ := f
    cases so <;> rfl
  have hsn : f.patch.toNack.nackSn = f.toNack.nackSn := rfl
  simp only [sns, Nack.sns, hk, hrange, hstart, hend, hsn, range_succ, map_append,
    map_singleton, modifyLast_concat, ne_eq, append_eq_nil_iff, cons_ne_self,
    and_false, not_false_eq_true, and_true]
  congr 1
  · refine map_congr_left fun i hi => ?_
    have hne : i ≠ k := (mem_range.mp hi).ne
    simp [hne]
  · simp [SnNack.toEnd]

namespace StatusEncoder

def Holds (c : Config) (w : StatusEncoder) (rep : List SnNack) : Prop :=
  ∃ ns, w.encoder.bits = statusBits c 0 ns ∧ (∀ f ∈ ns, f.Wf c ∧ 0 < f.toNack.range) ∧
    ns.flatMap (NackField.sns c) = rep.map (SnNack.wire c)

variable {w : StatusEncoder}

theorem Reports.holds (h : w.Reports c rep) : w.Holds c rep := by
  obtain ⟨ns, hw, hns, hrep⟩ := h
  exact ⟨ns, hw.bits, hns, hrep⟩

theorem Holds.byte_le (h : w.Holds c rep) : w.encoder.byte ≤ 3 + 8 * rep.length := by
  obtain ⟨ns, hw, hns, hrep⟩ := h
  have hbyte : w.encoder.byte = 3 + (ns.map (·.size c)).sum := by
    rw [Encoder.byte, hw, length_statusBits]
    omega
  have hsum : (ns.map (·.size c)).sum ≤ 8 * (ns.flatMap (NackField.sns c)).length := by
    clear hbyte hrep hw
    induction ns with
    | nil => simp
    | cons f ns ih =>
      have ih := ih fun g hg => hns g (by simp [hg])
      have hpos : 0 < (f.sns c).length := by
        simpa [NackField.sns, Nack.sns] using (hns f (by simp)).2
      have hsize : f.size c ≤ 8 := by
        unfold NackField.size
        split <;> split <;> split <;> omega
      rw [map_cons, sum_cons, flatMap_cons, length_append]
      omega
  rw [hrep, length_map] at hsum
  omega

theorem Reports.patchSoEnd {r : MissingLoop} (h : r.writer.Reports c rep)
    (ht : r.truncated) : (Rx.patchSoEnd r).Holds c (rep.modifyLast SnNack.toEnd) ∧
      (Rx.patchSoEnd r).encoder.size = r.writer.encoder.size := by
  obtain ⟨ns, hw, hns, hrep⟩ := h
  have hbits : (Rx.patchSoEnd r).encoder.bits = statusBits c 0 (ns.modifyLast NackField.patch) ∧
      (Rx.patchSoEnd r).encoder.size = r.writer.encoder.size := by
    unfold Rx.patchSoEnd
    rw [ht]
    cases ha : r.writer.soEndAddress with
    | none => exact ⟨by rw [hw.unpatched ha]; exact hw.bits, rfl⟩
    | some a => exact ⟨hw.patched a ha, rfl⟩
  refine ⟨⟨_, hbits.1, ?_, ?_⟩, hbits.2⟩
  · intro f hf
    rcases eq_nil_or_concat ns with rfl | ⟨ns, g, rfl⟩
    · cases hf
    · rw [concat_eq_append, modifyLast_concat, mem_append, mem_singleton] at hf
      rcases hf with hf | rfl
      · exact hns f (by simp [hf])
      · have hg := hns g (by simp)
        refine ⟨⟨hg.1.sn, fun s t hst => ?_, hg.1.range⟩, hg.2⟩
        obtain ⟨⟨s', t'⟩, hso, heq⟩ := Option.map_eq_some_iff.mp hst
        cases heq
        exact ⟨(hg.1.so _ _ hso).1, by decide⟩
  · rw [← modifyLast_map (fun n => SnNack.wire_toEnd n), ← hrep]
    rcases eq_nil_or_concat ns with rfl | ⟨ns, g, rfl⟩
    · rfl
    · have hg := NackField.sns_patch (c := c) (hns g (by simp)).2
      rw [concat_eq_append, modifyLast_concat, flatMap_append, flatMap_append,
        flatMap_singleton, flatMap_singleton, hg.1,
        modifyLast_append_of_right_ne_nil _ _ _ hg.2]

end StatusEncoder

inductive Window.Position (c : Config) (W : Window) : List Pdu → Bool → Nat → Nat → Prop
  | head (h : W.Follows c W.next l) : Position c W l true W.next 0
  | behind (h : W.Points c n p l) : Position c W (p :: l) false n p.so

theorem Window.Position.around {p : Pdu} {l : List Pdu} (hstatus : W.status = W.next + c.windowSize)
    (hslot : W.slots W.next = p :: l) : W.Position c (p :: l) false W.next p.so := by
  have := c.windowSize_pos
  exact .behind ⟨le_rfl, by omega, by omega, [], hslot, by simp⟩

theorem Rx.Reads.missing_of_position {fuel n b : Nat} {p : Pdu} {l : List Pdu} {checkHead : Bool}
    {r : Option MissingData} (h : e.Reads c W) (hW : W.Stores c)
    (hpos : W.Position c (p :: l) checkHead n b)
    (hr : e.nextMissing c fuel p l checkHead = some r) : W.Missing c n b r := by
  cases hpos with
  | head hfol => exact h.nextMissing_head hW hfol hr
  | behind hp => exact h.nextMissing hW hp hr

theorem Generates.whole {w : StatusEncoder} {a s z u v : Nat} {t last : Option Nat}
    {r : MissingLoop} (h : Generates c w rep a s z t u last r v) (hr : r.truncated = false) :
    v = z + 1 ∧ Rx.patchSoEnd r = r.writer := by
  have hv := h.truncated
  rw [hr, eq_comm, decide_eq_false_iff_not] at hv
  have hle := h.le_end
  refine ⟨by omega, ?_⟩
  unfold Rx.patchSoEnd
  rw [hr]

/-- `I` is about the NACKs so far, `last_nack` and the position, `F` about all NACKs, with a flag
that tells whether the list had to be cut. -/
structure StatusInvariant (c : Config) (W : Window) (I : List SnNack → Nat → Nat → Nat → Prop)
    (F : Bool → List SnNack → Nat → Prop) : Prop where
  done : I r k n b → (∀ m b', n ≤ m → (m = n → b ≤ b') → m < W.status → Passed (W.slots m) b') →
    F false r k
  finished : I r k n b → W.Gap n b a s z none → z + 1 = W.status →
    (W.status = W.next + c.windowSize → ∀ p l, W.slots W.next = p :: l → p.isFirst = true) →
    k' % c.snModulus = z % c.snModulus → F false (r ++ spanNacks a s z none a (z + 1)) k'
  first : I r k n b → W.Gap n b a s z none → W.Points c (z + 1) p l → p.so = 0 →
    k' % c.snModulus = z % c.snModulus → I (r ++ spanNacks a s z none a (z + 1)) k' (z + 1) 0
  inside : I r k n b → W.Gap n b a s z (some (p.so - 1)) → W.Points c z p l → 0 < p.so →
    z < W.status → k' % c.snModulus = z % c.snModulus →
    I (r ++ spanNacks a s z (some (p.so - 1)) a (z + 1)) k' z p.so
  around : I r k n b → W.Gap n b a s (W.next + c.snModulus) (some (p.so - 1)) →
    W.status = W.next + c.windowSize → W.slots W.next = p :: l → 0 < p.so →
    k' % c.snModulus = (W.next + c.snModulus) % c.snModulus →
    I (r ++ spanNacks a s (W.next + c.snModulus) (some (p.so - 1)) a (W.next + c.snModulus + 1))
      k' W.next p.so
  cut : I r k n b → W.Gap n b a s z t → W.GapNext c z t l → a ≤ v → v ≤ z →
    (v = a ∧ k' = k ∨ a < v ∧ k' % c.snModulus = (v - 1) % c.snModulus) →
    F true ((r ++ spanNacks a s z t a v).modifyLast SnNack.toEnd) k'

theorem Window.GapNext.soEnd_lt {z : Nat} {t : Option Nat} {l : List Pdu} (hW : W.Stores c)
    (h : W.GapNext c z t l) : ∀ x, t = some x → x < 0xffff := by
  have hpos := c.windowSize_pos
  intro x hx
  cases h with
  | finished => cases hx
  | first => cases hx
  | @inside z p l hp hso =>
    cases hx
    obtain ⟨pre, hslot, -⟩ := hp.slot
    have := (hW.slot z hp.next_le hp.lt_end).so_lt p (by rw [hslot]; simp)
    omega
  | @around p l hstatus hslot hso =>
    cases hx
    have := (hW.slot W.next le_rfl (by omega)).so_lt p (by rw [hslot]; simp)
    omega

theorem Rx.Reads.statusLoop (h : e.Reads c W) (hW : W.Stores c)
    {I : List SnNack → Nat → Nat → Nat → Prop} {F : Bool → List SnNack → Nat → Prop}
    (hI : StatusInvariant c W I F) {fuel n b k k' : Nat} {l : List Pdu} {checkHead : Bool}
    {w w' : StatusEncoder} (hpos : W.Position c l checkHead n b) (hi : I rep k n b)
    (hw : w.Reports c rep) (hr : e.statusLoop c fuel l checkHead w k = some (w', k')) :
    ∃ cut rep', w'.Holds c rep' ∧ F cut rep' k' ∧
      (cut → w.encoder.size < 11 + 8 * rep'.length) := by
  induction fuel generalizing rep n b k l checkHead w with
  | zero => cases hr
  | succ fuel ih =>
    cases l with
    | nil =>
      cases hr
      refine ⟨false, rep, hw.holds, hI.done hi fun m b' hm _ hms => ?_, nofun⟩
      cases hpos with
      | head hfol =>
        cases hfol with
        | nothing hempty _ =>
          exact absurd (hempty _ (by omega) (by omega)) (hW.before_status (by omega))
    | cons cur rest =>
      rw [Rx.statusLoop] at hr
      split at hr
      · cases hr
      · next hnone =>
        cases hr
        cases h.missing_of_position hW hpos hnone with
        | none hpassed => exact ⟨false, rep, hw.holds, hI.done hi hpassed, nofun⟩
      · next m hsome =>
        cases h.missing_of_position hW hpos hsome with
        | @gap a s z t l' hg hz hn =>
          obtain ⟨r, v, hgen, hr'⟩ :=
            hw.generateMissing (s := s) (l := l') hg.le hz (hn.soEnd_lt hW)
          rw [hgen] at hr
          have hlast : v = a ∧ r.lastNack.getD k = k ∨
              a < v ∧ r.lastNack.getD k % c.snModulus = (v - 1) % c.snModulus := by
            rcases hr'.lastNack with ⟨hl, hv⟩ | ⟨x, hl, hx, hv⟩
            · exact .inl ⟨hv, by rw [hl]; rfl⟩
            · exact .inr ⟨hv, by rw [hl]; exact hx⟩
          cases hcut : r.truncated with
          | true =>
            obtain ⟨hholds, -⟩ := hr'.reports.patchSoEnd hcut
            have hv : v < z + 1 := by
              have := hr'.truncated
              rw [hcut] at this
              simpa using this.symm
            simp only [hcut, if_true] at hr
            cases fuel with
            | zero => cases hr
            | succ fuel =>
              cases hr
              refine ⟨true, _, hholds, hI.cut hi hg hn hr'.le (by omega) hlast, fun _ => ?_⟩
              have hfull := hr'.full hcut
              have hbyte := hr'.reports.holds.byte_le
              rw [length_modifyLast]
              omega
          | false =>
            obtain ⟨rfl, hpatch⟩ := hr'.whole hcut
            have hle := hg.le
            have hk : r.lastNack.getD k % c.snModulus = z % c.snModulus := by
              rcases hlast with ⟨hz', -⟩ | ⟨-, hk⟩
              · omega
              · simpa using hk
            simp only [hcut, Bool.false_eq_true, if_false, hpatch] at hr
            have hreports := hr'.reports
            rw [← hr'.size]
            cases hn with
            | finished hstatus hend =>
              cases fuel with
              | zero => cases hr
              | succ fuel =>
                cases hr
                exact ⟨false, _, hreports.holds, hI.finished hi hg hstatus hend hk, nofun⟩
            | first hp hso hz' =>
              subst hz'
              have := hI.first hi hg hp hso hk
              rw [← hso] at this
              exact ih (.behind hp) this hreports hr
            | inside hp hso hz' => exact ih (.behind hp) (hI.inside hi hg hp hso hz' hk) hreports hr
            | around hstatus hslot hso =>
              exact ih (.around hstatus hslot) (hI.around hi hg hstatus hslot hso hk) hreports hr

section

variable (h : e.Reads c W) (hW : W.Stores c)
include h hW

theorem Rx.Reads.isSome_nextMissing {fuel n b : Nat} {p : Pdu} {l : List Pdu} {checkHead : Bool}
    (hpos : W.Position c (p :: l) checkHead n b)
    (hfuel : ∑ j ∈ Finset.Ico W.next (W.next + c.windowSize), (W.slots j).length ≤ fuel) :
    (e.nextMissing c fuel p l checkHead).isSome := by
  obtain ⟨m, hp⟩ : ∃ m, W.Points c m p l := by
    cases hpos with
    | behind hp => exact ⟨_, hp⟩
    | head hfol =>
      cases hfol with
      | slot _ _ hp => exact ⟨_, hp⟩
      | around hstatus hk =>
        have := c.windowSize_pos
        omega
  unfold Rx.nextMissing
  split
  · split <;> rfl
  · obtain ⟨pre, hslot, -⟩ := hp.slot
    refine h.isSome_nextPdu hW hp.next_le hp.lt_end hp.le_status hslot ?_
    have hsub : ∑ j ∈ Finset.Ico m (W.next + c.windowSize), (W.slots j).length ≤
        ∑ j ∈ Finset.Ico W.next (W.next + c.windowSize), (W.slots j).length :=
      Finset.sum_le_sum_of_subset (Finset.Ico_subset_Ico_left hp.next_le)
    rw [Finset.sum_eq_sum_Ico_succ_bot hp.lt_end, hslot, length_append, length_cons] at hsub
    omega

theorem Rx.Reads.isSome_statusLoop {fuel n b k : Nat} {l : List Pdu} {checkHead : Bool}
    {w : StatusEncoder} (hpos : W.Position c l checkHead n b) (hw : w.Reports c rep)
    (hfit : w.encoder.byte ≤ w.encoder.size)
    (hfuel : ∑ j ∈ Finset.Ico W.next (W.next + c.windowSize), (W.slots j).length +
      (w.encoder.size - w.encoder.byte) + 2 ≤ fuel) :
    (e.statusLoop c fuel l checkHead w k).isSome := by
  induction fuel generalizing rep n b k l checkHead w with
  | zero => omega
  | succ fuel ih =>
    cases l with
    | nil => rfl
    | cons cur rest =>
      rw [Rx.statusLoop]
      have hsome : (e.nextMissing c fuel cur rest checkHead).isSome :=
        h.isSome_nextMissing hW hpos (by omega)
      obtain ⟨r, hr⟩ := Option.isSome_iff_exists.mp hsome
      rw [hr]
      cases h.missing_of_position hW hpos hr with
      | none => rfl
      | @gap a s z t l' hg hz hn =>
        obtain ⟨r, v, hgen, hr'⟩ := hw.generateMissing (s := s) (l := l') hg.le hz (hn.soEnd_lt hW)
        obtain ⟨fuel, rfl⟩ := Nat.exists_eq_succ_of_ne_zero (show fuel ≠ 0 by omega)
        simp only [hgen]
        cases hcut : r.truncated with
        | true => rfl
        | false =>
          obtain ⟨hv, hpatch⟩ := hr'.whole hcut
          have hle := hg.le
          have hsize := hr'.size
          have hbyte := hr'.byte
          have hfits := hr'.fits hfit
          simp only [Bool.false_eq_true, if_false, hpatch]
          cases hn with
          | finished => rfl
          | first hp => exact ih (.behind hp) hr'.reports (by omega) (by omega)
          | inside hp => exact ih (.behind hp) hr'.reports (by omega) (by omega)
          | around hstatus hslot =>
            exact ih (.around hstatus hslot) hr'.reports (by omega) (by omega)

structure Decodes (c : Config) (pdu : List Byte) (ackSn : Nat) (ns : List Nack)
    (rep : List SnNack) : Prop where
  decode : decodeControl c pdu = some (ackSn, ns)
  ack_lt : ackSn < c.snModulus
  sns : ns.flatMap (Nack.sns c) = rep.map (SnNack.wire c)

omit h hW in
theorem StatusEncoder.Holds.decodes {w : StatusEncoder} (hw : w.Holds c rep) (k : Nat) :
    ∃ ns, Decodes c (Rx.putAck c ((k + 1) % c.snModulus) w.encoder).bytes ((k + 1) % c.snModulus)
      ns rep := by
  obtain ⟨ns, hbits, hns, hrep⟩ := hw
  have hack := Nat.mod_lt (k + 1) c.snModulus_pos
  refine ⟨ns.map NackField.toNack, ?_, hack, ?_⟩
  · rw [Encoder.bytes, putAck_bits hbits hack]
    exact decodeControl_statusPdu hack fun f hf => (hns f hf).1
  · rw [flatMap_map, ← hrep]
    rfl

theorem Rx.Reads.generateStatus {I : List SnNack → Nat → Nat → Nat → Prop}
    {F : Bool → List SnNack → Nat → Prop} (hI : StatusInvariant c W I F)
    (hi : ∀ k, (k + 1) % c.snModulus = W.next % c.snModulus → I [] k W.next 0)
    {fuel size : Nat} {now : UInt64} {e' : Rx} {pdu : List Byte} (hsize : 3 ≤ size)
    (hr : e.generateStatus c fuel now size = some (e', pdu)) :
    ∃ cut rep k ns, F cut rep k ∧ Decodes c pdu ((k + 1) % c.snModulus) ns rep ∧
      (cut → size < 11 + 8 * rep.length) := by
  have hM := c.snModulus_pos
  rw [Rx.generateStatus, if_neg (by omega),
    Encoder.putBits_eq _ _ (by simp [Encoder.init]; omega)] at hr
  simp only [Option.bind_eq_bind, Option.bind_some] at hr
  obtain ⟨⟨w, k⟩, hloop, hret⟩ := Option.bind_eq_some_iff.mp hr
  cases hret
  have hfirst : ((e.rxNext + c.snModulus - 1) % c.snModulus + 1) % c.snModulus =
      W.next % c.snModulus := by
    rw [Nat.mod_add_mod, h.rxNext, Nat.sub_add_cancel (by omega), Nat.add_mod_right, Nat.mod_mod]
  obtain ⟨cut, rep, hholds, hF, hcut⟩ := h.statusLoop hW hI (.head (h.getFirstRxPdu hW))
    (hi _ hfirst) ⟨[], StatusEncoder.writes_nil _, nofun, rfl⟩ hloop
  obtain ⟨ns, hd⟩ := hholds.decodes k
  exact ⟨cut, rep, k, ns, hF, hd, hcut⟩

theorem Rx.Reads.isSome_generateStatus {fuel size : Nat} (now : UInt64)
    (hfuel : ∑ j ∈ Finset.Ico W.next (W.next + c.windowSize), (W.slots j).length + size + 2 ≤
      fuel) :
    (e.generateStatus c fuel now size).isSome := by
  rw [Rx.generateStatus]
  split
  · rfl
  · next hsize =>
    rw [Encoder.putBits_eq _ _ (by simp [Encoder.init]; omega)]
    simp only [Option.bind_eq_bind, Option.bind_some]
    have hreports :
        (⟨⟨Bits.ofNat (8 * 3) 0, size⟩, 2, if c.snFieldLength = 18 then 1 else 7, none⟩ :
        StatusEncoder).Reports c [] := ⟨[], StatusEncoder.writes_nil size, nofun, rfl⟩
    have hsome : (e.statusLoop c fuel (e.getFirstRxPdu c) true
        ⟨⟨Bits.ofNat (8 * 3) 0, size⟩, 2, if c.snFieldLength = 18 then 1 else 7, none⟩
        ((e.rxNext + c.snModulus - 1) % c.snModulus)).isSome :=
      h.isSome_statusLoop hW (.head (h.getFirstRxPdu hW)) hreports
        (by simp [Encoder.byte]; omega) (by simp only; omega)
    obtain ⟨⟨w, k⟩, hloop⟩ := Option.isSome_iff_exists.mp hsome
    simp only [Encoder.init, nil_append]
    rw [hloop]
    rfl

end

end OpenAir.Rlc.Am

import OpenAir.Rlc.Am.StatusSound

namespace OpenAir.Rlc.Am

open List

variable {c : Config} {e : Rx} {w : StatusEncoder} {ns : List NackField} {maxsize : Nat}

theorem NackBlock.countedSize_eq (n : NackBlock) : n.countedSize c = n.size c := by
  unfold countedSize size
  rcases c.snFieldLength_eq with h | h <;> rw [h] <;> cases n.hasSo <;> cases n.hasRange <;> rfl

structure StatusEncoder.Fits (c : Config) (maxsize : Nat) (w : StatusEncoder) : Prop where
  writes : ∃ ns, w.Writes c ns
  size : w.encoder.size = maxsize
  byte_le : w.encoder.byte ≤ maxsize

theorem generateMissingLoop_eq {m : MissingData} {fuel snCount snStart : Nat} {s : MissingLoop}
    {t : SizeLoop} (hs : s.writer.Fits c maxsize) (hbyte : s.writer.encoder.byte = t.size)
    (htrunc : s.truncated = t.truncated) :
    ∃ s', generateMissingLoop c m fuel snCount snStart s = some s' ∧ s'.writer.Fits c maxsize ∧
      s'.writer.encoder.byte = (missingSizeLoop c maxsize m fuel snCount snStart t).size ∧
      s'.truncated = (missingSizeLoop c maxsize m fuel snCount snStart t).truncated := by
  induction fuel generalizing snCount snStart s t with
  | zero => exact ⟨s, rfl, hs, hbyte, htrunc⟩
  | succ fuel ih =>
    rw [generateMissingLoop, missingSizeLoop]
    split
    · exact ⟨s, rfl, hs, hbyte, htrunc⟩
    · dsimp only
      generalize (⟨snStart, if snStart = m.snStart then m.soStart else 0, _, _⟩ : NackBlock) = n
      rw [hs.size, hbyte]
      split
      · exact ⟨_, rfl, hs, hbyte, rfl⟩
      · next hfit =>
        obtain ⟨ns, hns⟩ := hs.writes
        obtain ⟨w, hput, hw, hsize⟩ :=
          hns.putNack (m := n) (min snCount 255) (by rw [hs.size, hbyte]; omega)
        have hbyte' := hw.byte
        rw [map_append, sum_append, map_singleton, sum_singleton,
          NackBlock.size_field, ← Nat.add_assoc, ← hns.byte, hbyte] at hbyte'
        rw [hput]
        refine ih ⟨⟨_, hw⟩, hsize.trans hs.size, ?_⟩ ?_ htrunc
        · change w.encoder.byte ≤ maxsize
          omega
        · exact hbyte'.trans (by rw [NackBlock.countedSize_eq])

theorem missingSizeLoop_succ (c : Config) (maxsize : Nat) (m : MissingData) (fuel snStart : Nat)
    (t : SizeLoop) {snCount : Nat} (h : snCount ≠ 0) :
    ∃ n : NackBlock, missingSizeLoop c maxsize m (fuel + 1) snCount snStart t =
      if t.size + n.size c > maxsize then { t with truncated := true }
      else missingSizeLoop c maxsize m fuel (snCount - min snCount 255)
        ((snStart + min snCount 255) % c.snModulus)
        { t with size := t.size + n.countedSize c, rangeCount := t.rangeCount + 1 } :=
  ⟨_, by rw [missingSizeLoop, if_neg h]⟩

theorem rangeCount_le_missingSizeLoop (m : MissingData) (fuel snCount snStart : Nat)
    (t : SizeLoop) :
    t.rangeCount ≤ (missingSizeLoop c maxsize m fuel snCount snStart t).rangeCount := by
  induction fuel generalizing snCount snStart t with
  | zero => exact Nat.le_refl _
  | succ fuel ih =>
    by_cases h : snCount = 0
    · rw [missingSizeLoop, if_pos h]
    · obtain ⟨n, hround⟩ := missingSizeLoop_succ c maxsize m fuel snStart t h
      rw [hround]
      split
      · exact Nat.le_refl _
      · exact (Nat.le_succ _).trans (ih _ _ { t with size := _, rangeCount := t.rangeCount + 1 })

theorem rangeCount_missingSize_pos {m : MissingData} {size : Nat}
    (h : (missingSize c maxsize m size).truncated = false) :
    0 < (missingSize c maxsize m size).rangeCount := by
  obtain ⟨n, hround⟩ := missingSizeLoop_succ c maxsize m
    ((m.snEnd + c.snModulus - m.snStart) % c.snModulus) m.snStart ⟨size, 0, false⟩
    (Nat.succ_ne_zero _)
  rw [missingSize, hround] at h ⊢
  split at h
  · cases h
  · next hfit =>
    rw [if_neg hfit]
    exact rangeCount_le_missingSizeLoop m _ _ _ ⟨_, 0 + 1, false⟩

theorem generateMissing_eq (m : MissingData) (hw : w.Fits c maxsize) :
    ∃ s, generateMissing c w m = some s ∧ s.writer.Fits c maxsize ∧
      s.writer.encoder.byte = (missingSize c maxsize m w.encoder.byte).size ∧
      s.truncated = (missingSize c maxsize m w.encoder.byte).truncated :=
  generateMissingLoop_eq hw rfl rfl

theorem NackField.size_patch (n : NackField) : n.patch.size c = n.size c := by
  unfold size patch
  cases n.so <;> rfl

theorem StatusEncoder.Fits.patchSoEnd {s : MissingLoop} (h : s.writer.Fits c maxsize) :
    (Rx.patchSoEnd s).encoder.byte = s.writer.encoder.byte ∧
      ∃ ns, (Rx.patchSoEnd s).encoder.bits = statusBits c 0 ns := by
  obtain ⟨ns, hns⟩ := h.writes
  unfold Rx.patchSoEnd
  split
  · next a _ ha =>
    have hbits := hns.patched a ha
    refine ⟨?_, _, hbits⟩
    rw [hns.byte, Encoder.byte, hbits, length_statusBits]
    rcases eq_nil_or_concat ns with rfl | ⟨ns, n, rfl⟩
    · exact Nat.mul_div_cancel_left _ (by decide)
    · rw [concat_eq_append, modifyLast_concat]
      simp only [map_append, map_singleton, NackField.size_patch]
      omega
  · exact ⟨rfl, ns, hns.bits⟩

theorem statusLoop_eq (e : Rx) (fuel lastNack : Nat) {k : Nat} {l : List Pdu} {checkHead : Bool}
    (hw : w.Fits c maxsize) (hk : l ≠ [] → checkHead = decide (k = 0)) :
    (e.statusLoop c fuel l checkHead w lastNack).map (·.1.encoder.byte) =
        e.statusSizeLoop c maxsize fuel l k w.encoder.byte ∧
      ∀ w' a, e.statusLoop c fuel l checkHead w lastNack = some (w', a) →
        (∃ ns, w'.encoder.bits = statusBits c 0 ns) ∧ w'.encoder.byte ≤ maxsize := by
  have hwrites : ∃ ns, w.encoder.bits = statusBits c 0 ns := hw.writes.imp fun _ h => h.bits
  induction fuel generalizing k lastNack l checkHead w with
  | zero => exact ⟨rfl, fun _ _ h => by cases h⟩
  | succ fuel ih =>
    cases l with
    | nil =>
      refine ⟨rfl, fun w' a h => ?_⟩
      cases h
      exact ⟨hwrites, hw.byte_le⟩
    | cons cur rest =>
      rw [Rx.statusLoop, Rx.statusSizeLoop, ← hk (by simp)]
      cases hmissing : e.nextMissing c fuel cur rest checkHead with
      | none => exact ⟨rfl, fun _ _ h => by cases h⟩
      | some r =>
        cases r with
        | none =>
          refine ⟨rfl, fun w' a h => ?_⟩
          cases h
          exact ⟨hwrites, hw.byte_le⟩
        | some m =>
          obtain ⟨s, hgen, hs, hbyte, htrunc⟩ := generateMissing_eq m hw
          dsimp only
          rw [hgen]
          dsimp only
          rw [← htrunc, ← hbyte]
          cases hcut : s.truncated with
          | true =>
            obtain ⟨hpatch, hbits⟩ := hs.patchSoEnd
            -- the lists are empty from here on
            cases fuel with
            | zero => exact ⟨rfl, fun _ _ h => by cases h⟩
            | succ fuel =>
              refine ⟨congrArg some hpatch, fun w' a h => ?_⟩
              cases h
              exact ⟨hbits, hpatch.trans_le hs.byte_le⟩
          | false =>
            have hpatch : Rx.patchSoEnd s = s.writer := by
              unfold Rx.patchSoEnd
              rw [hcut]
            have hcount := rangeCount_missingSize_pos (htrunc.symm.trans hcut)
            rw [hpatch]
            exact ih _ hs (fun _ => (decide_eq_false (by omega)).symm)
              (hs.writes.imp fun _ h => h.bits)

theorem length_putAck {enc : Encoder} {ackSn : Nat} (h : enc.bits = statusBits c 0 ns)
    (hack : ackSn < c.snModulus) : (Rx.putAck c ackSn enc).bytes.length = enc.byte := by
  rw [Encoder.bytes, putAck_bits h hack, Bits.length_pack _ _ (length_statusBits ackSn),
    Encoder.byte, h, length_statusBits]
  omega

theorem Rx.generateStatus_size (fuel : Nat) (now : UInt64) (e : Rx) (maxsize : Nat) :
    (e.generateStatus c fuel now maxsize).map (·.2.length) = e.statusSize c fuel maxsize ∧
      ∀ e' pdu, e.generateStatus c fuel now maxsize = some (e', pdu) → pdu.length ≤ maxsize := by
  rw [generateStatus, statusSize]
  split
  · refine ⟨rfl, fun e' pdu h => ?_⟩
    cases h
    exact Nat.zero_le _
  · next hsize =>
    rw [Encoder.putBits_eq _ _ (by simp [Encoder.init]; omega)]
    simp only [Option.bind_eq_bind, Option.bind_some]
    generalize hw : (⟨⟨Bits.ofNat (8 * 3) 0, maxsize⟩, 2, if c.snFieldLength = 18 then 1 else 7,
      none⟩ : StatusEncoder) = w
    have hthree : w.encoder.byte = 3 := by simp [← hw, Encoder.byte]
    have hstart : w.Fits c maxsize := by
      refine ⟨⟨[], hw ▸ StatusEncoder.writes_nil maxsize⟩, by rw [← hw], by omega⟩
    obtain ⟨hmap, hfits⟩ := statusLoop_eq e fuel ((e.rxNext + c.snModulus - 1) % c.snModulus) hstart
      (show e.getFirstRxPdu c ≠ [] → true = decide (0 = 0) from fun _ => rfl)
    rw [hthree] at hmap
    simp only [Encoder.init, nil_append]
    rw [hw, ← hmap]
    cases hloop : e.statusLoop c fuel (e.getFirstRxPdu c) true w
        ((e.rxNext + c.snModulus - 1) % c.snModulus) with
    | none => exact ⟨rfl, fun _ _ h => by cases h⟩
    | some r =>
      obtain ⟨w', lastNack⟩ := r
      obtain ⟨⟨ns, hns⟩, hle⟩ := hfits w' lastNack hloop
      have hlen := length_putAck hns (Nat.mod_lt (lastNack + 1) c.snModulus_pos)
      refine ⟨congrArg some hlen, fun e' pdu h => ?_⟩
      cases h
      exact hlen.trans_le hle

/-- In every state that is reached the size announced for a status PDU is the one of the status PDU
that is generated.  It fits, and the encoder does not run out of room. -/
theorem statusSize_eq {e : Entity} (h : Reachable c e) (size : Nat) :
    ∃ N, ∀ fuel ≥ N, ∀ now, ∃ e' pdu, e.rx.generateStatus c fuel now size = some (e', pdu) ∧
      e.rx.statusSize c fuel size = some pdu.length ∧ pdu.length ≤ size := by
  obtain ⟨W, hW⟩ := h.tracks
  obtain ⟨N, hN⟩ : ∃ N, ∀ fuel ≥ N, ∀ now, (e.rx.generateStatus c fuel now size).isSome = true :=
    ⟨_, fun fuel hfuel now => hW.reads.isSome_generateStatus hW.wf.toStores now hfuel⟩
  refine ⟨N, fun fuel hfuel now => ?_⟩
  obtain ⟨⟨e', pdu⟩, hr⟩ := Option.isSome_iff_exists.mp (hN fuel hfuel now)
  obtain ⟨hsize, hle⟩ := Rx.generateStatus_size (c := c) fuel now e.rx size
  rw [hr] at hsize
  exact ⟨e', pdu, hr, hsize.symm, hle e' pdu hr⟩

theorem statusSize_eq_nack : ∃ e, Reachable .unitTest e ∧
    e.rx.statusSize .unitTest 50 100 = some 5 ∧
    ∃ N, ∀ fuel ≥ N, ∀ now, ∃ e' pdu, e.rx.generateStatus .unitTest fuel now 100 = some (e', pdu) ∧
      e.rx.statusSize .unitTest fuel 100 = some pdu.length ∧ pdu.length ≤ 100 := by
  have hobs : (execAll .unitTest 5 (fun _ _ => true) (Entity.new .unitTest)
      [.setTime 1, .recvPdu [0x80, 0x01, 0x07], .setTime 100]).map
        (fun r => r.1.rx.statusSize .unitTest 50 100) = some (some 5) := by decide
  obtain ⟨e, ls, hreach, hsize⟩ := exists_reachable hobs
  exact ⟨e, hreach, hsize, statusSize_eq hreach 100⟩

end OpenAir.Rlc.Am

import OpenAir.Mac.DciSize
import Mathlib.Tactic.Linarith

namespace OpenAir.Mac

namespace DciConfig

variable (c : DciConfig)

def HasBwp : FormatX1 → Prop
  | .ul01 => c.ulBwp.isSome
  | .dl11 => c.dlBwp.isSome

def Counted : FormatX1 → Prop
  | .ul01 => ¬ c.scInfo.any (·.supplementaryUplink)
  | .dl11 => ¬ c.pdschConfig.any (·.twoCodeWords)

instance (f : FormatX1) : Decidable (c.Counted f) :=
  match f with
  | .ul01 => inferInstanceAs (Decidable (¬ _))
  | .dl11 => inferInstanceAs (Decidable (¬ _))

end DciConfig

section Widths

variable {c : DciConfig} {p p' : DciPdu} {ul : UlBwp} {dl : DlBwp} {sc : ServingCellInfo}
  {pdsch : PdschConfig} {b : Ul01Bits} {nRb freqBits bits size : Nat}

theorem ite_width_widthIf {f : BitField} {b : Bool} {n : Nat} (h : f.width = 0) :
    (if b then (f.widthIf b n).width else 0) = (f.widthIf b n).width := by
  cases b with
  | false => exact h.symm
  | true => rfl

/-- The branch of the supplementary uplink sets the carrier indicator to one bit, whatever it had,
and counts none. -/
theorem width_carrierIndicator {f : BitField} (h : f.width = 0) (cross sul : Bool) :
    ((f.widthIf cross 3).widthIf sul 1).width + (if sul ∧ cross then 2 else 0) =
      (if cross then 3 else 0) + if sul ∧ ¬ cross then 1 else 0 := by
  cases cross <;> cases sul <;> simp [BitField.width_widthIf, h]

theorem totalWidth_ul01 (hp : p.Cleared) :
    totalWidth (FormatX1.ul01.fields (ul01Pdu c sc ul b bits p)) +
        (if sc.supplementaryUplink ∧ sc.crossCarrierSchedulingConfig then 2 else 0) =
      ul01Size sc ul b p (ul01Pdu c sc ul b bits p) +
        if sc.supplementaryUplink ∧ ¬ sc.crossCarrierSchedulingConfig then 1 else 0 := by
  simp only [DciPdu.Cleared, DciPdu.variableFields, List.forall_mem_cons] at hp
  obtain ⟨-, -, -, -, -, -, hhop, -, -, hdai1, -, hcarrier, -, -, -, -, -, -, hcbgti, -, -, -, hcsi,
    -, hbeta, hsul, -, hdmrs, -⟩ := hp
  have carrier := width_carrierIndicator hcarrier sc.crossCarrierSchedulingConfig
    sc.supplementaryUplink
  simp only [FormatX1.fields, totalWidth_cons, totalWidth_nil, ul01Size, ul01Pdu,
    ite_width_widthIf hdai1, ite_width_widthIf hcsi, ite_width_widthIf hcbgti,
    ite_width_widthIf hbeta, ite_width_widthIf hdmrs, BitField.width_withWidth, hsul, ite_self,
    BitField.width_widthIf _ ul.hopping, hhop]
  linarith only [carrier]

theorem totalWidth_dl11 (hp : p.Cleared) :
    totalWidth (FormatX1.dl11.fields (dl11Pdu c sc dl pdsch freqBits bits p)) +
        (if pdsch.twoCodeWords then 8 else 0) =
      dl11Size c sc pdsch (dl11Pdu c sc dl pdsch freqBits bits p) := by
  simp only [DciPdu.Cleared, DciPdu.variableFields, List.forall_mem_cons] at hp
  obtain ⟨-, hmcs2, hndi2, hrv2, -, -, -, hvrb, hdai0, -, -, hcarrier, -, hprb, -, -, htci, -,
    hcbgti, hcbgfi, -⟩ := hp
  have dai := ite_width_widthIf (b := decide (c.pdschHARQACKCodebook = .dynamic)) (n := 2) hdai0
  simp only [decide_eq_true_eq] at dai
  simp only [FormatX1.fields, totalWidth_cons, totalWidth_nil, dl11Size, dl11Pdu,
    ite_width_widthIf hvrb, ite_width_widthIf hcarrier, ite_width_widthIf hprb,
    ite_width_widthIf htci, ite_width_widthIf hcbgti, ite_width_widthIf hcbgfi,
    BitField.width_withWidth, hmcs2, hndi2, hrv2]
  linarith only [dai]

theorem nrDciSize_ul01 (hul : c.ulBwp = some ul) (h : nrDciSize c p .ul01 0 = some (size, p')) :
    ∃ sc b bits, c.scInfo = some sc ∧ p' = ul01Pdu c sc ul b bits p ∧
      size = ul01Size sc ul b p p' := by
  simp only [nrDciSize, hul, Option.bind_eq_bind, Option.bind_eq_some_iff] at h
  obtain ⟨nRb, -, dlBits, -, ulBits, -, h⟩ := h
  simp only [nrDciSizeUl01, Option.bind_eq_bind, Option.bind_eq_some_iff, Option.pure_def,
    Option.some.injEq, Prod.mk.injEq] at h
  obtain ⟨sc, hsc, b, -, hsize, rfl⟩ := h
  exact ⟨sc, b, ulBits, hsc, rfl, hsize.symm⟩

theorem nrDciSize_dl11 (hdl : c.dlBwp = some dl) (h : nrDciSize c p .dl11 0 = some (size, p')) :
    ∃ sc pdsch freqBits bits, dl.pdschConfig = some pdsch ∧
      p' = dl11Pdu c sc dl pdsch freqBits bits p ∧ size = dl11Size c sc pdsch p' := by
  simp only [nrDciSize, hdl, Option.bind_eq_bind, Option.bind_eq_some_iff] at h
  obtain ⟨nRb, -, dlBits, -, ulBits, -, h⟩ := h
  simp only [nrDciSizeDl11, Option.bind_eq_bind, Option.bind_eq_some_iff] at h
  obtain ⟨sc, -, freqBits, -, pdsch, hpdsch, h⟩ := h
  split at h
  · simp only [Option.pure_def, Option.some.injEq, Prod.mk.injEq] at h
    obtain ⟨hsize, rfl⟩ := h
    exact ⟨sc, pdsch, freqBits, dlBits, hpdsch, rfl, hsize.symm⟩
  · cases h

theorem totalWidth_eq_size_iff (hp : p.Cleared) (f : FormatX1) (hbwp : c.HasBwp f)
    (h : nrDciSize c p f.format 0 = some (size, p')) :
    totalWidth (f.fields p') = size ↔ c.Counted f := by
  cases f with
  | ul01 =>
    obtain ⟨ul, hul⟩ := Option.isSome_iff_exists.mp hbwp
    obtain ⟨sc, b, bits, hsc, rfl, rfl⟩ := nrDciSize_ul01 hul h
    have htotal := @totalWidth_ul01 c p ul sc b bits hp
    rw [DciConfig.Counted, hsc, Option.any_some]
    cases hsul : sc.supplementaryUplink with
    | false => simpa [hsul] using htotal
    | true =>
      cases hcross : sc.crossCarrierSchedulingConfig <;> simp [hsul, hcross] at htotal ⊢ <;> omega
  | dl11 =>
    obtain ⟨dl, hdl⟩ := Option.isSome_iff_exists.mp hbwp
    obtain ⟨sc, pdsch, freqBits, bits, hpdsch, rfl, rfl⟩ := nrDciSize_dl11 hdl h
    have htotal := @totalWidth_dl11 c p dl sc pdsch freqBits bits hp
    rw [DciConfig.Counted, DciConfig.pdschConfig, hdl, Option.bind_some, hpdsch, Option.any_some]
    cases hcw : pdsch.twoCodeWords <;> simp [hcw] at htotal ⊢ <;> omega

theorem totalWidth_prepareDciX1 {f : FormatX1} {srsRequest : Nat}
    (h : prepareDciX1 c p srsRequest f = some p') :
    totalWidth (f.fields p') = totalWidth (f.fields p) := by
  cases f with
  | ul01 =>
    simp only [prepareDciX1, Option.bind_eq_bind, Option.bind_eq_some_iff] at h
    obtain ⟨sc, -, h⟩ := h
    split at h
    · cases h
    · cases h
      simp [FormatX1.fields]
  | dl11 =>
    simp only [prepareDciX1, Option.bind_eq_bind, Option.bind_eq_some_iff] at h
    obtain ⟨sc, -, pdsch, -, h⟩ := h
    split at h
    · cases h
    · cases h
      simp [FormatX1.fields]

theorem fillDciPduRel15_pos {f : FormatX1} {srsRequest : Nat} {out : DciPayload}
    (h : nrDciSize c p f.format 0 = some (size, p'))
    (hfill : fillDciPduRel15 c p srsRequest f = some (some out)) :
    out.payloadSizeBits = size ∧ out.pos = totalWidth (f.fields p') := by
  simp only [fillDciPduRel15, h, Option.bind_eq_bind, Option.bind_some] at hfill
  split at hfill
  · cases hfill
  split at hfill
  · simp only [Option.bind_eq_some_iff, Option.pure_def, Option.some.injEq] at hfill
    obtain ⟨q, hq, ⟨pos, payload⟩, hpack, rfl⟩ := hfill
    rw [packFields_eq] at hpack
    split at hpack
    · cases hpack
      exact ⟨rfl, totalWidth_prepareDciX1 hq⟩
    · cases hpack
  · cases hfill

end Widths

/-- The size that `nr_dci_size` returns is the one of the fields that are packed exactly without the
supplementary uplink in format 0_1 and without a second code word in format 1_1. -/
theorem packsExactly_nrDciSize_iff (c : DciConfig) (p : DciPdu) (hp : p.Cleared) (f : FormatX1)
    (hbwp : c.HasBwp f) (size : Nat) (p' : DciPdu)
    (h : nrDciSize c p f.format 0 = some (size, p')) :
    (PacksExactly size (f.fields p') ↔ c.Counted f) ∧
      ∀ srsRequest out, fillDciPduRel15 c p srsRequest f = some (some out) →
        out.payloadSizeBits = size ∧ (out.pos = size ↔ c.Counted f) := by
  have hiff := totalWidth_eq_size_iff hp f hbwp h
  refine ⟨packsExactly_iff.trans hiff, fun srsRequest out hfill => ?_⟩
  obtain ⟨hsize, hpos⟩ := fillDciPduRel15_pos h hfill
  exact ⟨hsize, by rw [hpos, hiff]⟩

def sampleDciPdu : DciPdu where
  formatIndicator := 1
  mcs := 9
  ndi := 1
  rv := 0
  tpc := 1
  pucchResourceIndicator := 3
  ulschIndicator := 1
  harqPid := ⟨0, 5⟩
  mcs2 := ⟨0, 0⟩
  ndi2 := ⟨0, 0⟩
  rv2 := ⟨0, 0⟩
  frequencyDomainAssignment := ⟨0, 1000⟩
  timeDomainAssignment := ⟨0, 2⟩
  frequencyHoppingFlag := ⟨0, 0⟩
  vrbToPrbMapping := ⟨0, 0⟩
  dai0 := ⟨0, 1⟩
  dai1 := ⟨0, 0⟩
  pdschToHarqFeedbackTimingIndicator := ⟨0, 4⟩
  carrierIndicator := ⟨0, 0⟩
  bwpIndicator := ⟨0, 1⟩
  prbBundlingSizeIndicator := ⟨0, 0⟩
  rateMatchingIndicator := ⟨0, 0⟩
  zpCsiRsTrigger := ⟨0, 0⟩
  transmissionConfigurationIndication := ⟨0, 0⟩
  srsRequest := ⟨0, 0⟩
  cbgti := ⟨0, 0⟩
  cbgfi := ⟨0, 0⟩
  srsResourceIndicator := ⟨0, 0⟩
  precodingInformation := ⟨0, 0⟩
  csiRequest := ⟨0, 0⟩
  ptrsDmrsAssociation := ⟨0, 0⟩
  betaOffsetIndicator := ⟨0, 0⟩
  ulSulIndicator := ⟨0, 0⟩
  antennaPorts := ⟨0, 7⟩
  dmrsSequenceInitialization := ⟨0, 1⟩

theorem sampleDciPdu_cleared : sampleDciPdu.Cleared := by
  simp [DciPdu.Cleared, DciPdu.variableFields, sampleDciPdu]

def samplePdschConfig (codeWords : Option CodeWords) : PdschConfig where
  dmrsDownlinkForPDSCHMappingTypeA := some {}
  maxNrofCodeWordsScheduledByDCI := codeWords

def samplePuschConfig : PuschConfig where
  dmrsUplinkForPUSCHMappingTypeB := some {}

def sampleDciConfig (codeWords : Option CodeWords) (sul : Bool) : DciConfig where
  dlBwp := some ⟨106, 0, none, some (samplePdschConfig codeWords)⟩
  ulBwp := some ⟨106, 0, false, none, some samplePuschConfig, none, none⟩
  scInfo := some { nDlBwp := 1, nUlBwp := 1, supplementaryUplink := sul }
  pdschHARQACKCodebook := .dynamic

theorem hasBwp_sampleDciConfig (codeWords : Option CodeWords) (sul : Bool) (f : FormatX1) :
    (sampleDciConfig codeWords sul).HasBwp f := by
  cases f <;> rfl

theorem packsExactly_nrDciSize_iff_one :
    ∃ p' out, nrDciSize (sampleDciConfig none false) sampleDciPdu .dl11 0 = some (48, p') ∧
      PacksExactly 48 (FormatX1.dl11.fields p') ∧
      fillDciPduRel15 (sampleDciConfig none false) sampleDciPdu 0 .dl11 = some (some out) ∧
      out.pos = 48 := by
  obtain ⟨p', hp'⟩ : ∃ p', nrDciSize (sampleDciConfig none false) sampleDciPdu .dl11 0 =
      some (48, p') := ⟨_, rfl⟩
  have hfill : fillDciPduRel15 (sampleDciConfig none false) sampleDciPdu 0 .dl11 =
      some (some ⟨48, 48, 219697400950329⟩) := by decide
  have hone := packsExactly_nrDciSize_iff _ _ sampleDciPdu_cleared .dl11
    (hasBwp_sampleDciConfig none false .dl11) 48 p' hp'
  exact ⟨p', _, hp', hone.1.mpr (by decide), hfill, (hone.2 0 _ hfill).2.mpr (by decide)⟩

/-- With two code words the size has eight bits that no field fills; with a supplementary uplink the
fields of format 0_1 need one bit more than the size. -/
theorem not_forall_packsExactly :
    (¬ ∀ (c : DciConfig) (p : DciPdu) (srsRequest : Nat) (f : FormatX1) (out : DciPayload),
      p.Cleared → c.HasBwp f → fillDciPduRel15 c p srsRequest f = some (some out) →
        out.pos = out.payloadSizeBits) ∧
    ¬ ∀ (c : DciConfig) (p : DciPdu) (f : FormatX1) (size : Nat) (p' : DciPdu),
      p.Cleared → c.HasBwp f → nrDciSize c p f.format 0 = some (size, p') →
        PacksExactly size (f.fields p') := by
  constructor
  · intro h
    have hout := h (sampleDciConfig (some .n2) false) sampleDciPdu 0 .dl11
      ⟨56, 48, 56242534643284224⟩ sampleDciPdu_cleared (hasBwp_sampleDciConfig _ _ _) (by decide)
    cases hout
  · intro h
    obtain ⟨p', hp'⟩ : ∃ p', nrDciSize (sampleDciConfig none true) sampleDciPdu .ul01 0 =
        some (43, p') := ⟨_, rfl⟩
    have hbwp := hasBwp_sampleDciConfig none true .ul01
    have hpack := h _ _ .ul01 43 p' sampleDciPdu_cleared hbwp hp'
    have hcounted := (totalWidth_eq_size_iff sampleDciPdu_cleared .ul01 hbwp hp').mp
      (packsExactly_iff.mp hpack)
    exact absurd hcounted (by decide)

end OpenAir.Mac

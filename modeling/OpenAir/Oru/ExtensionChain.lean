import Mathlib.Algebra.Order.Floor.Div
import OpenAir.Oru.ExtensionLaws

namespace OpenAir.Oru

variable {c : Config} {data : List Byte} {numPrb : Int} {ext : Nat} {s t : ExtState}
  {w w' : ExtWalk}

def extTypeAt (data : List Byte) (ext : Nat) : Nat := (byteOf data ext).toNat % 128

section Step

variable (c data numPrb ext)

def ContentGood : Prop :=
  (extTypeAt data ext = 1 → 0 < c.numBfWeights → Ext1Good data ext c.numBfWeights) ∧
    (extTypeAt data ext = 11 → 0 < c.numBfWeights →
      Ext11Good data ext numPrb c.numBfWeights c.ext11MaxBundles)

instance : Decidable (ContentGood c data numPrb ext) := inferInstanceAs (Decidable (_ ∧ _))

def ExtState.parsed (s : ExtState) : ExtState :=
  if extTypeAt data ext = 1 then s.bump .cplaneExt1Received
  else if extTypeAt data ext = 11 then
    { s.bump .cplaneExt11Received with
      bufs :=
        if 0 < c.numBfWeights ∧ Ext11Good data ext numPrb c.numBfWeights c.ext11MaxBundles then
          s.bufs.write c.numBfWeights (ext11Bundles data ext numPrb c.numBfWeights)
        else s.bufs }
  else s

end Step

theorem parseSectionExt1_eq (hfit : ExtFits data 1 ext) :
    parseSectionExt1 c data ext (4 * extWords data 1 ext) s =
      .ok (decide (0 < c.numBfWeights → Ext1Good data ext c.numBfWeights),
        s.bump .cplaneExt1Received) := by
  unfold parseSectionExt1
  by_cases hn : c.numBfWeights = 0
  · simp only [hn, if_true, Nat.lt_irrefl, false_implies, decide_true]
    rfl
  · obtain ⟨e, he⟩ := xranDecodeBfwExt1_eq (Nat.pos_of_ne_zero hn) hfit
    rw [if_neg hn, he, ok_bind]
    by_cases hgood : Ext1Good data ext c.numBfWeights
    · simp only [hgood, if_true, implies_true, decide_true]
      rfl
    · simp only [hgood, if_false, Nat.pos_of_ne_zero hn, forall_const, decide_false]
      rfl

theorem parseSectionExt11_eq (hfit : ExtFits data 11 ext) (htype : extTypeAt data ext = 11) :
    parseSectionExt11 c data ext (4 * extWords data 11 ext) numPrb s =
      .ok (decide (0 < c.numBfWeights →
        Ext11Good data ext numPrb c.numBfWeights c.ext11MaxBundles),
        s.parsed c data numPrb ext) := by
  unfold parseSectionExt11 ExtState.parsed
  have hne : extTypeAt data ext ≠ 1 := by omega
  rw [if_neg hne, if_pos htype]
  by_cases hn : c.numBfWeights = 0
  · simp only [hn, if_true, Nat.lt_irrefl, false_implies, decide_true, false_and, if_false]
    rfl
  · have hpos := Nat.pos_of_ne_zero hn
    obtain ⟨e, he⟩ := xranDecodeBfwExt11_eq numPrb c.ext11MaxBundles hpos hfit
    rw [if_neg hn, he, ok_bind]
    by_cases hgood : Ext11Good data ext numPrb c.numBfWeights c.ext11MaxBundles
    · simp only [hgood, if_true, implies_true, decide_true, hpos, and_self]
      rfl
    · simp only [hgood, if_false, hpos, forall_const, decide_false, and_false]
      rfl

theorem parseSectionExt_eq (hfit : ExtFits data (extTypeAt data ext) ext) :
    parseSectionExt c data (extTypeAt data ext) ext (4 * extWords data (extTypeAt data ext) ext)
      numPrb s = .ok (decide (ContentGood c data numPrb ext), s.parsed c data numPrb ext) := by
  unfold parseSectionExt
  by_cases h₁ : extTypeAt data ext = 1
  · have hgood : ContentGood c data numPrb ext ↔
        (0 < c.numBfWeights → Ext1Good data ext c.numBfWeights) := by
      simp [ContentGood, h₁]
    rw [if_pos h₁, decide_eq_decide.mpr hgood, ExtState.parsed, if_pos h₁, h₁]
    exact parseSectionExt1_eq (h₁ ▸ hfit)
  · rw [if_neg h₁]
    by_cases h₁₁ : extTypeAt data ext = 11
    · have hgood : ContentGood c data numPrb ext ↔ (0 < c.numBfWeights →
          Ext11Good data ext numPrb c.numBfWeights c.ext11MaxBundles) := by
        simp [ContentGood, h₁₁]
      rw [if_pos h₁₁, decide_eq_decide.mpr hgood, h₁₁]
      exact parseSectionExt11_eq (h₁₁ ▸ hfit) h₁₁
    · have hgood : ContentGood c data numPrb ext := by simp [ContentGood, h₁, h₁₁]
      rw [if_neg h₁₁, ExtState.parsed, if_neg h₁, if_neg h₁₁, decide_eq_true hgood]
      rfl

theorem parseExtension_eq (hflag : w.extFlag) (hext : w.ext < data.length) :
    parseExtension c data numPrb w = .ok (
      if ExtFits data (extTypeAt data w.ext) w.ext then
        if ContentGood c data numPrb w.ext then
          .inl { extFlag := (byteOf data w.ext).toNat / 128 = 1
                 ext := w.ext + 4 * extWords data (extTypeAt data w.ext) w.ext
                 state := w.state.parsed c data numPrb w.ext }
        else .inr ((w.state.parsed c data numPrb w.ext).bump
          (sectionExtErrorCounter (extTypeAt data w.ext)))
      else .inr (w.state.bump (sectionExtErrorCounter (extTypeAt data w.ext)))) := by
  unfold parseExtension
  obtain ⟨e, he⟩ := xranSectionExtLen_eq (extTypeAt data w.ext) hext
  rw [if_neg (by simp [hflag]), if_neg (by omega), readByte_eq hext, ok_bind]
  dsimp only
  rw [← extTypeAt, he, ok_bind]
  by_cases hfit : ExtFits data (extTypeAt data w.ext) w.ext
  · rw [if_pos hfit, if_pos hfit]
    dsimp only
    rw [parseSectionExt_eq hfit, ok_bind]
    by_cases hgood : ContentGood c data numPrb w.ext
    · simp only [hgood, decide_true, Bool.not_true, Bool.false_eq_true, if_false, if_true]
      rfl
    · simp only [hgood, decide_false, Bool.not_false, if_true, if_false]
      rfl
  · rw [if_neg hfit, if_neg hfit]
    rfl

def Counter.countsExtension (k : Counter) : Prop := k = .cplaneExt1Received ∨
  k = .cplaneExt11Received

instance (k : Counter) : Decidable k.countsExtension := inferInstanceAs (Decidable (_ ∨ _))

def Stats.AtMostOneError (s t : Stats) : Prop :=
  (∀ k : Counter, ¬ k.countsExtension → t.counter k = s.counter k) ∨
    ∃ k : Counter, ¬ k.countsExtension ∧ t.counter k = s.counter k + 1 ∧
      ∀ k' : Counter, ¬ k'.countsExtension → k' ≠ k → t.counter k' = s.counter k'

def Ext11Buffers.AgreeBehind (maxBundles : Int) (nWeights : Nat) (b b' : Ext11Buffers) : Prop :=
  (∀ i : Nat, maxBundles ≤ i → b'.beamIds i = b.beamIds i) ∧
    ∀ i : Nat, maxBundles * (2 * nWeights) ≤ i → b'.weights i = b.weights i

theorem Ext11Buffers.AgreeBehind.refl {m : Int} {n : Nat} {b : Ext11Buffers} :
    AgreeBehind m n b b :=
  ⟨fun _ _ => rfl, fun _ _ => rfl⟩

theorem Ext11Buffers.AgreeBehind.trans {m : Int} {n : Nat} {b b' b'' : Ext11Buffers}
    (h : AgreeBehind m n b b') (h' : AgreeBehind m n b' b'') : AgreeBehind m n b b'' :=
  ⟨fun i hi => (h'.1 i hi).trans (h.1 i hi), fun i hi => (h'.2 i hi).trans (h.2 i hi)⟩

theorem Ext11Buffers.agreeBehind_write {m : Int} {n : Nat} (hn : 0 < n) {bundles : List Bundle}
    (hm : (bundles.length : Int) ≤ m) (b : Ext11Buffers) :
    AgreeBehind m n b (b.write n bundles) := by
  constructor
  · intro i hi
    have hnone : bundles[i]? = none := List.getElem?_eq_none (by omega)
    simp only [write, hnone]
    rfl
  · intro i hi
    have hlen : (bundles.length : Int) * (2 * n) ≤ i :=
      (Int.mul_le_mul_of_nonneg_right hm (by omega)).trans hi
    have hdiv : bundles.length ≤ i / (2 * n) :=
      (Nat.le_div_iff_mul_le (by omega)).mpr (by exact_mod_cast hlen)
    simp only [write, List.getElem?_eq_none hdiv]
    rfl

theorem length_ext11Bundles (n : Nat) :
    (ext11Bundles data ext numPrb n).length = (ext11Hdr data ext).nBundles numPrb.toNat := by
  simp [ext11Bundles]

theorem sectionExtErrorCounter_not_countsExtension (extType : Nat) :
    ¬ (sectionExtErrorCounter extType).countsExtension := by
  unfold sectionExtErrorCounter
  split
  · decide
  · split <;> decide

theorem parsed_keeps : (∀ k : Counter, ¬ k.countsExtension →
      (s.parsed c data numPrb ext).stats.counter k = s.stats.counter k) ∧
    s.bufs.AgreeBehind c.ext11MaxBundles c.numBfWeights (s.parsed c data numPrb ext).bufs := by
  have hbump : ∀ k' : Counter, k'.countsExtension → ∀ k : Counter, ¬ k.countsExtension →
      (s.stats.bump k').counter k = s.stats.counter k := by
    intro k' hk' k hk
    refine Stats.counter_bump_of_ne ?_
    rintro rfl
    exact hk hk'
  unfold ExtState.parsed
  split
  · exact ⟨hbump _ (.inl rfl), .refl⟩
  · split
    · refine ⟨hbump _ (.inr rfl), ?_⟩
      dsimp only
      split
      · next h =>
        refine Ext11Buffers.agreeBehind_write h.1 ?_ _
        rw [length_ext11Bundles]
        exact h.2.2.2.1
      · exact .refl
    · exact ⟨fun _ _ => rfl, .refl⟩

structure WalkInv (c : Config) (s : ExtState) (w : ExtWalk) : Prop where
  noError : ∀ k : Counter, ¬ k.countsExtension → w.state.stats.counter k = s.stats.counter k
  agree : s.bufs.AgreeBehind c.ext11MaxBundles c.numBfWeights w.state.bufs

structure WalkDone (c : Config) (s t : ExtState) : Prop where
  oneError : s.stats.AtMostOneError t.stats
  agree : s.bufs.AgreeBehind c.ext11MaxBundles c.numBfWeights t.bufs

theorem WalkInv.parsed (h : WalkInv c s w) {extFlag : Bool} {pos : Nat} :
    WalkInv c s ⟨extFlag, pos, w.state.parsed c data numPrb ext⟩ where
  noError k hk := (parsed_keeps.1 k hk).trans (h.noError k hk)
  agree := h.agree.trans parsed_keeps.2

theorem WalkInv.bump (h : WalkInv c s w) {k : Counter} (hk : ¬ k.countsExtension) :
    WalkDone c s (w.state.bump k) where
  oneError := by
    refine .inr ⟨k, hk, ?_, fun k' hk' hne => ?_⟩
    · rw [ExtState.bump, Stats.counter_bump_self, h.noError k hk]
    · rw [ExtState.bump, Stats.counter_bump_of_ne hne, h.noError k' hk']
  agree := h.agree

theorem WalkInv.step (h : WalkInv c s w) :
    (∃ w', parseExtension c data numPrb w = .ok (.inl w') ∧ WalkInv c s w' ∧
      data.length - w'.ext < data.length - w.ext) ∨
    ∃ t, parseExtension c data numPrb w = .ok (.inr t) ∧ WalkDone c s t := by
  cases hflag : w.extFlag with
  | false =>
    refine .inr ⟨w.state, ?_, .inl h.noError, h.agree⟩
    rw [parseExtension, hflag]
    rfl
  | true =>
    by_cases hext : w.ext < data.length
    · rw [parseExtension_eq hflag hext]
      split
      · next hfit =>
        split
        · refine .inl ⟨_, rfl, h.parsed, ?_⟩
          have := hfit.1
          dsimp only
          omega
        · refine .inr ⟨_, rfl, ?_⟩
          have hparsed : WalkInv c s ⟨true, 0, w.state.parsed c data numPrb w.ext⟩ := h.parsed
          exact hparsed.bump (sectionExtErrorCounter_not_countsExtension _)
      · exact .inr ⟨_, rfl, h.bump (sectionExtErrorCounter_not_countsExtension _)⟩
    · refine .inr ⟨_, ?_, h.bump (k := .cplaneErrSectExtChain) (by decide)⟩
      rw [parseExtension, if_neg (by simp [hflag]), if_pos (by omega)]
      rfl

theorem parseSection1Extensions_returns {fuel numPrbc : Nat} {ef : Bool}
    (hfuel : data.length < fuel) :
    ∃ t, parseSection1Extensions c fuel data ef numPrbc s = .ok t ∧ WalkDone c s t :=
  loop.returns (WalkInv c s) (fun w => data.length - w.ext) (WalkDone c s) (fun _ h => h.step)
    ⟨fun _ _ => rfl, .refl⟩ (by dsimp only; omega)

def Accepted (c : Config) (data : List Byte) (numPrb : Int) (w : ExtWalk) : Prop :=
  ∃ w', parseExtension c data numPrb w = .ok (.inl w')

theorem accepted_iff (hflag : w.extFlag) (hext : w.ext < data.length) :
    Accepted c data numPrb w ↔
      ExtFits data (extTypeAt data w.ext) w.ext ∧ ContentGood c data numPrb w.ext := by
  unfold Accepted
  rw [parseExtension_eq hflag hext]
  by_cases hfit : ExtFits data (extTypeAt data w.ext) w.ext
  · by_cases hgood : ContentGood c data numPrb w.ext
    · simp [hfit, hgood]
    · simp [hfit, hgood]
  · simp [hfit]

theorem accepted_ext1_iff (hflag : w.extFlag) (hext : w.ext < data.length)
    (htype : extTypeAt data w.ext = 1) : Accepted c data numPrb w ↔
      ExtFits data 1 w.ext ∧ (c.numBfWeights = 0 ∨ Ext1Good data w.ext c.numBfWeights) := by
  rw [accepted_iff hflag hext, htype, ContentGood]
  simp only [htype, forall_const, show ¬ (1 : Nat) = 11 by decide, false_implies, and_true,
    Nat.pos_iff_ne_zero, or_iff_not_imp_left, ne_eq]

theorem accepted_ext11_iff (hflag : w.extFlag) (hext : w.ext < data.length)
    (htype : extTypeAt data w.ext = 11) : Accepted c data numPrb w ↔
      ExtFits data 11 w.ext ∧ (c.numBfWeights = 0 ∨
        Ext11Good data w.ext numPrb c.numBfWeights c.ext11MaxBundles) := by
  rw [accepted_iff hflag hext, htype, ContentGood]
  simp only [htype, forall_const, show ¬ (11 : Nat) = 1 by decide, false_implies, true_and,
    Nat.pos_iff_ne_zero, or_iff_not_imp_left, ne_eq]

theorem bufs_of_accepted (hflag : w.extFlag) (hext : w.ext < data.length)
    (htype : extTypeAt data w.ext = 11) (hn : 0 < c.numBfWeights)
    (h : parseExtension c data numPrb w = .ok (.inl w')) : w'.state.bufs =
      w.state.bufs.write c.numBfWeights (ext11Bundles data w.ext numPrb c.numBfWeights) := by
  have hgood := ((accepted_ext11_iff hflag hext htype).mp ⟨w', h⟩).2.resolve_left (by omega)
  obtain ⟨hfit, hcontent⟩ := (accepted_iff hflag hext).mp ⟨w', h⟩
  rw [parseExtension_eq hflag hext, if_pos hfit, if_pos hcontent] at h
  obtain rfl := Sum.inl.inj (Except.ok.inj h)
  have hne : extTypeAt data w.ext ≠ 1 := by omega
  simp only [ExtState.parsed, if_neg hne, if_pos htype, if_pos (And.intro hn hgood)]

theorem write_weight {n b i : Nat} {bundles : List Bundle} {bundle : Bundle} {bufs : Ext11Buffers}
    {ws : List Int} {v : Int} (hb : bundles[b]? = some bundle) (hw : bundle.weights = some ws)
    (hi : i < 2 * n) (hv : ws[i]? = some v) :
    (bufs.write n bundles).weights (2 * n * b + i) = v := by
  have hdiv : (2 * n * b + i) / (2 * n) = b := by
    rw [Nat.mul_add_div (by omega), Nat.div_eq_of_lt hi, Nat.add_zero]
  have hmod : (2 * n * b + i) % (2 * n) = i := by
    rw [Nat.mul_add_mod, Nat.mod_eq_of_lt hi]
  simp only [Ext11Buffers.write, hdiv, hmod, hb, Option.bind_some, hw, hv, Option.getD_some]

def bundlePos (data : List Byte) (ext nWeights b : Nat) : Nat :=
  ext + (ext11Hdr data ext).len + b * (ext11Hdr data ext).bundleLen nWeights

theorem getElem?_ext11Bundles {n b : Nat} (hb : b < (ext11Hdr data ext).nBundles numPrb.toNat) :
    (ext11Bundles data ext numPrb n)[b]? =
      some (bundleAt (ext11Hdr data ext) data n (bundlePos data ext n b)) := by
  rw [ext11Bundles, List.getElem?_map, List.getElem?_range hb]
  rfl

theorem nBundles_eq (h : BfwExt11Hdr) (k : Nat) :
    h.nBundles k = (h.bundleOffset + k) ⌈/⌉ h.numBundPrb :=
  (Nat.ceilDiv_eq_add_pred_div _ _).symm

theorem weights_of_accepted (hflag : w.extFlag) (hext : w.ext < data.length)
    (htype : extTypeAt data w.ext = 11) (hn : 0 < c.numBfWeights)
    (h : parseExtension c data numPrb w = .ok (.inl w')) {b i : Nat}
    (hb : b < (ext11Hdr data w.ext).nBundles numPrb.toNat)
    (hdis : (ext11Hdr data w.ext).disableBfws = false) (hi : i < 2 * c.numBfWeights) :
    w'.state.bufs.weights (2 * c.numBfWeights * b + i) =
      weightAt data (ext11Hdr data w.ext).method (ext11Hdr data w.ext).bfwIqWidth
        (byteOf data (bundlePos data w.ext c.numBfWeights b)).toNat
        (8 * (bundlePos data w.ext c.numBfWeights b + (ext11Hdr data w.ext).method.paramLen + 2) +
          i * (ext11Hdr data w.ext).bfwIqWidth) := by
  rw [bufs_of_accepted hflag hext htype hn h]
  refine write_weight (getElem?_ext11Bundles hb) (by rw [bundleAt, hdis]; rfl) hi ?_
  rw [List.getElem?_map, List.getElem?_range hi]
  rfl

def ShiftDefined (method : FhCompMethod) (param : Byte) : Prop :=
  method = .bfp ∨ method = .blkscale → param.toNat < 32

instance (method : FhCompMethod) (param : Byte) : Decidable (ShiftDefined method param) :=
  inferInstanceAs (Decidable (_ → _))

/-- The walk along the extensions ends, reads only the data, writes only into the room for
`ext11_max_bundles` bundles and counts at most one error.  An ext1 or ext11 is accepted if it ends
within the packet and, once the number of weights is known, if its content is good; its bundles then
cover the section, and each weight is what the method makes of the field at its place. -/
theorem parseSection1Extensions_exact (c : Config) (data : List Byte) (ef : Bool) (numPrbc : Nat)
    (s : ExtState) :
    (∀ fuel, data.length < fuel →
      ∃ t, parseSection1Extensions c fuel data ef numPrbc s = .ok t ∧
        s.bufs.AgreeBehind c.ext11MaxBundles c.numBfWeights t.bufs ∧
        s.stats.AtMostOneError t.stats) ∧
    ∀ w : ExtWalk, w.extFlag = true → w.ext < data.length →
      (extTypeAt data w.ext = 1 →
        (Accepted c data (c.effectiveNumPrb numPrbc) w ↔
          ExtFits data 1 w.ext ∧ (c.numBfWeights = 0 ∨ Ext1Good data w.ext c.numBfWeights)) ∧
        (Accepted c data (c.effectiveNumPrb numPrbc) w → 0 < c.numBfWeights →
          ∃ ws, xranDecodeBfwExt1 data w.ext (4 * extWords data 1 w.ext) c.numBfWeights =
            .ok (.ok ws) ∧ ws.length = 2 * c.numBfWeights ∧
            (ShiftDefined (ext1Method data w.ext) (byteOf data (w.ext + 3)) →
              ∀ i < 2 * c.numBfWeights, ws[i]? = some (
                weightAt data (ext1Method data w.ext) (ext1Width data w.ext)
                  (byteOf data (w.ext + 3)).toNat
                  (8 * (w.ext + 3 + (ext1Method data w.ext).paramLen) +
                    i * ext1Width data w.ext))))) ∧
      (extTypeAt data w.ext = 11 →
        (Accepted c data (c.effectiveNumPrb numPrbc) w ↔
          ExtFits data 11 w.ext ∧ (c.numBfWeights = 0 ∨ Ext11Good data w.ext
            (c.effectiveNumPrb numPrbc) c.numBfWeights c.ext11MaxBundles)) ∧
        ∀ w', parseExtension c data (c.effectiveNumPrb numPrbc) w = .ok (.inl w') →
          0 < c.numBfWeights →
          (∃ bundles, xranDecodeBfwExt11 data w.ext (4 * extWords data 11 w.ext)
              (c.effectiveNumPrb numPrbc) c.numBfWeights c.ext11MaxBundles =
                .ok (.ok (ext11Hdr data w.ext, bundles)) ∧
            bundles.length = ((ext11Hdr data w.ext).bundleOffset +
              (c.effectiveNumPrb numPrbc).toNat) ⌈/⌉ (ext11Hdr data w.ext).numBundPrb ∧
            w'.state.bufs = w.state.bufs.write c.numBfWeights bundles) ∧
          ∀ b < ((ext11Hdr data w.ext).bundleOffset + (c.effectiveNumPrb numPrbc).toNat) ⌈/⌉
              (ext11Hdr data w.ext).numBundPrb,
            (ext11Hdr data w.ext).disableBfws = false →
            ShiftDefined (ext11Hdr data w.ext).method
              (byteOf data (bundlePos data w.ext c.numBfWeights b)) →
            ∀ i < 2 * c.numBfWeights,
              w'.state.bufs.weights (2 * c.numBfWeights * b + i) =
                weightAt data (ext11Hdr data w.ext).method (ext11Hdr data w.ext).bfwIqWidth
                  (byteOf data (bundlePos data w.ext c.numBfWeights b)).toNat
                  (8 * (bundlePos data w.ext c.numBfWeights b +
                    (ext11Hdr data w.ext).method.paramLen + 2) +
                    i * (ext11Hdr data w.ext).bfwIqWidth)) := by
  refine ⟨fun fuel hfuel => ?_, fun w hflag hext => ⟨fun htype => ⟨?_, fun hacc hn => ?_⟩,
    fun htype => ⟨?_, fun w' h hn => ⟨?_, fun b hb hdis _ i hi => ?_⟩⟩⟩⟩
  · obtain ⟨t, ht, hdone⟩ := parseSection1Extensions_returns hfuel
    exact ⟨t, ht, hdone.agree, hdone.oneError⟩
  · exact accepted_ext1_iff hflag hext htype
  · obtain ⟨hfit, hgood⟩ := (accepted_ext1_iff hflag hext htype).mp hacc
    obtain ⟨e, he⟩ := xranDecodeBfwExt1_eq hn hfit
    rw [if_pos (hgood.resolve_left (by omega))] at he
    refine ⟨_, he, by simp [ext1Weights], fun _ i hi => ?_⟩
    rw [ext1Weights, List.getElem?_map, List.getElem?_range hi]
    rfl
  · exact accepted_ext11_iff hflag hext htype
  · obtain ⟨hfit, hgood⟩ := (accepted_ext11_iff hflag hext htype).mp ⟨w', h⟩
    obtain ⟨e, he⟩ :=
      xranDecodeBfwExt11_eq (c.effectiveNumPrb numPrbc) c.ext11MaxBundles hn hfit
    rw [if_pos (hgood.resolve_left (by omega))] at he
    exact ⟨_, he, by rw [length_ext11Bundles, nBundles_eq], bufs_of_accepted hflag hext htype hn h⟩
  · rw [← nBundles_eq] at hb
    exact weights_of_accepted hflag hext htype hn h hb hdis hi

theorem zero_add_prachLength_le : 0 + 139 * 2 ≤ 12 * 24 := by decide

def Config.narrow : Config where
  numerology := 0
  numPrb := 24
  t2aMinCpSymDiff := 1
  t2aMaxCpSymDiff := 4
  t2aMinUpDlSymDiff := 1
  t2aMaxUpDlSymDiff := 4
  dlSymbolBitmask := fun i => i < 13
  ulSymbolBitmask := fun i => i = 13
  symbolBitmaskLength := 14
  mtu := 1500
  prachEaxcOffset := 0
  dlCompMethod := .bfp
  prachKbar := 0
  numBfWeights := 0
  numBfWeights_le := zero_le_maxBfWeights
  prachKbar_le := zero_add_prachLength_le

def ext11Section : List Byte :=
  [0, 0, 0, 1, 0, 0x10, 0x80, 0, 0x0B, 0, 3, 0, 1, 0x40, 0, 5, 0xF3, 0, 0, 0]

def firstExtension : ExtWalk := ⟨true, 8, {}, {}⟩

theorem one_le_maxBfWeights : 1 ≤ maxBfWeights := by decide

theorem parseSection1Extensions_exact_ext11 :
    ∃ w', parseExtension (Config.narrow.setNumBfWeights 1 one_le_maxBfWeights) ext11Section 1
        firstExtension = .ok (.inl w') ∧
      w'.state.bufs.weights 0 = -1 ∧ w'.state.bufs.weights 1 = 3 := by
  have h := ((parseSection1Extensions_exact (Config.narrow.setNumBfWeights 1 one_le_maxBfWeights)
    ext11Section true 1 {}).2 firstExtension rfl (by decide)).2 (by decide)
  obtain ⟨w', hw'⟩ := h.1.mpr ⟨by decide, .inr (by decide)⟩
  have hws := (h.2 w' hw' (by decide)).2 0 (by decide) (by decide) (by decide)
  exact ⟨w', hw', (hws 0 (by decide)).trans (by decide), (hws 1 (by decide)).trans (by decide)⟩

def ext1Section : List Byte := [0, 0, 0, 0, 0, 0, 0x80, 0, 1, 2, 0, 0, 0, 0, 0, 0]

/-- Without a number of weights an ext1 is not looked at, whatever its length. -/
theorem ext1_accepted_of_wrong_length :
    ¬ ∀ (c : Config) (data : List Byte) (numPrb : Int) (w : ExtWalk), w.extFlag = true →
      w.ext < data.length → extTypeAt data w.ext = 1 →
      (Accepted c data numPrb w ↔ 4 * extWords data 1 w.ext = ext1Len data w.ext c.numBfWeights ∧
        w.ext + 4 * extWords data 1 w.ext ≤ data.length) := by
  intro hclaim
  have hiff := hclaim Config.narrow ext1Section 24 firstExtension rfl (by decide) (by decide)
  have hacc : Accepted Config.narrow ext1Section 24 firstExtension :=
    (accepted_ext1_iff rfl (by decide) (by decide)).mpr ⟨by decide, .inl rfl⟩
  exact absurd (hiff.mp hacc).1 (by decide)

end OpenAir.Oru

import OpenAir.Oru.Extensions

namespace OpenAir.Oru

variable {data : List Byte} {ext len n pos extType : Nat}

def byteOf (data : List Byte) (pos : Nat) : Byte := data[pos]?.getD 0

theorem readByte_eq (h : pos < data.length) : readByte data pos = .ok (byteOf data pos) := by
  obtain ⟨b, hb, hread⟩ := exists_readAt (Fault.assertion Abort.outOfBounds) h
  rw [readByte, hread, byteOf, hb]
  rfl

def extWords (data : List Byte) (extType ext : Nat) : Nat :=
  if wideExtLen extType then (byteOf data (ext + 1)).toNat * 256 + (byteOf data (ext + 2)).toNat
  else (byteOf data (ext + 1)).toNat

def ExtFits (data : List Byte) (extType ext : Nat) : Prop :=
  0 < extWords data extType ext ∧ ext + 4 * extWords data extType ext ≤ data.length

instance : Decidable (ExtFits data extType ext) := inferInstanceAs (Decidable (_ ∧ _))

theorem readExtLen_eq (h : ext + (if wideExtLen extType then 2 else 1) < data.length) :
    readExtLen data extType ext = .ok (extWords data extType ext) := by
  unfold readExtLen extWords
  cases hwide : wideExtLen extType with
  | true =>
    rw [hwide, if_pos rfl] at h
    rw [readByte_eq (by omega), ok_bind, if_pos rfl, readByte_eq (by omega), ok_bind, if_pos rfl]
    rfl
  | false =>
    rw [hwide, if_neg (by decide)] at h
    rw [readByte_eq (by omega), ok_bind, if_neg (by decide), if_neg (by decide)]
    rfl

theorem xranSectionExtLen_eq (extType : Nat) (hext : ext < data.length) :
    ∃ e, xranSectionExtLen data extType ext =
      .ok (if ExtFits data extType ext then .ok (4 * extWords data extType ext) else .error e) := by
  unfold xranSectionExtLen
  have hk : (if wideExtLen extType then 2 else 1) ≤ 2 := by split <;> decide
  generalize hgen : (if wideExtLen extType then 2 else 1) = k at hk ⊢
  dsimp only
  by_cases hshort : data.length - ext < 1 + k
  · -- an extension of one word would have four bytes
    refine ⟨.truncated, ?_⟩
    rw [if_pos hshort, if_neg fun h : ExtFits data extType ext => by
      have := h.1
      have := h.2
      omega]
    rfl
  · rw [if_neg hshort, readExtLen_eq (by omega), ok_bind]
    by_cases hzero : extWords data extType ext = 0
    · refine ⟨.extLen, ?_⟩
      rw [if_pos hzero, if_neg fun h : ExtFits data extType ext => by
        have := h.1
        omega]
      rfl
    · refine ⟨.truncated, ?_⟩
      rw [if_neg hzero]
      by_cases hfit : ext + 4 * extWords data extType ext ≤ data.length
      · rw [if_neg (by omega), if_pos ⟨by omega, hfit⟩, Nat.mul_comm]
        rfl
      · rw [if_pos (by omega), if_neg fun h => hfit h.2]
        rfl

def weightAt (data : List Byte) (method : FhCompMethod) (iqBits param pos : Nat) : Int :=
  if method = .none then Bits.signedField data pos iqBits
  else method.expand iqBits param (Bits.signedField data pos iqBits)

theorem int16_signedField {width : Nat} (hw : 0 < width) (h : width ≤ 16) :
    int16 (Bits.signedField data pos width) = Bits.signedField data pos width := by
  have hlo := BitVec.le_toInt (BitVec.ofNat width (Bits.field data pos width))
  have hhi := BitVec.toInt_lt (x := BitVec.ofNat width (Bits.field data pos width))
  have hpow : (2 : Int) ^ (width - 1) ≤ 2 ^ 15 := by
    exact_mod_cast Nat.pow_le_pow_right (by decide : 0 < 2) (by omega : width - 1 ≤ 15)
  unfold int16 Bits.signedField
  rw [BitVec.toInt_ofInt]
  exact Int.bmod_eq_of_le (by norm_num at *; omega) (by norm_num at *; omega)

theorem effectiveIqWidth_bounds {w : Nat} (hw : w < 16) :
    1 ≤ effectiveIqWidth w ∧ effectiveIqWidth w ≤ 16 := by
  unfold effectiveIqWidth iqBitsUncompressed
  split <;> omega

theorem unpackWeights_eq {iqBits : Nat} (hw : 1 ≤ iqBits ∧ iqBits ≤ 16)
    (h : 8 * pos + n * iqBits ≤ 8 * data.length) :
    unpackWeights data pos iqBits n =
      .ok ((List.range n).map fun i => Bits.signedField data (8 * pos + i * iqBits) iqBits) := by
  refine mapM_eq_ok fun i hi => ?_
  have hi' : (i + 1) * iqBits ≤ n * iqBits := Nat.mul_le_mul_right _ (List.mem_range.mp hi)
  rw [Nat.succ_mul] at hi'
  rw [unpackBits_eq (by omega) (by omega), ok_bind, int16_signedField (by omega) hw.2]
  rfl

section Ext1

def ext1Width (data : List Byte) (ext : Nat) : Nat :=
  effectiveIqWidth ((byteOf data (ext + 2)).toNat / 16)

def ext1Method (data : List Byte) (ext : Nat) : FhCompMethod :=
  .ofNat ((byteOf data (ext + 2)).toNat % 16)

def ext1Len (data : List Byte) (ext nWeights : Nat) : Nat :=
  padded (3 + (ext1Method data ext).paramLen + iqLen nWeights (ext1Width data ext))

def Ext1Good (data : List Byte) (ext nWeights : Nat) : Prop :=
  (byteOf data (ext + 2)).toNat % 16 ≤ 3 ∧ 4 * extWords data 1 ext = ext1Len data ext nWeights

instance : Decidable (Ext1Good data ext n) := inferInstanceAs (Decidable (_ ∧ _))

def ext1Weights (data : List Byte) (ext nWeights : Nat) : List Int :=
  (List.range (2 * nWeights)).map fun i =>
    weightAt data (ext1Method data ext) (ext1Width data ext) (byteOf data (ext + 3)).toNat
      (8 * (ext + 3 + (ext1Method data ext).paramLen) + i * ext1Width data ext)

theorem ext1Width_bounds : 1 ≤ ext1Width data ext ∧ ext1Width data ext ≤ 16 :=
  effectiveIqWidth_bounds (by have := (byteOf data (ext + 2)).isLt; omega)

theorem iqLen_covers (nWeights iqBits : Nat) :
    2 * nWeights * iqBits ≤ 8 * iqLen nWeights iqBits := by
  unfold iqLen
  omega

theorem le_padded (k : Nat) : k ≤ padded k := by
  unfold padded
  omega

theorem ext1_values_eq (hmeth : (byteOf data (ext + 2)).toNat % 16 ≤ 3)
    (hfit : ext + ext1Len data ext n ≤ data.length) :
    (if ext1Method data ext ≠ .none then
      fhDecompressBlock (ext1Method data ext) (ext1Width data ext) (2 * n) data
        (ext + (3 + (ext1Method data ext).paramLen) - 1)
    else
      unpackWeights data (ext + (3 + (ext1Method data ext).paramLen)) (ext1Width data ext)
        (2 * n)) = .ok (ext1Weights data ext n) := by
  have hpad := le_padded (3 + (ext1Method data ext).paramLen + iqLen n (ext1Width data ext))
  have hiq := iqLen_covers n (ext1Width data ext)
  unfold ext1Len at hfit
  unfold ext1Weights weightAt
  by_cases hm : ext1Method data ext = .none
  · rw [if_neg (not_not.mpr hm), unpackWeights_eq ext1Width_bounds (by omega), hm]
    rfl
  · have hlen : (ext1Method data ext).paramLen = 1 := if_pos hm
    rw [hlen] at hpad hfit ⊢
    have hparam : data[ext + 3]? = some (byteOf data (ext + 3)) := by
      rw [byteOf, List.getElem?_eq_getElem (by omega)]
      rfl
    have hsup : (ext1Method data ext).Supported := FhCompMethod.supported_ofNat hm hmeth
    rw [if_pos hm, show ext + (3 + 1) - 1 = ext + 3 by omega,
      fhDecompressBlock_eq hsup ext1Width_bounds hparam (by omega)]
    simp only [if_neg hm]

theorem xranDecodeBfwExt1_eq (hn : 0 < n) (hext : ExtFits data 1 ext) :
    ∃ e, xranDecodeBfwExt1 data ext (4 * extWords data 1 ext) n =
      .ok (if Ext1Good data ext n then .ok (ext1Weights data ext n) else .error e) := by
  obtain ⟨hpos, hfit⟩ := hext
  have hwords : extWords data 1 ext = (byteOf data (ext + 1)).toNat := if_neg (by decide)
  unfold xranDecodeBfwExt1
  rw [if_neg (by omega), if_neg (by omega), readByte_eq (by omega), ok_bind]
  by_cases hmeth : (byteOf data (ext + 2)).toNat % 16 ≤ 3
  · rw [if_neg (by omega), readByte_eq (by omega), ok_bind, ← hwords, Nat.mul_comm _ 4]
    rw [← ext1Method, ← ext1Width, ← ext1Len]
    by_cases hlen : 4 * extWords data 1 ext = ext1Len data ext n
    · refine ⟨.arg, ?_⟩
      rw [if_neg (not_not.mpr hlen), if_neg (Nat.lt_irrefl _),
        if_pos (show Ext1Good data ext n from ⟨hmeth, hlen⟩)]
      have hval : _ = Except.ok (ext1Weights data ext n) := ext1_values_eq hmeth (by omega)
      by_cases hm : ext1Method data ext = .none
      · rw [if_neg (not_not.mpr hm)] at hval ⊢
        rw [hval]
        rfl
      · rw [if_pos hm] at hval ⊢
        rw [hval]
        rfl
    · refine ⟨.extLen, ?_⟩
      rw [if_pos hlen, if_neg fun h => hlen h.2]
      rfl
  · refine ⟨.compMeth, ?_⟩
    rw [if_pos (by omega), if_neg fun h => hmeth h.1]
    rfl

end Ext1

section Ext11

variable {h : BfwExt11Hdr} {numPrb maxBundles : Int}

def ext11Base (data : List Byte) (ext : Nat) : BfwExt11Hdr where
  disableBfws := (byteOf data (ext + 3)).toNat / 128 = 1
  rad := (byteOf data (ext + 3)).toNat / 64 % 2 = 1
  bundleOffset := (byteOf data (ext + 3)).toNat % 64
  numBundPrb := (byteOf data (ext + 4)).toNat

def ext11Hdr (data : List Byte) (ext : Nat) : BfwExt11Hdr :=
  if (ext11Base data ext).disableBfws then ext11Base data ext
  else { ext11Base data ext with
    bfwCompMeth := (byteOf data (ext + 5)).toNat % 16
    bfwIqWidth := effectiveIqWidth ((byteOf data (ext + 5)).toNat / 16) }

theorem ext11Hdr_disableBfws :
    (ext11Hdr data ext).disableBfws = (ext11Base data ext).disableBfws := by
  unfold ext11Hdr
  split <;> rfl

theorem ext11Hdr_numBundPrb : (ext11Hdr data ext).numBundPrb = (ext11Base data ext).numBundPrb := by
  unfold ext11Hdr
  split <;> rfl

theorem ext11Hdr_nBundles (k : Nat) :
    (ext11Hdr data ext).nBundles k = (ext11Base data ext).nBundles k := by
  unfold ext11Hdr
  split <;> rfl

theorem ext11Hdr_bfwIqWidth (hdis : (ext11Hdr data ext).disableBfws = false) :
    1 ≤ (ext11Hdr data ext).bfwIqWidth ∧ (ext11Hdr data ext).bfwIqWidth ≤ 16 := by
  rw [ext11Hdr_disableBfws] at hdis
  have hlt : (byteOf data (ext + 5)).toNat / 16 < 16 := by
    have := (byteOf data (ext + 5)).isLt
    omega
  rw [ext11Hdr, hdis, if_neg (by decide)]
  exact effectiveIqWidth_bounds hlt

def ext11Len (data : List Byte) (ext : Nat) (numPrb : Int) (nWeights : Nat) : Nat :=
  padded ((ext11Hdr data ext).len +
    (ext11Hdr data ext).nBundles numPrb.toNat * (ext11Hdr data ext).bundleLen nWeights)

def Ext11Good (data : List Byte) (ext : Nat) (numPrb : Int) (nWeights : Nat) (maxBundles : Int) :
    Prop :=
  0 < numPrb ∧ (ext11Hdr data ext).numBundPrb ≠ 0 ∧
    ((ext11Hdr data ext).nBundles numPrb.toNat : Int) ≤ maxBundles ∧
    (ext11Hdr data ext).bfwCompMeth ≤ 3 ∧
    4 * extWords data 11 ext = ext11Len data ext numPrb nWeights

instance : Decidable (Ext11Good data ext numPrb n maxBundles) :=
  inferInstanceAs (Decidable (_ ∧ _ ∧ _ ∧ _ ∧ _))

def bundleAt (h : BfwExt11Hdr) (data : List Byte) (nWeights pos : Nat) : Bundle where
  beamId := ((byteOf data (pos + h.method.paramLen)).toNat * 256 +
    (byteOf data (pos + h.method.paramLen + 1)).toNat) % 2 ^ 15
  weights := if h.disableBfws then none else some ((List.range (2 * nWeights)).map fun i =>
    weightAt data h.method h.bfwIqWidth (byteOf data pos).toNat
      (8 * (pos + h.method.paramLen + 2) + i * h.bfwIqWidth))

def ext11Bundles (data : List Byte) (ext : Nat) (numPrb : Int) (nWeights : Nat) : List Bundle :=
  (List.range ((ext11Hdr data ext).nBundles numPrb.toNat)).map fun b =>
    bundleAt (ext11Hdr data ext) data nWeights
      (ext + (ext11Hdr data ext).len + b * (ext11Hdr data ext).bundleLen nWeights)

theorem map_byteOf {k : Nat} (hk : pos + k ≤ data.length) :
    (List.range k).map (fun i => byteOf data (pos + i)) = (data.drop pos).take k := by
  refine List.ext_getElem (by simp; omega) fun i hi _ => ?_
  have hi' : i < k := by simpa using hi
  simp [byteOf, List.getElem?_eq_getElem (show pos + i < data.length by omega)]

theorem signedField_block {param : Byte} {k off width : Nat} (h : off + width ≤ 8 * k) :
    Bits.signedField (param :: (data.drop pos).take k) (8 * (0 + 1) + off) width =
      Bits.signedField data (8 * pos + off) width := by
  calc Bits.signedField (param :: (data.drop pos).take k) (8 * (0 + 1) + off) width
      = Bits.signedField ((data.drop pos).take k) off width :=
        by rw [← Bits.signedField_drop]; rfl
    _ = Bits.signedField (data.drop pos) off width := Bits.signedField_take h
    _ = Bits.signedField data (8 * pos + off) width := Bits.signedField_drop

theorem readBundle_eq (hmeth : h.bfwCompMeth ≤ 3)
    (hw : h.disableBfws = false → 1 ≤ h.bfwIqWidth ∧ h.bfwIqWidth ≤ 16)
    (hfit : pos + h.bundleLen n ≤ data.length) :
    h.readBundle data n pos = .ok (bundleAt h data n pos) := by
  unfold BfwExt11Hdr.bundleLen at hfit
  unfold BfwExt11Hdr.readBundle bundleAt
  rw [readByte_eq (by omega), ok_bind, readByte_eq (by omega), ok_bind]
  cases hdis : h.disableBfws with
  | true => rfl
  | false =>
    rw [hdis, if_neg (by decide)] at hfit
    have hiq := iqLen_covers n h.bfwIqWidth
    simp only [Bool.false_eq_true, if_false]
    by_cases hm : h.method = .none
    · rw [if_neg (not_not.mpr hm), unpackWeights_eq (hw hdis) (by omega), ok_bind]
      simp only [weightAt, if_pos hm]
      rfl
    · have hlen : h.method.paramLen = 1 := if_pos hm
      have hsup : h.method.Supported := by
        unfold BfwExt11Hdr.method at hm ⊢
        rw [hdis, if_neg (by decide)] at hm ⊢
        exact FhCompMethod.supported_ofNat hm hmeth
      rw [hlen] at hfit
      have hread : ∀ i ∈ List.range (iqLen n h.bfwIqWidth),
          readByte data (pos + h.method.paramLen + 2 + i) =
            .ok (byteOf data (pos + h.method.paramLen + 2 + i)) := by
        intro i hi
        have := List.mem_range.mp hi
        exact readByte_eq (by omega)
      rw [if_pos hm, readByte_eq (by omega), ok_bind, mapM_eq_ok hread, ok_bind,
        map_byteOf (by omega), fhDecompressBlock_eq hsup (hw hdis) rfl ?_, ok_bind]
      · simp only [weightAt, if_neg hm]
        refine congrArg (fun ws => Except.ok (Bundle.mk _ (some ws))) ?_
        refine List.map_congr_left fun i hi => ?_
        have hi' : (i + 1) * h.bfwIqWidth ≤ 2 * n * h.bfwIqWidth :=
          Nat.mul_le_mul_right _ (List.mem_range.mp hi)
        rw [Nat.succ_mul] at hi'
        rw [signedField_block (by omega)]
      · simp only [List.length_cons, List.length_take, List.length_drop]
        omega

theorem nBundles_pos (hp : 0 < numPrb) (hb : h.numBundPrb ≠ 0) : 0 < h.nBundles numPrb.toNat := by
  unfold BfwExt11Hdr.nBundles
  exact Nat.div_pos (by omega) (by omega)

theorem readExt11Hdr_eq (hfit : ext + 4 < data.length) :
    readExt11Hdr data ext = .ok (ext11Base data ext) := by
  rw [readExt11Hdr, readByte_eq (by omega), ok_bind, readByte_eq (by omega), ok_bind]
  rfl

theorem readBfwCompHdr_eq (hlen : 6 ≤ len) (hfit : ext + 5 < data.length) :
    readBfwCompHdr data ext len (ext11Base data ext) =
      .ok (if (ext11Hdr data ext).bfwCompMeth ≤ 3 then .ok (ext11Hdr data ext)
        else .error .compMeth) := by
  unfold readBfwCompHdr ext11Hdr
  cases hdis : (ext11Base data ext).disableBfws with
  | true => rfl
  | false =>
    simp only [Bool.false_eq_true, if_false]
    rw [if_neg (by omega), readByte_eq hfit, ok_bind]
    by_cases hmeth : (byteOf data (ext + 5)).toNat % 16 ≤ 3
    · rw [if_neg (by omega), if_pos hmeth, hdis]
      rfl
    · rw [if_pos (by omega), if_neg hmeth]
      rfl

theorem le_ext11Len : 8 ≤ ext11Len data ext numPrb n := by
  have hlen : 5 ≤ (ext11Hdr data ext).len := by
    unfold BfwExt11Hdr.len
    split <;> decide
  unfold ext11Len padded
  omega

theorem mapM_readBundle_eq (hmeth : (ext11Hdr data ext).bfwCompMeth ≤ 3)
    (hfit : ext + ext11Len data ext numPrb n ≤ data.length) :
    ((List.range ((ext11Hdr data ext).nBundles numPrb.toNat)).mapM fun b =>
      (ext11Hdr data ext).readBundle data n
        (ext + (ext11Hdr data ext).len + b * (ext11Hdr data ext).bundleLen n)) =
      .ok (ext11Bundles data ext numPrb n) := by
  refine mapM_eq_ok fun b hb => readBundle_eq hmeth ext11Hdr_bfwIqWidth ?_
  have hb' := Nat.mul_le_mul_right ((ext11Hdr data ext).bundleLen n) (List.mem_range.mp hb)
  rw [Nat.succ_mul] at hb'
  have hpad := le_padded ((ext11Hdr data ext).len +
    (ext11Hdr data ext).nBundles numPrb.toNat * (ext11Hdr data ext).bundleLen n)
  unfold ext11Len at hfit
  omega

theorem xranDecodeBfwExt11_eq (numPrb maxBundles : Int) (hn : 0 < n) (hext : ExtFits data 11 ext) :
    ∃ e, xranDecodeBfwExt11 data ext (4 * extWords data 11 ext) numPrb n maxBundles =
      .ok (if Ext11Good data ext numPrb n maxBundles then
          .ok (ext11Hdr data ext, ext11Bundles data ext numPrb n)
        else .error e) := by
  obtain ⟨hpos, hfit⟩ := hext
  unfold xranDecodeBfwExt11
  by_cases harg : 0 < numPrb ∧ 0 < n ∧ 0 < maxBundles
  swap
  · refine ⟨.arg, ?_⟩
    rw [if_pos harg, if_neg fun hgood : Ext11Good data ext numPrb n maxBundles => ?_]
    · rfl
    · have hnb := nBundles_pos hgood.1 hgood.2.1
      have hmax := hgood.2.2.1
      exact harg ⟨hgood.1, hn, by omega⟩
  rw [if_neg (not_not.mpr harg)]
  by_cases hshort : 4 * extWords data 11 ext < 5
  · -- a single word has no room for the header
    refine ⟨.truncated, ?_⟩
    have hge : 8 ≤ ext11Len data ext numPrb n := le_ext11Len
    rw [if_pos hshort, if_neg fun hgood : Ext11Good data ext numPrb n maxBundles => by
      have := hgood.2.2.2.2
      omega]
    rfl
  rw [if_neg hshort, readExt11Hdr_eq (by omega), ok_bind, ← ext11Hdr_numBundPrb]
  by_cases hbund : (ext11Hdr data ext).numBundPrb = 0
  · refine ⟨.numBundPrb, ?_⟩
    rw [if_pos hbund, if_neg fun hgood => hgood.2.1 hbund]
    rfl
  dsimp only
  rw [if_neg hbund, ← ext11Hdr_nBundles]
  by_cases hmany : ((ext11Hdr data ext).nBundles numPrb.toNat : Int) ≤ maxBundles
  swap
  · refine ⟨.tooManyBundles, ?_⟩
    rw [if_pos (by omega), if_neg fun hgood => hmany hgood.2.2.1]
    rfl
  rw [if_neg (by omega), readBfwCompHdr_eq (by omega) (by omega), ok_bind]
  by_cases hmeth : (ext11Hdr data ext).bfwCompMeth ≤ 3
  swap
  · refine ⟨.compMeth, ?_⟩
    rw [if_neg hmeth, if_neg fun hgood => hmeth hgood.2.2.2.1]
    rfl
  rw [if_pos hmeth]
  dsimp only
  have hwide : (if wideExtLen 11 then 2 else 1) = 2 := rfl
  rw [readExtLen_eq (by rw [hwide]; omega), ok_bind, Nat.mul_comm _ 4, ← ext11Len]
  by_cases hlen : 4 * extWords data 11 ext = ext11Len data ext numPrb n
  · refine ⟨.arg, ?_⟩
    rw [if_neg (not_not.mpr hlen), if_neg (Nat.lt_irrefl _), mapM_readBundle_eq hmeth (by omega),
      ok_bind, if_pos (show Ext11Good data ext numPrb n maxBundles from
        ⟨harg.1, hbund, hmany, hmeth, hlen⟩)]
    rfl
  · refine ⟨.extLen, ?_⟩
    rw [if_pos hlen, if_neg fun hgood => hlen hgood.2.2.2.2]
    rfl

end Ext11

end OpenAir.Oru

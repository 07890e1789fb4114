import Mathlib.Data.Nat.Log
import Mathlib.Data.Nat.Prime.Basic
import Mathlib.Tactic.IntervalCases
import Mathlib.Tactic.NormNum.Prime
import OpenAir.Oru.Compression

/-! Mu-law companding of samples.  The encoder keeps four bits below the leading one of the biased
magnitude, the decoder builds the magnitude from these bits alone. -/

namespace OpenAir.Oru

def ulawClip : Nat := 32734

def ulawBias : Nat := 33

def ulawSeg : Nat → Nat → Nat
  | 0, _ => 0
  | n + 1, t => if t > 1 then ulawSeg n (t >>> 1) + 1 else 0

def ulawEncode (s : Int) (iqBits : Nat) : Int :=
  let sign : Int := if s < 0 then -1 else 1
  let x := (if s.natAbs > ulawClip then ulawClip else s.natAbs) + ulawBias
  let seg := ulawSeg 7 (x >>> 5)
  let code := (((x >>> (seg + 1)) &&& 0x0F) ||| (seg <<< 4)) ^^^ 0x7F
  let peak := 2 ^ (iqBits - 1) - 1
  int16 (sign * (code * peak / 127 : Nat))

def ulawReconstruct (w : Nat) (s : Int) : Int := ulawDecode (ulawEncode s w) w

def ulawClipped (s : Int) : Int := max (-ulawClip) (min ulawClip s)

def ulawBiased (s : Int) : Nat := (ulawClipped s).natAbs + ulawBias

def ulawSegmentWidth (s : Int) : Nat := 2 ^ (ulawBiased s).log2

/-- The reconstruction of a sample is not further from it than its segment is wide. -/
def UlawBounded (w : Nat) (s : Int) : Prop :=
  (ulawReconstruct w s - ulawClipped s).natAbs ≤ ulawSegmentWidth s

/-- The last segment has no end. -/
def ulawSegment (s : Int) : Nat := min 7 ((ulawBiased s).log2 - 5)

/-- One of sixteen steps of the segment, four bits below the leading one. -/
def ulawStep (s : Int) : Nat := ulawBiased s / 2 ^ (ulawSegment s + 1) % 16

def ulawCode (s : Int) : Nat := 16 * ulawSegment s + ulawStep s

/-- At these widths the rescaling of the codes by the peak is exact. -/
def ulawExact (w : Nat) : Bool := w = 8 ∨ w = 15

def ulawDecodedCode (w : Nat) (s : Int) : Nat :=
  if ulawExact w ∨ ulawCode s = 0 ∨ ulawCode s = 127 then ulawCode s else ulawCode s + 1

/-- The middle of a step, counted from the leading one of its segment. -/
def ulawMiddle (w : Nat) (s : Int) : Nat :=
  (2 * (ulawDecodedCode w s % 16) + 1) * 2 ^ (ulawDecodedCode w s / 16)

/-- The sign of a negative sample is kept, unless it is encoded as zero. -/
def UlawNegative (s : Int) : Prop := s < 0 ∧ ulawCode s ≠ 127

instance :
    DecidablePred UlawNegative := fun s => inferInstanceAs (Decidable (s < 0 ∧ ulawCode s ≠ 127))

/-- What the steps of two samples have to be like; middles up to 8 are decoded as zero. -/
def UlawOrdered (w : Nat) (s t : Int) : Prop :=
  if UlawNegative s then UlawNegative t → ulawMiddle w t ≤ max 8 (ulawMiddle w s)
  else ¬UlawNegative t ∧ ulawMiddle w s ≤ max 8 (ulawMiddle w t)

/-- In the last segment the steps are counted again from every multiple of 4096. -/
def UlawNear (w : Nat) (s : Int) : Prop :=
  if ulawBiased s < 8192 then ulawStep s ≤ if ulawExact w then 10 else 8
  else (s < 0 → UlawNegative s) ∧ ulawBiased s ≤ 4 * ulawMiddle w s + ulawSegmentWidth s

variable {w : Nat} {s t : Int}

theorem ulawSeg_eq (n t : Nat) : ulawSeg n t = min n t.log2 := by
  induction n generalizing t with
  | zero => simp [ulawSeg]
  | succ n ih =>
    unfold ulawSeg
    split
    · next h =>
      rw [ih, Nat.shiftRight_eq_div_pow, Nat.log2_def t, if_pos (by omega), pow_one]
      omega
    · next h =>
      rw [Nat.log2_def, if_neg (by omega), Nat.min_zero]

theorem int16_eq {v : Int} (hlo : -2 ^ 15 ≤ v) (hhi : v < 2 ^ 15) : int16 v = v := by
  rw [int16, BitVec.toInt_ofInt]
  exact Int.bmod_eq_of_le (by omega) (by omega)

/-- A code loses one in the rescaling, unless it divides. -/
theorem rescale_eq {code peak : Nat} (hpeak : 127 ≤ peak) :
    code * peak / 127 * 127 / peak = if 127 ∣ code * peak then code else code - 1 := by
  have hmod := Nat.div_add_mod' (code * peak) 127
  split
  · next h => rw [Nat.div_mul_cancel h, Nat.mul_div_cancel _ (by omega)]
  · next h =>
    have hpos : 0 < code * peak % 127 := Nat.pos_of_ne_zero fun h0 => h (Nat.dvd_of_mod_eq_zero h0)
    have hlt := Nat.mod_lt (code * peak) (show 127 > 0 by decide)
    obtain ⟨c, rfl⟩ : ∃ c, code = c + 1 := Nat.exists_eq_succ_of_ne_zero (by rintro rfl; simp at h)
    have hsucc : (c + 1) * peak = c * peak + peak := Nat.succ_mul c peak
    rw [Nat.add_sub_cancel]
    exact Nat.div_eq_of_lt_le (by omega) (by omega)

theorem ulawBiased_bounds (s : Int) : 33 ≤ ulawBiased s ∧ ulawBiased s ≤ 32767 := by
  unfold ulawBiased ulawClipped ulawBias ulawClip
  omega

theorem encoded_code (s : Int) :
    (((ulawBiased s >>> (ulawSegment s + 1)) &&& 0x0F) ||| (ulawSegment s <<< 4)) ^^^ 0x7F =
      127 - ulawCode s := by
  have htable : ∀ seg < 8, ∀ m < 16, (m ||| (seg <<< 4)) ^^^ 127 = 127 - (16 * seg + m) := by decide
  have hseg : ulawSegment s < 8 := by
    unfold ulawSegment
    omega
  rw [show (0x0F : Nat) = 2 ^ 4 - 1 from rfl, Nat.and_two_pow_sub_one_eq_mod,
    Nat.shiftRight_eq_div_pow]
  exact htable _ hseg _ (Nat.mod_lt _ (by decide))

theorem ulawCode_le (s : Int) : ulawCode s ≤ 127 := by
  have hstep : ulawStep s < 16 := Nat.mod_lt _ (by decide)
  unfold ulawCode ulawSegment
  omega

theorem decoded_magnitude : ∀ code ≤ 127,
    (((code &&& 0x0F) <<< 1) ||| 1) <<< (((code >>> 4) &&& 0x07) + 2) =
      4 * ((2 * (code % 16) + 1) * 2 ^ (code / 16)) := by
  decide

def ulawPeak (w : Nat) : Nat := 2 ^ (w - 1) - 1

theorem ulawPeak_bounds (hw : 8 ≤ w ∧ w ≤ 16) : 127 ≤ ulawPeak w ∧ ulawPeak w < 2 ^ 15 := by
  have hlo : 2 ^ 7 ≤ 2 ^ (w - 1) := Nat.pow_le_pow_right (by decide) (by omega)
  have hhi : 2 ^ (w - 1) ≤ 2 ^ 15 := Nat.pow_le_pow_right (by decide) (by omega)
  unfold ulawPeak
  omega

theorem dvd_ulawPeak_iff (hw : 8 ≤ w ∧ w ≤ 16) : 127 ∣ ulawPeak w ↔ ulawExact w := by
  obtain ⟨hlo, hhi⟩ := hw
  interval_cases w <;> decide

theorem ulawEncode_eq (s : Int) (hw : 8 ≤ w ∧ w ≤ 16) :
    ulawEncode s w = (if s < 0 then -1 else 1) * ((127 - ulawCode s) * ulawPeak w / 127 : Nat) := by
  obtain ⟨_, hpeak⟩ := ulawPeak_bounds hw
  have hle : (127 - ulawCode s) * ulawPeak w / 127 ≤ ulawPeak w :=
    Nat.div_le_of_le_mul (Nat.mul_le_mul_right _ (by omega))
  have hbiased :
      (if s.natAbs > ulawClip then ulawClip else s.natAbs) + ulawBias = ulawBiased s := by
    unfold ulawBiased ulawClipped ulawBias ulawClip
    split <;> omega
  have hseg : ulawSeg 7 (ulawBiased s >>> 5) = ulawSegment s := by
    rw [ulawSeg_eq, Nat.shiftRight_eq_div_pow, Nat.log2_eq_log_two, Nat.log_div_base_pow,
      ← Nat.log2_eq_log_two]
    rfl
  unfold ulawEncode
  dsimp only
  rw [hbiased, hseg, encoded_code]
  change int16 ((if s < 0 then -1 else 1) *
    (((127 - ulawCode s) * ulawPeak w / 127 : Nat) : Int)) = _
  refine int16_eq ?_ ?_ <;> split <;> omega

/-- What the decoder finds: the code, or the one behind it. -/
theorem rescaled_code (s : Int) (hw : 8 ≤ w ∧ w ≤ 16) :
    (127 - ulawCode s) * ulawPeak w / 127 * 127 / ulawPeak w = 127 - ulawDecodedCode w s := by
  have hcode := ulawCode_le s
  have hdvd : 127 ∣ (127 - ulawCode s) * ulawPeak w ↔ ulawExact w ∨ ulawCode s = 0 ∨
      ulawCode s = 127 := by
    have hcodes : 127 ∣ 127 - ulawCode s ↔ ulawCode s = 0 ∨ ulawCode s = 127 := by omega
    rw [Nat.Prime.dvd_mul (by norm_num), dvd_ulawPeak_iff hw, hcodes, or_comm]
  rw [rescale_eq (ulawPeak_bounds hw).1]
  unfold ulawDecodedCode
  simp only [hdvd]
  split <;> omega

theorem ulawDecodedCode_le (w : Nat) (s : Int) : ulawDecodedCode w s ≤ 127 := by
  have hcode := ulawCode_le s
  unfold ulawDecodedCode
  split <;> omega

theorem ulawMiddle_le (w : Nat) (s : Int) : ulawMiddle w s ≤ 3968 := by
  have htable : ∀ code ≤ 127, (2 * (code % 16) + 1) * 2 ^ (code / 16) ≤ 3968 := by decide
  exact htable _ (ulawDecodedCode_le w s)

/-- The reconstruction, from the step alone. -/
theorem ulawReconstruct_eq (s : Int) (hw : 8 ≤ w ∧ w ≤ 16) :
    ulawReconstruct w s = (if UlawNegative s then -1 else 1) * (4 * ulawMiddle w s - 33 : Nat) := by
  obtain ⟨hpeak, _⟩ := ulawPeak_bounds hw
  have hcode := ulawCode_le s
  have hzero : (127 - ulawCode s) * ulawPeak w / 127 = 0 ↔ ulawCode s = 127 := by
    rw [Nat.div_eq_zero_iff]
    constructor
    · intro h
      by_contra hne
      have hmul := Nat.mul_le_mul (show 1 ≤ 127 - ulawCode s by omega) hpeak
      omega
    · intro h
      simp [h]
  have habs :
      ((if s < 0 then -1 else 1) * ((127 - ulawCode s) * ulawPeak w / 127 : Nat) : Int).natAbs =
      (127 - ulawCode s) * ulawPeak w / 127 := by
    split <;> omega
  have hsign : ((if s < 0 then -1 else 1) * ((127 - ulawCode s) * ulawPeak w / 127 : Nat) : Int) <
      0 ↔ UlawNegative s := by
    unfold UlawNegative
    split <;> omega
  have hxor : ∀ c ≤ 127, (127 - c) ^^^ 0x7F = c := by decide
  have hmiddle := ulawMiddle_le w s
  unfold ulawReconstruct ulawDecode
  rw [ulawEncode_eq s hw]
  dsimp only
  rw [habs,
    if_neg (show ¬2 ^ (w - 1) - 1 = 0 from Nat.ne_of_gt (Nat.lt_of_lt_of_le (by decide) hpeak)),
    show 2 ^ (w - 1) - 1 = ulawPeak w from rfl, rescaled_code s hw, hxor _ (ulawDecodedCode_le w s),
    decoded_magnitude _ (ulawDecodedCode_le w s)]
  simp only [hsign]
  change int16 ((if UlawNegative s then -1 else 1) *
    if ((4 * ulawMiddle w s : Nat) : Int) - 33 < 0 then 0
    else ((4 * ulawMiddle w s : Nat) : Int) - 33) = _
  rw [int16_eq] <;> split <;> split <;> omega

theorem ulawMiddle_of_top (hcode : ulawCode s = 127) : ulawMiddle w s = 3968 := by
  have hdecoded : ulawDecodedCode w s = 127 := by
    rw [ulawDecodedCode, if_pos (.inr (.inr hcode)), hcode]
  rw [ulawMiddle, hdecoded]
  rfl

theorem reconstruct_le_iff (hw : 8 ≤ w ∧ w ≤ 16) (hst : s ≤ t) :
    ulawReconstruct w s ≤ ulawReconstruct w t ↔ UlawOrdered w s t := by
  rw [ulawReconstruct_eq s hw, ulawReconstruct_eq t hw]
  unfold UlawOrdered
  by_cases hs : UlawNegative s <;> by_cases ht : UlawNegative t <;>
    simp only [hs, ht, if_true, if_false, not_true, not_false_iff, true_and, false_and,
      true_imp_iff, false_imp_iff, iff_true, iff_false]
  · omega
  · omega
  · -- the sign of the lower sample is lost, so it comes back as the largest
    have hcode : ulawCode s = 127 := by
      by_contra hne
      exact hs ⟨lt_of_le_of_lt hst ht.1, hne⟩
    rw [ulawMiddle_of_top hcode]
    omega
  · omega

theorem bounded_iff (hw : 8 ≤ w ∧ w ≤ 16) :
    UlawBounded w s ↔ (s < 0 → UlawNegative s) ∧
      4 * ulawMiddle w s - 33 ≤ ulawBiased s - 33 + ulawSegmentWidth s ∧
      ulawBiased s - 33 ≤ 4 * ulawMiddle w s - 33 + ulawSegmentWidth s := by
  have hclip : ulawClipped s = (if s < 0 then -1 else 1) * (ulawBiased s - 33 : Nat) := by
    unfold ulawBiased ulawClipped ulawBias ulawClip
    split <;> omega
  have hwidth : ulawSegmentWidth s ≤ ulawBiased s :=
    Nat.log2_self_le (Nat.ne_of_gt (Nat.lt_of_lt_of_le (by decide) (ulawBiased_bounds s).1))
  unfold UlawBounded
  rw [ulawReconstruct_eq s hw, hclip]
  by_cases hs : s < 0
  · by_cases hneg : UlawNegative s
    · simp only [hs, hneg, if_true, true_imp_iff, true_and]
      omega
    · have hcode : ulawCode s = 127 := by
        by_contra hne
        exact hneg ⟨hs, hne⟩
      rw [ulawMiddle_of_top hcode]
      simp only [hs, hneg, if_true, if_false, true_imp_iff, false_and, iff_false]
      omega
  · have hneg : ¬UlawNegative s := fun h => hs h.1
    simp only [hs, hneg, if_false, false_imp_iff, true_and]
    omega

/-- The middles of the steps of a segment; from the last one the decoder may go to the next
segment. -/
theorem ulawMiddle_eq (w : Nat) (s : Int) :
    ulawMiddle w s =
      if ulawExact w ∨ ulawCode s = 0 ∨ ulawCode s = 127 then
      (2 * ulawStep s + 1) * 2 ^ ulawSegment s
      else if ulawStep s = 15 then 2 ^ (ulawSegment s + 1)
      else (2 * ulawStep s + 3) * 2 ^ ulawSegment s := by
  have hstep : ulawStep s < 16 := Nat.mod_lt _ (by decide)
  unfold ulawMiddle ulawDecodedCode ulawCode
  split
  · rw [show (16 * ulawSegment s + ulawStep s) % 16 = ulawStep s by omega,
      show (16 * ulawSegment s + ulawStep s) / 16 = ulawSegment s by omega]
  · split
    · rw [show (16 * ulawSegment s + ulawStep s + 1) % 16 = 0 by omega,
        show (16 * ulawSegment s + ulawStep s + 1) / 16 = ulawSegment s + 1 by omega]
      omega
    · rw [show (16 * ulawSegment s + ulawStep s + 1) % 16 = ulawStep s + 1 by omega,
        show (16 * ulawSegment s + ulawStep s + 1) / 16 = ulawSegment s by omega]
      rfl

/-- The distance of the middle of a step, four times as far from the leading one as it should be. -/
theorem segment_iff {g x m middle : Nat} {exact : Bool} (hg : 1 ≤ g ∧ g ≤ 7) (hlo : 2 ^ (g + 5) ≤ x)
    (hhi : x < 2 ^ (g + 6)) (hm : x / 2 ^ (g + 1) = 16 + m)
    (hmiddle : middle = if exact then (2 * m + 1) * 2 ^ g else if m = 15 then 2 ^ (g + 1)
      else (2 * m + 3) * 2 ^ g) :
    4 * middle - 33 ≤ x - 33 + 2 ^ (g + 5) ∧ x - 33 ≤ 4 * middle - 33 + 2 ^ (g + 5) ↔
      m ≤ if exact then 10 else 8 := by
  obtain ⟨hfirst, hlast⟩ := hg
  -- in each case, the segments one by one with their powers of two
  split at hmiddle
  · next hexact =>
    rw [if_pos hexact]
    interval_cases g <;> omega
  · next hexact =>
    rw [if_neg hexact]
    split at hmiddle
    · interval_cases g <;> omega
    · interval_cases g <;> omega

theorem bounded_iff_near (hw : 8 ≤ w ∧ w ≤ 16) (hbias : ulawBias < s.natAbs) :
    UlawBounded w s ↔ UlawNear w s := by
  have hlo : 67 ≤ ulawBiased s := by
    unfold ulawBiased ulawClipped ulawClip
    unfold ulawBias at hbias ⊢
    omega
  have hself : 2 ^ (ulawBiased s).log2 ≤ ulawBiased s := Nat.log2_self_le (by omega)
  have hnext : ulawBiased s < 2 ^ ((ulawBiased s).log2 + 1) := Nat.lt_log2_self
  have hstep : ulawStep s < 16 := Nat.mod_lt _ (by decide)
  rw [bounded_iff hw]
  unfold UlawNear
  split
  · next hsmall =>
    have hlog : (ulawBiased s).log2 < 13 := (Nat.log2_lt (by omega)).mpr hsmall
    have hlog' : 6 ≤ (ulawBiased s).log2 := (Nat.le_log2 (by omega)).mpr (by omega)
    obtain ⟨g, hg⟩ : ∃ g, (ulawBiased s).log2 = g + 5 := ⟨(ulawBiased s).log2 - 5, by omega⟩
    have hseg : ulawSegment s = g := by
      unfold ulawSegment
      omega
    have hwidth : ulawSegmentWidth s = 2 ^ (g + 5) := by rw [ulawSegmentWidth, hg]
    have hcode : ulawCode s = 16 * g + ulawStep s := by rw [ulawCode, hseg]
    rw [hg] at hself hnext
    by_cases htop : ulawCode s = 127
    · -- the last step of all is decoded too far away, with any sign
      obtain rfl : g = 7 := by omega
      rw [ulawMiddle_of_top htop, hwidth]
      refine iff_of_false (by omega) ?_
      split <;> omega
    · have hsign : s < 0 → UlawNegative s := fun hs => ⟨hs, htop⟩
      have hzero : ulawCode s ≠ 0 := by omega
      have hmiddle := ulawMiddle_eq w s
      rw [hseg] at hmiddle
      simp only [htop, hzero, or_false] at hmiddle
      rw [and_iff_right hsign, hwidth]
      have hpow : 2 ^ (g + 5) = 2 ^ (g + 1) * 16 := pow_add 2 (g + 1) 4
      have hquot : ulawBiased s / 2 ^ (g + 1) = 16 + ulawStep s := by
        have hle := (Nat.le_div_iff_mul_le (Nat.two_pow_pos (g + 1))).mpr
          (show 16 * 2 ^ (g + 1) ≤ ulawBiased s by omega)
        have hlt := Nat.div_lt_of_lt_mul (show ulawBiased s < 2 ^ (g + 1) * 32 by omega)
        rw [ulawStep, hseg]
        omega
      exact segment_iff (by omega) hself hnext hquot hmiddle
  · next hlarge =>
    have hlog : 13 ≤ (ulawBiased s).log2 := (Nat.le_log2 (by omega)).mpr (by omega)
    have hseg : ulawSegment s = 7 := by
      unfold ulawSegment
      omega
    have hwidth : 2 ^ 13 ≤ ulawSegmentWidth s := Nat.pow_le_pow_right (by decide) hlog
    have hmiddle := ulawMiddle_le w s
    have hpos : 2 ^ 7 ≤ ulawMiddle w s := by
      rw [ulawMiddle_eq, hseg]
      split
      · omega
      · split <;> omega
    refine and_congr_right fun _ => ?_
    omega

end OpenAir.Oru

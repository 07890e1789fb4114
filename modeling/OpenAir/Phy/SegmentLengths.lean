import Mathlib
import OpenAir.Lib.Rounding

namespace OpenAir.Phy

open Finset

/-- `nr_get_E`: the length is computed in 32 unsigned bits and returned in a signed `int`. -/
def nrGetE (g : BitVec 32) (c qm nl r : BitVec 8) : Int :=
  if nl = 0 ∨ qm = 0 then -1
  else
    let unit := nl.setWidth 32 * qm.setWidth 32
    let cPrime := c.setWidth 32
    let e :=
      if r.setWidth 32 ≤ cPrime - g / unit % cPrime - 1 then unit * (g / (unit * cPrime))
      else unit * (g / (unit * cPrime) + 1)
    e.toInt

structure SegmentSplit where
  e : Int
  e2 : Int
  firstRE2 : Nat
  deriving DecidableEq

def SegmentSplit.length (s : SegmentSplit) (r : Nat) : Int := if r < s.firstRE2 then s.e else s.e2

def decoderSplit (g : BitVec 32) (c qm nl : BitVec 8) : Option SegmentSplit :=
  let length (r : Nat) := nrGetE g c qm nl (BitVec.ofNat 8 r)
  if length 0 < 0 then none
  else
    match (List.range c.toNat).find? (fun r => length r ≠ length 0) with
    | some r => some { e := length 0, e2 := length r, firstRE2 := r }
    | none => some { e := length 0, e2 := length 0, firstRE2 := c.toNat }

structure SplitsExactly (g : BitVec 32) (c qm nl : BitVec 8) : Prop where
  unit_dvd : ∀ r < c.toNat, (nl.toNat * qm.toNat : Int) ∣ nrGetE g c qm nl (BitVec.ofNat 8 r)
  mono : ∀ s < c.toNat, ∀ r ≤ s,
    nrGetE g c qm nl (BitVec.ofNat 8 r) ≤ nrGetE g c qm nl (BitVec.ofNat 8 s)
  close : ∀ s < c.toNat, ∀ r < c.toNat,
    nrGetE g c qm nl (BitVec.ofNat 8 s) ≤ nrGetE g c qm nl (BitVec.ofNat 8 r) + nl.toNat * qm.toNat
  sum : ∑ r ∈ range c.toNat, nrGetE g c qm nl (BitVec.ofNat 8 r) = g.toNat
  described : ∃ split, decoderSplit g c qm nl = some split ∧
    ∀ r < c.toNat, split.length r = nrGetE g c qm nl (BitVec.ofNat 8 r)

def longestSegment (g : BitVec 32) (c qm nl : BitVec 8) : Nat :=
  nl.toNat * qm.toNat * ceilDiv (g.toNat / (nl.toNat * qm.toNat)) c.toNat

def segmentShare (g : BitVec 32) (c qm nl : BitVec 8) (r : Nat) : Nat :=
  nl.toNat * qm.toNat * evenPart (g.toNat / (nl.toNat * qm.toNat)) c.toNat r

section

variable {g : BitVec 32} {c qm nl : BitVec 8} {r s : Nat}

theorem segmentShare_mono (h : r ≤ s) : segmentShare g c qm nl r ≤ segmentShare g c qm nl s :=
  Nat.mul_le_mul_left _ (evenPart_mono h)

theorem segmentShare_le_add_unit :
    segmentShare g c qm nl s ≤ segmentShare g c qm nl r + nl.toNat * qm.toNat :=
  Nat.mul_le_mul_left _ evenPart_le_succ

theorem toNat_setWidth_mul (a b : BitVec 8) :
    (a.setWidth 32 * b.setWidth 32).toNat = a.toNat * b.toNat := by
  have hlt := Nat.mul_lt_mul'' a.isLt b.isLt
  rw [BitVec.toNat_mul, BitVec.toNat_setWidth_of_le (by decide),
    BitVec.toNat_setWidth_of_le (by decide)]
  exact Nat.mod_eq_of_lt (by omega)

variable (hc : 1 ≤ c.toNat) (hqm : 1 ≤ qm.toNat) (hnl : 1 ≤ nl.toNat)
  (hdvd : nl.toNat * qm.toNat ∣ g.toNat)

include hc

theorem segmentShare_last : segmentShare g c qm nl (c.toNat - 1) = longestSegment g c qm nl := by
  rw [segmentShare, evenPart_last hc, longestSegment]

theorem segmentShare_le_longestSegment (hr : r < c.toNat) :
    segmentShare g c qm nl r ≤ longestSegment g c qm nl :=
  segmentShare_last hc ▸ segmentShare_mono (Nat.le_sub_one_of_lt hr)

include hdvd in
theorem sum_segmentShare : ∑ r ∈ range c.toNat, segmentShare g c qm nl r = g.toNat := by
  unfold segmentShare
  rw [← mul_sum, sum_evenPart hc, Nat.mul_div_cancel' hdvd]

include hdvd in
theorem segmentShare_lt (hr : r < c.toNat) : segmentShare g c qm nl r < 2 ^ 32 := by
  calc segmentShare g c qm nl r ≤ ∑ r ∈ range c.toNat, segmentShare g c qm nl r :=
        single_le_sum (fun _ _ => Nat.zero_le _) (mem_range.mpr hr)
    _ = g.toNat := sum_segmentShare hc hdvd
    _ < 2 ^ 32 := g.isLt

theorem decoderSplit_describes
    (hlength : ∀ r < c.toNat, nrGetE g c qm nl (BitVec.ofNat 8 r) = segmentShare g c qm nl r) :
    ∃ split, decoderSplit g c qm nl = some split ∧
      ∀ r < c.toNat, split.length r = nrGetE g c qm nl (BitVec.ofNat 8 r) := by
  have hnonneg : ¬ nrGetE g c qm nl (BitVec.ofNat 8 0) < 0 := by
    rw [hlength 0 hc]
    exact not_lt.mpr (Int.natCast_nonneg _)
  rw [decoderSplit]
  simp only [if_neg hnonneg]
  cases hfind : (List.range c.toNat).find?
      (fun r => nrGetE g c qm nl (BitVec.ofNat 8 r) ≠ nrGetE g c qm nl (BitVec.ofNat 8 0)) with
  | none =>
    refine ⟨_, rfl, fun r hr => ?_⟩
    have hsame := List.find?_eq_none.mp hfind r (List.mem_range.mpr hr)
    rw [SegmentSplit.length, if_pos hr]
    exact (not_not.mp (mt decide_eq_true hsame)).symm
  | some first =>
    obtain ⟨hstep, hfirst, hbefore⟩ := List.find?_range_eq_some.mp hfind
    refine ⟨_, rfl, fun r hr => ?_⟩
    rw [SegmentSplit.length]
    split <;> rename_i h
    · have hsame := hbefore r h
      simp only [Bool.not_eq_true', decide_eq_false_iff_not, not_not] at hsame
      exact hsame.symm
    · have hpart : evenPart (g.toNat / (nl.toNat * qm.toNat)) c.toNat first ≠
          evenPart (g.toNat / (nl.toNat * qm.toNat)) c.toNat 0 := by
        intro heq
        rw [hlength first (List.mem_range.mp hfirst), hlength 0 hc, segmentShare, heq] at hstep
        simp [segmentShare] at hstep
      rw [hlength first (List.mem_range.mp hfirst), hlength r hr, segmentShare, segmentShare,
        evenPart_eq_of_ne hpart (not_lt.mp h)]

include hqm hnl

theorem nrGetE_eq (hr : r < c.toNat) :
    nrGetE g c qm nl (BitVec.ofNat 8 r) = (BitVec.ofNat 32 (segmentShare g c qm nl r)).toInt := by
  have hzero : ¬ (nl = 0 ∨ qm = 0) := by
    rintro (rfl | rfl)
    · exact absurd hnl (by decide)
    · exact absurd hqm (by decide)
  have hcPrime : (c.setWidth 32).toNat = c.toNat := BitVec.toNat_setWidth_of_le (by decide)
  have hindex : ((BitVec.ofNat 8 r).setWidth 32).toNat = r := by
    rw [BitVec.toNat_setWidth_of_le (by decide), BitVec.toNat_ofNat,
      Nat.mod_eq_of_lt (hr.trans c.isLt)]
  have hunit := toNat_setWidth_mul nl qm
  have hunits :
      (nl.setWidth 32 * qm.setWidth 32 * c.setWidth 32).toNat = nl.toNat * qm.toNat * c.toNat := by
    have hlt := Nat.mul_lt_mul'' (Nat.mul_lt_mul'' nl.isLt qm.isLt) c.isLt
    rw [BitVec.toNat_mul, hunit, hcPrime]
    exact Nat.mod_eq_of_lt (by omega)
  rw [nrGetE, if_neg hzero]
  dsimp only
  congr 1
  generalize nl.setWidth 32 * qm.setWidth 32 = unit at hunit hunits ⊢
  have hquot : (g / (unit * c.setWidth 32)).toNat = g.toNat / (nl.toNat * qm.toNat) / c.toNat := by
    rw [BitVec.toNat_udiv, hunits, Nat.div_div_eq_div_mul]
  have hrest : (g / unit % c.setWidth 32).toNat = g.toNat / (nl.toNat * qm.toNat) % c.toNat := by
    rw [BitVec.toNat_umod, BitVec.toNat_udiv, hunit, hcPrime]
  have hcond : (BitVec.ofNat 8 r).setWidth 32 ≤ c.setWidth 32 - g / unit % c.setWidth 32 - 1 ↔
      r < c.toNat - g.toNat / (nl.toNat * qm.toNat) % c.toNat := by
    have hmod := Nat.mod_lt (g.toNat / (nl.toNat * qm.toNat)) hc
    have hle : g / unit % c.setWidth 32 ≤ c.setWidth 32 := by
      rw [BitVec.le_def, hrest, hcPrime]
      exact hmod.le
    have hdiff := BitVec.toNat_sub_of_le hle
    rw [hrest, hcPrime] at hdiff
    have hone : (1 : BitVec 32) ≤ c.setWidth 32 - g / unit % c.setWidth 32 := by
      rw [BitVec.le_def, hdiff]
      change 1 ≤ _
      omega
    rw [BitVec.le_def, BitVec.toNat_sub_of_le hone, hdiff, hindex]
    change r ≤ _ - 1 ↔ _
    omega
  apply BitVec.eq_of_toNat_eq
  rw [BitVec.toNat_ofNat, segmentShare, evenPart]
  split <;> rename_i h
  · rw [if_pos (hcond.mp h), BitVec.toNat_mul, hunit, hquot]
  · rw [if_neg (fun h' => h (hcond.mpr h')), BitVec.toNat_mul, hunit, BitVec.toNat_add, hquot]
    exact Nat.mul_mod_mod _ _ _

theorem nrGetE_of_lt (hr : r < c.toNat) (hlt : segmentShare g c qm nl r < 2 ^ 31) :
    nrGetE g c qm nl (BitVec.ofNat 8 r) = segmentShare g c qm nl r := by
  rw [nrGetE_eq hc hqm hnl hr, BitVec.toInt_ofNat', Int.bmod_eq_of_le (by omega) (by omega)]

include hdvd

theorem nrGetE_of_le (hr : r < c.toNat) (hle : 2 ^ 31 ≤ segmentShare g c qm nl r) :
    nrGetE g c qm nl (BitVec.ofNat 8 r) = segmentShare g c qm nl r - 2 ^ 32 := by
  rw [nrGetE_eq hc hqm hnl hr, BitVec.toInt_eq_toNat_cond, BitVec.toNat_ofNat,
    Nat.mod_eq_of_lt (segmentShare_lt hc hdvd hr), if_neg (by omega)]
  rfl

theorem nrGetE_le (hr : r < c.toNat) :
    nrGetE g c qm nl (BitVec.ofNat 8 r) ≤ segmentShare g c qm nl r := by
  rcases lt_or_ge (segmentShare g c qm nl r) (2 ^ 31) with h | h
  · exact (nrGetE_of_lt hc hqm hnl hr h).le
  · rw [nrGetE_of_le hc hqm hnl hdvd hr h]
    omega

theorem sum_nrGetE_ne (hlong : 2 ^ 31 ≤ longestSegment g c qm nl) :
    ∑ r ∈ range c.toNat, nrGetE g c qm nl (BitVec.ofNat 8 r) ≠ g.toNat := by
  have hlast : c.toNat - 1 < c.toNat := by omega
  apply ne_of_lt
  calc ∑ r ∈ range c.toNat, nrGetE g c qm nl (BitVec.ofNat 8 r)
      < ∑ r ∈ range c.toNat, (segmentShare g c qm nl r : Int) := by
        refine sum_lt_sum (fun r hr => nrGetE_le hc hqm hnl hdvd (mem_range.mp hr))
          ⟨c.toNat - 1, mem_range.mpr hlast, ?_⟩
        rw [nrGetE_of_le hc hqm hnl hdvd hlast (by rw [segmentShare_last hc]; exact hlong)]
        omega
    _ = g.toNat := by rw [← Nat.cast_sum, sum_segmentShare hc hdvd]

end

/-- The lengths are right as long as the longest one is an `int`. -/
theorem splitsExactly_iff (g : BitVec 32) (c qm nl : BitVec 8) (hc : 1 ≤ c.toNat)
    (hqm : 1 ≤ qm.toNat) (hnl : 1 ≤ nl.toNat) (hdvd : nl.toNat * qm.toNat ∣ g.toNat) :
    SplitsExactly g c qm nl ↔ longestSegment g c qm nl < 2 ^ 31 := by
  constructor
  · intro h
    by_contra hlong
    exact sum_nrGetE_ne hc hqm hnl hdvd (not_lt.mp hlong) h.sum
  · intro hlong
    have hlength : ∀ r < c.toNat, nrGetE g c qm nl (BitVec.ofNat 8 r) = segmentShare g c qm nl r :=
      fun r hr => nrGetE_of_lt hc hqm hnl hr ((segmentShare_le_longestSegment hc hr).trans_lt hlong)
    refine ⟨fun r hr => ?_, fun s hs r hrs => ?_, fun s hs r hr => ?_, ?_,
      decoderSplit_describes hc hlength⟩
    · rw [hlength r hr, segmentShare]
      exact_mod_cast Nat.dvd_mul_right _ _
    · rw [hlength s hs, hlength r (hrs.trans_lt hs)]
      exact_mod_cast segmentShare_mono hrs
    · rw [hlength s hs, hlength r hr]
      exact_mod_cast segmentShare_le_add_unit
    · rw [sum_congr rfl fun r hr => hlength r (mem_range.mp hr), ← Nat.cast_sum,
        sum_segmentShare hc hdvd]

theorem splitsExactly_iff_four : SplitsExactly 30 4 2 3 :=
  (splitsExactly_iff 30 4 2 3 (by decide) (by decide) (by decide) (by decide)).mpr (by decide)

/-- One segment of `2 ^ 31` bits has a negative length. -/
theorem not_forall_splitsExactly :
    ¬ ∀ (g : BitVec 32) (c qm nl : BitVec 8), 1 ≤ c.toNat → 1 ≤ qm.toNat → 1 ≤ nl.toNat →
      nl.toNat * qm.toNat ∣ g.toNat → SplitsExactly g c qm nl := by
  intro h
  have hsum :=
    (h (BitVec.ofNat 32 (2 ^ 31)) 1 1 1 (by decide) (by decide) (by decide) (by decide)).sum
  exact absurd hsum (by decide)

end OpenAir.Phy

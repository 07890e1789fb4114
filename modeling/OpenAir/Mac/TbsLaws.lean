import OpenAir.Lib.Rounding
import OpenAir.Mac.Tbs

namespace OpenAir.Mac

variable {a b d x y nbRb : Nat}

theorem u32_of_lt (h : x < 2 ^ 32) : u32 x = x := Nat.mod_eq_of_lt h

theorem u32_sub (h : 24 ≤ x) (hx : x < 2 ^ 32) : u32 (x + 2 ^ 32 - 24) = x - 24 := by
  unfold u32
  omega

theorem ceilidiv_eq (h : a + b ≤ 2 ^ 32) : ceilidiv a b = ceilDiv a b := by
  rw [ceilidiv, ceilDiv, u32_of_lt (by omega)]

theorem find?_le_of_le {l : List Nat} (hl : l.Pairwise (· ≤ ·)) (hxy : x ≤ y) {t : Nat}
    (ht : l.find? (y ≤ ·) = some t) : ∃ t', l.find? (x ≤ ·) = some t' ∧ t' ≤ t := by
  induction l with
  | nil => cases ht
  | cons e l ih =>
    rw [List.pairwise_cons] at hl
    by_cases hx : x ≤ e
    · refine ⟨e, by simp [hx], ?_⟩
      by_cases hy : y ≤ e
      · simp only [hy, decide_true, List.find?_cons_of_pos, Option.some.injEq] at ht
        exact ht.le
      · rw [List.find?_cons_of_neg (by simpa using hy)] at ht
        exact hl.1 t (List.mem_of_find?_eq_some ht)
    · rw [List.find?_cons_of_neg (by simpa using hx)]
      rw [List.find?_cons_of_neg (by simp; omega)] at ht
      exact ih hl.2 ht

theorem tbstableNr_pairwise : tbstableNr.Pairwise (· ≤ ·) := by
  decide

theorem roundDown_le_of_le (h : x ≤ y) :
    roundDown (max 3 (x.log2 - 6)) x ≤ roundDown (max 3 (y.log2 - 6)) y := by
  by_cases hx : x = 0
  · subst hx
    simp [roundDown]
  · have hlog : x.log2 < y.log2 + 1 := (Nat.log2_lt hx).mpr (h.trans_lt Nat.lt_log2_self)
    exact isRounding_roundDown.le_of_le (fun l => max 3 (l - 6)) hx h (by omega)

theorem roundDown_le (n x : Nat) : roundDown n x ≤ x := Nat.div_mul_le_self x _

theorem tableTbs_eq (h : x ≤ 3824) :
    tableTbs x = (tbstableNr.find? (max 24 (roundDown (max 3 (x.log2 - 6)) x) ≤ ·)).getD 0 := by
  have hle := roundDown_le (max 3 (x.log2 - 6)) x
  unfold tableTbs
  dsimp only
  rw [show x / 2 ^ max 3 (x.log2 - 6) * 2 ^ max 3 (x.log2 - 6) =
    roundDown (max 3 (x.log2 - 6)) x from rfl, u32_of_lt (by omega)]

theorem find?_tbstableNr_last : tbstableNr.find? (3824 ≤ ·) = some 3824 := by
  decide

theorem tableTbs_mono (hxy : x ≤ y) (hy : y ≤ 3824) : tableTbs x ≤ tableTbs y := by
  have hround := roundDown_le_of_le hxy
  have hle := roundDown_le (max 3 (y.log2 - 6)) y
  rw [tableTbs_eq (hxy.trans hy), tableTbs_eq hy]
  obtain ⟨t, ht, -⟩ := find?_le_of_le tbstableNr_pairwise
    (show max 24 (roundDown (max 3 (y.log2 - 6)) y) ≤ 3824 by omega) find?_tbstableNr_last
  obtain ⟨t', ht', hle'⟩ := find?_le_of_le tbstableNr_pairwise
    (show max 24 (roundDown (max 3 (x.log2 - 6)) x) ≤
      max 24 (roundDown (max 3 (y.log2 - 6)) y) by omega) ht
  rw [ht, ht']
  exact hle'

theorem tableTbs_le (hx : x ≤ 3824) : tableTbs x ≤ 3824 := by
  have hle := roundDown_le (max 3 (x.log2 - 6)) x
  obtain ⟨t, ht, hle'⟩ := find?_le_of_le tbstableNr_pairwise
    (show max 24 (roundDown (max 3 (x.log2 - 6)) x) ≤ 3824 by omega) find?_tbstableNr_last
  rw [tableTbs_eq hx, ht]
  exact hle'

def maxInfo : Nat := 2 ^ 21

theorem log2_le_maxInfo (hx : x ≤ maxInfo) : x.log2 ≤ 21 := by
  by_cases h0 : x = 0
  · subst h0
    decide
  · have : x.log2 < 22 := (Nat.log2_lt h0).mpr (by unfold maxInfo at hx; omega)
    omega

theorem roundNearest_le_maxInfo (hx : x ≤ maxInfo) : roundNearest (x.log2 - 5) x ≤ maxInfo :=
  calc roundNearest (x.log2 - 5) x ≤ roundNearest (x.log2 - 5) (2 ^ 21) :=
        isRounding_roundNearest.mono _ hx
    _ = maxInfo := isRounding_roundNearest.pow (by have := log2_le_maxInfo hx; omega)

theorem round_fits (hx : x ≤ maxInfo) : x * 2 + 2 ^ (x.log2 - 5) < 2 ^ 32 := by
  have hpow : 2 ^ (x.log2 - 5) ≤ 2 ^ 21 :=
    Nat.pow_le_pow_right (by decide) (by have := log2_le_maxInfo hx; omega)
  unfold maxInfo at hx
  omega

theorem roundidiv_mul_eq (hx : x ≤ maxInfo) :
    roundidiv x (2 ^ (x.log2 - 5)) * 2 ^ (x.log2 - 5) = roundNearest (x.log2 - 5) x := by
  have hfits := round_fits hx
  rw [roundidiv, u32_of_lt hfits, u32_of_lt ?_, roundNearest]
  have hpow : 2 ^ (x.log2 - 5) ≤ 2 ^ 21 :=
    Nat.pow_le_pow_right (by decide) (by have := log2_le_maxInfo hx; omega)
  omega

theorem npInfo_eq (hx : x ≤ maxInfo) :
    npInfo x = max 3840 (roundNearest ((x - 24).log2 - 5) (x - 24)) := by
  have hx' : x - 24 ≤ maxInfo := (Nat.sub_le _ _).trans hx
  have hle := roundNearest_le_maxInfo hx'
  unfold npInfo
  dsimp only
  rw [roundidiv_mul_eq hx', u32_of_lt (hle.trans_lt (by decide))]

theorem le_npInfo (x : Nat) : 3840 ≤ npInfo x := Nat.le_max_left _ _

theorem npInfo_le (hx : x ≤ maxInfo) : npInfo x ≤ maxInfo := by
  rw [npInfo_eq hx]
  exact max_le (by decide) (roundNearest_le_maxInfo ((Nat.sub_le _ _).trans hx))

theorem npInfo_mono (hx : 3824 < x) (hxy : x ≤ y) (hy : y ≤ maxInfo) : npInfo x ≤ npInfo y := by
  rw [npInfo_eq (hxy.trans hy), npInfo_eq hy]
  have hsub : x - 24 ≤ y - 24 := Nat.sub_le_sub_right hxy 24
  have hne : x - 24 ≠ 0 := by omega
  have hlog : (x - 24).log2 < (y - 24).log2 + 1 :=
    (Nat.log2_lt hne).mpr (hsub.trans_lt Nat.lt_log2_self)
  have hround := isRounding_roundNearest.le_of_le (fun l => l - 5) hne hsub (by omega)
  exact max_le_max le_rfl hround

structure IsBlockSize (d : Nat) : Prop where
  pos : 0 < d
  octets : 8 ∣ d
  le : d ≤ 8424

theorem isBlockSize_low : IsBlockSize 3816 := ⟨by decide, by decide, by decide⟩

theorem isBlockSize_high : IsBlockSize 8424 := ⟨by decide, by decide, by decide⟩

theorem isBlockSize_octet : IsBlockSize 8 := ⟨by decide, by decide, by decide⟩

theorem mul_ceilDiv_lt (hd : 0 < d) : d * ceilDiv x d < x + d := by
  have := Nat.mul_div_le (x + d - 1) d
  unfold ceilDiv
  omega

section Formula

variable (hd : IsBlockSize d) (hx : x ≤ maxInfo)

include hd hx

theorem ceilidiv_block : ceilidiv (x + 24) d = ceilDiv (x + 24) d := by
  refine ceilidiv_eq ?_
  have := hd.le
  unfold maxInfo at hx
  omega

theorem blocks_fit : evenBlocks 8 d (x + 24) < 2 ^ 32 := by
  have hle := evenBlocks_le (by decide) hd.octets hd.pos (show 0 < x + 24 by omega)
  have hlt := mul_ceilDiv_lt (x := x + 24) hd.pos
  have := hd.le
  unfold maxInfo at hx
  omega

theorem octets_fit : ceilDiv (x + 24) d * 8 ≤ maxInfo * 8 + 192 := by
  have hle : ceilDiv (x + 24) d ≤ x + 24 := by
    rw [ceilDiv_le_iff hd.pos]
    exact Nat.le_mul_of_pos_left _ hd.pos
  omega

theorem blocksTbs_eq : blocksTbs d x = evenBlocks 8 d (x + 24) - 24 := by
  have hfit := blocks_fit hd hx
  have hoct := octets_fit hd hx
  have hpos := ceilDiv_pos hd.pos (show 0 < x + 24 by omega)
  have hge := le_evenBlocks (u := 8) (by decide) hd.pos (show 0 < x + 24 by omega)
  unfold maxInfo at hx hoct
  unfold blocksTbs
  dsimp only
  rw [ceilidiv_block hd hx, u32_of_lt (x := ceilDiv (x + 24) d * 8) (by omega),
    ceilidiv_eq (by omega)]
  change u32 (u32 (evenBlocks 8 d (x + 24)) + 2 ^ 32 - 24) = _
  rw [u32_of_lt hfit, u32_sub (by omega) hfit]

end Formula

theorem octetsTbs_eq (hx : x ≤ maxInfo) :
    u32 (u32 (ceilidiv (x + 24) 8 * 8) + 2 ^ 32 - 24) = ceilDiv (x + 24) 8 * 8 - 24 := by
  have hle := le_mul_ceilDiv (a := x + 24) (b := 8) (by decide)
  have hlt := mul_ceilDiv_lt (x := x + 24) (d := 8) (by decide)
  rw [ceilidiv_block isBlockSize_octet hx]
  unfold maxInfo at hx
  rw [u32_of_lt (x := ceilDiv (x + 24) 8 * 8) (by omega), u32_sub (by omega) (by omega)]

variable {r : Nat}

theorem le_formulaTbs (hx : x ≤ maxInfo) : x ≤ formulaTbs r x := by
  have hblocks : ∀ {d}, IsBlockSize d → x ≤ blocksTbs d x := by
    intro d hd
    have hge := le_evenBlocks (u := 8) (by decide) hd.pos (show 0 < x + 24 by omega)
    rw [blocksTbs_eq hd hx]
    omega
  unfold formulaTbs
  split
  · exact hblocks isBlockSize_low
  · split
    · exact hblocks isBlockSize_high
    · have hle := le_mul_ceilDiv (a := x + 24) (b := 8) (by decide)
      rw [octetsTbs_eq hx]
      omega

theorem blocksTbs_mono (hd : IsBlockSize d) (hxy : x ≤ y) (hy : y ≤ maxInfo) :
    blocksTbs d x ≤ blocksTbs d y := by
  rw [blocksTbs_eq hd (hxy.trans hy), blocksTbs_eq hd hy]
  exact Nat.sub_le_sub_right
    (evenBlocks_mono (by decide) hd.octets hd.pos (by omega) (by omega)) 24

theorem formulaTbs_mono (hxy : x ≤ y) (hy : y ≤ maxInfo) : formulaTbs r x ≤ formulaTbs r y := by
  by_cases hr : r ≤ 2560
  · simp only [formulaTbs, hr, if_true]
    exact blocksTbs_mono isBlockSize_low hxy hy
  by_cases hhigh : y > 8424
  · by_cases hlow : x > 8424
    · simp only [formulaTbs, hr, hhigh, hlow, if_true, if_false]
      exact blocksTbs_mono isBlockSize_high hxy hy
    · -- one block of at most 8448 bits against more than that
      have hone : ceilDiv (x + 24) 8 ≤ 1056 := (ceilDiv_le_iff (by decide)).mpr (by omega)
      have hge := le_formulaTbs (r := r) hy
      have hx : formulaTbs r x = ceilDiv (x + 24) 8 * 8 - 24 := by
        simp only [formulaTbs, hr, hlow, if_false]
        exact octetsTbs_eq (hxy.trans hy)
      rw [hx]
      omega
  · have hlow : ¬ x > 8424 := by omega
    have hle := ceilDiv_mono (b := 8) (by decide) (show x + 24 ≤ y + 24 by omega)
    simp only [formulaTbs, hr, hhigh, hlow, if_false]
    rw [octetsTbs_eq (hxy.trans hy), octetsTbs_eq hy]
    omega

structure TbsParams.Bounded (p : TbsParams) : Prop where
  qm : p.qm.toNat ≤ 12
  r : p.r.toNat ≤ 10240
  nl : p.nl.toNat ≤ 4

inductive TbsParams.Scheduled (p : TbsParams) : Prop
  | dl (imcs tableIdx : Nat) : p.qm.toNat = nrGetQmDl imcs tableIdx →
      p.r.toNat = nrGetCodeRateDl imcs tableIdx → p.nl.toNat ≤ 4 → p.Scheduled
  | ul (mcs mcsTable : Nat) (tpPi2Bpsk : Bool) :
      (p.qm.toNat, p.r.toNat) = updateUlUeRQm mcs mcsTable tpPi2Bpsk → p.nl.toNat ≤ 4 → p.Scheduled

theorem mcsEntry_le {tables : List (List (Nat × Nat))} {q r : Nat}
    (h : ∀ t ∈ tables, ∀ e ∈ t, e.1 ≤ q ∧ e.2 ≤ r) (imcs tableIdx : Nat) :
    (mcsEntry tables imcs tableIdx).1 ≤ q ∧ (mcsEntry tables imcs tableIdx).2 ≤ r := by
  unfold mcsEntry
  cases ht : tables[tableIdx]? with
  | none => exact ⟨Nat.zero_le _, Nat.zero_le _⟩
  | some t =>
    rw [Option.bind_some]
    cases he : t[imcs]? with
    | none => exact ⟨Nat.zero_le _, Nat.zero_le _⟩
    | some e => exact h t (List.mem_of_getElem? ht) e (List.mem_of_getElem? he)

theorem ulTables_le : ∀ t ∈ ulTables, ∀ e ∈ t, e.1 ≤ 8 ∧ e.2 ≤ 9480 := by
  decide

theorem dlTables_le : ∀ t ∈ dlTables, ∀ e ∈ t, e.1 ≤ 8 ∧ e.2 ≤ 9480 :=
  fun t ht => ulTables_le t (List.mem_append_left _ ht)

theorem nrGetQmUl_pi2Bpsk : ∀ mcs < 6, nrGetQmUl mcs 3 = 2 ∧ nrGetQmUl mcs 4 = 2 := by
  decide

theorem updateUlUeRQm_le (mcs mcsTable : Nat) (tpPi2Bpsk : Bool) :
    (updateUlUeRQm mcs mcsTable tpPi2Bpsk).1 ≤ 12 ∧
      (updateUlUeRQm mcs mcsTable tpPi2Bpsk).2 ≤ 10240 := by
  have hq : nrGetQmUl mcs mcsTable ≤ 8 := (mcsEntry_le ulTables_le mcs mcsTable).1
  have hr : nrGetCodeRateUl mcs mcsTable ≤ 9480 := (mcsEntry_le ulTables_le mcs mcsTable).2
  unfold updateUlUeRQm
  dsimp only
  split
  · next hbpsk =>
    have htwo : nrGetQmUl mcs mcsTable = 2 := by
      rcases hbpsk.2 with ⟨rfl, hmcs⟩ | ⟨rfl, hmcs⟩
      exacts [(nrGetQmUl_pi2Bpsk mcs (by omega)).1, (nrGetQmUl_pi2Bpsk mcs hmcs).2]
    dsimp only
    omega
  · dsimp only
    omega

theorem TbsParams.Scheduled.bounded {p : TbsParams} (h : p.Scheduled) : p.Bounded := by
  cases h with
  | dl imcs tableIdx hq hr hl =>
    have hle := mcsEntry_le dlTables_le imcs tableIdx
    rw [nrGetQmDl] at hq
    rw [nrGetCodeRateDl] at hr
    exact ⟨by omega, by omega, hl⟩
  | ul mcs mcsTable tpPi2Bpsk h hl =>
    have hle := updateUlUeRQm_le mcs mcsTable tpPi2Bpsk
    rw [← h] at hle
    exact ⟨hle.1, hle.2, hl⟩

namespace TbsParams

variable {p : TbsParams}

structure Fits (p : TbsParams) (nbRb : Nat) : Prop where
  nbRe : min 156 p.nbpRe * nbRb < 2 ^ 32
  rate : p.nbRe nbRb * (p.r.toNat / 5) < 2 ^ 32
  order : p.nbRe nbRb * (p.r.toNat / 5) * p.qm.toNat < 2 ^ 32
  layers : p.nbRe nbRb * (p.r.toNat / 5) * p.qm.toNat * p.nl.toNat < 2 ^ 32
  round : (p.ninfo nbRb - 24) * 2 + 2 ^ ((p.ninfo nbRb - 24).log2 - 5) < 2 ^ 32
  rounded : roundidiv (p.ninfo nbRb - 24) (2 ^ ((p.ninfo nbRb - 24).log2 - 5)) *
    2 ^ ((p.ninfo nbRb - 24).log2 - 5) < 2 ^ 32
  octets : ∀ d ∈ [8, 3816, 8424], ceilidiv (npInfo (p.ninfo nbRb) + 24) d * 8 < 2 ^ 32
  blocks : ∀ d ∈ [3816, 8424], ceilidiv (npInfo (p.ninfo nbRb) + 24) d * 8 *
    ceilidiv (npInfo (p.ninfo nbRb) + 24) (ceilidiv (npInfo (p.ninfo nbRb) + 24) d * 8) < 2 ^ 32

section Bits

variable (h : p.Bounded) (hnb : nbRb ≤ 275)

include hnb

theorem res_le : min 156 p.nbpRe * nbRb ≤ 42900 :=
  Nat.mul_le_mul (Nat.min_le_left 156 _) hnb

theorem nbRe_eq : p.nbRe nbRb = min 156 p.nbpRe * nbRb :=
  u32_of_lt ((res_le hnb).trans_lt (by decide))

include h

theorem rate_le : p.nbRe nbRb * (p.r.toNat / 5) ≤ 42900 * 2048 := by
  rw [nbRe_eq hnb]
  have hr : p.r.toNat / 5 ≤ 2048 := by
    have := h.r
    omega
  exact Nat.mul_le_mul (res_le hnb) hr

theorem order_le : p.nbRe nbRb * (p.r.toNat / 5) * p.qm.toNat ≤ 42900 * 2048 * 12 :=
  Nat.mul_le_mul (rate_le h hnb) h.qm

theorem layers_le :
    p.nbRe nbRb * (p.r.toNat / 5) * p.qm.toNat * p.nl.toNat ≤ 42900 * 2048 * 12 * 4 :=
  Nat.mul_le_mul (order_le h hnb) h.nl

theorem ninfo_eq : p.ninfo nbRb =
    min 156 p.nbpRe * nbRb * (p.r.toNat / 5) * p.qm.toNat * p.nl.toNat / 2 ^ 11 /
      2 ^ p.tbScaling.toNat := by
  rw [ninfo, u32_of_lt ((rate_le h hnb).trans_lt (by decide)),
    u32_of_lt ((order_le h hnb).trans_lt (by decide)),
    u32_of_lt ((layers_le h hnb).trans_lt (by decide)), nbRe_eq hnb]

theorem ninfo_le : p.ninfo nbRb ≤ maxInfo := by
  have hle := layers_le h hnb
  rw [nbRe_eq hnb] at hle
  rw [ninfo_eq h hnb]
  calc _ ≤ _ := Nat.div_le_self _ _
    _ ≤ 42900 * 2048 * 12 * 4 / 2 ^ 11 := Nat.div_le_div_right hle
    _ ≤ maxInfo := by decide

theorem fits : p.Fits nbRb where
  nbRe := (res_le hnb).trans_lt (by decide)
  rate := (rate_le h hnb).trans_lt (by decide)
  order := (order_le h hnb).trans_lt (by decide)
  layers := (layers_le h hnb).trans_lt (by decide)
  round := round_fits ((Nat.sub_le _ _).trans (ninfo_le h hnb))
  rounded := by
    have hx := (Nat.sub_le _ 24).trans (ninfo_le h hnb)
    rw [roundidiv_mul_eq hx]
    exact (roundNearest_le_maxInfo hx).trans_lt (by decide)
  octets d hd := by
    have hx := npInfo_le (ninfo_le h hnb)
    have hd : IsBlockSize d := by
      simp only [List.mem_cons, List.not_mem_nil, or_false] at hd
      rcases hd with rfl | rfl | rfl
      exacts [isBlockSize_octet, isBlockSize_low, isBlockSize_high]
    rw [ceilidiv_block hd hx]
    exact (octets_fit hd hx).trans_lt (by decide)
  blocks d hd := by
    have hx := npInfo_le (ninfo_le h hnb)
    have hd : IsBlockSize d := by
      simp only [List.mem_cons, List.not_mem_nil, or_false] at hd
      rcases hd with rfl | rfl
      exacts [isBlockSize_low, isBlockSize_high]
    have hoct := octets_fit hd hx
    have hpos := ceilDiv_pos hd.pos (show 0 < npInfo (p.ninfo nbRb) + 24 by omega)
    rw [ceilidiv_block hd hx, ceilidiv_eq (by unfold maxInfo at hx hoct; omega)]
    exact blocks_fit hd hx

end Bits

theorem ninfo_mono (h : p.Bounded) (hxy : x ≤ y) (hy : y ≤ 275) : p.ninfo x ≤ p.ninfo y := by
  rw [ninfo_eq h (hxy.trans hy), ninfo_eq h hy]
  gcongr

end TbsParams

variable {p : TbsParams}

theorem nrComputeTbs_mono (h : p.Bounded) (hxy : x ≤ y) (hy : y ≤ 275) :
    nrComputeTbs p x ≤ nrComputeTbs p y := by
  have hinfo := TbsParams.ninfo_mono h hxy hy
  have hmax := TbsParams.ninfo_le h hy
  unfold nrComputeTbs
  by_cases hzero : p.qm = 0 ∨ p.r = 0 ∨ x = 0 ∨ p.nl = 0
  · rw [if_pos hzero]
    exact Nat.zero_le _
  have hzero' : ¬ (p.qm = 0 ∨ p.r = 0 ∨ y = 0 ∨ p.nl = 0) := by
    rintro (hq | hr | hy | hl)
    exacts [hzero (.inl hq), hzero (.inr (.inl hr)), hzero (.inr (.inr (.inl (by omega)))),
      hzero (.inr (.inr (.inr hl)))]
  rw [if_neg hzero, if_neg hzero']
  by_cases hx : p.ninfo x ≤ 3824
  · rw [if_pos hx]
    split
    · next hy => exact tableTbs_mono hinfo hy
    · have hge := le_npInfo (p.ninfo y)
      calc tableTbs (p.ninfo x) ≤ 3824 := tableTbs_le hx
        _ ≤ npInfo (p.ninfo y) := by omega
        _ ≤ _ := le_formulaTbs (npInfo_le hmax)
  · rw [if_neg hx, if_neg (by omega)]
    exact formulaTbs_mono (npInfo_mono (by omega) hinfo hmax) (npInfo_le hmax)

theorem tbsBytes_mono (h : p.Bounded) (hxy : x ≤ y) (hy : y ≤ 275) :
    tbsBytes p x ≤ tbsBytes p y :=
  Nat.div_le_div_right (nrComputeTbs_mono ⟨h.qm, h.r, h.nl⟩ hxy hy)

variable {bytes lo hi : Nat}

structure Bracket (p : TbsParams) (bytes nbRbMin nbRbMax : Nat) (s : Nat × Nat) : Prop where
  lt : s.1 < s.2
  min_le : nbRbMin ≤ s.1
  le_max : s.2 ≤ nbRbMax
  low : tbsBytes p s.1 < bytes
  high : bytes ≤ tbsBytes p s.2

structure Found (p : TbsParams) (bytes nbRbMin nbRbMax hi : Nat) : Prop where
  min_le : nbRbMin ≤ hi
  le_max : hi ≤ nbRbMax
  enough : bytes ≤ tbsBytes p hi
  least : bytes = tbsBytes p hi ∨ ∃ lo, lo + 1 = hi ∧ tbsBytes p lo < bytes

variable {nbRbMin nbRbMax : Nat}

theorem findNbRbRound_spec (s : Nat × Nat) (h : Bracket p bytes nbRbMin nbRbMax s) :
    (∃ s', findNbRbRound p bytes s = .ok (.inl s') ∧ Bracket p bytes nbRbMin nbRbMax s' ∧
      s'.2 - s'.1 < s.2 - s.1) ∨
      ∃ hi, findNbRbRound p bytes s = .ok (.inr hi) ∧ Found p bytes nbRbMin nbRbMax hi := by
  obtain ⟨lo, hi⟩ := s
  obtain ⟨hlt, hmin, hmax, hlow, hhigh⟩ := h
  dsimp only at hlt hmin hmax hlow hhigh
  unfold findNbRbRound
  dsimp only
  by_cases hgo : lo + 1 < hi
  · rw [if_pos hgo, if_neg (by omega)]
    have hmid : lo < (hi + lo) / 2 ∧ (hi + lo) / 2 < hi := by omega
    generalize (hi + lo) / 2 = mid at hmid
    by_cases heq : bytes = tbsBytes p mid
    · rw [if_pos heq]
      exact .inr ⟨mid, rfl, by omega, by omega, heq.le, .inl heq⟩
    rw [if_neg heq]
    by_cases hless : bytes < tbsBytes p mid
    · rw [if_pos hless]
      exact .inl ⟨_, rfl, ⟨hmid.1, hmin, by dsimp only; omega, hlow, hless.le⟩,
        by dsimp only; omega⟩
    · rw [if_neg hless]
      exact .inl ⟨_, rfl, ⟨hmid.2, by dsimp only; omega, hmax, by dsimp only; omega, hhigh⟩,
        by dsimp only; omega⟩
  · rw [if_neg hgo]
    exact .inr ⟨hi, rfl, by omega, hmax, hhigh, .inr ⟨lo, by omega, hlow⟩⟩

structure NbRb.Fitting (p : TbsParams) (bytes nbRbMin nbRbMax : Nat) (res : NbRb) : Prop where
  min_le : nbRbMin ≤ res.nbRb
  le_max : res.nbRb ≤ nbRbMax
  tbs : res.tbs = tbsBytes p res.nbRb
  enough : bytes ≤ res.tbs
  smallest_tbs : ∀ n, nbRbMin ≤ n → n ≤ nbRbMax → bytes ≤ tbsBytes p n → res.tbs ≤ tbsBytes p n
  smallest_nbRb : bytes < res.tbs →
    ∀ n, nbRbMin ≤ n → n ≤ nbRbMax → bytes ≤ tbsBytes p n → res.nbRb ≤ n

section Fitting

variable (hp : p.Bounded) (hmax : nbRbMax ≤ 275)

include hp hmax

theorem Found.fitting (h : Found p bytes nbRbMin nbRbMax hi) :
    NbRb.Fitting p bytes nbRbMin nbRbMax ⟨true, tbsBytes p hi, hi⟩ := by
  have hnext : bytes < tbsBytes p hi → ∀ n, n ≤ nbRbMax → bytes ≤ tbsBytes p n → hi ≤ n := by
    intro hlt n hn hbytes
    rcases h.least with heq | ⟨lo, hlo, hless⟩
    · omega
    · by_contra hgt
      have := h.le_max
      have := tbsBytes_mono hp (show n ≤ lo by omega) (by omega)
      omega
  refine ⟨h.min_le, h.le_max, rfl, h.enough, ?_, fun hlt n _ => hnext hlt n⟩
  intro n _ hn hbytes
  rcases Nat.lt_or_eq_of_le h.enough with hlt | heq
  · exact tbsBytes_mono hp (hnext hlt n hn hbytes) (hn.trans hmax)
  · exact heq ▸ hbytes

theorem fitting_min (hle : nbRbMin ≤ nbRbMax) (h : bytes ≤ tbsBytes p nbRbMin) :
    NbRb.Fitting p bytes nbRbMin nbRbMax ⟨true, tbsBytes p nbRbMin, nbRbMin⟩ :=
  ⟨le_rfl, hle, rfl, h, fun _ hmin hn _ => tbsBytes_mono hp hmin (hn.trans hmax),
    fun _ _ hmin _ _ => hmin⟩

end Fitting

theorem fitting_max (hle : nbRbMin ≤ nbRbMax) (h : bytes = tbsBytes p nbRbMax) :
    NbRb.Fitting p bytes nbRbMin nbRbMax ⟨true, tbsBytes p nbRbMax, nbRbMax⟩ :=
  ⟨hle, le_rfl, rfl, h.le, fun _ _ _ hn => h ▸ hn, fun hlt => absurd h hlt.ne⟩

theorem nrFindNbRb_returns {fuel : Nat} (bytes : Nat) (hp : p.Bounded) (hle : nbRbMin ≤ nbRbMax)
    (hmax : nbRbMax ≤ 275) (hfuel : nbRbMax - nbRbMin < fuel) :
    ∃ res, nrFindNbRb fuel p bytes nbRbMin nbRbMax = .ok res ∧
      (res.ok ↔ bytes ≤ tbsBytes p nbRbMax) ∧
      (res.ok → res.Fitting p bytes nbRbMin nbRbMax) := by
  unfold nrFindNbRb
  dsimp only
  by_cases htoo : bytes > tbsBytes p nbRbMax
  · rw [if_pos htoo]
    exact ⟨_, rfl, iff_of_false Bool.false_ne_true (by omega), fun h => absurd h Bool.false_ne_true⟩
  rw [if_neg htoo]
  have hok : (true = true ↔ bytes ≤ tbsBytes p nbRbMax) := iff_of_true rfl (by omega)
  by_cases heq : bytes = tbsBytes p nbRbMax
  · rw [if_pos heq]
    exact ⟨_, rfl, hok, fun _ => fitting_max hle heq⟩
  rw [if_neg heq]
  by_cases hmin : bytes ≤ tbsBytes p nbRbMin
  · rw [if_pos hmin]
    exact ⟨_, rfl, hok, fun _ => fitting_min hp hmax hle hmin⟩
  rw [if_neg hmin]
  have hlt : nbRbMin < nbRbMax := by
    rcases Nat.lt_or_eq_of_le hle with hlt | rfl
    · exact hlt
    · omega
  obtain ⟨hi, hloop, hfound⟩ := loop.returns (Bracket p bytes nbRbMin nbRbMax)
    (fun s => s.2 - s.1) (Found p bytes nbRbMin nbRbMax) findNbRbRound_spec
    (s := (nbRbMin, nbRbMax)) ⟨hlt, le_rfl, le_rfl, by dsimp only; omega, by dsimp only; omega⟩
    hfuel
  have hres : (decide (tbsBytes p hi ≥ bytes) && decide (hi ≤ nbRbMax)) := by
    simp [hfound.enough, hfound.le_max]
  rw [hloop]
  refine ⟨⟨true, tbsBytes p hi, hi⟩, ?_, hok, fun _ => hfound.fitting hp hmax⟩
  change Except.ok _ = _
  rw [hres]

theorem findNbRbRound_shrinks (s s' : Nat × Nat) (h : findNbRbRound p bytes s = .ok (.inl s')) :
    s'.2 - s'.1 < s.2 - s.1 := by
  unfold findNbRbRound at h
  dsimp only at h
  split at h
  · next hgo =>
    split at h
    · cases h
    split at h
    · cases h
    split at h
    · cases h
      dsimp only
      omega
    · cases h
      dsimp only
      omega
  · cases h

theorem nrFindNbRb_eq_of_fuel {fuel fuel' : Nat} (h : nbRbMax - nbRbMin < fuel)
    (h' : nbRbMax - nbRbMin < fuel') :
    nrFindNbRb fuel p bytes nbRbMin nbRbMax = nrFindNbRb fuel' p bytes nbRbMin nbRbMax := by
  have hloop : loop (findNbRbRound p bytes) fuel (nbRbMin, nbRbMax) =
      loop (findNbRbRound p bytes) fuel' (nbRbMin, nbRbMax) :=
    loop.eq_of_fuel (fun s => s.2 - s.1) findNbRbRound_shrinks h h'
  unfold nrFindNbRb
  rw [hloop]

/-- The search is right because the size grows with the resource blocks, and no product of it
overflows.  Every modulation order and code rate that the MCS tables give is in the domain. -/
theorem nrFindNbRb_correct : (∀ p : TbsParams, p.Scheduled → p.Bounded) ∧
    ∀ p : TbsParams, p.Bounded →
      (∀ bytes nbRbMin nbRbMax, nbRbMin ≤ nbRbMax → nbRbMax ≤ 275 →
        ∃ res, (∀ fuel, nbRbMax - nbRbMin < fuel →
            nrFindNbRb fuel p bytes nbRbMin nbRbMax = .ok res) ∧
          (res.ok = true ↔ bytes ≤ tbsBytes p nbRbMax) ∧
          (res.ok = true → res.Fitting p bytes nbRbMin nbRbMax)) ∧
        (∀ x y, x ≤ y → y ≤ 275 → nrComputeTbs p x ≤ nrComputeTbs p y) ∧
        ∀ nbRb, nbRb ≤ 275 → p.Fits nbRb := by
  refine ⟨fun p => TbsParams.Scheduled.bounded, fun p hp => ⟨?_, fun x y => nrComputeTbs_mono hp,
    fun nbRb => TbsParams.fits hp⟩⟩
  intro bytes nbRbMin nbRbMax hle hmax
  obtain ⟨res, hres, hok⟩ := nrFindNbRb_returns bytes hp hle hmax (Nat.lt_succ_self _)
  exact ⟨res, fun fuel hfuel => (nrFindNbRb_eq_of_fuel hfuel (Nat.lt_succ_self _)).trans hres, hok⟩

def qam64Params : TbsParams := ⟨6, 8730, 12, 12, 0, 0, 2⟩

theorem nrFindNbRb_correct_qam64 : qam64Params.Scheduled ∧ qam64Params.Bounded ∧
    (∃ res, nrFindNbRb 102 qam64Params 1000 5 106 = .ok res ∧
      (res.ok = true → res.Fitting qam64Params 1000 5 106)) ∧
      nrComputeTbs qam64Params 5 ≤ nrComputeTbs qam64Params 106 ∧ qam64Params.Fits 275 := by
  have hsched : qam64Params.Scheduled := .dl 26 0 rfl rfl (by decide)
  have hp := nrFindNbRb_correct.1 qam64Params hsched
  obtain ⟨hfind, hmono, hfits⟩ := nrFindNbRb_correct.2 qam64Params hp
  obtain ⟨res, hres, -, hok⟩ := hfind 1000 5 106 (by decide) (by decide)
  exact ⟨hsched, hp, ⟨res, hres 102 (by decide), hok⟩, hmono 5 106 (by decide) (by decide),
    hfits 275 (by decide)⟩

end OpenAir.Mac

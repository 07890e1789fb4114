import OpenAir.Mac.UlPduLaws

namespace OpenAir.Mac

open Finset

section Search

variable {table : List Nat} {value jl ju i j : Nat}

def bsrLevel (table : List Nat) (size : Nat) : Nat := table.findIdx (size ≤ ·)

theorem bsrLevel_eq (hi : i < table.length) (hle : value ≤ table.getD i 0)
    (hlt : ∀ j < i, table.getD j 0 < value) : bsrLevel table value = i := by
  rw [bsrLevel, List.findIdx_eq hi]
  simp only [List.getD_eq_getElem?_getD, List.getElem?_eq_getElem hi, Option.getD_some] at hle
  refine ⟨by simpa using hle, fun j hj => ?_⟩
  have := hlt j hj
  rw [List.getD_eq_getElem?_getD, List.getElem?_eq_getElem (by omega), Option.getD_some] at this
  simpa using this

theorem bsrLevel_spec (hlen : 0 < table.length) (hle : value ≤ table.getD (table.length - 1) 0) :
    bsrLevel table value < table.length ∧ value ≤ table.getD (bsrLevel table value) 0 ∧
      ∀ j < bsrLevel table value, table.getD j 0 < value := by
  have hget (k : Nat) (hk : k < table.length) : table.getD k 0 = table[k] := by
    rw [List.getD_eq_getElem?_getD, List.getElem?_eq_getElem hk, Option.getD_some]
  have hlt : bsrLevel table value < table.length := by
    refine List.findIdx_lt_length_of_exists ⟨table[table.length - 1], List.getElem_mem _, ?_⟩
    rw [← hget _ (by omega)]
    exact decide_eq_true hle
  refine ⟨hlt, ?_, fun j hj => ?_⟩
  · rw [hget _ hlt]
    exact of_decide_eq_true (List.findIdx_getElem (w := hlt))
  · rw [hget j (by omega)]
    have := List.not_of_lt_findIdx hj
    simpa using this

theorem searchBsrIndex_spec (hascend : table.getD 0 0 ≤ table.getD (table.length - 1) 0)
    (hlt : jl < ju) (hjl : table.getD jl 0 ≤ value) (hju : value ≤ table.getD ju 0) :
    table.getD (searchBsrIndex table value jl ju) 0 ≤ value ∧
      value ≤ table.getD (searchBsrIndex table value jl ju + 1) 0 := by
  fun_induction searchBsrIndex table value jl ju with
  | case1 jl ju hgt jm ascend hc ih =>
    have hup : ascend := decide_eq_true hascend
    rw [hup, decide_eq_true_eq] at hc
    exact ih (by omega) hc hju
  | case2 jl ju hgt jm ascend hc ih =>
    have hup : ascend := decide_eq_true hascend
    rw [hup, decide_eq_true_eq] at hc
    exact ih (by omega) hjl (by omega)
  | case3 jl ju hle =>
    obtain rfl : ju = jl + 1 := by omega
    exact ⟨hjl, hju⟩

theorem locateBsrIndexByBufferSize_eq (hzero : table.getD 0 0 = 0)
    (hup : ∀ j < table.length, ∀ i < j, table.getD i 0 < table.getD j 0) (hlen : 2 ≤ table.length)
    (hle : value ≤ table.getD (table.length - 1) 0) :
    locateBsrIndexByBufferSize table value = bsrLevel table value := by
  unfold locateBsrIndexByBufferSize
  split
  · next hv => exact (bsrLevel_eq (by omega) (by omega) (by omega)).symm
  · next hv =>
    have hbounds := searchBsrIndex_bounds table value 0 (table.length - 1) (by omega)
    obtain ⟨hlow, hhigh⟩ := searchBsrIndex_spec (by omega) (show 0 < table.length - 1 by omega)
      (show table.getD 0 0 ≤ value by omega) hle
    generalize searchBsrIndex table value 0 (table.length - 1) = k at hbounds hlow hhigh
    dsimp only
    split
    · next heq =>
      refine (bsrLevel_eq (by omega) (by omega) fun j hj => ?_).symm
      rw [heq]
      exact hup k (by omega) j hj
    · next hne =>
      refine (bsrLevel_eq (by omega) hhigh fun j hj => ?_).symm
      rcases Nat.lt_succ_iff_lt_or_eq.mp hj with hj | rfl
      · exact (hup k (by omega) j hj).trans_le hlow
      · omega

end Search

theorem shortBsrTable_lt : ∀ j < shortBsrTable.length, ∀ i < j,
    shortBsrTable.getD i 0 < shortBsrTable.getD j 0 := by
  decide

def longBsrLimit : Nat := 81338368

theorem longBsrTable_levels : (∀ i < 255, longBsrTable.getD i 0 < longBsrTable.getD (i + 1) 0 ∧
      toInt32 (longBsrTable.getD i 0) = (longBsrTable.getD i 0 : Nat)) ∧
    longBsrTable.getD 253 0 = longBsrLimit ∧ longBsrTable.getD 255 0 = 4294967295 ∧
    indexValue 0 = 0 := by
  decide +kernel

theorem longBsrTable_succ (i : Nat) (hi : i < 255) :
    longBsrTable.getD i 0 < longBsrTable.getD (i + 1) 0 := (longBsrTable_levels.1 i hi).1

theorem longBsrTable_lt : ∀ j < longBsrTable.length, ∀ i < j,
    longBsrTable.getD i 0 < longBsrTable.getD j 0 := by
  intro j hj i hi
  rw [length_longBsrTable] at hj
  induction j with
  | zero => omega
  | succ j ih =>
    have hstep := longBsrTable_succ j (by omega)
    rcases Nat.lt_succ_iff_lt_or_eq.mp hi with hi | rfl
    · exact (ih (by omega) hi).trans hstep
    · exact hstep

def nextLevel (size : Nat) : Nat :=
  if size = 0 then 0 else longBsrTable.getD (bsrLevel longBsrTable size + 1) 0

section Level

variable {size : Nat}

theorem le_longBsrTable_last (h : size < 2 ^ 31) :
    size ≤ longBsrTable.getD (longBsrTable.length - 1) 0 := by
  rw [length_longBsrTable, longBsrTable_levels.2.2.1]
  omega

theorem bsrLevel_long (h : size < 2 ^ 31) : bsrLevel longBsrTable size < 256 ∧
    size ≤ longBsrTable.getD (bsrLevel longBsrTable size) 0 ∧
      ∀ j < bsrLevel longBsrTable size, longBsrTable.getD j 0 < size := by
  rw [← length_longBsrTable]
  exact bsrLevel_spec (by rw [length_longBsrTable]; omega) (le_longBsrTable_last h)

theorem bsrLevel_le_iff (h : size < 2 ^ 31) :
    bsrLevel longBsrTable size ≤ 253 ↔ size ≤ longBsrLimit := by
  obtain ⟨hlt, hle, hbefore⟩ := bsrLevel_long h
  have hlimit := longBsrTable_levels.2.1
  constructor
  · intro hlevel
    refine hle.trans (hlimit ▸ ?_)
    rcases Nat.lt_or_eq_of_le hlevel with hlt' | heq
    · exact (longBsrTable_lt 253 (by rw [length_longBsrTable]; omega) _ hlt').le
    · rw [heq]
  · intro hsize
    by_contra hlevel
    have := hbefore 253 (by omega)
    omega

theorem le_nextLevel (h : size ≤ longBsrLimit) : size ≤ nextLevel size := by
  unfold nextLevel
  split
  · omega
  · have hsize : size < 2 ^ 31 := h.trans_lt (by decide)
    have hle := (bsrLevel_le_iff hsize).mpr h
    exact (bsrLevel_long hsize).2.1.trans (longBsrTable_succ _ (by omega)).le

def longBsrIndex (size : Nat) : Byte := .ofNat 8 (locateBsrIndexByBufferSize longBsrTable size)

theorem indexValue_longBsrIndex (h : size < 2 ^ 31) : indexValue (longBsrIndex size) =
    if size ≤ longBsrLimit then (nextLevel size : Int) else -1 := by
  obtain ⟨hlt, hle, hbefore⟩ := bsrLevel_long h
  have hlocate : locateBsrIndexByBufferSize longBsrTable size = bsrLevel longBsrTable size :=
    locateBsrIndexByBufferSize_eq rfl longBsrTable_lt (by rw [length_longBsrTable]; omega)
      (le_longBsrTable_last h)
  have hindex : (longBsrIndex size).toNat = bsrLevel longBsrTable size := by
    rw [longBsrIndex, hlocate, BitVec.toNat_ofNat, Nat.mod_eq_of_lt hlt]
  have hzero : bsrLevel longBsrTable size = 0 ↔ size = 0 := by
    rw [← hlocate]
    exact locateBsrIndexByBufferSize_eq_zero rfl size
  rw [indexValue, hindex, overestimBsrIndex, getLongBsrValue]
  by_cases hsize : size ≤ longBsrLimit
  · have hlevel := (bsrLevel_le_iff h).mpr hsize
    rw [if_pos hsize, nextLevel]
    by_cases h₀ : size = 0
    · rw [if_pos h₀, hzero.mpr h₀]
      rfl
    · have hpos : bsrLevel longBsrTable size ≠ 0 := fun hl => h₀ (hzero.mp hl)
      rw [if_neg h₀, if_pos (Nat.pos_of_ne_zero hpos), Nat.min_eq_left (by omega),
        (longBsrTable_levels.1 _ (by omega)).2]
  · have hlevel : 253 < bsrLevel longBsrTable size := by
      by_contra hle'
      exact hsize ((bsrLevel_le_iff h).mp (by omega))
    rw [if_neg hsize, if_pos (by omega), Nat.min_eq_right (by omega), longBsrTable_levels.2.2.1]
    rfl

end Level

section Report

variable {lcgBytes : Nat → Nat} {size : Nat}

def LongBsrCovers (lcgBytes : Nat → Nat) : Prop :=
  ∀ (room : Nat) (mem : Nat → Byte), numLcgWithData lcgBytes + 3 ≤ room →
    Holds mem 0 (writeCeUlschPdu none (.long fun lcg => longBsrIndex (lcgBytes lcg)) room) →
    (∑ lcg ∈ range 8, lcgBytes lcg : Nat) ≤ estimateUlBufferLongBsr (lcgEntries (seek mem 2))

def ShortBsrCovers (size : Nat) : Prop :=
  ∀ (lcgId room : Nat) (mem : Nat → Byte), lcgId < 8 →
    Holds mem 0
      (writeCeUlschPdu none (.short lcgId (locateBsrIndexByBufferSize shortBsrTable size)) room) →
    size ≤ estimateUlBufferShortBsr (seek mem 1 0)

def Overestimated (lcgBytes : Nat → Nat) : Prop :=
  (∑ lcg ∈ range 8, if longBsrLimit < lcgBytes lcg then lcgBytes lcg + 1 else 0) ≤
    ∑ lcg ∈ range 8,
      if lcgBytes lcg ≤ longBsrLimit then nextLevel (lcgBytes lcg) - lcgBytes lcg else 0

instance : Decidable (Overestimated lcgBytes) := inferInstanceAs (Decidable (_ ≤ _))

theorem overestimated_of_le (h : ∀ lcg < 8, lcgBytes lcg ≤ longBsrLimit) :
    Overestimated lcgBytes := by
  unfold Overestimated
  rw [sum_eq_zero fun lcg hlcg => if_neg (Nat.not_lt.mpr (h lcg (mem_range.mp hlcg)))]
  exact Nat.zero_le _

theorem sum_filter_ne_zero {f : Nat → Byte} {g : Nat → Int} (h : ∀ k, f k = 0 → g k = 0)
    (l : List Nat) : ((l.filter (f · ≠ 0)).map g).sum = (l.map g).sum := by
  induction l with
  | nil => rfl
  | cons k l ih =>
    by_cases hk : f k = 0
    · rw [List.filter_cons_of_neg (by simp [hk]), ih, List.map_cons, List.sum_cons,
        h k hk, zero_add]
    · rw [List.filter_cons_of_pos (by simpa using hk), List.map_cons, List.sum_cons, ih,
        List.map_cons, List.sum_cons]

theorem sum_range_eq (g : Nat → Int) (n : Nat) :
    ((List.range n).map g).sum = ∑ k ∈ range n, g k := rfl

theorem estimate_bsrEntries (indices : Nat → Byte) : estimateUlBufferLongBsr (bsrEntries indices) =
    ∑ lcg ∈ range 8, indexValue (indices lcg) := by
  have hlen : (bsrEntries indices).length ≤ 8 := by
    rw [bsrEntries, List.length_map]
    exact (List.length_filter_le _ _).trans_eq List.length_range
  have hzero := longBsrTable_levels.2.2.2
  have hskip (k : Nat) (hk : indices k = 0) : indexValue (indices k) = 0 := by rw [hk, hzero]
  rw [estimateUlBufferLongBsr, foldl_estimate _ 0 0 (by omega) (by simp), zero_add, bsrEntries,
    List.map_map, ← sum_range_eq, ← sum_filter_ne_zero hskip]
  rfl

theorem lcgEntries_writeCe {mem : Nat → Byte} {room : Nat}
    (hroom : numLcgWithData lcgBytes + 3 ≤ room)
    (h : Holds mem 0 (writeCeUlschPdu none (.long fun lcg => longBsrIndex (lcgBytes lcg)) room)) :
    lcgEntries (seek mem 2) = bsrEntries fun lcg => longBsrIndex (lcgBytes lcg) := by
  have hlen :
      (bsrEntries fun lcg => longBsrIndex (lcgBytes lcg)).length = numLcgWithData lcgBytes :=
    length_bsrEntries lcgBytes
  simp only [writeCeUlschPdu, phrBytes, bsrBytes, longBsrBytes, List.nil_append, List.length_nil,
    longBsrEntries_eq] at h
  rw [List.take_of_length_le (by omega), List.cons_append, List.cons_append, List.cons_append,
    Holds.cons_iff, Holds.cons_iff] at h
  refine lcgEntries_of_holds ?_ h.2.2
  have hsub := sublist_bsrEntries (fun lcg => longBsrIndex (lcgBytes lcg)) (numLcgWithData lcgBytes)
  rwa [List.take_of_length_le hlen.le] at hsub

theorem longBsrCovers_iff_estimate : LongBsrCovers lcgBytes ↔
    (∑ lcg ∈ range 8, lcgBytes lcg : Nat) ≤
      ∑ lcg ∈ range 8, indexValue (longBsrIndex (lcgBytes lcg)) := by
  rw [← estimate_bsrEntries fun lcg => longBsrIndex (lcgBytes lcg)]
  constructor
  · intro h
    have hhold := Holds.getD (writeCeUlschPdu none (.long fun lcg => longBsrIndex (lcgBytes lcg))
      (numLcgWithData lcgBytes + 3)) 0
    rw [← lcgEntries_writeCe le_rfl hhold]
    exact h _ _ le_rfl hhold
  · intro h room mem hroom hhold
    rwa [lcgEntries_writeCe hroom hhold]

theorem longBsrCovers_iff (hsum : ∑ lcg ∈ range 8, lcgBytes lcg < 2 ^ 31) :
    LongBsrCovers lcgBytes ↔ Overestimated lcgBytes := by
  have hterm : ∀ lcg ∈ range 8, indexValue (longBsrIndex (lcgBytes lcg)) - lcgBytes lcg =
      (if lcgBytes lcg ≤ longBsrLimit then nextLevel (lcgBytes lcg) - lcgBytes lcg else 0 : Nat) -
        (if longBsrLimit < lcgBytes lcg then lcgBytes lcg + 1 else 0 : Nat) := by
    intro lcg hlcg
    have hle : lcgBytes lcg ≤ ∑ lcg ∈ range 8, lcgBytes lcg :=
      single_le_sum (fun _ _ => Nat.zero_le _) hlcg
    rw [indexValue_longBsrIndex (by omega)]
    by_cases h : lcgBytes lcg ≤ longBsrLimit
    · have := le_nextLevel h
      rw [if_pos h, if_pos h, if_neg (by omega)]
      omega
    · rw [if_neg h, if_neg h, if_pos (by omega)]
      omega
  have hdiff := sum_congr rfl hterm
  rw [sum_sub_distrib, sum_sub_distrib, ← Nat.cast_sum, ← Nat.cast_sum,
    ← Nat.cast_sum] at hdiff
  rw [longBsrCovers_iff_estimate, Overestimated]
  omega

theorem shortBsrCovers (h : size ≤ 300000) : ShortBsrCovers size := by
  intro lcgId room mem hid hhold
  have hlt := @locateBsrIndexByBufferSize_lt shortBsrTable (by decide) size
  have hlocate : locateBsrIndexByBufferSize shortBsrTable size = bsrLevel shortBsrTable size :=
    locateBsrIndexByBufferSize_eq rfl shortBsrTable_lt (by decide) h
  obtain ⟨-, hle, -⟩ := bsrLevel_spec (show 0 < shortBsrTable.length by decide) h
  rw [hlocate] at hhold hlt
  generalize bsrLevel shortBsrTable size = i at hhold hlt hle
  have hbyte : seek mem 1 0 = BitVec.ofNat 8 (lcgId * 32 + i) :=
    (Holds.cons_iff.mp (Holds.cons_iff.mp hhold).2).1
  have hindex : (BitVec.ofNat 8 (lcgId * 32 + i)).toNat % 32 = i := by
    rw [length_shortBsrTable] at hlt
    rw [BitVec.toNat_ofNat]
    omega
  rw [hbyte, estimateUlBufferShortBsr, hindex]
  -- the next level is not below the level
  have hnext : ∀ i < 32, shortBsrTable.getD i 0 ≤
      getShortBsrValue (min (overestimBsrIndex i) 31) := by decide
  exact_mod_cast hle.trans (hnext i hlt)

/-- A gNB does not estimate too little from the BSRs of a UE exactly if there is no group behind the
limit that the others do not make up for. -/
theorem bsrCovers_iff (hsum : ∑ lcg ∈ range 8, lcgBytes lcg < 2 ^ 31) (hsize : size ≤ 300000) :
    LongBsrCovers lcgBytes ∧ ShortBsrCovers size ↔ Overestimated lcgBytes := by
  rw [longBsrCovers_iff hsum]
  exact and_iff_left (shortBsrCovers hsize)

theorem bsrCovers_limit : LongBsrCovers (fun lcg => if lcg = 3 then longBsrLimit else 0) ∧
    ShortBsrCovers 300000 :=
  (bsrCovers_iff (by decide) le_rfl).mpr (overestimated_of_le fun lcg _ => by split <;> decide)

/-- One byte more is estimated as -1. -/
theorem not_forall_bsrCovers : ¬ ∀ (lcgBytes : Nat → Nat) (size : Nat),
    ∑ lcg ∈ range 8, lcgBytes lcg < 2 ^ 31 → size ≤ 300000 →
    LongBsrCovers lcgBytes ∧ ShortBsrCovers size := by
  intro hall
  let lcgBytes := fun lcg => if lcg = 3 then longBsrLimit + 1 else 0
  have hsum : ∑ lcg ∈ range 8, lcgBytes lcg < 2 ^ 31 := by decide
  have hcovers := (longBsrCovers_iff hsum).mp (hall lcgBytes 0 hsum (by decide)).1
  revert hcovers
  decide

end Report

end OpenAir.Mac

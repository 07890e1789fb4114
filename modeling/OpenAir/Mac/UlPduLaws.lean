import Mathlib.Data.List.Sublists
import OpenAir.Lib.Slice
import Mathlib.Tactic.Linarith
import OpenAir.Mac.UeMac
import OpenAir.Mac.UlschSafety

namespace OpenAir.Mac

open List

theorem searchBsrIndex_bounds (table : List Nat) (value jl ju : Nat) (h : jl < ju) :
    jl ≤ searchBsrIndex table value jl ju ∧ searchBsrIndex table value jl ju < ju := by
  fun_induction searchBsrIndex table value jl ju with
  | case1 jl ju hgt jm ascend hc ih =>
    have := ih (by omega)
    omega
  | case2 jl ju hgt jm ascend hc ih =>
    have := ih (by omega)
    omega
  | case3 jl ju hle => omega

theorem locateBsrIndexByBufferSize_lt {table : List Nat} (h : 2 ≤ table.length) (value : Nat) :
    locateBsrIndexByBufferSize table value < table.length := by
  have := searchBsrIndex_bounds table value 0 (table.length - 1) (by omega)
  unfold locateBsrIndexByBufferSize
  dsimp only
  split
  · omega
  · split <;> omega

theorem locateBsrIndexByBufferSize_eq_zero {table : List Nat} (h : table.getD 0 0 = 0)
    (value : Nat) : locateBsrIndexByBufferSize table value = 0 ↔ value = 0 := by
  unfold locateBsrIndexByBufferSize
  dsimp only
  split
  · simp [*]
  · next hv =>
    split
    · next heq =>
      refine ⟨fun h₀ => ?_, fun h₀ => absurd h₀ hv⟩
      rw [h₀, h] at heq
      exact heq
    · omega

theorem length_shortBsrTable : shortBsrTable.length = 32 := rfl

theorem length_longBsrTable : longBsrTable.length = 256 := by decide +kernel

def bsrEntries (lcgBsr : Nat → Byte) : List (Nat × Byte) :=
  ((List.range 8).filter (lcgBsr · ≠ 0)).map fun lcg => (lcg, lcgBsr lcg)

theorem longBsrEntries_eq (room : Nat) (lcgBsr : Nat → Byte) :
    longBsrEntries room lcgBsr = (bsrEntries lcgBsr).take room := by
  have h : ∀ (l : List Nat) (acc : List (Nat × Byte)), acc.length ≤ room →
      l.foldl (fun entries lcg =>
        if lcgBsr lcg ≠ 0 ∧ entries.length < room then entries ++ [(lcg, lcgBsr lcg)] else entries)
        acc =
      acc ++ ((l.filter (lcgBsr · ≠ 0)).map fun lcg => (lcg, lcgBsr lcg)).take
        (room - acc.length) := by
    intro l
    induction l with
    | nil => simp
    | cons lcg l ih =>
      intro acc hacc
      rw [foldl_cons]
      by_cases h₀ : lcgBsr lcg = 0
      · rw [if_neg (by simp [h₀]), ih acc hacc, filter_cons_of_neg (by simp [h₀])]
      · rw [filter_cons_of_pos (by simpa using h₀), map_cons]
        by_cases hroom : acc.length < room
        · rw [if_pos ⟨h₀, hroom⟩, ih _ (by simp; omega), append_assoc,
            show room - acc.length =
              (room - (acc ++ [(lcg, lcgBsr lcg)]).length) + 1 by simp; omega, take_succ_cons]
          rfl
        · rw [if_neg (by simp [hroom]), ih acc hacc, show room - acc.length = 0 by omega]
          simp
  have := h (List.range 8) [] (Nat.zero_le _)
  simpa [longBsrEntries, bsrEntries] using this

theorem lcgs_ofNat : ∀ l ∈ (List.range 8).sublists,
    (List.range 8).filter (fun n => (BitVec.ofNat 8 (l.map (2 ^ ·)).sum).getLsbD n) = l := by
  decide +kernel

theorem lcgEntries_of_holds {mem : Nat → Byte} {pos : Nat} {entries : List (Nat × Byte)}
    (hl : (entries.map (·.1)).Sublist (List.range 8))
    (h : Holds mem pos (BitVec.ofNat 8 (entries.map fun x => 2 ^ x.1).sum :: entries.map (·.2))) :
    lcgEntries (seek mem pos) = entries := by
  obtain ⟨h₀, htail⟩ := Holds.cons_iff.mp h
  have hlcgs : lcgs (seek mem pos) = entries.map (·.1) := by
    have := lcgs_ofNat _ (mem_sublists.mpr hl)
    rw [map_map] at this
    rw [lcgs, show seek mem pos 0 = mem pos from rfl, h₀]
    exact this
  rw [lcgEntries_eq, hlcgs]
  refine ext_getElem (by simp) fun i hi hi' => ?_
  have hlt : i < (entries.map (·.2)).length := by simpa using hi'
  have hget := htail.get hlt
  rw [getElem_map] at hget
  simp only [getElem_map, getElem_zipIdx, seek, Nat.zero_add]
  rw [← Nat.add_assoc, hget]

section

variable {mem : Nat → Byte} {pos len : Nat}

theorem walk_fuel {fuel fuel' : Nat} (h : len ≤ fuel) (h' : len ≤ fuel') :
    walk mem fuel pos len = walk mem fuel' pos len := by
  induction fuel generalizing fuel' pos len with
  | zero =>
    obtain rfl : len = 0 := by omega
    cases fuel' <;> rfl
  | succ fuel ih =>
    cases fuel' with
    | zero =>
      obtain rfl : len = 0 := by omega
      rfl
    | succ fuel' =>
      rcases Nat.eq_zero_or_pos len with rfl | hlen
      · rfl
      rw [walk_succ hlen, walk_succ hlen]
      dsimp only
      generalize hp : SubPdu.ofHeader pos (decodeUlMacSubPduHeader (seek mem pos)) = p
      have hpos : 1 ≤ p.stride len := SubPdu.stride_pos (hp ▸ subheaderLen_pos (seek mem pos))
      rw [@ih (pos + p.stride len) (len - p.stride len) fuel' (by omega) (by omega)]

end

namespace SubPdu

def elements (mem : Nat → Byte) (p : SubPdu) : List ControlElement :=
  let ce := seek mem p.payload
  match p.lcid with
  | .singleEntryPhr => [.singleEntryPhr ((ce 0).toNat % 64) ((ce 1).toNat % 64)]
  | .sTruncatedBsr => [.shortBsr true ((ce 0).toNat / 32) ((ce 0).toNat % 32)]
  | .sBsr => [.shortBsr false ((ce 0).toNat / 32) ((ce 0).toNat % 32)]
  | .lTruncatedBsr => [.longBsr true (lcgEntries ce)]
  | .lBsr => [.longBsr false (lcgEntries ce)]
  | _ => []

end SubPdu

theorem sublist_bsrEntries (lcgBsr : Nat → Byte) (n : Nat) :
    (((bsrEntries lcgBsr).take n).map (·.1)).Sublist (List.range 8) := by
  refine ((take_sublist _ _).map _).trans ?_
  rw [bsrEntries, map_map]
  simp only [Function.comp_def, map_id']
  exact filter_sublist

theorem length_bsrEntries (lcgBytes : Nat → Nat) : (bsrEntries fun lcg =>
    .ofNat 8 (locateBsrIndexByBufferSize longBsrTable (lcgBytes lcg))).length =
      numLcgWithData lcgBytes := by
  rw [bsrEntries, length_map, numLcgWithData]
  congr 1
  refine filter_congr fun lcg _ => ?_
  have hlt := @locateBsrIndexByBufferSize_lt longBsrTable
    (by rw [length_longBsrTable]; omega) (lcgBytes lcg)
  rw [length_longBsrTable] at hlt
  have hzero := @locateBsrIndexByBufferSize_eq_zero longBsrTable rfl (lcgBytes lcg)
  generalize locateBsrIndexByBufferSize longBsrTable (lcgBytes lcg) = i at hlt hzero
  have hbyte : (BitVec.ofNat 8 i : Byte) = 0 ↔ i = 0 := by
    rw [← BitVec.toNat_inj, BitVec.toNat_ofNat, Nat.mod_eq_of_lt hlt]
    rfl
  simp only [ne_eq, decide_not, hbyte, hzero]

end OpenAir.Mac

import OpenAir.Lib.Rounding
import OpenAir.Lib.Run
import OpenAir.Lib.WrapRing
import Mathlib.Tactic.IntervalCases

/-! The rings in which the gNB scheduler keeps its uplink work for the slots ahead
(`nr_mac_cell_config_scc`, `ul_buffer_index`, `clear_nr_nfapi_information`).  The configuration
values are those of ASN.1 (`cellSpecificKoffset` at most 1023, the MsgA offset at most 32), far
from the limits of `int`. -/

namespace OpenAir.Mac.UlRing

open WrapRing

def getSlotsPerFrameFromScs (scs : Fin 5) : Nat := [10, 20, 40, 80, 160].get scs

def maxFrameNumber : Nat := 1024

structure Config where
  ssbSubcarrierSpacing : Fin 5
  cellSpecificKoffset : Option Nat
  minFeedbackTime : Int
  -- present only together with the common configuration of MsgA
  msgAPuschTimeDomainOffset : Option Nat

namespace Config

variable (cfg : Config)

def slotsPerFrame : Nat := getSlotsPerFrameFromScs cfg.ssbSubcarrierSpacing

def getNtnKoffset : Nat :=
  match cfg.cellSpecificKoffset with
  | some koffset => koffset <<< (cfg.ssbSubcarrierSpacing : Nat)
  | none => 0

def ringSize : Nat :=
  let n := cfg.slotsPerFrame
  -- 13 stands for the largest feedback time
  let size := n <<< ceilLog2U32 ((cfg.getNtnKoffset + 13) / n + 1)
  match cfg.msgAPuschTimeDomainOffset with
  | some offset => if offset ≠ 0 then size * ((n + offset + (n - 1)) / n) else size
  | none => size

/-- The delays that `set_dl_DataToUL_ACK` collects, up to the first one above 15. -/
def ackDelays : List Int :=
  ((List.range 8).map fun i : Nat => (i : Int) + cfg.minFeedbackTime).takeWhile (· ≤ 15)

/-- `set_dl_DataToUL_ACK`; the list must not stay empty. -/
def setDlDataToUlAck : Option (List Int) :=
  if cfg.ackDelays.length > 0 then some cfg.ackDelays else none

end Config

def setMaxFbTime (dlDataToUlAck : Option (List Int)) : Int :=
  match dlDataToUlAck with
  | some fbTimes => fbTimes.foldl (fun longest t => if t > longest then t else longest) 8
  | none => 8

def getFbFrameSlot (frame slot k slotsPerFrame koffset : Nat) : Nat × Nat :=
  ((frame + (slot + k + koffset) / slotsPerFrame) % maxFrameNumber,
    (slot + k + koffset) % slotsPerFrame)

def ulBufferIndex (frame slot slotsPerFrame size : Nat) : Nat :=
  (frame * slotsPerFrame + slot) % size

/-- An entry of `UL_tti_req_ahead`; its slot number never changes, and of its PDUs only the number
is kept here. -/
structure UlTtiReq where
  sfn : Nat
  nPdus : Nat

structure Cell where
  numbSlotsFrame : Nat
  ulprbbl : List (BitVec 16)
  vrbMapUl : List (List (BitVec 16))
  ulTtiReqAhead : List UlTtiReq

def prevSlot (frame slot slotsPerFrame size : Nat) : Nat := frame * slotsPerFrame + slot + size - 1

def clearedIndex (frame slot slotsPerFrame size : Nat) : Nat :=
  prevSlot frame slot slotsPerFrame size % size

namespace Cell

def clearVrbMapUl (cell : Cell) (frame slot : Nat) : Cell :=
  let size := cell.vrbMapUl.length
  { cell with
    vrbMapUl := cell.vrbMapUl.set (clearedIndex frame slot cell.numbSlotsFrame size) cell.ulprbbl }

def clearNrNfapiInformation (cell : Cell) (frame slot : Nat) : Cell :=
  let size := cell.ulTtiReqAhead.length
  let i := clearedIndex frame slot cell.numbSlotsFrame size
  let sfn := prevSlot frame slot cell.numbSlotsFrame size / cell.numbSlotsFrame % 1024
  { cell with
    ulTtiReqAhead := cell.ulTtiReqAhead.modify i fun _ => { sfn, nPdus := 0 } }

theorem vrbMapUl_clearVrbMapUl (cell : Cell) {frame slot i : Nat}
    (hi : i ≠ clearedIndex frame slot cell.numbSlotsFrame cell.vrbMapUl.length) :
    (cell.clearVrbMapUl frame slot).vrbMapUl[i]? = cell.vrbMapUl[i]? := by
  simp only [clearVrbMapUl]
  exact List.getElem?_set_ne hi.symm

theorem ulTtiReqAhead_clearNrNfapiInformation (cell : Cell) {frame slot i : Nat}
    (hi : i ≠ clearedIndex frame slot cell.numbSlotsFrame cell.ulTtiReqAhead.length) :
    (cell.clearNrNfapiInformation frame slot).ulTtiReqAhead[i]? = cell.ulTtiReqAhead[i]? := by
  simp only [clearNrNfapiInformation]
  rw [List.getElem?_modify]
  simp [hi.symm]

end Cell

def indexAhead (cfg : Config) (frame slot k : Nat) : Nat :=
  let ahead := getFbFrameSlot frame slot k cfg.slotsPerFrame 0
  ulBufferIndex ahead.1 ahead.2 cfg.slotsPerFrame cfg.ringSize

def farthest (cfg : Config) (fbTimes : List Int) : Nat :=
  (setMaxFbTime (some fbTimes)).toNat + cfg.getNtnKoffset

/-- The slots in reach have entries of their own, and none of them is ahead when its entry is
cleared. -/
structure NeverAliases (cfg : Config) (reach : Nat) : Prop where
  distinct : ∀ frame < maxFrameNumber, ∀ slot < cfg.slotsPerFrame, ∀ i j, i < j → j ≤ reach →
    indexAhead cfg frame slot i ≠ indexAhead cfg frame slot j
  cleared : ∀ frame < maxFrameNumber, ∀ slot < cfg.slotsPerFrame, ∀ j, 1 ≤ j → j ≤ reach →
    indexAhead cfg frame slot j ≠ clearedIndex frame slot cfg.slotsPerFrame cfg.ringSize

section Laws

variable (cfg : Config)

theorem slotsPerFrame_pos : 0 < cfg.slotsPerFrame := by
  unfold Config.slotsPerFrame
  generalize cfg.ssbSubcarrierSpacing = mu
  revert mu
  decide

theorem ringSize_pos : 0 < cfg.ringSize := by
  have hn := slotsPerFrame_pos cfg
  have hbase : ∀ k, 0 < cfg.slotsPerFrame <<< k := by
    intro k
    rw [Nat.shiftLeft_eq]
    exact Nat.mul_pos hn (Nat.two_pow_pos k)
  unfold Config.ringSize
  dsimp only
  split
  · split
    · exact Nat.mul_pos (hbase _) (Nat.div_pos (by omega) hn)
    · exact hbase _
  · exact hbase _

theorem indexAhead_eq (frame slot k : Nat) :
    indexAhead cfg frame slot k = entry (maxFrameNumber * cfg.slotsPerFrame) cfg.ringSize
      (frame * cfg.slotsPerFrame + slot + k) := by
  have hn := slotsPerFrame_pos cfg
  unfold indexAhead
  generalize cfg.slotsPerFrame = n at *
  simp only [getFbFrameSlot, ulBufferIndex, entry, Nat.add_zero]
  congr 1
  have hframe : frame + (slot + k) / n = (frame * n + slot + k) / n := by
    rw [Nat.add_assoc, Nat.mul_comm, Nat.mul_add_div hn]
  have hrest : (slot + k) % n = (frame * n + slot + k) % n := by
    rw [Nat.add_assoc, Nat.mul_comm, Nat.mul_add_mod]
  rw [hframe, hrest, Nat.mul_comm maxFrameNumber n, Nat.mod_mul, Nat.mul_comm]
  exact Nat.add_comm _ _

theorem current_lt {frame slot : Nat} (hframe : frame < maxFrameNumber)
    (hslot : slot < cfg.slotsPerFrame) :
    frame * cfg.slotsPerFrame + slot < maxFrameNumber * cfg.slotsPerFrame := by
  calc frame * cfg.slotsPerFrame + slot < (frame + 1) * cfg.slotsPerFrame := by
        rw [Nat.add_mul, Nat.one_mul]; omega
    _ ≤ maxFrameNumber * cfg.slotsPerFrame := Nat.mul_le_mul_right _ hframe

theorem exists_current {c : Nat} (hc : c < maxFrameNumber * cfg.slotsPerFrame) :
    ∃ frame < maxFrameNumber, ∃ slot < cfg.slotsPerFrame, frame * cfg.slotsPerFrame + slot = c := by
  have hn := slotsPerFrame_pos cfg
  exact ⟨c / cfg.slotsPerFrame, Nat.div_lt_of_lt_mul (by rwa [Nat.mul_comm]),
    c % cfg.slotsPerFrame, Nat.mod_lt _ hn, Nat.div_add_mod' _ _⟩

theorem neverAliases_iff {reach : Nat} (hreach : 1 ≤ reach) :
    NeverAliases cfg reach ↔ Fits (maxFrameNumber * cfg.slotsPerFrame) cfg.ringSize reach := by
  constructor
  · rintro ⟨hd, hc⟩
    refine Fits.of_entry_ne (Nat.mul_pos (by decide) (slotsPerFrame_pos cfg)) (ringSize_pos cfg)
      hreach ?_ ?_
    · intro c i j hlt hij hj
      obtain ⟨frame, hframe, slot, hslot, rfl⟩ := exists_current cfg hlt
      rw [← indexAhead_eq cfg, ← indexAhead_eq cfg]
      exact hd frame hframe slot hslot i j hij hj
    · intro c j hlt hj₁ hj
      obtain ⟨frame, hframe, slot, hslot, rfl⟩ := exists_current cfg hlt
      rw [← indexAhead_eq cfg]
      exact hc frame hframe slot hslot j hj₁ hj
  · intro h
    constructor
    · intro frame hframe slot hslot i j hij hj
      rw [indexAhead_eq cfg, indexAhead_eq cfg]
      exact h.entry_ne (current_lt cfg hframe hslot) hij hj
    · intro frame hframe slot hslot j _ hj
      rw [indexAhead_eq cfg]
      exact h.entry_ne_behind (current_lt cfg hframe hslot) hj

theorem setMaxFbTime_of_le {fbTimes : List Int} (h : ∀ t ∈ fbTimes, t ≤ 8) :
    setMaxFbTime (some fbTimes) = 8 := by
  simp only [setMaxFbTime]
  induction fbTimes with
  | nil => rfl
  | cons t fbTimes ih =>
    have ht := h t (by simp)
    rw [List.foldl_cons, if_neg (by omega)]
    exact ih fun u hu => h u (by simp [hu])

theorem setMaxFbTime_eq {fbTimes : List Int} (h : cfg.setDlDataToUlAck = some fbTimes) :
    setMaxFbTime (some fbTimes) = max 8 (min 15 (cfg.minFeedbackTime + 7)) := by
  unfold Config.setDlDataToUlAck at h
  split at h
  case isFalse => cases h
  case isTrue hpos =>
    cases h
    unfold Config.ackDelays at *
    generalize cfg.minFeedbackTime = m at *
    have hm : m ≤ 15 := by
      by_contra hlt
      simp [List.range_succ, hlt] at hpos
    by_cases hsmall : m ≤ 1
    · rw [setMaxFbTime_of_le]
      · omega
      · intro t ht
        obtain ⟨i, hi, rfl⟩ := List.mem_map.mp ((List.takeWhile_prefix _).mem ht)
        have := List.mem_range.mp hi
        omega
    · interval_cases m <;> decide

end Laws

def Config.Fits (cfg : Config) : Prop :=
  let reach := (max 8 (min 15 (cfg.minFeedbackTime + 7))).toNat + cfg.getNtnKoffset
  let slots := maxFrameNumber * cfg.slotsPerFrame
  reach + 1 < cfg.ringSize ∧ (slots % cfg.ringSize = 0 ∨ reach + 1 < slots % cfg.ringSize)

theorem ulRing_neverAliases_iff (cfg : Config) (fbTimes : List Int)
    (h : cfg.setDlDataToUlAck = some fbTimes) :
    NeverAliases cfg (farthest cfg fbTimes) ↔ cfg.Fits := by
  have hreach : farthest cfg fbTimes =
      (max 8 (min 15 (cfg.minFeedbackTime + 7))).toNat + cfg.getNtnKoffset := by
    rw [farthest, setMaxFbTime_eq cfg h]
  rw [neverAliases_iff cfg (by omega), hreach]
  exact ⟨fun hf => ⟨hf.room, hf.wrap⟩, fun hf => ⟨hf.1, hf.2⟩⟩

theorem ulRing_neverAliases_iff_narrow :
    (Config.mk 1 (some 3) 2 none).setDlDataToUlAck = some [2, 3, 4, 5, 6, 7, 8, 9] ∧
      NeverAliases ⟨1, some 3, 2, none⟩ 15 :=
  ⟨by decide, (ulRing_neverAliases_iff ⟨1, some 3, 2, none⟩ [2, 3, 4, 5, 6, 7, 8, 9]
    (by decide)).mpr ⟨by decide, by decide⟩⟩

/-- With a minimum feedback time of 8, feedback 15 slots and the offset of 6 slots ahead reaches
over the 20 entries. -/
theorem not_forall_ulRing_neverAliases :
    ¬ ∀ (cfg : Config) (fbTimes : List Int), cfg.setDlDataToUlAck = some fbTimes →
      NeverAliases cfg (farthest cfg fbTimes) := by
  intro h
  have hn := h ⟨1, some 3, 8, none⟩ [8, 9, 10, 11, 12, 13, 14, 15] (by decide)
  exact hn.distinct 0 (by decide) 0 (by decide) 0 20 (by decide) (by decide) (by decide)

section Adequate

variable (cfg : Config)

def Config.baseSize : Nat :=
  cfg.slotsPerFrame <<< ceilLog2U32 ((cfg.getNtnKoffset + 13) / cfg.slotsPerFrame + 1)

theorem lt_baseSize : cfg.getNtnKoffset + 13 < cfg.baseSize := by
  have hn := slotsPerFrame_pos cfg
  unfold Config.baseSize
  generalize cfg.getNtnKoffset + 13 = reach
  rw [Nat.shiftLeft_eq]
  calc reach < cfg.slotsPerFrame * (reach / cfg.slotsPerFrame + 1) := Nat.lt_mul_div_succ _ hn
    _ ≤ _ := Nat.mul_le_mul_left _ (le_two_pow_ceilLog2U32 _)

theorem exists_ringSize_eq : ∃ f, 1 ≤ f ∧ cfg.ringSize = cfg.baseSize * f := by
  have hn := slotsPerFrame_pos cfg
  unfold Config.ringSize
  dsimp only
  split
  · split
    · exact ⟨_, Nat.div_pos (by omega) hn, rfl⟩
    · exact ⟨1, le_refl 1, (Nat.mul_one _).symm⟩
  · exact ⟨1, le_refl 1, (Nat.mul_one _).symm⟩

theorem getNtnKoffset_le (hk : ∀ k ∈ cfg.cellSpecificKoffset, k ≤ 1023) :
    cfg.getNtnKoffset * 10 ≤ 1023 * cfg.slotsPerFrame := by
  have hn : cfg.slotsPerFrame = 10 * 2 ^ (cfg.ssbSubcarrierSpacing : Nat) := by
    unfold Config.slotsPerFrame
    generalize cfg.ssbSubcarrierSpacing = mu
    revert mu
    decide
  unfold Config.getNtnKoffset
  cases hc : cfg.cellSpecificKoffset with
  | none => simp
  | some k =>
    have := Nat.mul_le_mul_right (2 ^ (cfg.ssbSubcarrierSpacing : Nat)) (hk k hc)
    simp only [Nat.shiftLeft_eq, hn]
    omega

theorem baseSize_dvd (hk : ∀ k ∈ cfg.cellSpecificKoffset, k ≤ 1023) :
    cfg.baseSize ∣ maxFrameNumber * cfg.slotsPerFrame := by
  have hn := slotsPerFrame_pos cfg
  have hK := getNtnKoffset_le cfg hk
  have hle : (cfg.getNtnKoffset + 13) / cfg.slotsPerFrame + 1 ≤ 2 ^ 10 := by
    have : (cfg.getNtnKoffset + 13) / cfg.slotsPerFrame < 2 ^ 10 :=
      Nat.div_lt_of_lt_mul (by omega)
    omega
  unfold Config.baseSize
  rw [Nat.shiftLeft_eq, Nat.mul_comm maxFrameNumber]
  exact Nat.mul_dvd_mul_left _ (Nat.pow_dvd_pow 2 (ceilLog2U32_le hle))

/-- The bound of 13 in the size is enough for every minimum feedback time up to 5. -/
theorem neverAliases_of_minFeedbackTime_le {fbTimes : List Int}
    (h : cfg.setDlDataToUlAck = some fbTimes) (hk : ∀ k ∈ cfg.cellSpecificKoffset, k ≤ 1023)
    (hfb : cfg.minFeedbackTime ≤ 5) : NeverAliases cfg (farthest cfg fbTimes) := by
  have hbase := lt_baseSize cfg
  have hreach : farthest cfg fbTimes + 1 < cfg.baseSize := by
    rw [farthest, setMaxFbTime_eq cfg h]
    omega
  rw [neverAliases_iff cfg (by rw [farthest, setMaxFbTime_eq cfg h]; omega)]
  obtain ⟨f, hf, hsize⟩ := exists_ringSize_eq cfg
  rw [hsize]
  refine ⟨hreach.trans_le (Nat.le_mul_of_pos_right _ hf), ?_⟩
  -- what is left over of the frames is a multiple of the base size
  have hdvd : cfg.baseSize ∣ maxFrameNumber * cfg.slotsPerFrame % (cfg.baseSize * f) :=
    (Nat.dvd_mod_iff (Nat.dvd_mul_right _ _)).mpr (baseSize_dvd cfg hk)
  rcases Nat.eq_zero_or_pos (maxFrameNumber * cfg.slotsPerFrame % (cfg.baseSize * f)) with h₀ | h₀
  · exact .inl h₀
  · exact .inr (hreach.trans_le (Nat.le_of_dvd h₀ hdvd))

end Adequate

section Runs

structure Scheduler where
  now : Nat
  cell : Cell

inductive SlotOp
  | next
  | reserve (t : Nat) (rbs : List (BitVec 16))

abbrev Entry := Option (List (BitVec 16)) × Option UlTtiReq

def Entry.reserve (rbs : List (BitVec 16)) (e : Entry) : Entry :=
  (e.1.map (List.zipWith (· ||| ·) rbs), e.2.map fun r => { r with nPdus := r.nPdus + 1 })

def Cell.entry (cell : Cell) (i : Nat) : Entry := (cell.vrbMapUl[i]?, cell.ulTtiReqAhead[i]?)

/-- Resource blocks in `vrb_map_UL`, and one PDU more in the request of the slot. -/
def Cell.reserve (cell : Cell) (i : Nat) (rbs : List (BitVec 16)) : Cell :=
  { cell with
    vrbMapUl := cell.vrbMapUl.modify i (List.zipWith (· ||| ·) rbs)
    ulTtiReqAhead := cell.ulTtiReqAhead.modify i fun r => { r with nPdus := r.nPdus + 1 } }

variable (cfg : Config)

def frameOf (t : Nat) : Nat := t / cfg.slotsPerFrame % maxFrameNumber

def slotOf (t : Nat) : Nat := t % cfg.slotsPerFrame

def indexOf (t : Nat) : Nat := indexAhead cfg (frameOf cfg t) (slotOf cfg t) 0

/-- The start of a slot in `gNB_dlsch_ulsch_scheduler`. -/
def Cell.startSlot (cell : Cell) (t : Nat) : Cell :=
  (cell.clearVrbMapUl (frameOf cfg t) (slotOf cfg t)).clearNrNfapiInformation
    (frameOf cfg t) (slotOf cfg t)

inductive SlotStep (reach : Nat) (s : Scheduler) : SlotOp → Scheduler → Prop
  | next : SlotStep reach s .next ⟨s.now + 1, s.cell.startSlot cfg (s.now + 1)⟩
  | reserve {t : Nat} {rbs : List (BitVec 16)} : s.now ≤ t → t ≤ s.now + reach →
      SlotStep reach s (.reserve t rbs) ⟨s.now, s.cell.reserve (indexOf cfg t) rbs⟩

def reservedFor (t : Nat) (e : Entry) : SlotOp → Entry
  | .next => e
  | .reserve u rbs => if u = t then e.reserve rbs else e

structure Cell.Sized (cell : Cell) : Prop where
  slots : cell.numbSlotsFrame = cfg.slotsPerFrame
  map : cell.vrbMapUl.length = cfg.ringSize
  requests : cell.ulTtiReqAhead.length = cfg.ringSize

variable {cfg} {cell : Cell} {i j t u reach : Nat} {rbs : List (BitVec 16)}

theorem Cell.entry_reserve : (cell.reserve i rbs).entry j =
    if i = j then (cell.entry j).reserve rbs else cell.entry j := by
  simp only [entry, reserve, Entry.reserve, List.getElem?_modify]
  split <;> simp

theorem Cell.Sized.entry_startSlot (h : cell.Sized cfg)
    (hi : i ≠ clearedIndex (frameOf cfg t) (slotOf cfg t) cfg.slotsPerFrame cfg.ringSize) :
    (cell.startSlot cfg t).entry i = cell.entry i :=
  Prod.ext (cell.vrbMapUl_clearVrbMapUl (by rwa [h.slots, h.map]))
    ((cell.clearVrbMapUl _ _).ulTtiReqAhead_clearNrNfapiInformation
      (by simpa only [Cell.clearVrbMapUl, h.slots, h.requests] using hi))

theorem abs_eq : frameOf cfg t * cfg.slotsPerFrame + slotOf cfg t =
    t % (maxFrameNumber * cfg.slotsPerFrame) := by
  rw [frameOf, slotOf, Nat.mul_comm maxFrameNumber, Nat.mod_mul, Nat.mul_comm, Nat.add_comm]

theorem indexOf_add : indexOf cfg (t + j) = entry (maxFrameNumber * cfg.slotsPerFrame) cfg.ringSize
    (t % (maxFrameNumber * cfg.slotsPerFrame) + j) := by
  rw [indexOf, indexAhead_eq, abs_eq, Nat.add_zero, entry, entry, Nat.mod_mod, Nat.mod_add_mod]

theorem abs_lt : t % (maxFrameNumber * cfg.slotsPerFrame) < maxFrameNumber * cfg.slotsPerFrame :=
  Nat.mod_lt t (Nat.mul_pos (by decide) (slotsPerFrame_pos cfg))

section

variable (hfits : Fits (maxFrameNumber * cfg.slotsPerFrame) cfg.ringSize reach)
include hfits

theorem indexOf_ne (ht : j ≤ t) (ht' : t ≤ j + reach) (hu : j ≤ u) (hu' : u ≤ j + reach)
    (hne : u ≠ t) : indexOf cfg u ≠ indexOf cfg t := by
  obtain ⟨a, rfl⟩ := Nat.exists_eq_add_of_le ht
  obtain ⟨b, rfl⟩ := Nat.exists_eq_add_of_le hu
  rw [indexOf_add, indexOf_add]
  rcases Nat.lt_or_gt_of_ne (show b ≠ a by omega) with hlt | hlt
  · exact hfits.entry_ne abs_lt hlt (by omega)
  · exact (hfits.entry_ne abs_lt hlt (by omega)).symm

theorem indexOf_ne_cleared (ht : t ≤ u) (hu : u ≤ t + reach) :
    indexOf cfg u ≠ clearedIndex (frameOf cfg t) (slotOf cfg t) cfg.slotsPerFrame cfg.ringSize := by
  obtain ⟨a, rfl⟩ := Nat.exists_eq_add_of_le ht
  rw [indexOf_add, clearedIndex, prevSlot, abs_eq]
  exact hfits.entry_ne_behind abs_lt (by omega)

theorem entry_of_run {s s' : Scheduler} {ops : List SlotOp} (hs : s.cell.Sized cfg)
    (h : Run (SlotStep cfg reach) s ops s') : s'.cell.Sized cfg ∧ s.now ≤ s'.now ∧
      ∀ t, s'.now ≤ t → t ≤ s.now + reach →
        s'.cell.entry (indexOf cfg t) =
          ops.foldl (reservedFor t) (s.cell.entry (indexOf cfg t)) := by
  induction h with
  | nil => exact ⟨hs, le_rfl, fun _ _ _ => rfl⟩
  | snoc _ hstep ih =>
    obtain ⟨hsized, hnow, hall⟩ := ih
    cases hstep with
    | next =>
      refine ⟨⟨hsized.slots, ?_, ?_⟩, Nat.le_succ_of_le hnow, fun t ht ht' => ?_⟩
      · simpa [Cell.startSlot, Cell.clearVrbMapUl, Cell.clearNrNfapiInformation] using hsized.map
      · simpa [Cell.startSlot, Cell.clearVrbMapUl,
          Cell.clearNrNfapiInformation] using hsized.requests
      · dsimp only at ht
        rw [hsized.entry_startSlot (indexOf_ne_cleared hfits ht (by omega)),
          hall t (Nat.le_of_succ_le ht) ht', List.foldl_append]
        rfl
    | @reserve u _ hu hu' =>
      refine ⟨⟨hsized.slots, ?_, ?_⟩, hnow, fun t ht ht' => ?_⟩
      · simpa [Cell.reserve] using hsized.map
      · simpa [Cell.reserve] using hsized.requests
      · dsimp only at ht
        rw [Cell.entry_reserve, hall t ht ht', List.foldl_append]
        by_cases heq : u = t
        · simp [heq, reservedFor]
        · simp [heq, reservedFor, indexOf_ne hfits ht (by omega) hu hu' heq]

end

/-- With a minimum feedback time of at most 5, nothing but the reservations for a slot changes its
entries from when it comes into reach until it has passed. -/
theorem reservations_kept {fbTimes : List Int} (h : cfg.setDlDataToUlAck = some fbTimes)
    (hk : ∀ k ∈ cfg.cellSpecificKoffset, k ≤ 1023) (hfb : cfg.minFeedbackTime ≤ 5)
    {s s' : Scheduler} {ops : List SlotOp} (hs : s.cell.Sized cfg)
    (hrun : Run (SlotStep cfg (farthest cfg fbTimes)) s ops s')
    (ht : s'.now ≤ t) (ht' : t ≤ s.now + farthest cfg fbTimes) :
    s'.cell.entry (indexOf cfg t) = ops.foldl (reservedFor t) (s.cell.entry (indexOf cfg t)) := by
  have hfits := (neverAliases_iff cfg (by rw [farthest, setMaxFbTime_eq cfg h]; omega)).mp
    (neverAliases_of_minFeedbackTime_le cfg h hk hfb)
  exact (entry_of_run hfits hs hrun).2.2 t ht ht'

/-- A reservation two slots ahead over the wrap of the frames, when its slot has come. -/
theorem reservations_kept_two_ahead :
    let cell : Cell := ⟨20, [1], .replicate 20 [1], .replicate 20 ⟨0, 0⟩⟩
    ∃ s', Run (SlotStep ⟨1, none, 2, none⟩ 9) ⟨20479, cell⟩ [.reserve 20481 [4], .next, .next] s' ∧
      s'.cell.entry 1 = (some [5], some ⟨0, 1⟩) := by
  intro cell
  have hrun :
      Run (SlotStep ⟨1, none, 2, none⟩ 9) ⟨20479, cell⟩ [.reserve 20481 [4], .next, .next] _ :=
    .cons (.reserve (by decide) (by decide)) <| .cons .next <| .cons .next .nil
  have hack : (Config.mk 1 none 2 none).setDlDataToUlAck = some [2, 3, 4, 5, 6, 7, 8, 9] := by
    decide
  have hkept :=
    reservations_kept hack (by decide) (by decide) ⟨by decide, by decide, by decide⟩ hrun
    (show 20481 ≤ 20481 from le_rfl) (by decide)
  exact ⟨_, hrun, hkept.trans rfl⟩

end Runs

end OpenAir.Mac.UlRing

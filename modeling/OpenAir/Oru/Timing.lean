import Mathlib
import OpenAir.Oru.Processor

/-! Absolute symbols on the wire: the headers count frames modulo 256, the processor counts symbols
in 64 bits, and the jobs count hyper frames of 1024 frames. -/

namespace OpenAir.Oru

structure Stamped (c : Config) (A frameId subframeId slotId symbolId : Nat) : Prop where
  frame : frameId = A / c.symbolsPerFrame % 256
  subframe : subframeId = A / (symbolsPerSlot * 2 ^ c.numerology) % 10
  slot : slotId = A / symbolsPerSlot % 2 ^ c.numerology
  symbol : symbolId = A % symbolsPerSlot

def FramesClose (c : Config) (A C : Nat) : Prop :=
  -128 ≤ ((A / c.symbolsPerFrame : Nat) - (C / c.symbolsPerFrame : Nat) : Int) ∧
    ((A / c.symbolsPerFrame : Nat) - (C / c.symbolsPerFrame : Nat) : Int) ≤ 127

structure SymbolTime where
  hyperFrame : Nat
  frame : Nat
  slot : Nat
  symbol : Nat
  deriving DecidableEq

def DlSymbolJob.time (c : Config) (job : DlSymbolJob) : SymbolTime where
  hyperFrame := job.absoluteSymbol / c.symbolsPerFrame / 1024
  frame := job.absoluteSymbol / c.symbolsPerFrame % 1024
  slot := job.absoluteSymbol % c.symbolsPerFrame / symbolsPerSlot
  symbol := job.absoluteSymbol % symbolsPerSlot

def UlJob.time (job : UlJob) : SymbolTime :=
  ⟨job.hyperFrame, job.frame, job.slotInFrame, job.symbol⟩

/-- `ota_absolute_symbol` of `write_ul_iq`, in 64 bits. -/
def SymbolTime.otaAbsoluteSymbol (c : Config) (t : SymbolTime) : Nat :=
  let slotsPerFrame := 10 * 2 ^ c.numerology
  (t.hyperFrame * 1024 * slotsPerFrame * symbolsPerSlot + t.frame * slotsPerFrame * symbolsPerSlot +
    t.slot * symbolsPerSlot + t.symbol) % 2 ^ 64

def timed {α : Type} (tMin tMax : BitVec 32) (diff : Int) (early late onTime : α) : α :=
  if diff > tMax.toInt then early else if diff < tMin.toInt then late else onTime

theorem timed_eq {α : Type} {tMin tMax : BitVec 32} (hmin : tMin.toNat < 2 ^ 31)
    (hmax : tMax.toNat < 2 ^ 31) (diff : Int) (early late onTime : α) :
    timed tMin tMax diff early late onTime =
      if (tMax.toNat : Int) < diff then early
      else if diff < (tMin.toNat : Int) then late else onTime := by
  rw [timed, BitVec.toInt_eq_toNat_of_lt (by omega), BitVec.toInt_eq_toNat_of_lt (by omega)]

section Calendar

variable {c : Config} {A : Nat}

theorem symbolsPerFrame_eq : c.symbolsPerFrame = symbolsPerSlot * (2 ^ c.numerology * 10) := by
  unfold Config.symbolsPerFrame; ring

theorem mod_symbolsPerFrame (c : Config) (A : Nat) :
    (A / symbolsPerSlot % 2 ^ c.numerology +
        A / (symbolsPerSlot * 2 ^ c.numerology) % 10 * 2 ^ c.numerology) * symbolsPerSlot +
      A % symbolsPerSlot = A % c.symbolsPerFrame := by
  rw [symbolsPerFrame_eq, Nat.mod_mul, Nat.mod_mul, Nat.div_div_eq_div_mul]
  ring

theorem wrap_frames {a b : Nat} (hlo : -128 ≤ (a - b : Int)) (hhi : (a - b : Int) ≤ 127) :
    (if ((a % 256 : Nat) : Int) - (b % 256 : Nat) < -128 then
        ((a % 256 : Nat) : Int) - (b % 256 : Nat) + 256
      else if ((a % 256 : Nat) : Int) - (b % 256 : Nat) > 127 then
        ((a % 256 : Nat) : Int) - (b % 256 : Nat) - 256
      else ((a % 256 : Nat) : Int) - (b % 256 : Nat)) = a - b := by
  split
  · omega
  · split <;> omega

theorem otaAbsoluteSymbol_of_digits {t : SymbolTime} (hA : A < 2 ^ 64)
    (hhyper : t.hyperFrame = A / c.symbolsPerFrame / 1024)
    (hframe : t.frame = A / c.symbolsPerFrame % 1024)
    (hslot : t.slot = A % c.symbolsPerFrame / symbolsPerSlot)
    (hsymbol : t.symbol = A % symbolsPerSlot) : t.otaAbsoluteSymbol c = A := by
  have hinner : A % c.symbolsPerFrame / symbolsPerSlot * symbolsPerSlot + A % symbolsPerSlot =
      A % c.symbolsPerFrame := by
    have hdvd : symbolsPerSlot ∣ c.symbolsPerFrame := ⟨_, symbolsPerFrame_eq⟩
    rw [← Nat.mod_mod_of_dvd A hdvd]
    exact Nat.div_add_mod' _ _
  have hframes := Nat.div_add_mod' (A / c.symbolsPerFrame) 1024
  have hall := Nat.div_add_mod' A c.symbolsPerFrame
  rw [SymbolTime.otaAbsoluteSymbol, hhyper, hframe, hslot, hsymbol]
  have hsum : A / c.symbolsPerFrame / 1024 * 1024 * (10 * 2 ^ c.numerology) * symbolsPerSlot +
      A / c.symbolsPerFrame % 1024 * (10 * 2 ^ c.numerology) * symbolsPerSlot +
      A % c.symbolsPerFrame / symbolsPerSlot * symbolsPerSlot + A % symbolsPerSlot = A := by
    calc _ = (A / c.symbolsPerFrame / 1024 * 1024 + A / c.symbolsPerFrame % 1024) *
            c.symbolsPerFrame +
          (A % c.symbolsPerFrame / symbolsPerSlot * symbolsPerSlot + A % symbolsPerSlot) := by
            rw [Config.symbolsPerFrame]; ring
      _ = A := by rw [hinner, hframes, hall]
  simp only [hsum, Nat.mod_eq_of_lt hA]

theorem DlSymbolJob.otaAbsoluteSymbol_time (c : Config) {job : DlSymbolJob}
    (hA : job.absoluteSymbol < 2 ^ 64) :
    (job.time c).otaAbsoluteSymbol c = job.absoluteSymbol :=
  otaAbsoluteSymbol_of_digits hA rfl rfl rfl rfl

theorem otaAbsoluteSymbol_ulJobOf (hA : A < 2 ^ 64) (sec : SectionHeader) (ud : UdCompHeader)
    (antId : Nat) :
    (Processor.ulJobOf c sec ud antId A).time.otaAbsoluteSymbol c = A := by
  refine otaAbsoluteSymbol_of_digits hA ?_ rfl rfl rfl
  rw [Nat.div_div_eq_div_mul, Nat.mul_comm]
  rfl

end Calendar

theorem InitArgs.config_numerology {a : InitArgs} {c : Config} (ha : a.config = some c) :
    c.numerology = a.numerology := by
  unfold InitArgs.config at ha
  dsimp only at ha
  split at ha
  · split at ha
    · cases ha
    · cases ha
      rfl
  · cases ha

theorem InitArgs.bounds_lt {a : InitArgs} {c : Config} (ha : a.config = some c)
    (hμ : a.numerology ≤ 3) :
    c.t2aMinCpSymDiff.toNat < 2 ^ 31 ∧ c.t2aMaxCpSymDiff.toNat < 2 ^ 31 ∧
      c.t2aMinUpDlSymDiff.toNat < 2 ^ 31 ∧ c.t2aMaxUpDlSymDiff.toNat < 2 ^ 31 := by
  have hdiv (x : BitVec 32) :
      (x / BitVec.ofNat 32 (1000 / 2 ^ a.numerology / symbolsPerSlot)).toNat < 2 ^ 31 := by
    rw [BitVec.toNat_udiv]
    have hx := x.isLt
    have hdur : 8 ≤ (BitVec.ofNat 32 (1000 / 2 ^ a.numerology / symbolsPerSlot)).toNat := by
      generalize a.numerology = μ at hμ
      interval_cases μ <;> decide
    calc _ ≤ x.toNat / 8 := Nat.div_le_div_left hdur (by decide)
      _ < 2 ^ 31 := by omega
  unfold InitArgs.config at ha
  dsimp only at ha
  split at ha
  · split at ha
    · cases ha
    · cases ha
      exact ⟨hdiv _, hdiv _, hdiv _, hdiv _⟩
  · cases ha

namespace Processor

variable {s : Processor} {c : Config} {d : Int}

theorem storeUplanePacket_eq (p : Mbuf) {h : UplaneHeader} (iqData : List Byte)
    (hd : s.symbolDiff c h.frameId h.subframeId h.slotId h.symbId = d) :
    s.storeUplanePacket c p h iqData =
      timed c.t2aMinUpDlSymDiff c.t2aMaxUpDlSymDiff d
        (((s.observe .dlUplane d).bump .uplaneErrEarly).free p)
        (((s.observe .dlUplane d).bump .uplaneErrLate).free p)
        ((s.observe .dlUplane d).storeAt c p h iqData (s.targetSymbol d)) := by
  subst hd
  rfl

theorem handleDlCplanePacket_eq {h : CplaneHeader} (sec : SectionHeader) {antId : Nat}
    (hant : antId < maxAntennas)
    (hd : s.symbolDiff c h.frameId h.subframeId h.slotId h.startSymbolId = d) :
    s.handleDlCplanePacket c h sec antId =
      timed c.t2aMinCpSymDiff c.t2aMaxCpSymDiff d
        ((s.observe .dlCplane d).bump .cplaneErrEarly)
        ((s.observe .dlCplane d).bump .cplaneErrLate)
        ((s.observe .dlCplane d).declareFrom c sec antId d (s.targetSymbol d)) := by
  subst hd
  rw [handleDlCplanePacket, if_neg (by omega)]
  rfl

theorem handleUlCplanePacket_eq {h : CplaneHeader} (ud : UdCompHeader) {sec : SectionHeader}
    (hsym : sec.numSymbol ≠ 0) (antId : Nat)
    (hd : s.symbolDiff c h.frameId h.subframeId h.slotId h.startSymbolId = d) :
    s.handleUlCplanePacket c h ud sec antId =
      timed c.t2aMinCpSymDiff c.t2aMaxCpSymDiff d
        (pure ((s.observe .ulCplane d).bump .cplaneErrEarly))
        (pure ((s.observe .ulCplane d).bump .cplaneErrLate))
        ((s.observe .ulCplane d).requestUl c sec ud antId (s.targetSymbol d)) := by
  subst hd
  rw [handleUlCplanePacket, if_neg hsym]
  rfl

variable {A : Nat}

theorem symbolDiff_of_stamped {frameId subframeId slotId symbolId : Nat}
    (hst : Stamped c A frameId subframeId slotId symbolId)
    (hclose : FramesClose c A s.currentAbsoluteSymbol) :
    s.symbolDiff c frameId subframeId slotId symbolId = A - s.currentAbsoluteSymbol := by
  unfold symbolDiff
  rw [hst.frame, hst.subframe, hst.slot, hst.symbol, mod_symbolsPerFrame]
  dsimp only
  rw [wrap_frames hclose.1 hclose.2]
  have hA : ((A / c.symbolsPerFrame : Nat) : Int) * c.symbolsPerFrame +
      (A % c.symbolsPerFrame : Nat) = A := by
    exact_mod_cast Nat.div_add_mod' A c.symbolsPerFrame
  have hC : ((s.currentAbsoluteSymbol / c.symbolsPerFrame : Nat) : Int) * c.symbolsPerFrame +
      (s.currentAbsoluteSymbol % c.symbolsPerFrame : Nat) = s.currentAbsoluteSymbol := by
    exact_mod_cast Nat.div_add_mod' s.currentAbsoluteSymbol c.symbolsPerFrame
  rw [sub_mul]
  linarith only [hA, hC]

theorem targetSymbol_sub (hA : A < 2 ^ 64) :
    s.targetSymbol (A - s.currentAbsoluteSymbol) = A := by
  rw [targetSymbol]
  omega

end Processor

/-- In every handler a stamped packet goes to its symbol `A`, or is counted as early or late by its
distance from the current symbol; the times of the jobs lead back to `A`. -/
theorem stamped_packet_symbol {a : InitArgs} {c : Config} (ha : a.config = some c)
    (hμ : a.numerology ≤ 3) (s : Processor) {A : Nat} (hA : A < 2 ^ 64)
    (hclose : FramesClose c A s.currentAbsoluteSymbol) :
    (∀ frameId subframeId slotId symbolId, Stamped c A frameId subframeId slotId symbolId →
      s.symbolDiff c frameId subframeId slotId symbolId = A - s.currentAbsoluteSymbol ∧
      s.targetSymbol (s.symbolDiff c frameId subframeId slotId symbolId) = A) ∧
    (∀ (p : Mbuf) (h : UplaneHeader) (iqData : List Byte),
      Stamped c A h.frameId h.subframeId h.slotId h.symbId →
      s.storeUplanePacket c p h iqData =
        let t := s.observe .dlUplane (A - s.currentAbsoluteSymbol)
        if (c.t2aMaxUpDlSymDiff.toNat : Int) < A - s.currentAbsoluteSymbol then
          (t.bump .uplaneErrEarly).free p
        else if (A - s.currentAbsoluteSymbol : Int) < c.t2aMinUpDlSymDiff.toNat then
          (t.bump .uplaneErrLate).free p
        else t.storeAt c p h iqData A) ∧
    (∀ (h : CplaneHeader) (sec : SectionHeader) (antId : Nat), antId < maxAntennas →
      Stamped c A h.frameId h.subframeId h.slotId h.startSymbolId →
      s.handleDlCplanePacket c h sec antId =
        let t := s.observe .dlCplane (A - s.currentAbsoluteSymbol)
        if (c.t2aMaxCpSymDiff.toNat : Int) < A - s.currentAbsoluteSymbol then
          t.bump .cplaneErrEarly
        else if (A - s.currentAbsoluteSymbol : Int) < c.t2aMinCpSymDiff.toNat then
          t.bump .cplaneErrLate
        else t.declareFrom c sec antId (A - s.currentAbsoluteSymbol) A) ∧
    (∀ (h : CplaneHeader) (ud : UdCompHeader) (sec : SectionHeader) (antId : Nat),
      sec.numSymbol ≠ 0 → Stamped c A h.frameId h.subframeId h.slotId h.startSymbolId →
      s.handleUlCplanePacket c h ud sec antId =
        let t := s.observe .ulCplane (A - s.currentAbsoluteSymbol)
        if (c.t2aMaxCpSymDiff.toNat : Int) < A - s.currentAbsoluteSymbol then
          return t.bump .cplaneErrEarly
        else if (A - s.currentAbsoluteSymbol : Int) < c.t2aMinCpSymDiff.toNat then
          return t.bump .cplaneErrLate
        else t.requestUl c sec ud antId A) ∧
    (∀ (sec : SectionHeader) (ud : UdCompHeader) (antId : Nat),
      (Processor.ulJobOf c sec ud antId A).time.otaAbsoluteSymbol c = A) ∧
    ∀ job : DlSymbolJob, job.absoluteSymbol = A → (job.time c).otaAbsoluteSymbol c = A := by
  obtain ⟨hminCp, hmaxCp, hminUp, hmaxUp⟩ := InitArgs.bounds_lt ha hμ
  refine ⟨?_, ?_, ?_, ?_, fun sec ud antId => otaAbsoluteSymbol_ulJobOf hA sec ud antId, ?_⟩
  · intro frameId subframeId slotId symbolId hst
    rw [Processor.symbolDiff_of_stamped hst hclose]
    exact ⟨rfl, Processor.targetSymbol_sub hA⟩
  · intro p h iqData hst
    rw [Processor.storeUplanePacket_eq p iqData (Processor.symbolDiff_of_stamped hst hclose),
      Processor.targetSymbol_sub hA, timed_eq hminUp hmaxUp]
  · intro h sec antId hant hst
    rw [Processor.handleDlCplanePacket_eq sec hant (Processor.symbolDiff_of_stamped hst hclose),
      Processor.targetSymbol_sub hA, timed_eq hminCp hmaxCp]
  · intro h ud sec antId hsym hst
    rw [Processor.handleUlCplanePacket_eq ud hsym antId
        (Processor.symbolDiff_of_stamped hst hclose),
      Processor.targetSymbol_sub hA, timed_eq hminCp hmaxCp]
  · rintro job rfl
    exact DlSymbolJob.otaAbsoluteSymbol_time c hA

def InitArgs.narrow : InitArgs where
  numerology := 0
  numPrb := 24
  t2aCpMinUs := 71
  t2aCpMaxUs := 284
  t2aUpMinUs := 71
  t2aUpMaxUs := 284
  numDlSlots := 1
  numUlSlots := 1
  numDlSymbols := 0
  numUlSymbols := 0
  tddPatternLengthSlots := 2
  mtu := 1500
  prachEaxcOffset := 0
  dlCompMethod := .bfp
  prachKbar := 0

theorem stamped_packet_symbol_next_frame : ∃ c, InitArgs.narrow.config = some c ∧
    Processor.symbolDiff { Processor.init with currentAbsoluteSymbol := 35839 } c 0 0 0 0 = 1 ∧
    Processor.targetSymbol { Processor.init with currentAbsoluteSymbol := 35839 }
      (Processor.symbolDiff { Processor.init with currentAbsoluteSymbol := 35839 } c 0 0 0 0) =
        35840 := by
  obtain ⟨c, hc⟩ : ∃ c, InitArgs.narrow.config = some c :=
    Option.isSome_iff_exists.mp (by decide)
  have hμ : c.numerology = 0 := InitArgs.config_numerology hc
  have hframe : c.symbolsPerFrame = 140 := by rw [Config.symbolsPerFrame, hμ]; rfl
  refine ⟨c, hc, ?_⟩
  exact (stamped_packet_symbol hc (by decide)
    { Processor.init with currentAbsoluteSymbol := 35839 } (A := 35840) (by decide)
    (by simp [FramesClose, hframe])).1 0 0 0 0
    ⟨by simp [hframe], by simp [hμ, symbolsPerSlot], by simp [hμ, symbolsPerSlot],
      by simp [symbolsPerSlot]⟩

end OpenAir.Oru

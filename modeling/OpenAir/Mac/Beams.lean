import Mathlib.Data.List.Induction
import Mathlib.Logic.Function.Basic
import Mathlib.Tactic.Common

/-! Reservations of analog beams (`beam_allocation_procedure`, `reset_beam_status`,
`clear_beam_information`). -/

namespace OpenAir.Mac.Beams

open Function List

/-- What does not change in `NR_beam_info_t`, and the slots of a frame. -/
structure Config where
  straightWire : Bool
  beamsPerPeriod : Nat
  beamDuration : Nat
  beamAllocationSize : Nat
  slotsPerFrame : Nat
  beamDuration_pos : 0 < beamDuration
  beamAllocationSize_pos : 0 < beamAllocationSize

/-- `beam_allocation`, the parallel entries of each period; `none` is -1, which is no beam. -/
abbrev Table := Nat → List (Option Nat)

/-- `NR_beam_alloc_t`; no `idx` is -1. -/
structure BeamAlloc where
  newBeam : Bool
  idx : Option Nat
  deriving DecidableEq

/-- The loop of `beam_allocation_procedure` from the entry `i` on. -/
def allocate (beam : Nat) (i : Nat) : List (Option Nat) → BeamAlloc × List (Option Nat)
  | [] => (⟨false, none⟩, [])
  | none :: row => (⟨true, some i⟩, some beam :: row)
  | some b :: row =>
    if b = beam then (⟨false, some i⟩, some b :: row)
    else ((allocate beam (i + 1) row).1, some b :: (allocate beam (i + 1) row).2)

namespace Config

variable (cfg : Config)

def getBeamIndex (frame slot : Nat) : Nat :=
  (frame * cfg.slotsPerFrame + slot) / cfg.beamDuration % cfg.beamAllocationSize

def beamAllocationProcedure (t : Table) (frame slot beam : Nat) : BeamAlloc × Table :=
  if cfg.straightWire then (⟨false, some 0⟩, t)
  else
    let index := cfg.getBeamIndex frame slot
    ((allocate beam 0 (t index)).1, update t index (allocate beam 0 (t index)).2)

def resetBeamStatus (t : Table) (frame slot beam : Nat) (newBeam : Bool) : Table :=
  if !newBeam then t
  else
    let index := cfg.getBeamIndex frame slot
    update t index ((t index).map fun e => if e = some beam then none else e)

def idxToClear (frame slot : Nat) : Nat :=
  ((frame * cfg.slotsPerFrame + slot) / cfg.beamDuration + cfg.beamAllocationSize - 1) %
    cfg.beamAllocationSize

def clears (frame slot : Nat) (index : Nat) : Bool :=
  !cfg.straightWire && slot % cfg.beamDuration = 0 && index = cfg.idxToClear frame slot

def clearBeamInformation (t : Table) (frame slot : Nat) : Table := fun index =>
  if cfg.clears frame slot index then (t index).map fun _ => none else t index

end Config

structure Request where
  frame : Nat
  slot : Nat
  beam : Nat
  alloc : BeamAlloc
  cleared : Bool := false
  deriving DecidableEq

structure State where
  table : Table
  pending : List Request

inductive Call
  | request (frame slot beam : Nat)
  | reset (n : Nat)
  | clear (frame slot : Nat)

namespace Config

variable (cfg : Config)

def index (r : Request) : Nat := cfg.getBeamIndex r.frame r.slot

def init : State where
  table := fun _ => List.replicate cfg.beamsPerPeriod none
  pending := []

def exec (s : State) : Call → State
  | .request frame slot beam =>
    let (alloc, table) := cfg.beamAllocationProcedure s.table frame slot beam
    { table, pending := s.pending ++ [{ frame, slot, beam, alloc }] }
  | .reset n =>
    match s.pending[n]? with
    | none => s
    | some r =>
      { table := cfg.resetBeamStatus s.table r.frame r.slot r.beam r.alloc.newBeam
        pending := s.pending.eraseIdx n }
  | .clear frame slot =>
    { table := cfg.clearBeamInformation s.table frame slot
      pending := s.pending.map fun r =>
        { r with cleared := r.cleared || cfg.clears frame slot (cfg.index r) } }

def run (calls : List Call) : State := calls.foldl cfg.exec cfg.init

end Config

def Table.Has (t : Table) (index i b : Nat) : Prop := (t index)[i]? = some (some b)

def Request.Holds (r : Request) (i : Nat) : Prop := r.cleared = false ∧ r.alloc.idx = some i

structure Right (cfg : Config) (s : State) : Prop where
  distinct : ∀ index i j b, s.table.Has index i b → s.table.Has index j b → i = j
  kept : ∀ r ∈ s.pending, ∀ i, r.Holds i → s.table.Has (cfg.index r) i r.beam
  free : ∀ index, (∀ r ∈ s.pending, ∀ i, r.Holds i → cfg.index r ≠ index) →
    ∀ i b, ¬ s.table.Has index i b

/-- A request finds no free entry before one that has its beam, and the reset of a request that
made its entry finds no other request that holds an entry of its beam. -/
def Good (cfg : Config) (s : State) : Call → Prop
  | .request frame slot beam => ∀ i j, i < j →
    (s.table (cfg.getBeamIndex frame slot))[i]? = some none →
      ¬ s.table.Has (cfg.getBeamIndex frame slot) j beam
  | .reset n => ∀ r, s.pending[n]? = some r → r.alloc.newBeam = true →
    ∀ r' ∈ s.pending.eraseIdx n, ∀ i, r'.Holds i → cfg.index r' = cfg.index r → r'.beam ≠ r.beam
  | .clear _ _ => True

section Entries

variable {beam : Nat} {row : List (Option Nat)} {t : Table} {index index' i b : Nat}

def Passed (beam : Nat) (row : List (Option Nat)) (i : Nat) : Prop :=
  ∀ k < i, ∃ b, row[k]? = some (some b) ∧ b ≠ beam

theorem Passed.cons {i : Nat} (h : Passed beam row i) (hb : b ≠ beam) :
    Passed beam (some b :: row) (i + 1) := by
  intro k hk
  cases k with
  | zero => exact ⟨b, rfl, hb⟩
  | succ k => exact h k (by omega)

theorem allocate_cases (beam k : Nat) (row : List (Option Nat)) :
    (∃ i, row[i]? = some (some beam) ∧ Passed beam row i ∧
      allocate beam k row = (⟨false, some (k + i)⟩, row)) ∨
    (∃ i, row[i]? = some none ∧ Passed beam row i ∧
      allocate beam k row = (⟨true, some (k + i)⟩, row.set i (some beam))) ∨
    (Passed beam row row.length ∧ allocate beam k row = (⟨false, none⟩, row)) := by
  fun_induction allocate beam k row with
  | case1 => exact .inr (.inr ⟨fun _ h => absurd h (Nat.not_lt_zero _), rfl⟩)
  | case2 k row => exact .inr (.inl ⟨0, rfl, fun _ h => absurd h (Nat.not_lt_zero _), rfl⟩)
  | case3 k row => exact .inl ⟨0, rfl, fun _ h => absurd h (Nat.not_lt_zero _), rfl⟩
  | case4 k b row hb ih =>
    rcases ih with ⟨i, hi, hpassed, heq⟩ | ⟨i, hi, hpassed, heq⟩ | ⟨hpassed, heq⟩
    · exact .inl ⟨i + 1, hi, hpassed.cons hb, by rw [heq, Nat.add_right_comm, Nat.add_assoc]⟩
    · exact .inr (.inl ⟨i + 1, hi, hpassed.cons hb, by
        rw [heq, Nat.add_right_comm, Nat.add_assoc, set_cons_succ]⟩)
    · exact .inr (.inr ⟨hpassed.cons hb, by rw [heq]⟩)

theorem has_set (hi : (t index)[i]? = some none) {j : Nat} :
    Table.Has (update t index ((t index).set i (some beam))) index' j b ↔
      (index' = index ∧ j = i ∧ b = beam) ∨ t.Has index' j b := by
  unfold Table.Has
  by_cases hindex : index' = index
  · subst hindex
    rw [update_self, List.getElem?_set]
    split
    · next heq =>
      subst heq
      rw [if_pos (List.getElem?_eq_some_iff.mp hi).1, hi]
      simp [eq_comm]
    · next hne => simp [Ne.symm hne]
  · simp [hindex]

theorem has_resetBeamStatus {cfg : Config} {frame slot j : Nat} :
    (cfg.resetBeamStatus t frame slot beam true).Has index' j b ↔
      t.Has index' j b ∧ ¬ (index' = cfg.getBeamIndex frame slot ∧ b = beam) := by
  unfold Table.Has Config.resetBeamStatus
  dsimp only
  by_cases hindex : index' = cfg.getBeamIndex frame slot
  · subst hindex
    simp only [Bool.not_true, Bool.false_eq_true, if_false, update_self,
      List.getElem?_map]
    cases h : (t (cfg.getBeamIndex frame slot))[j]? with
    | none => simp
    | some e =>
      simp only [Option.map_some, Option.some.injEq, true_and]
      split
      · next he => simp [he, eq_comm]
      · next he =>
        refine ⟨fun hb => ⟨hb, ?_⟩, fun hb => hb.1⟩
        rintro rfl
        exact he hb
  · simp [hindex]

theorem has_clearBeamInformation {cfg : Config} {frame slot j : Nat} :
    (cfg.clearBeamInformation t frame slot).Has index' j b ↔
      t.Has index' j b ∧ cfg.clears frame slot index' = false := by
  unfold Table.Has Config.clearBeamInformation
  cases cfg.clears frame slot index' with
  | false => simp
  | true =>
    simp only [if_true, List.getElem?_map, Bool.true_eq_false, and_false, iff_false]
    cases (t index')[j]? <;> simp

end Entries

structure Inv (cfg : Config) (s : State) : Prop where
  distinct : ∀ index i j b, s.table.Has index i b → s.table.Has index j b → i = j
  kept : ∀ r ∈ s.pending, ∀ i, r.Holds i → s.table.Has (cfg.index r) i r.beam
  made : ∀ index i b, s.table.Has index i b →
    ∃ r ∈ s.pending, r.Holds i ∧ r.alloc.newBeam = true ∧ cfg.index r = index ∧ r.beam = b

variable {cfg : Config} {s : State}

namespace Inv

theorem right (h : Inv cfg s) : Right cfg s where
  distinct := h.distinct
  kept := h.kept
  free := by
    intro index hnone i b hhas
    obtain ⟨r, hr, hholds, _, hindex, _⟩ := h.made _ _ _ hhas
    exact hnone r hr i hholds hindex

theorem init (cfg : Config) : Inv cfg cfg.init := by
  have hfree : ∀ index i b, ¬ cfg.init.table.Has index i b := by
    intro index i b h
    have hmem := mem_of_getElem? h
    exact absurd (eq_of_mem_replicate hmem) (by simp)
  exact ⟨fun _ _ _ _ h => absurd h (hfree _ _ _), by simp [Config.init],
    fun _ _ _ h => absurd h (hfree _ _ _)⟩

theorem same (h : Inv cfg s) {r : Request}
    (hr : ∀ i, r.Holds i → s.table.Has (cfg.index r) i r.beam) :
    Inv cfg { s with pending := s.pending ++ [r] } where
  distinct := h.distinct
  kept := by
    intro r' hr' i hi
    rcases mem_append.mp hr' with hr' | hr'
    · exact h.kept r' hr' i hi
    · obtain rfl := mem_singleton.mp hr'
      exact hr i hi
  made := by
    intro index i b hhas
    obtain ⟨r', hr', hrest⟩ := h.made _ _ _ hhas
    exact ⟨r', mem_append_left _ hr', hrest⟩

variable {frame slot beam : Nat}

theorem request_cases (hw : cfg.straightWire = false) (s : State) {index : Nat}
    (hindex : cfg.getBeamIndex frame slot = index) (beam : Nat) :
    (∃ i, s.table.Has index i beam ∧ Passed beam (s.table index) i ∧
      cfg.exec s (.request frame slot beam) =
        { s with pending := s.pending ++ [{ frame, slot, beam, alloc := ⟨false, some i⟩ }] }) ∨
    (∃ i, (s.table index)[i]? = some none ∧ Passed beam (s.table index) i ∧
      cfg.exec s (.request frame slot beam) =
        { table := update s.table index ((s.table index).set i (some beam))
          pending := s.pending ++ [{ frame, slot, beam, alloc := ⟨true, some i⟩ }] }) ∨
    (Passed beam (s.table index) (s.table index).length ∧
      cfg.exec s (.request frame slot beam) =
        { s with pending := s.pending ++ [{ frame, slot, beam, alloc := ⟨false, none⟩ }] }) := by
  simp only [Config.exec, Config.beamAllocationProcedure, hw, hindex, Bool.false_eq_true, if_false]
  rcases allocate_cases beam 0 (s.table index) with
    ⟨i, hi, hpassed, heq⟩ | ⟨i, hi, hpassed, heq⟩ | ⟨hpassed, heq⟩
  · exact .inl ⟨i, hi, hpassed, by rw [heq, update_eq_self, Nat.zero_add]⟩
  · exact .inr (.inl ⟨i, hi, hpassed, by rw [heq, Nat.zero_add]⟩)
  · exact .inr (.inr ⟨hpassed, by rw [heq, update_eq_self]⟩)

theorem request (h : Inv cfg s) (hw : cfg.straightWire = false)
    (hg : Good cfg s (.request frame slot beam)) :
    Inv cfg (cfg.exec s (.request frame slot beam)) := by
  rcases request_cases hw s rfl beam with
    ⟨i, hi, _, heq⟩ | ⟨i, hi, hpassed, heq⟩ | ⟨_, heq⟩ <;> rw [heq]
  · refine h.same ?_
    rintro j ⟨_, hj⟩
    cases hj
    exact hi
  · -- no entry has the beam, before or behind the free one
    have hnew : ∀ j, ¬ s.table.Has (cfg.getBeamIndex frame slot) j beam := by
      intro j hj
      rcases Nat.lt_trichotomy j i with hlt | rfl | hlt
      · obtain ⟨b, hb, hne⟩ := hpassed j hlt
        exact hne (Option.some.inj (Option.some.inj (hb.symm.trans hj)))
      · cases hi.symm.trans hj
      · exact hg i j hlt hi hj
    refine ⟨?_, ?_, ?_⟩
    · intro index j k b hj hk
      rcases (has_set hi).mp hj with ⟨rfl, rfl, rfl⟩ | hj' <;>
        rcases (has_set hi).mp hk with ⟨hk₁, hk₂, hk₃⟩ | hk'
      · exact hk₂.symm
      · exact absurd hk' (hnew k)
      · exact absurd (hk₁ ▸ hk₃ ▸ hj') (hnew j)
      · exact h.distinct _ _ _ _ hj' hk'
    · intro r hr j hj
      rw [has_set hi]
      rcases mem_append.mp hr with hr | hr
      · exact .inr (h.kept r hr j hj)
      · obtain rfl := mem_singleton.mp hr
        obtain ⟨_, hj⟩ := hj
        cases hj
        exact .inl ⟨rfl, rfl, rfl⟩
    · intro index j b hj
      rcases (has_set hi).mp hj with ⟨rfl, rfl, rfl⟩ | hj
      · exact ⟨_, mem_append_right _ (mem_singleton_self _), ⟨rfl, rfl⟩, rfl, rfl, rfl⟩
      · obtain ⟨r, hr, hrest⟩ := h.made _ _ _ hj
        exact ⟨r, mem_append_left _ hr, hrest⟩
  · refine h.same ?_
    rintro j ⟨_, hj⟩
    cases hj

theorem mem_pending {n : Nat} {r r' : Request} (hr : s.pending[n]? = some r)
    (hr' : r' ∈ s.pending) : r' = r ∨ r' ∈ s.pending.eraseIdx n := by
  obtain ⟨m, hm⟩ := mem_iff_getElem?.mp hr'
  by_cases hmn : m = n
  · subst hmn
    exact .inl (Option.some.inj (hm.symm.trans hr))
  · exact .inr (mem_eraseIdx_iff_getElem?.mpr ⟨m, hmn, hm⟩)

theorem reset (h : Inv cfg s) {n : Nat} (hg : Good cfg s (.reset n)) :
    Inv cfg (cfg.exec s (.reset n)) := by
  rw [Config.exec]
  cases hr : s.pending[n]? with
  | none => exact h
  | some r =>
    dsimp only
    have hsub : ∀ {r'}, r' ∈ s.pending.eraseIdx n → r' ∈ s.pending := mem_of_mem_eraseIdx
    cases hnew : r.alloc.newBeam with
    | false =>
      refine ⟨h.distinct, fun r' hr' => h.kept r' (hsub hr'), ?_⟩
      intro index i b hhas
      obtain ⟨r', hr', hholds, hmade, hrest⟩ := h.made _ _ _ hhas
      refine ⟨r', (mem_pending hr hr').resolve_left ?_, hholds, hmade, hrest⟩
      rintro rfl
      exact absurd (hmade.symm.trans hnew) (by decide)
    | true =>
      refine ⟨?_, ?_, ?_⟩
      · intro index i j b hi hj
        exact h.distinct _ _ _ _ (has_resetBeamStatus.mp hi).1 (has_resetBeamStatus.mp hj).1
      · intro r' hr' i hi
        refine has_resetBeamStatus.mpr ⟨h.kept r' (hsub hr') i hi, ?_⟩
        rintro ⟨hindex, hbeam⟩
        exact hg r hr hnew r' hr' i hi hindex hbeam
      · intro index i b hhas
        obtain ⟨hhas, hne⟩ := has_resetBeamStatus.mp hhas
        obtain ⟨r', hr', hholds, hmade, hindex, hbeam⟩ := h.made _ _ _ hhas
        refine ⟨r', (mem_pending hr hr').resolve_left ?_, hholds, hmade, hindex, hbeam⟩
        rintro rfl
        exact hne ⟨hindex.symm, hbeam.symm⟩

theorem clear (h : Inv cfg s) : Inv cfg (cfg.exec s (.clear frame slot)) where
  distinct := by
    intro index i j b hi hj
    exact h.distinct _ _ _ _ (has_clearBeamInformation.mp hi).1 (has_clearBeamInformation.mp hj).1
  kept := by
    intro r hr i hi
    obtain ⟨r', hr', rfl⟩ := mem_map.mp hr
    obtain ⟨hcleared, hidx⟩ := hi
    obtain ⟨hbefore, hnow⟩ := Bool.or_eq_false_iff.mp hcleared
    exact has_clearBeamInformation.mpr ⟨h.kept r' hr' i ⟨hbefore, hidx⟩, hnow⟩
  made := by
    intro index i b hhas
    obtain ⟨hhas, hnow⟩ := has_clearBeamInformation.mp hhas
    obtain ⟨r, hr, ⟨hcleared, hidx⟩, hmade, rfl, hbeam⟩ := h.made _ _ _ hhas
    exact ⟨_, mem_map_of_mem hr, ⟨by rw [hcleared, hnow]; rfl, hidx⟩, hmade, rfl, hbeam⟩

theorem step (h : Inv cfg s) (hw : cfg.straightWire = false) {c : Call} (hg : Good cfg s c) :
    Inv cfg (cfg.exec s c) := by
  cases c with
  | request frame slot beam => exact h.request hw hg
  | reset n => exact h.reset hg
  | clear frame slot => exact h.clear

theorem good_of_right (h : Inv cfg s) (hw : cfg.straightWire = false) {c : Call}
    (hr : Right cfg (cfg.exec s c)) : Good cfg s c := by
  cases c with
  | clear frame slot => trivial
  | request frame slot beam =>
    intro i j hij hfree hj
    rcases request_cases hw s rfl beam with ⟨k, hk, hpassed, _⟩ | ⟨k, hk, _, heq⟩ | ⟨hpassed, _⟩
    · obtain rfl := h.distinct _ _ _ _ hk hj
      obtain ⟨b, hb, _⟩ := hpassed i hij
      cases hfree.symm.trans hb
    · rw [heq] at hr
      have hkj := hr.distinct _ _ _ _ ((has_set hk).mpr (.inl ⟨rfl, rfl, rfl⟩))
        ((has_set hk).mpr (.inr hj))
      subst hkj
      cases hk.symm.trans hj
    · obtain ⟨b, hb, _⟩ := hpassed i (List.getElem?_eq_some_iff.mp hfree).1
      cases hfree.symm.trans hb
  | reset n =>
    intro r hn hnew r' hr' i hi hindex hbeam
    have hexec : cfg.exec s (.reset n) =
        { table := cfg.resetBeamStatus s.table r.frame r.slot r.beam true
          pending := s.pending.eraseIdx n } := by
      rw [Config.exec, hn]
      dsimp only
      rw [hnew]
    rw [hexec] at hr
    exact (has_resetBeamStatus.mp (hr.kept r' hr' i hi)).2 ⟨hindex, hbeam⟩

end Inv

theorem run_append (calls : List Call) (c : Call) :
    cfg.run (calls ++ [c]) = cfg.exec (cfg.run calls) c := by
  rw [Config.run, foldl_append]
  rfl

theorem inv_of_prefixes (hw : cfg.straightWire = false) {calls : List Call}
    (h : ∀ done c, done ++ [c] <+: calls → Inv cfg (cfg.run done) → Good cfg (cfg.run done) c)
    {done : List Call} (hdone : done <+: calls) : Inv cfg (cfg.run done) := by
  induction done using List.reverseRecOn with
  | nil => exact .init cfg
  | append_singleton done c ih =>
    have hinv := ih ((prefix_append _ _).trans hdone)
    rw [run_append]
    exact hinv.step hw (h done c hdone hinv)

/-- The reservations are right after every call iff every call is good. -/
theorem reservations_right_iff (cfg : Config) (hw : cfg.straightWire = false) (calls : List Call) :
    (∀ done, done <+: calls → Right cfg (cfg.run done)) ↔
      ∀ done c, done ++ [c] <+: calls → Good cfg (cfg.run done) c := by
  constructor
  · intro h
    have hgood : ∀ done c, done ++ [c] <+: calls → Inv cfg (cfg.run done) →
        Good cfg (cfg.run done) c := by
      intro done c hpre hinv
      have hright := h _ hpre
      rw [run_append] at hright
      exact hinv.good_of_right hw hright
    intro done c hpre
    exact hgood done c hpre (inv_of_prefixes hw hgood ((prefix_append _ _).trans hpre))
  · intro h done hdone
    exact (inv_of_prefixes hw (fun done c hpre _ => h done c hpre) hdone).right

def twoBeams : Config where
  straightWire := false
  beamsPerPeriod := 2
  beamDuration := 1
  beamAllocationSize := 20
  slotsPerFrame := 20
  beamDuration_pos := by decide
  beamAllocationSize_pos := by decide

theorem reservations_right_iff_shared :
    Right twoBeams (twoBeams.run [.request 0 0 1, .request 0 0 1]) := by
  refine (reservations_right_iff twoBeams rfl [.request 0 0 1, .request 0 0 1]).mpr ?_ _
    prefix_rfl
  rintro done c ⟨rest, h⟩
  rcases done with _ | ⟨d, _ | ⟨d', done⟩⟩
  · obtain ⟨rfl, _⟩ := List.cons.inj h
    intro i j _ _ hj
    exact (Inv.init twoBeams).made _ _ _ hj |>.elim fun r hr => absurd hr.1 (not_mem_nil)
  · obtain ⟨rfl, h'⟩ := List.cons.inj h
    obtain ⟨rfl, _⟩ := List.cons.inj h'
    intro i j hij _ hj
    -- only the first entry is taken
    have hrow : [some 1, none][j]? = some (some 1) := hj
    rcases j with _ | _ | j
    · omega
    · cases hrow
    · cases hrow
  · have := congrArg List.length h
    simp at this

/-- The beam 2 is requested again after the entry before it has become free. -/
theorem not_forall_reservations_right :
    ¬ ∀ (cfg : Config), cfg.straightWire = false →
      ∀ calls : List Call, Right cfg (cfg.run calls) := by
  intro h
  have hright := h twoBeams rfl [.request 0 0 1, .request 0 0 2, .reset 0, .request 0 0 2]
  exact absurd (hright.distinct 0 0 1 2 rfl rfl) (by decide)

end OpenAir.Mac.Beams

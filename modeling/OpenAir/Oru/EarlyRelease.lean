import OpenAir.Lib.Tally
import OpenAir.Oru.FragmentBounds

/-! Early release.  A job is complete when each of its streams has as many PRBs as the C-plane has
declared for it; the history of a job has the sections themselves. -/

namespace OpenAir.Oru

open Function
open List hiding Disjoint

structure SectionPart where
  antId : Nat
  sectionId : Nat
  start : Nat
  num : Nat
  deriving DecidableEq

namespace SectionPart

def key (r : SectionPart) : Nat × Nat := (r.antId, r.sectionId)

def prbs (r : SectionPart) : Finset Nat := piece start num r

end SectionPart

def declaredPart (c : Config) (antId : Nat) (sec : SectionHeader) : SectionPart where
  antId := antId
  sectionId := sec.sectionId
  start := if sec.numPrbc = 0 then 0 else sec.startPrbc
  num := (c.effectiveNumPrb sec.numPrbc).toNat

def receivedPart (c : Config) (h : UplaneHeader) : SectionPart where
  antId := h.antId
  sectionId := h.sectId
  start := h.startPrbu
  num := Processor.effectiveNumPrbu c h.numPrbu

structure JobLog where
  declared : List SectionPart := []
  received : List SectionPart := []
  deriving DecidableEq

def DlStreamSlot.keys (st : DlStreamSlot) : List (Nat × Nat) := st.sectionIds.map (st.eaxcId, ·)

def DlSymbolJob.keys (job : DlSymbolJob) : List (Nat × Nat) := job.streams.flatMap DlStreamSlot.keys

def Opened (s t : Processor) (j : Nat) : Prop :=
  s.dlSymbolRxWindow (Processor.slotOf (t.jobs j).absoluteSymbol) = none ∧
    t.dlSymbolRxWindow (Processor.slotOf (t.jobs j).absoluteSymbol) = some j

instance (s t : Processor) (j : Nat) : Decidable (Opened s t j) :=
  inferInstanceAs (Decidable (_ ∧ _))

structure Logged where
  proc : Processor
  log : Nat → JobLog

namespace Logged

def init : Logged := ⟨.init, fun _ => {}⟩

/-- The history of the job `j` after an operation that leads to `t`: a U-plane packet is in the job
that has one fragment more, a tick empties the jobs that it takes as placeholders. -/
def logAfter (c : Config) (x : Logged) (op : Op) (t : Processor) (j : Nat) : JobLog :=
  match op with
  | .cplane p =>
    let part := declaredPart c (Processor.cplaneAntenna p) (p.after 16).sectionHeader
    if Opened x.proc t j then { declared := [part] }
    else if part.key ∈ (t.jobs j).keys ∧ part.key ∉ (x.proc.jobs j).keys then
      { x.log j with declared := (x.log j).declared ++ [part] }
    else x.log j
  | .uplane p =>
    match p.xranExtractIqSamples (c.dlCompMethod ≠ .none) with
    | none => x.log j
    | some (h, _) =>
      if (t.jobs j).fragments.length = (x.proc.jobs j).fragments.length then x.log j
      else { x.log j with received := (x.log j).received ++ [receivedPart c h] }
  | .tick _ => if (t.jobs j).streams = [] then {} else x.log j
  | _ => x.log j

def exec (c : Config) (x : Logged) (op : Op) : Option Logged :=
  (x.proc.exec c op).toOption.map fun t => ⟨t, x.logAfter c op t⟩

end Logged

def JobLog.Covered (log : JobLog) : Prop :=
  ∀ d ∈ log.declared, ∀ prb ∈ d.prbs, ∃ r ∈ log.received, r.key = d.key ∧ prb ∈ r.prbs

structure JobInv (job : DlSymbolJob) (log : JobLog) : Prop where
  keys : (log.declared.map SectionPart.key).Perm job.keys
  nodup : job.keys.Nodup
  expected : ∀ st ∈ job.streams,
    st.expectedIq = (st.keys.map (tally SectionPart.key SectionPart.num log.declared)).sum
  received : ∀ st ∈ job.streams,
    st.receivedIq = (st.keys.map (tally SectionPart.key SectionPart.num log.received)).sum
  fragments : job.fragments.map (fun f => (f.eaxcId, f.startPrbc, f.numPrbc)) =
    log.received.map fun r => (r.antId, r.start, r.num)
  inside : ∀ r ∈ log.received, ∃ d ∈ log.declared, d.key = r.key ∧ r.prbs ⊆ d.prbs
  apart : log.received.Pairwise fun a b => a.key = b.key → Disjoint a.prbs b.prbs

theorem JobInv.fresh (symbol : Nat) : JobInv (.fresh symbol) {} where
  keys := .nil
  nodup := .nil
  expected := fun _ h => by cases h
  received := fun _ h => by cases h
  fragments := rfl
  inside := fun _ h => by cases h
  apart := .nil

namespace DlSymbolJob

variable {job : DlSymbolJob} {antId sectionId : Nat}

theorem mem_keys_iff : (antId, sectionId) ∈ job.keys ↔
    ∃ st ∈ job.streams, st.eaxcId = antId ∧ sectionId ∈ st.sectionIds := by
  simp only [keys, DlStreamSlot.keys, mem_flatMap, mem_map, Prod.mk.injEq]
  constructor
  · rintro ⟨st, hst, id, hid, rfl, rfl⟩
    exact ⟨st, hst, rfl, hid⟩
  · rintro ⟨st, hst, rfl, hid⟩
    exact ⟨st, hst, _, hid, rfl, rfl⟩

theorem findDlStreamBySection_eq_none :
    job.findDlStreamBySection antId sectionId = none ↔ (antId, sectionId) ∉ job.keys := by
  rw [findDlStreamBySection, List.findIdx?_eq_none_iff, mem_keys_iff]
  simp

theorem findDlStreamBySection_eq_some {k : Nat}
    (h : job.findDlStreamBySection antId sectionId = some k) :
    ∃ st, job.streams[k]? = some st ∧ (antId, sectionId) ∈ st.keys := by
  obtain ⟨hk, hp, -⟩ := List.findIdx?_eq_some_iff_getElem.mp h
  simp only [Bool.and_eq_true, decide_eq_true_eq, contains_iff_mem] at hp
  refine ⟨job.streams[k], List.getElem?_eq_getElem hk, mem_map.mpr ⟨sectionId, hp.2, ?_⟩⟩
  rw [hp.1]

theorem exists_split {k : Nat} {st : DlStreamSlot} (h : job.streams[k]? = some st)
    (f : DlStreamSlot → DlStreamSlot) : ∃ l₁ l₂, job.streams = l₁ ++ st :: l₂ ∧
      (job.modifyStream k f).streams = l₁ ++ f st :: l₂ := by
  obtain ⟨hk, -⟩ := List.getElem?_eq_some_iff.mp h
  obtain ⟨l₁, a, l₂, hl, rfl, hmod⟩ := exists_of_modify f hk
  have ha : a = st := by
    rw [hl] at h
    simpa using h
  subst ha
  exact ⟨l₁, l₂, hl, hmod⟩

theorem forall_modifyStream {k : Nat} {st : DlStreamSlot} {f : DlStreamSlot → DlStreamSlot}
    {P : DlStreamSlot → Prop} (hst : job.streams[k]? = some st) (h : ∀ st' ∈ job.streams, P st')
    (hk : P (f st)) : ∀ st' ∈ (job.modifyStream k f).streams, P st' := by
  obtain ⟨l₁, l₂, hl, hmod⟩ := exists_split hst f
  rw [hmod]
  intro st' hst'
  rcases mem_append.mp hst' with hst' | hst'
  · exact h st' (hl ▸ mem_append_left _ hst')
  · rcases mem_cons.mp hst' with rfl | hst'
    · exact hk
    · exact h st' (hl ▸ mem_append_right _ (mem_cons_of_mem _ hst'))

end DlSymbolJob

namespace JobInv

variable {job : DlSymbolJob} {log : JobLog} (hinv : JobInv job log)

include hinv

theorem addStream (antId beamId : Nat) :
    JobInv { job with streams := job.streams ++ [{ eaxcId := antId, beamId := beamId }] } log := by
  have hkeys : DlSymbolJob.keys
      { job with streams := job.streams ++ [{ eaxcId := antId, beamId := beamId }] } =
        job.keys := by
    simp [DlSymbolJob.keys, DlStreamSlot.keys]
  refine ⟨hkeys ▸ hinv.keys, hkeys ▸ hinv.nodup, ?_, ?_, hinv.fragments, hinv.inside, hinv.apart⟩
  · intro st hst
    rcases mem_append.mp hst with hst | hst
    · exact hinv.expected st hst
    · rw [mem_singleton.mp hst]
      rfl
  · intro st hst
    rcases mem_append.mp hst with hst | hst
    · exact hinv.received st hst
    · rw [mem_singleton.mp hst]
      rfl

theorem declare {k : Nat} {st : DlStreamSlot} {part : SectionPart} {n : Int}
    (hst : job.streams[k]? = some st) (hant : st.eaxcId = part.antId) (hnew : part.key ∉ job.keys)
    (hn : n = part.num) :
    JobInv (job.modifyStream k fun st =>
        { st with
          sectionIds := st.sectionIds ++ [part.sectionId]
          expectedIq := st.expectedIq + n })
      { log with declared := log.declared ++ [part] } := by
  obtain ⟨l₁, l₂, hl, hmod⟩ := DlSymbolJob.exists_split hst fun st =>
    { st with sectionIds := st.sectionIds ++ [part.sectionId], expectedIq := st.expectedIq + n }
  have hstKeys : DlStreamSlot.keys { st with
      sectionIds := st.sectionIds ++ [part.sectionId], expectedIq := st.expectedIq + n } =
        st.keys ++ [part.key] := by
    simp [DlStreamSlot.keys, SectionPart.key, hant]
  -- the new key stands at the end of its stream, so somewhere among the keys of the job
  have hkeys : (job.keys ++ [part.key]).Perm (DlSymbolJob.keys (job.modifyStream k fun st =>
      { st with sectionIds := st.sectionIds ++ [part.sectionId], expectedIq :=
        st.expectedIq + n })) := by
    rw [DlSymbolJob.keys, DlSymbolJob.keys, hmod, hl]
    simp only [flatMap_append, flatMap_cons, hstKeys, append_assoc]
    exact .append_left _ (.append_left _ perm_append_comm)
  have hnotMem {st' : DlStreamSlot} (hst' : st' ∈ job.streams) : part.key ∉ st'.keys :=
    fun hmem => hnew (mem_flatMap.mpr ⟨st', hst', hmem⟩)
  have hmem : st ∈ job.streams := mem_of_getElem? hst
  have hdecl : tally SectionPart.key SectionPart.num log.declared part.key = 0 :=
    tally_eq_zero fun d hd heq =>
      hnew (hinv.keys.mem_iff.mp (heq ▸ mem_map_of_mem hd))
  have hrecv : tally SectionPart.key SectionPart.num log.received part.key = 0 := by
    refine tally_eq_zero fun r hr heq => hnew ?_
    obtain ⟨d, hd, hkey, -⟩ := hinv.inside r hr
    exact hinv.keys.mem_iff.mp (heq ▸ hkey ▸ mem_map_of_mem hd)
  refine ⟨?_, ?_, ?_, ?_, hinv.fragments, ?_, hinv.apart⟩
  · rw [map_append]
    exact (hinv.keys.append_right _).trans hkeys
  · refine hkeys.nodup (nodup_append.mpr ⟨hinv.nodup, nodup_singleton _, ?_⟩)
    rintro a ha b hb rfl
    exact hnew (mem_singleton.mp hb ▸ ha)
  · refine DlSymbolJob.forall_modifyStream hst ?_ ?_
    · intro st' hst'
      rw [sum_tally_concat_of_notMem (hnotMem hst')]
      exact hinv.expected st' hst'
    · rw [hstKeys, map_append, sum_append, sum_tally_concat_of_notMem (hnotMem hmem)]
      have hone := hinv.expected st hmem
      simp only [map_cons, map_nil, sum_singleton, tally_concat, hdecl, if_true]
      omega
  · refine DlSymbolJob.forall_modifyStream hst hinv.received ?_
    rw [hstKeys, map_append, sum_append]
    have hone := hinv.received st hmem
    simp only [map_cons, map_nil, sum_singleton, hrecv]
    omega
  · intro r hr
    obtain ⟨d, hd, hkey, hsub⟩ := hinv.inside r hr
    exact ⟨d, mem_append_left _ hd, hkey, hsub⟩

theorem store {job' : DlSymbolJob} {k : Nat} {st : DlStreamSlot} {part : SectionPart}
    {f : DlFragment}
    (hstreams : job'.streams = job.streams) (hfrags : job'.fragments = job.fragments ++ [f])
    (hf : (f.eaxcId, f.startPrbc, f.numPrbc) = (part.antId, part.start, part.num))
    (hst : job.streams[k]? = some st) (hkey : part.key ∈ st.keys)
    (hinside : ∃ d ∈ log.declared, d.key = part.key ∧ part.prbs ⊆ d.prbs)
    (hapart : ∀ r ∈ log.received, r.key = part.key → Disjoint r.prbs part.prbs) :
    JobInv (job'.modifyStream k fun st => { st with receivedIq := st.receivedIq + f.numPrbc })
      { log with received := log.received ++ [part] } := by
  obtain ⟨l₁, l₂, hl, hmod⟩ := DlSymbolJob.exists_split (hstreams ▸ hst) fun st =>
    { st with receivedIq := st.receivedIq + f.numPrbc }
  rw [hstreams] at hl
  have hnum : f.numPrbc = part.num := congrArg (·.2.2) hf
  have hkeys : DlSymbolJob.keys (job'.modifyStream k fun st =>
      { st with receivedIq := st.receivedIq + f.numPrbc }) = job.keys := by
    rw [DlSymbolJob.keys, DlSymbolJob.keys, hmod, hl]
    simp [DlStreamSlot.keys]
  have hnodup := hinv.nodup
  rw [DlSymbolJob.keys, hl, flatMap_append, flatMap_cons] at hnodup
  -- the key is in one stream only
  have hleft {st' : DlStreamSlot} (hst' : st' ∈ l₁) : part.key ∉ st'.keys := by
    intro hmem
    exact (nodup_append.mp hnodup).2.2 _ (mem_flatMap.mpr ⟨st', hst', hmem⟩) _
      (mem_append_left _ hkey) rfl
  have hrest := (nodup_append.mp hnodup).2.1
  have hright {st' : DlStreamSlot} (hst' : st' ∈ l₂) : part.key ∉ st'.keys := by
    intro hmem
    exact (nodup_append.mp hrest).2.2 _ hkey _ (mem_flatMap.mpr ⟨st', hst', hmem⟩) rfl
  refine ⟨hkeys ▸ hinv.keys, hkeys ▸ hinv.nodup, ?_, ?_, ?_, ?_, ?_⟩
  · exact DlSymbolJob.forall_modifyStream (hstreams ▸ hst) (hstreams ▸ hinv.expected)
      (hinv.expected st (mem_of_getElem? hst))
  · intro st' hst'
    rw [hmod] at hst'
    rcases mem_append.mp hst' with hst' | hst'
    · rw [sum_tally_concat_of_notMem (hleft hst')]
      exact hinv.received st' (hl ▸ mem_append_left _ hst')
    · rcases mem_cons.mp hst' with rfl | hst'
      · have hone := hinv.received st (mem_of_getElem? hst)
        have hsum :
            (st.keys.map (tally SectionPart.key SectionPart.num (log.received ++ [part]))).sum =
            (st.keys.map (tally SectionPart.key SectionPart.num log.received)).sum + part.num :=
          sum_tally_concat_of_mem (nodup_append.mp hrest).1 hkey
        simp only [DlStreamSlot.keys] at hone hsum ⊢
        rw [hsum, hone, hnum]
        push_cast
        rfl
      · rw [sum_tally_concat_of_notMem (hright hst')]
        exact hinv.received st' (hl ▸ mem_append_right _ (mem_cons_of_mem _ hst'))
  · change job'.fragments.map _ = _
    rw [hfrags, map_append, map_append, hinv.fragments, map_singleton,
      map_singleton, hf]
  · intro r hr
    rcases mem_append.mp hr with hr | hr
    · exact hinv.inside r hr
    · rw [mem_singleton.mp hr]
      exact hinside
  · refine pairwise_append.mpr ⟨hinv.apart, pairwise_singleton _ _, ?_⟩
    intro r hr p hp
    rw [mem_singleton.mp hp]
    exact hapart r hr

theorem covered (hfull : job.fullyDelivered) : log.Covered := by
  intro d hd
  have hdeclNodup := hinv.keys.nodup_iff.mpr hinv.nodup
  -- the packets of one section are pieces of what is declared for it
  have hpieces {e : SectionPart} (he : e ∈ log.declared) :
      (log.received.filter fun r => r.key = e.key).Pairwise
          (fun a b => Disjoint a.prbs b.prbs) ∧
        ∀ a ∈ log.received.filter fun r => r.key = e.key, a.prbs ⊆ e.prbs := by
    constructor
    · refine (hinv.apart.filter _).imp_of_mem ?_
      intro a b ha hb hab
      have hka := (mem_filter.mp ha).2
      have hkb := (mem_filter.mp hb).2
      exact hab ((of_decide_eq_true hka).trans (of_decide_eq_true hkb).symm)
    · intro a ha
      obtain ⟨har, hka⟩ := mem_filter.mp ha
      obtain ⟨d', hd', hkey, hsub⟩ := hinv.inside a har
      have heq : d' = e := inj_on_of_nodup_map hdeclNodup hd' he
        (hkey.trans (of_decide_eq_true hka))
      exact heq ▸ hsub
  have hle {k : Nat × Nat} (hk : k ∈ job.keys) :
      tally SectionPart.key SectionPart.num log.received k ≤
        tally SectionPart.key SectionPart.num log.declared k := by
    obtain ⟨e, he, rfl⟩ := mem_map.mp (hinv.keys.mem_iff.mpr hk)
    rw [tally_of_nodup hdeclNodup he]
    have := sum_len_le_card (hpieces he).1 (hpieces he).2
    simpa [tally, SectionPart.prbs, piece] using this
  have hdk : d.key ∈ job.keys := hinv.keys.mem_iff.mp (mem_map_of_mem hd)
  obtain ⟨st, hst, hdst⟩ := mem_flatMap.mp hdk
  have hcount : (st.keys.map (tally SectionPart.key SectionPart.num log.received)).sum =
      (st.keys.map (tally SectionPart.key SectionPart.num log.declared)).sum := by
    have heq := of_decide_eq_true (all_eq_true.mp hfull st hst)
    rw [hinv.expected st hst, hinv.received st hst] at heq
    exact_mod_cast heq
  have hown := eq_of_sum_map_eq
    (fun k hk => hle (mem_flatMap.mpr ⟨st, hst, hk⟩)) hcount d.key hdst
  rw [tally_of_nodup hdeclNodup hd] at hown
  intro prb hprb
  obtain ⟨r, hr, hprb'⟩ := exists_mem_piece_of_sum_eq (hpieces hd).1 (hpieces hd).2
    (by simpa [tally, SectionPart.prbs, piece] using hown) hprb
  obtain ⟨hr, hkey⟩ := mem_filter.mp hr
  exact ⟨r, hr, of_decide_eq_true hkey, hprb'⟩

end JobInv

theorem JobInv.log_eq {job : DlSymbolJob} {log : JobLog} (hinv : JobInv job log)
    (h : job.streams = []) : log = {} := by
  have hdecl : log.declared = [] := by
    have hkeys := hinv.keys
    rw [DlSymbolJob.keys, h] at hkeys
    exact map_eq_nil_iff.mp hkeys.eq_nil
  have hrecv : log.received = [] := by
    refine eq_nil_iff_forall_not_mem.mpr fun r hr => ?_
    obtain ⟨d, hd, -⟩ := hinv.inside r hr
    rw [hdecl] at hd
    cases hd
  cases log
  simp_all

namespace Processor

section Declare

variable {c : Config} {antId : Nat} {sec : SectionHeader} {job job' : DlSymbolJob}

def addSection (c : Config) (sec : SectionHeader) (st : DlStreamSlot) : DlStreamSlot :=
  { st with
    sectionIds := st.sectionIds ++ [sec.sectionId]
    expectedIq := st.expectedIq + c.effectiveNumPrb sec.numPrbc }

theorem declareSection_eq_inr (h : declareSection c job antId sec = .inr job') :
    (antId, sec.sectionId) ∉ job.keys ∧ ∃ job₁ k st,
      (job₁ = job ∨
        job₁ = { job with streams := job.streams ++ [{ eaxcId := antId, beamId := sec.beamId }] }) ∧
      job₁.streams[k]? = some st ∧ st.eaxcId = antId ∧
      job' = job₁.modifyStream k (addSection c sec) := by
  unfold declareSection at h
  split at h
  · cases h
  next hnone =>
  refine ⟨DlSymbolJob.findDlStreamBySection_eq_none.mp hnone, ?_⟩
  split at h
  · cases h
  next k job₁ hadd =>
  split at h
  · cases h
  cases h
  unfold DlSymbolJob.findOrAddDlStream at hadd
  split at hadd
  · next k' hk =>
    cases hadd
    obtain ⟨hlt, hp, -⟩ := List.findIdx?_eq_some_iff_getElem.mp hk
    simp only [Bool.and_eq_true, decide_eq_true_eq] at hp
    exact ⟨job, k, _, .inl rfl, List.getElem?_eq_getElem hlt, hp.1, rfl⟩
  · split at hadd
    · cases hadd
    · cases hadd
      exact ⟨_, _, _, .inr rfl, List.getElem?_concat_length, rfl, rfl⟩

theorem absoluteSymbol_of_declareSection (h : declareSection c job antId sec = .inr job') :
    job'.absoluteSymbol = job.absoluteSymbol := by
  obtain ⟨-, job₁, k, st, hjob₁, -, -, rfl⟩ := declareSection_eq_inr h
  rcases hjob₁ with rfl | rfl <;> rfl

theorem mem_keys_of_declareSection (h : declareSection c job antId sec = .inr job') :
    (antId, sec.sectionId) ∈ job'.keys := by
  obtain ⟨-, job₁, k, st, -, hst, rfl, rfl⟩ := declareSection_eq_inr h
  obtain ⟨l₁, l₂, -, hmod⟩ := DlSymbolJob.exists_split hst (addSection c sec)
  refine DlSymbolJob.mem_keys_iff.mpr ⟨addSection c sec st, ?_, rfl, ?_⟩
  · rw [hmod]
    exact mem_append_right _ mem_cons_self
  · exact mem_append_right _ (mem_singleton_self _)

theorem JobInv.declareSection {log : JobLog} (hprb : 0 ≤ c.numPrb) (hinv : JobInv job log)
    (h : declareSection c job antId sec = .inr job') :
    JobInv job' { log with declared := log.declared ++ [declaredPart c antId sec] } := by
  obtain ⟨hnew, job₁, k, st, hjob₁, hst, hant, rfl⟩ := declareSection_eq_inr h
  have hnum : c.effectiveNumPrb sec.numPrbc = (declaredPart c antId sec).num := by
    refine (Int.toNat_of_nonneg ?_).symm
    unfold Config.effectiveNumPrb
    split <;> omega
  have hinv₁ : JobInv job₁ log ∧ job₁.keys = job.keys := by
    rcases hjob₁ with rfl | rfl
    · exact ⟨hinv, rfl⟩
    · refine ⟨hinv.addStream antId sec.beamId, ?_⟩
      simp [DlSymbolJob.keys, DlStreamSlot.keys]
  exact hinv₁.1.declare hst hant (hinv₁.2 ▸ hnew) hnum

inductive JobEffect (c : Config) (antId : Nat) (sec : SectionHeader) (s t : Processor) (j : Nat) :
    Prop
  | kept (hjob : t.jobs j = s.jobs j) (hopen : ¬ Opened s t j)
  | opened (symbol : Nat) (hopen : Opened s t j)
      (hdecl : Processor.declareSection c (.fresh symbol) antId sec = .inr (t.jobs j))
  | declared (hopen : ¬ Opened s t j)
      (hdecl : Processor.declareSection c (s.jobs j) antId sec = .inr (t.jobs j))

structure Declares (c : Config) (antId : Nat) (sec : SectionHeader) (s t : Processor) : Prop where
  window : ∀ k j, s.dlSymbolRxWindow k = some j → t.dlSymbolRxWindow k = some j
  jobs : ∀ j, JobEffect c antId sec s t j

variable {s t u : Processor}

theorem not_opened_of_window {j : Nat} (h : t.dlSymbolRxWindow = s.dlSymbolRxWindow) :
    ¬ Opened s t j := by
  rintro ⟨hnone, hsome⟩
  rw [h, hnone] at hsome
  cases hsome

theorem Declares.of_eq (hjobs : t.jobs = s.jobs) (hwin : t.dlSymbolRxWindow = s.dlSymbolRxWindow) :
    Declares c antId sec s t :=
  ⟨fun _ _ h => hwin ▸ h, fun _ => .kept (congrFun hjobs _) (not_opened_of_window hwin)⟩

theorem not_opened_trans {j : Nat}
    (hwin : ∀ k j, u.dlSymbolRxWindow k = some j → t.dlSymbolRxWindow k = some j)
    (hsym : (t.jobs j).absoluteSymbol = (u.jobs j).absoluteSymbol) (hsu : ¬ Opened s u j)
    (hut : ¬ Opened u t j) : ¬ Opened s t j := by
  rintro ⟨hnone, hsome⟩
  cases hu : u.dlSymbolRxWindow (slotOf (t.jobs j).absoluteSymbol) with
  | none => exact hut ⟨hu, hsome⟩
  | some j' =>
    have hj := hwin _ _ hu
    rw [hsome] at hj
    cases hj
    exact hsu ⟨hsym ▸ hnone, hsym ▸ hu⟩

theorem Declares.trans (hsu : Declares c antId sec s u) (hut : Declares c antId sec u t) :
    Declares c antId sec s t := by
  refine ⟨fun k j h => hut.window k j (hsu.window k j h), fun j => ?_⟩
  cases hut.jobs j with
  | kept hjob hopen =>
    have hsym := congrArg DlSymbolJob.absoluteSymbol hjob
    cases hsu.jobs j with
    | kept hjob' hopen' =>
      exact .kept (hjob.trans hjob') (not_opened_trans hut.window hsym hopen' hopen)
    | opened symbol hopen' hdecl =>
      refine .opened symbol ?_ (hjob ▸ hdecl)
      unfold Opened at hopen' ⊢
      rw [hjob]
      exact ⟨hopen'.1, hut.window _ _ hopen'.2⟩
    | declared hopen' hdecl =>
      exact .declared (not_opened_trans hut.window hsym hopen' hopen) (hjob ▸ hdecl)
  | opened symbol hopen hdecl =>
    refine .opened symbol ⟨?_, hopen.2⟩ hdecl
    cases hs : s.dlSymbolRxWindow (slotOf (t.jobs j).absoluteSymbol) with
    | none => rfl
    | some j' =>
      have hu := hsu.window _ _ hs
      rw [hopen.1] at hu
      cases hu
  | declared hopen hdecl =>
    -- a section is not declared twice in a job
    have hnew := (declareSection_eq_inr hdecl).1
    cases hsu.jobs j with
    | kept hjob' hopen' =>
      exact .declared
        (not_opened_trans hut.window (absoluteSymbol_of_declareSection hdecl) hopen' hopen)
        (hjob' ▸ hdecl)
    | opened symbol hopen' hdecl' => exact absurd (mem_keys_of_declareSection hdecl') hnew
    | declared hopen' hdecl' => exact absurd (mem_keys_of_declareSection hdecl') hnew

theorem exists_declareSection_fresh (c : Config) (antId : Nat) (sec : SectionHeader)
    (symbol : Nat) : ∃ job, declareSection c (.fresh symbol) antId sec = .inr job :=
  ⟨_, rfl⟩

theorem Declares.of_opened {j symbol : Nat} (hnone : s.dlSymbolRxWindow (slotOf symbol) = none)
    (hwin : t.dlSymbolRxWindow = update s.dlSymbolRxWindow (slotOf symbol) (some j))
    (hjobs : t.jobs = update s.jobs j job)
    (hdecl : declareSection c (.fresh symbol) antId sec = .inr job) :
    Declares c antId sec s t := by
  have hsym : job.absoluteSymbol = symbol := absoluteSymbol_of_declareSection hdecl
  refine ⟨fun k j' h => ?_, fun j' => ?_⟩
  · rw [hwin, update_of_ne fun hk => by rw [hk, hnone] at h; cases h]
    exact h
  · by_cases hj : j' = j
    · subst hj
      have hjob : t.jobs j' = job := by rw [hjobs, update_self]
      refine .opened symbol ?_ (hjob ▸ hdecl)
      unfold Opened
      rw [hjob, hsym, hwin, update_self]
      exact ⟨hnone, rfl⟩
    · have hjob : t.jobs j' = s.jobs j' := by rw [hjobs, update_of_ne hj]
      refine .kept hjob ?_
      rintro ⟨hnone', hsome⟩
      rw [hwin] at hsome
      by_cases hk : slotOf (t.jobs j').absoluteSymbol = slotOf symbol
      · rw [hk, update_self] at hsome
        exact hj (Option.some.inj hsome).symm
      · rw [update_of_ne hk, hnone'] at hsome
        cases hsome

theorem dlCplaneSymbol_declares (s : Processor) (diff : Int) (target i : Nat) :
    Declares c antId sec s (s.dlCplaneSymbol c antId sec diff target i).2 := by
  unfold dlCplaneSymbol
  split
  · exact .of_eq rfl rfl
  split
  · exact .of_eq rfl rfl
  unfold openJob
  cases hwin : s.dlSymbolRxWindow (slotOf (target + i)) with
  | none =>
    dsimp only
    cases hfree : s.dlFreeJobs with
    | nil => exact .of_eq rfl rfl
    | cons j rest =>
      dsimp only
      obtain ⟨job, hdecl⟩ := exists_declareSection_fresh c antId sec (target + i)
      have hjob : ((({ s with dlFreeJobs := rest }.setJob j (.fresh (target + i))).setWindow
          (slotOf (target + i)) (some j)).setCompleted (slotOf (target + i)) false).jobs j =
            .fresh (target + i) := update_self _ _ _
      rw [hjob, hdecl]
      refine .of_opened hwin rfl ?_ hdecl
      exact update_idem _ _ _
  | some j =>
    dsimp only
    by_cases hsym : (s.jobs j).absoluteSymbol ≠ target + i
    · rw [if_pos hsym]
      exact .of_eq rfl rfl
    rw [if_neg hsym]
    dsimp only
    cases hdecl : declareSection c (s.jobs j) antId sec with
    | inl ks =>
      have hkeep : ∀ (ks : List Counter) (s : Processor), (ks.foldl bump s).jobs = s.jobs ∧
          (ks.foldl bump s).dlSymbolRxWindow = s.dlSymbolRxWindow := by
        intro ks
        induction ks with
        | nil => exact fun _ => ⟨rfl, rfl⟩
        | cons k ks ih => exact fun s => ih (s.bump k)
      exact .of_eq (hkeep ks s).1 (hkeep ks s).2
    | inr job =>
      dsimp only
      refine ⟨fun _ _ h => h, fun j' => ?_⟩
      by_cases hj : j' = j
      · subst hj
        refine .declared (not_opened_of_window rfl) ?_
        simp only [hdecl, setJob, update_self]
      · exact .kept (update_of_ne hj _ _) (not_opened_of_window rfl)

theorem handleDlCplanePacket_declares (s : Processor) (h : CplaneHeader) :
    Declares c antId sec s (s.handleDlCplanePacket c h sec antId) := by
  unfold handleDlCplanePacket declareFrom
  split
  · exact .of_eq rfl rfl
  dsimp only
  split
  · exact .of_eq rfl rfl
  split
  · exact .of_eq rfl rfl
  split
  · exact .of_eq rfl rfl
  · exact rounds.invariant (Declares c antId sec s)
      (fun _ _ _ _ hd => hd.trans (dlCplaneSymbol_declares _ _ _ _)) (.of_eq rfl rfl)

theorem handleUlCplanePacket_declares {h : CplaneHeader} {ud : UdCompHeader}
    (ht : s.handleUlCplanePacket c h ud sec antId = .ok t) : Declares c antId sec s t := by
  unfold handleUlCplanePacket requestUl at ht
  split at ht
  · cases ht
    exact .of_eq rfl rfl
  dsimp only at ht
  split at ht
  · cases ht
    exact .of_eq rfl rfl
  split at ht
  · cases ht
    exact .of_eq rfl rfl
  split at ht
  · cases ht
    exact .of_eq rfl rfl
  split at ht
  · cases ht
    exact .of_eq rfl rfl
  next j rest hfree =>
  obtain ⟨-, -, ht⟩ := bind_eq_ok.mp ht
  cases ht
  exact .of_eq rfl rfl

theorem handlePrachCplanePacket_kept (s : Processor) (c : Config) (q : Mbuf) (antId : Nat) :
    (s.handlePrachCplanePacket c q antId).jobs = s.jobs ∧
      (s.handlePrachCplanePacket c q antId).dlSymbolRxWindow = s.dlSymbolRxWindow := by
  unfold handlePrachCplanePacket
  dsimp only
  split
  · exact ⟨rfl, rfl⟩
  split
  · exact ⟨rfl, rfl⟩
  split
  · exact ⟨rfl, rfl⟩
  split
  · exact ⟨rfl, rfl⟩
  split
  · exact ⟨rfl, rfl⟩
  · exact ⟨rfl, rfl⟩

theorem handleCplanePacket_declares {p : Mbuf} (ht : s.handleCplanePacket c p = .ok t) :
    Declares c (cplaneAntenna p) (p.after 16).sectionHeader s t := by
  rw [handleCplanePacket] at ht
  cases hbody : s.cplaneBody c p with
  | error e =>
    rw [hbody] at ht
    cases ht
  | ok t' =>
    rw [hbody] at ht
    cases ht
    refine .trans (u := t') ?_ (.of_eq rfl rfl)
    unfold cplaneBody at hbody
    dsimp only at hbody
    split at hbody
    · cases hbody
      exact .of_eq rfl rfl
    split at hbody
    · cases hbody
      exact .of_eq rfl rfl
    split at hbody
    · split at hbody
      · cases hbody
        exact .of_eq rfl rfl
      · obtain ⟨e, -, hbody⟩ := bind_eq_ok.mp hbody
        split at hbody
        · have ht' := (Except.ok.inj hbody).symm
          subst ht'
          refine Declares.trans ?_ (handleDlCplanePacket_declares _ _)
          exact .of_eq rfl rfl
        · refine Declares.trans ?_ (handleUlCplanePacket_declares hbody)
          exact .of_eq rfl rfl
    split at hbody
    · cases hbody
      obtain ⟨hjobs, hwin⟩ := handlePrachCplanePacket_kept
        ((s.bump .totalCplane).bump .cplaneReceivedPrach) c (p.after 8) (cplaneAntenna p)
      exact .of_eq hjobs hwin
    · cases hbody
      exact .of_eq rfl rfl

end Declare

section Store

variable {c : Config} {s : Processor}

def uplaneSymbol (c : Config) (s : Processor) (h : UplaneHeader) : Nat :=
  s.targetSymbol (s.symbolDiff c h.frameId h.subframeId h.slotId h.symbId)

theorem handleUplanePacket_jobs (c : Config) (s : Processor) (p : Mbuf) (j : Nat) :
    (s.handleUplanePacket c p).jobs j = s.jobs j ∨
      ∃ h iq k beamId job, p.xranExtractIqSamples (c.dlCompMethod ≠ .none) = some (h, iq) ∧
        s.dlSymbolRxWindow (slotOf (uplaneSymbol c s h)) = some j ∧
        (s.jobs j).absoluteSymbol = uplaneSymbol c s h ∧
        (s.jobs j).findDlStreamBySection h.antId h.sectId = some k ∧
        (s.jobs j).addDlFragment (fragmentOf c p h iq.data beamId) c.dlIqArenaPrbs = some job ∧
        (s.handleUplanePacket c p).jobs j = job.modifyStream k fun st =>
          { st with receivedIq := st.receivedIq + effectiveNumPrbu c h.numPrbu } := by
  unfold handleUplanePacket
  dsimp only
  split
  · exact .inl rfl
  next h iq hx =>
  split
  · exact .inl rfl
  split
  · exact .inl rfl
  split
  · exact .inl rfl
  split
  · exact .inl rfl
  split
  · exact .inl rfl
  unfold storeUplanePacket storeAt
  dsimp only
  split
  · exact .inl rfl
  split
  · exact .inl rfl
  split
  · exact .inl rfl
  split
  · exact .inl rfl
  next j' hj' =>
  split
  · exact .inl rfl
  next hsym =>
  split
  · exact .inl rfl
  next k hk =>
  split
  · exact .inl rfl
  next job hjob =>
  by_cases hj : j = j'
  · subst hj
    exact .inr ⟨h, iq, k, _, job, hx, hj', not_not.mp hsym, hk, hjob, update_self _ _ _⟩
  · exact .inl (update_of_ne hj _ _)

end Store

section Tick

variable {c : Config}

theorem releaseStep_jobs (s : Processor) : (s.releaseStep c).jobs = s.jobs := by
  unfold releaseStep
  dsimp only
  split
  · split
    · rfl
    · split
      · unfold enqueueReady
        split <;> rfl
      · rfl
  · rfl

theorem releaseStep_iterate_jobs (s : Processor) (k : Nat) :
    ((releaseStep · c)^[k] s).jobs = s.jobs := by
  induction k generalizing s with
  | zero => rfl
  | succ k ih => rw [iterate_succ_apply, ih, releaseStep_jobs]

theorem enqueueReady_jobs (s : Processor) (j : Nat) : (s.enqueueReady j).jobs = s.jobs := by
  unfold enqueueReady
  split <;> rfl

theorem pushSymbolStep_jobs (s : Processor) (j : Nat) :
    (s.pushSymbolStep c).2.jobs j = s.jobs j ∨
      ∃ symbol, (s.pushSymbolStep c).2.jobs j = .fresh symbol := by
  unfold pushSymbolStep
  dsimp only
  split
  · exact .inl rfl
  split
  · exact .inl (congrFun (enqueueReady_jobs _ _) j)
  split
  · exact .inl rfl
  split
  · exact .inl rfl
  next j' rest hfree =>
  dsimp only
  rw [enqueueReady_jobs]
  by_cases hj : j = j'
  · subst hj
    exact .inr ⟨_, update_self _ _ _⟩
  · exact .inl (update_of_ne hj _ _)

theorem tickStart_jobs (s : Processor) (symbol : Nat) : (s.tickStart symbol).jobs = s.jobs := by
  unfold tickStart
  dsimp only
  split <;> rfl

def closedSymbol (c : Config) (symbol : Nat) : Nat := symbol + c.t2aMinCpSymDiff.toNat - 1

theorem handleAbsoluteSymbolTick_eq (s : Processor) (symbol : Nat) :
    s.handleAbsoluteSymbolTick c symbol =
      (if c.t2aMinCpSymDiff.toNat > 0 then
        (s.tickStart symbol).releaseCplaneCompleteJobs c (closedSymbol c symbol)
      else s.tickStart symbol).pushSymbolJob c
        (symbol + (min c.t2aMinCpSymDiff.toNat c.t2aMinUpDlSymDiff.toNat - 1)) := rfl

theorem handleAbsoluteSymbolTick_jobs (s : Processor) (symbol j : Nat) :
    (s.handleAbsoluteSymbolTick c symbol).jobs j = s.jobs j ∨
      ∃ symbol', (s.handleAbsoluteSymbolTick c symbol).jobs j = .fresh symbol' := by
  rw [handleAbsoluteSymbolTick_eq, pushSymbolJob]
  refine rounds.invariant
    (fun t : Processor => t.jobs j = s.jobs j ∨ ∃ symbol', t.jobs j = .fresh symbol') ?_ ?_
  · intro _ t _ _ ht
    rcases pushSymbolStep_jobs (c := c) t j with h | h
    · exact h ▸ ht
    · exact .inr h
  · refine .inl (congrFun ?_ j)
    split
    · rw [releaseCplaneCompleteJobs, releaseStep_iterate_jobs, tickStart_jobs]
    · exact tickStart_jobs s symbol

def ReleasesEarly (c : Config) (s : Processor) (symbol j : Nat) : Prop :=
  c.t2aMinCpSymDiff.toNat > 0 ∧
    ∃ k < closedSymbol c symbol + 1 - (s.tickStart symbol).cplaneClosedTailSymbol,
      ((releaseStep · c)^[k + 1] (s.tickStart symbol)).dlReadyJobs =
        ((releaseStep · c)^[k] (s.tickStart symbol)).dlReadyJobs ++ [j]

theorem fullyDelivered_of_releaseStep {s : Processor} {j : Nat}
    (h : (s.releaseStep c).dlReadyJobs = s.dlReadyJobs ++ [j]) : (s.jobs j).fullyDelivered := by
  unfold releaseStep at h
  dsimp only at h
  split at h
  · split at h
    · simp at h
    next j' hj' =>
    split at h
    · next hfull =>
      unfold enqueueReady at h
      split at h
      · have hj : j' = j := by simpa [setWindow, setCompleted] using h
        exact hj ▸ (Bool.and_eq_true_iff.mp hfull).2
      · simp [setWindow, setCompleted, bump] at h
    · simp at h
  · simp at h

theorem ReleasesEarly.fullyDelivered {s : Processor} {symbol j : Nat}
    (h : ReleasesEarly c s symbol j) : (s.jobs j).fullyDelivered := by
  obtain ⟨-, k, -, hk⟩ := h
  rw [iterate_succ_apply'] at hk
  have hfull := fullyDelivered_of_releaseStep hk
  rwa [releaseStep_iterate_jobs, tickStart_jobs] at hfull

end Tick

theorem readEnd_jobs {s t : Processor} {i : Nat} (h : s.readEnd i = .ok t) : t.jobs = s.jobs := by
  unfold readEnd at h
  split at h
  · cases h
    rfl
  split at h
  · cases h
    rfl
  · obtain ⟨-, -, h⟩ := bind_eq_ok.mp h
    cases h
    rfl

end Processor

namespace Logged

def Fits (c : Config) (x : Logged) : Op → Prop
  | .uplane p =>
    ∀ hq ∈ p.xranExtractIqSamples (c.dlCompMethod ≠ .none),
      ∀ j ∈ x.proc.dlSymbolRxWindow (Processor.slotOf (Processor.uplaneSymbol c x.proc hq.1)),
        (x.proc.jobs j).absoluteSymbol = Processor.uplaneSymbol c x.proc hq.1 →
        ∀ d ∈ (x.log j).declared, d.key = (receivedPart c hq.1).key →
          (receivedPart c hq.1).prbs ⊆ d.prbs ∧
            ∀ r ∈ (x.log j).received, r.key = (receivedPart c hq.1).key →
              Disjoint r.prbs (receivedPart c hq.1).prbs
  | _ => True

variable {c : Config} {x y : Logged} {op : Op}

theorem exec_eq_some (h : x.exec c op = some y) :
    x.proc.exec c op = .ok y.proc ∧ y.log = x.logAfter c op y.proc := by
  unfold exec at h
  cases hexec : x.proc.exec c op with
  | error e =>
    rw [hexec] at h
    cases h
  | ok t =>
    rw [hexec] at h
    cases h
    exact ⟨rfl, rfl⟩

theorem jobInv_exec (hprb : 0 ≤ c.numPrb) (hinv : ∀ j, JobInv (x.proc.jobs j) (x.log j))
    (hexec : x.exec c op = some y) (hfits : x.Fits c op) :
    ∀ j, JobInv (y.proc.jobs j) (y.log j) := by
  intro j
  obtain ⟨hproc, hlog⟩ := exec_eq_some hexec
  rw [hlog]
  cases op with
  | tick symbol =>
    rw [← Except.ok.inj hproc]
    dsimp only [logAfter]
    rcases Processor.handleAbsoluteSymbolTick_jobs (c := c) x.proc symbol j with hj | ⟨symbol', hj⟩
    · rw [hj]
      split
      · next hempty => exact (hinv j).log_eq hempty ▸ hinv j
      · exact hinv j
    · rw [hj]
      exact .fresh symbol'
  | cplane p =>
    dsimp only [logAfter]
    cases (Processor.handleCplanePacket_declares hproc).jobs j with
    | kept hjob hopen =>
      rw [if_neg hopen, hjob, if_neg fun h => h.2 h.1]
      exact hinv j
    | opened symbol hopen hdecl =>
      rw [if_pos hopen]
      exact Processor.JobInv.declareSection hprb (.fresh symbol) hdecl
    | declared hopen hdecl =>
      rw [if_neg hopen, if_pos ⟨Processor.mem_keys_of_declareSection hdecl,
        (Processor.declareSection_eq_inr hdecl).1⟩]
      exact Processor.JobInv.declareSection hprb (hinv j) hdecl
  | uplane p =>
    rw [← Except.ok.inj hproc]
    dsimp only [logAfter]
    rcases Processor.handleUplanePacket_jobs c x.proc p j with
      hj | ⟨h, iq, k, beamId, job, hx, hwin, hsym, hk, hadd, hj⟩
    · rw [hj]
      split
      · exact hinv j
      · rw [if_pos rfl]
        exact hinv j
    · obtain ⟨hfrags, -, -, hstreams⟩ := Processor.addDlFragment_eq_some hadd
      obtain ⟨st, hst, hkey⟩ := DlSymbolJob.findDlStreamBySection_eq_some hk
      have hmem : (receivedPart c h).key ∈ (x.proc.jobs j).keys :=
        mem_flatMap.mpr ⟨st, mem_of_getElem? hst, hkey⟩
      obtain ⟨d, hd, hdkey⟩ := mem_map.mp ((hinv j).keys.mem_iff.mpr hmem)
      obtain ⟨hsub, hapart⟩ := hfits (h, iq) hx j hwin hsym d hd hdkey
      have hlen : ¬ ((x.proc.handleUplanePacket c p).jobs j).fragments.length =
          (x.proc.jobs j).fragments.length := by
        rw [hj]
        simp [DlSymbolJob.modifyStream, hfrags]
      rw [hx]
      dsimp only
      rw [if_neg hlen, hj]
      exact (hinv j).store hstreams hfrags rfl hst hkey ⟨d, hd, hdkey, hsub⟩ hapart
  | readBegin maxStreams =>
    rw [← Except.ok.inj hproc]
    unfold Processor.readBegin
    split <;> exact hinv j
  | readFragment i =>
    rw [← Except.ok.inj hproc]
    unfold Processor.readFragment
    split
    · exact hinv j
    · split <;> exact hinv j
  | readEnd i =>
    have hjobs : y.proc.jobs = x.proc.jobs := Processor.readEnd_jobs hproc
    rw [hjobs]
    exact hinv j
  | pollUlJob =>
    rw [← Except.ok.inj hproc]
    unfold Processor.pollUlJob
    split
    · exact hinv j
    · split <;> exact hinv j

def FittingStep (c : Config) (x : Logged) (op : Op) (y : Logged) : Prop :=
  x.exec c op = some y ∧ x.Fits c op

theorem jobInv_run (hprb : 0 ≤ c.numPrb) {ops : List Op} (hrun : Run (FittingStep c) .init ops x) :
    ∀ j, JobInv (x.proc.jobs j) (x.log j) :=
  hrun.invariant (fun x : Logged => ∀ j, JobInv (x.proc.jobs j) (x.log j)) (fun _ => .fresh 0)
    fun _ _ _ hinv hstep => jobInv_exec hprb hinv hstep.1 hstep.2

/-- In a run whose packets fit, early release is sound, and the packets of the history are the
fragments of the job. -/
theorem covered_of_releasesEarly (hprb : 0 ≤ c.numPrb) {ops : List Op}
    (hrun : Run (FittingStep c) .init ops x) {symbol j : Nat}
    (hrel : Processor.ReleasesEarly c x.proc symbol j) :
    (x.log j).Covered ∧
      (x.proc.jobs j).fragments.map (fun f => (f.eaxcId, f.startPrbc, f.numPrbc)) =
      (x.log j).received.map fun r => (r.antId, r.start, r.num) :=
  ⟨(jobInv_run hprb hrun j).covered hrel.fullyDelivered, (jobInv_run hprb hrun j).fragments⟩

instance (c : Config) (x : Logged) : (op : Op) → Decidable (x.Fits c op)
  | .uplane _ =>
    inferInstanceAs (Decidable (∀ hq ∈ _, ∀ j ∈ _, _ → ∀ d ∈ _, _ → _ ∧ ∀ r ∈ _, _ → _))
  | .tick _ | .cplane _ | .readBegin _ | .readFragment _ | .readEnd _ | .pollUlJob =>
    .isTrue trivial

def onePrb : List Op :=
  [.tick 11, .cplane Processor.cplaneAt12, .uplane (Processor.uplaneAt12 0x11 [0, 0, 0, 0])]

def twoPrbs : List Op :=
  [.tick 11, .cplane { Processor.cplaneAt12 with data := Processor.cplaneAt12.data.set 19 2 },
    .uplane (Processor.uplaneAt12 0x11 [0, 0, 0, 0]),
    .uplane (Processor.uplaneAt12 0x11 [0, 0, 0, 0])]

def AtRelease (log : JobLog) (x : Logged) : Prop :=
  x.log 2 = log ∧ (x.proc.tickStart 12).cplaneClosedTailSymbol = 12 ∧
    ((x.proc.tickStart 12).releaseStep .narrow).dlReadyJobs =
      (x.proc.tickStart 12).dlReadyJobs ++ [2]

instance (log : JobLog) (x : Logged) : Decidable (AtRelease log x) :=
  inferInstanceAs (Decidable (_ ∧ _ ∧ _))

theorem AtRelease.releasesEarly {log : JobLog} (h : AtRelease log x) :
    Processor.ReleasesEarly .narrow x.proc 12 2 := by
  refine ⟨by decide, 0, ?_, h.2.2⟩
  rw [h.2.1]
  decide

theorem covered_of_releasesEarly_one : ∃ x, Run (FittingStep .narrow) .init onePrb x ∧
    Processor.ReleasesEarly .narrow x.proc 12 2 ∧ (x.log 2).Covered := by
  have hrun :
      (onePrb.foldlM (fun (x : Logged) op => if x.Fits .narrow op then x.exec .narrow op else none)
      init).any (fun x => AtRelease ⟨[⟨0, 0, 0, 1⟩], [⟨0, 0, 0, 1⟩]⟩ x) = true := by
    decide +kernel
  obtain ⟨x, hx, hat⟩ := (Option.any_eq_true _ _).mp hrun
  exact ⟨x, .of_foldlM hx, (of_decide_eq_true hat).releasesEarly,
    (covered_of_releasesEarly (by decide) (.of_foldlM hx) (of_decide_eq_true hat).releasesEarly).1⟩

/-- Two copies of the first of two PRBs count as two PRBs. -/
theorem not_forall_covered_of_releasesEarly : ¬ ∀ (c : Config), 0 ≤ c.numPrb → ∀ ops x,
    Run (fun (x : Logged) op y => x.exec c op = some y) .init ops x →
      ∀ symbol j, Processor.ReleasesEarly c x.proc symbol j → (x.log j).Covered := by
  intro hclaim
  have hrun : (twoPrbs.foldlM (fun x op => if True then exec .narrow x op else none)
      init).any (fun x => AtRelease ⟨[⟨0, 0, 0, 2⟩], [⟨0, 0, 0, 1⟩, ⟨0, 0, 0, 1⟩]⟩ x) = true := by
    decide +kernel
  obtain ⟨x, hx, hat⟩ := (Option.any_eq_true _ _).mp hrun
  have hcov := hclaim .narrow (by decide) twoPrbs x
    ((Run.of_foldlM hx).mono fun _ _ _ h => h.1) 12 2 (of_decide_eq_true hat).releasesEarly
  rw [(of_decide_eq_true hat).1] at hcov
  obtain ⟨r, hr, -, hprb⟩ := hcov ⟨0, 0, 0, 2⟩ (by decide) 1 (by decide)
  have : r = ⟨0, 0, 0, 1⟩ := by simpa using hr
  subst this
  exact absurd hprb (by decide)

end Logged

end OpenAir.Oru

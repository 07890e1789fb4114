import Mathlib.Tactic.Positivity
import OpenAir.Lib.Run
import OpenAir.Mac.Bsr
import OpenAir.Mac.HarqLists

namespace OpenAir.Mac

open HarqLists

structure UlHarqConfig where
  disableHarq : Bool
  harqRoundMax : Nat

structure UlUe where
  lists : HarqLists
  tbSize : Nat → Nat := fun _ => 0
  schedUlBytes : Int := 0

namespace UlUe

/-- The HARQ part of `post_process_ulsch`. -/
def postProcessUlsch (c : UlHarqConfig) (s : UlUe) (ulHarqPid : Option Nat) (slot tbSize : Nat) :
    Except (Fault HarqAssertion) UlUe :=
  match s.lists.takeProcess ulHarqPid with
  | .error e => .error e
  | .ok (pid, h) =>
    if (h.harq pid).isWaiting then .error (.assertion .waiting)
    else
      let h :=
        if c.disableHarq then h.finish pid
        else
          (h.modify pid fun q => { q with feedbackSlot := slot, isWaiting := true }).addTail
            .feedback pid
      if (h.harq pid).round < c.harqRoundMax then
        .ok {
          lists := h
          tbSize := Function.update s.tbSize pid tbSize
          schedUlBytes :=
            if (h.harq pid).round = 0 then toInt32 (s.schedUlBytes + tbSize) else s.schedUlBytes }
      else .error (.assertion .roundOutOfBounds)

def abortNrUlHarq (s : UlUe) (pid : Nat) : UlUe :=
  { s with
    lists := s.lists.finish pid
    schedUlBytes := max 0 (toInt32 (s.schedUlBytes - s.tbSize pid)) }

def failed (c : UlHarqConfig) (s : UlUe) (pid : Nat) : UlUe :=
  if c.harqRoundMax - 1 ≤ (s.lists.harq pid).round then s.abortNrUlHarq pid
  else { s with lists := s.lists.retry pid }

/-- A round of the search of `handle_nr_ul_harq` for the process of a CRC report: the processes
before it count as failed. -/
def crcRound (c : UlHarqConfig) (crcHarqId : Int) (s : UlUe) :
    Except (Fault HarqAssertion) (UlUe ⊕ (UlUe × Option Nat)) :=
  match (s.lists.list .feedback).head with
  | none => .ok (.inr (s, none))
  | some pid =>
    if crcHarqId = pid then .ok (.inr (s, some pid))
    else
      match s.lists.removeFront .feedback with
      | .error e => .error e
      | .ok h =>
        .ok (.inl (failed c { s with lists := h.modify pid fun q => { q with isWaiting := false } }
          pid))

/-- `handle_nr_ul_harq`; `crcStatus` says that the CRC failed -/
def handleNrUlHarq (c : UlHarqConfig) (s : UlUe) (crcHarqId : Int) (crcStatus : Bool) :
    Except (Fault HarqAssertion) UlUe :=
  if c.disableHarq then .ok s
  else
    match loop (crcRound c crcHarqId) ((s.lists.list .feedback).len + 1) s with
    | .error e => .error e
    | .ok (s, none) => .ok s
    | .ok (s, some pid) =>
      match s.lists.removeFront .feedback with
      | .error e => .error e
      | .ok h =>
        if (h.harq pid).isWaiting then
          let h := h.modify pid fun q => { q with feedbackSlot := noSlot, isWaiting := false }
          if crcStatus then .ok (failed c { s with lists := h } pid)
          else .ok { s with lists := h.finish pid }
        else .error (.assertion .notWaiting)

inductive Op
  | newTransmission (slot tbSize : Nat)
  | retransmission (slot tbSize : Nat)
  | crc (crcHarqId : Int) (crcStatus : Bool)
  | reset

def step (c : UlHarqConfig) (s : UlUe) : Op → Except (Fault HarqAssertion) UlUe
  | .newTransmission slot tbSize =>
    match (s.lists.list .available).head with
    | none => .ok s
    | some _ => s.postProcessUlsch c none slot tbSize
  | .retransmission slot tbSize =>
    match (s.lists.list .retrans).head with
    | none => .ok s
    | some pid => s.postProcessUlsch c (some pid) slot tbSize
  | .crc crcHarqId crcStatus => s.handleNrUlHarq c crcHarqId crcStatus
  | .reset =>
    match s.lists.reset with
    | .error e => .error e
    | .ok h => .ok { s with lists := h }

def init (n : Nat) : UlUe := { lists := create n }

def counted (s : UlUe) : Op → Bool
  | .newTransmission _ tbSize =>
    (s.lists.list .available).head = none ∨ 0 ≤ toInt32 (s.schedUlBytes + tbSize)
  | _ => true

structure Inv (n : Nat) (c : UlHarqConfig) (s : UlUe) (l : HarqList → List Nat) : Prop where
  lists : HarqLists.Inv n (Fits c.harqRoundMax) none s.lists l
  retrans : c.disableHarq = true → l .retrans = []
  nonneg : 0 ≤ s.schedUlBytes

variable {n : Nat} {c : UlHarqConfig} {s t : UlUe} {h' : HarqLists} {l : HarqList → List Nat}
  {pid : Nat} {v : List Nat}

theorem init_inv (n : Nat) (c : UlHarqConfig) : ∃ l, (init n).Inv n c l :=
  ⟨_, create_inv n _, fun _ => rfl, Int.le_refl 0⟩

theorem failed_cases (hi : HarqLists.Inv n (Fits c.harqRoundMax) (some pid) s.lists l)
    (hwait : (s.lists.harq pid).isWaiting = false) (hnonneg : 0 ≤ s.schedUlBytes) :
    ∃ l', HarqLists.Inv n (Fits c.harqRoundMax) none (failed c s pid).lists l' ∧
      0 ≤ (failed c s pid).schedUlBytes ∧ l' .feedback = l .feedback := by
  unfold failed
  split
  · exact ⟨_, hi.finish hwait, Int.le_max_left .., by simp⟩
  · next hlt => exact ⟨_, hi.retry hwait (by omega), hnonneg, by simp⟩

theorem loop_crcRound (hi : HarqLists.Inv n (Fits c.harqRoundMax) none s.lists l)
    (hnonneg : 0 ≤ s.schedUlBytes) {fuel : Nat} (hfuel : (l .feedback).length < fuel) (id : Int) :
    ∃ s' l' r, loop (crcRound c id) fuel s = .ok (s', r) ∧
      HarqLists.Inv n (Fits c.harqRoundMax) none s'.lists l' ∧ 0 ≤ s'.schedUlBytes ∧
      ∀ pid, r = some pid → ∃ v, l' .feedback = pid :: v := by
  induction fuel generalizing s l with
  | zero => omega
  | succ fuel ih =>
    rw [loop, crcRound, hi.head]
    cases hl : l .feedback with
    | nil => exact ⟨s, l, none, rfl, hi, hnonneg, by simp⟩
    | cons pid v =>
      simp only [List.head?_cons]
      by_cases hid : id = pid
      · rw [if_pos hid]
        exact ⟨s, l, some pid, rfl, hi, hnonneg, fun i heq => ⟨v, by rw [hl, Option.some.inj heq]⟩⟩
      · obtain ⟨h', hrem, -, hi'⟩ := hi.removeFront hl
        rw [if_neg hid, hrem]
        have hm := hi'.modify fun q => { q with isWaiting := false }
        obtain ⟨l₁, hi₁, hnonneg₁, hl₁⟩ := failed_cases
          (s := { s with lists := h'.modify pid fun q => { q with isWaiting := false } })
          hm (by simp) hnonneg
        refine ih hi₁ hnonneg₁ ?_
        rw [hl₁, Function.update_self]
        simpa [hl] using hfuel

theorem Inv.crc (hi : s.Inv n c l) (id : Int) (crcStatus : Bool) :
    ∃ t l', s.handleNrUlHarq c id crcStatus = .ok t ∧ t.Inv n c l' := by
  unfold handleNrUlHarq
  split
  · exact ⟨s, l, rfl, hi⟩
  · next hdis =>
    obtain ⟨s', l', r, hloop, hi', hnonneg, hfirst⟩ := loop_crcRound hi.lists hi.nonneg
      (Nat.lt_succ_of_le (hi.lists.represents .feedback).length_le) id
    rw [hloop]
    cases r with
    | none => exact ⟨s', l', rfl, hi', fun h => absurd h hdis, hnonneg⟩
    | some pid =>
      obtain ⟨v, hl'⟩ := hfirst pid rfl
      obtain ⟨h₁, hrem, hharq, hi₁⟩ := hi'.removeFront hl'
      have hwait : (h₁.harq pid).isWaiting := by
        rw [hharq]
        exact (hi'.fits .feedback pid (by simp [hl'])).1
      have hm := hi₁.modify fun q => { q with feedbackSlot := noSlot, isWaiting := false }
      simp only [hrem, hwait, if_true]
      cases crcStatus with
      | true =>
        obtain ⟨l₂, hi₂, hnonneg₂, -⟩ := failed_cases
          (s := { s' with lists := h₁.modify pid fun q =>
            { q with feedbackSlot := noSlot, isWaiting := false } }) hm (by simp) hnonneg
        exact ⟨_, l₂, rfl, hi₂, fun h => absurd h hdis, hnonneg₂⟩
      | false =>
        exact ⟨_, _, rfl, hm.finish (by simp), fun h => absurd h hdis, hnonneg⟩

theorem postProcessUlsch_cases {sel : Option Nat} (htake : s.lists.takeProcess sel = .ok (pid, h'))
    (hi : HarqLists.Inv n (Fits c.harqRoundMax) (some pid) h' l)
    (hwait : (h'.harq pid).isWaiting = false) (hround : (h'.harq pid).round < c.harqRoundMax)
    (slot tbSize : Nat) :
    ∃ t l', s.postProcessUlsch c sel slot tbSize = .ok t ∧
      HarqLists.Inv n (Fits c.harqRoundMax) none t.lists l' ∧ l' .retrans = l .retrans ∧
      l' .available = (if c.disableHarq then l .available ++ [pid] else l .available) ∧
      t.schedUlBytes =
        if c.disableHarq ∨ (h'.harq pid).round = 0 then toInt32 (s.schedUlBytes + tbSize)
        else s.schedUlBytes := by
  unfold postProcessUlsch
  rw [htake]
  simp only [hwait, Bool.false_eq_true, if_false]
  cases hdis : c.disableHarq with
  | true =>
    have hpos : 0 < c.harqRoundMax := by omega
    simp only [if_true, harq_finish_round, hpos]
    exact ⟨_, _, rfl, hi.finish hwait, by simp, by simp, by simp⟩
  | false =>
    simp only [Bool.false_eq_true, if_false, harq_addTail, harq_modify, hround, if_true]
    exact ⟨_, _, rfl, hi.await rfl hround, by simp, by simp, by simp⟩

theorem Inv.newTransmission (hi : s.Inv n c l) (hmax : 1 ≤ c.harqRoundMax)
    (hl : l .available = pid :: v) (slot tbSize : Nat) :
    ∃ t l', s.step c (.newTransmission slot tbSize) = .ok t ∧
      HarqLists.Inv n (Fits c.harqRoundMax) none t.lists l' ∧ l' .retrans = l .retrans ∧
      l' .available = (if c.disableHarq then v ++ [pid] else v) ∧
      t.schedUlBytes = toInt32 (s.schedUlBytes + tbSize) := by
  obtain ⟨hwait, hround⟩ := hi.lists.fits .available pid (by simp [hl])
  obtain ⟨h', htake, hharq, hi'⟩ := hi.lists.takeProcess_available hl (.inl rfl)
  obtain ⟨t, l', hstep, hi'', hretrans, havail, hbytes⟩ := postProcessUlsch_cases htake hi'
    (hharq ▸ hwait) (by rw [hharq, hround]; exact hmax) slot tbSize
  refine ⟨t, l', ?_, hi'', by simpa using hretrans, by simpa using havail, ?_⟩
  · rw [step, hi.lists.head, hl]
    exact hstep
  · rw [hbytes, hharq, if_pos (.inr hround)]

theorem Inv.retransmission (hi : s.Inv n c l) (slot tbSize : Nat) :
    ∃ t l', s.step c (.retransmission slot tbSize) = .ok t ∧ t.Inv n c l' := by
  rw [step, hi.lists.head]
  cases hl : l .retrans with
  | nil => exact ⟨s, l, rfl, hi⟩
  | cons pid v =>
    have hdis : ¬ c.disableHarq := fun h => by simp [hi.retrans h] at hl
    obtain ⟨hwait, hpos, hround⟩ := hi.lists.fits .retrans pid (by simp [hl])
    obtain ⟨h', htake, hharq, hi'⟩ := hi.lists.takeProcess_retrans hl
    obtain ⟨t, l', hstep, hi'', -, -, hbytes⟩ := postProcessUlsch_cases htake hi' (hharq ▸ hwait)
      (hharq ▸ hround) slot tbSize
    refine ⟨t, l', hstep, hi'', fun h => absurd h hdis, ?_⟩
    rw [hbytes, hharq, if_neg (by simp [hdis]; omega)]
    exact hi.nonneg

theorem Inv.reset (hi : s.Inv n c l) (hn : n ≤ maxHarqProcesses) :
    ∃ t l', s.step c .reset = .ok t ∧ t.Inv n c l' := by
  obtain ⟨h', l', hreset, hi', -, hnil⟩ := hi.lists.reset hn
  simp only [step, hreset]
  exact ⟨_, l', rfl, hi', fun _ => hnil, hi.nonneg⟩

theorem Inv.step (hi : s.Inv n c l) (hn : n ≤ maxHarqProcesses)
    (hmax : 1 ≤ c.harqRoundMax) (op : Op) :
    (s.counted op → ∃ t l', s.step c op = .ok t ∧ t.Inv n c l') ∧
    (s.counted op = false → ∃ t, s.step c op = .ok t ∧ t.schedUlBytes < 0) := by
  cases op with
  | newTransmission slot tbSize =>
    cases hl : l .available with
    | nil =>
      have hhead : (s.lists.list .available).head = none := by rw [hi.lists.head, hl]; rfl
      refine ⟨fun _ => ⟨s, l, ?_, hi⟩, by simp [counted, hhead]⟩
      simp only [UlUe.step, hhead]
    | cons pid v =>
      have hhead : (s.lists.list .available).head = some pid := by rw [hi.lists.head, hl]; rfl
      obtain ⟨t, l', hstep, hi', hretrans, -, hbytes⟩ := hi.newTransmission hmax hl slot tbSize
      simp only [counted, hhead, ← hbytes]
      refine ⟨fun h => ⟨t, l', hstep, hi', fun h => by rw [hretrans, hi.retrans h],
        by simpa using h⟩, fun h => ⟨t, hstep, by simpa using h⟩⟩
  | retransmission slot tbSize => exact ⟨fun _ => hi.retransmission slot tbSize, by simp [counted]⟩
  | crc id crcStatus => exact ⟨fun _ => hi.crc id crcStatus, by simp [counted]⟩
  | reset => exact ⟨fun _ => hi.reset hn, by simp [counted]⟩

def CountedStep (c : UlHarqConfig) (s : UlUe) (op : Op) (t : UlUe) : Prop :=
  s.step c op = .ok t ∧ s.counted op = true

theorem inv_of_run (hn : n ≤ maxHarqProcesses) (hmax : 1 ≤ c.harqRoundMax) {ops : List Op}
    (hrun : Run (CountedStep c) (init n) ops s) : ∃ l, s.Inv n c l := by
  refine hrun.invariant (fun s => ∃ l, s.Inv n c l) (init_inv n c) ?_
  rintro s op t ⟨l, hi⟩ ⟨hstep, hcounted⟩
  obtain ⟨t', l', hstep', hi'⟩ := (hi.step hn hmax op).1 hcounted
  rw [hstep] at hstep'
  cases hstep'
  exact ⟨l', hi'⟩

/-- In every run whose new transmissions can be counted the lists stay partitioned and
`sched_ul_bytes` non-negative; the next step keeps both exactly when it can be counted. -/
theorem ul_harq_partitioned_iff (hn : n ≤ maxHarqProcesses) (hmax : 1 ≤ c.harqRoundMax)
    {ops : List Op} (hrun : Run (CountedStep c) (init n) ops s) :
    (Partitioned n c.harqRoundMax s.lists ∧ 0 ≤ s.schedUlBytes) ∧
    ∀ op, (∃ t, s.step c op = .ok t ∧ Partitioned n c.harqRoundMax t.lists ∧ 0 ≤ t.schedUlBytes) ↔
      s.counted op = true := by
  obtain ⟨l, hi⟩ := inv_of_run hn hmax hrun
  refine ⟨⟨hi.lists.partitioned, hi.nonneg⟩, fun op =>
    ⟨fun ⟨t, hstep, _, hnonneg⟩ => ?_, fun hcounted => ?_⟩⟩
  · by_contra hnot
    obtain ⟨t', hstep', hneg⟩ := (hi.step hn hmax op).2 (by simpa using hnot)
    rw [hstep] at hstep'
    cases hstep'
    omega
  · obtain ⟨t, l', hstep, hi'⟩ := (hi.step hn hmax op).1 hcounted
    exact ⟨t, hstep, hi'.lists.partitioned, hi'.nonneg⟩

theorem ul_harq_partitioned_iff_skipped : ∃ s, Run (CountedStep ⟨false, 4⟩) (init 16)
    [.newTransmission 8 100, .crc 0 true, .retransmission 18 100, .newTransmission 19 200] s ∧
    ∃ t, s.step ⟨false, 4⟩ (.crc 1 false) = .ok t ∧ Partitioned 16 4 t.lists ∧
      0 ≤ t.schedUlBytes := by
  have hrun : ∃ s, Run (CountedStep ⟨false, 4⟩) (init 16)
      [.newTransmission 8 100, .crc 0 true, .retransmission 18 100, .newTransmission 19 200] s :=
    ⟨_, .cons ⟨rfl, rfl⟩ (.cons ⟨rfl, rfl⟩ (.cons ⟨rfl, rfl⟩ (.cons ⟨rfl, rfl⟩ .nil)))⟩
  obtain ⟨s, hs⟩ := hrun
  exact ⟨s, hs, ((ul_harq_partitioned_iff (by decide) (by decide) hs).2 (.crc 1 false)).mpr rfl⟩

theorem exists_run_disabled {tbSize : Nat} (k : Nat) (hk : tbSize * k < 2 ^ 31) :
    ∃ s l, Run (CountedStep ⟨true, 4⟩) (init 16) (List.replicate k (.newTransmission 8 tbSize)) s ∧
      s.Inv 16 ⟨true, 4⟩ l ∧ l .available ≠ [] ∧ s.schedUlBytes = tbSize * k := by
  induction k with
  | zero =>
    exact ⟨_, _, .nil, ⟨create_inv 16 _, fun _ => rfl, Int.le_refl 0⟩, by decide, by simp [init]⟩
  | succ k ih =>
    rw [Nat.mul_succ] at hk
    obtain ⟨s, l, hrun, hi, hne, hbytes⟩ := ih (by omega)
    obtain ⟨pid, v, hl⟩ := List.exists_cons_of_ne_nil hne
    obtain ⟨t, l', hstep, hi', hretrans, havail, hbytes'⟩ :=
      hi.newTransmission (by decide) hl 8 tbSize
    have hcount : toInt32 (s.schedUlBytes + tbSize) = tbSize * (k + 1 : Nat) := by
      rw [hbytes, toInt32, Int.emod_eq_of_lt (by omega) (by push_cast; omega)]
      push_cast
      ring
    have hnonneg : 0 ≤ t.schedUlBytes := by rw [hbytes', hcount]; positivity
    refine ⟨t, l', ?_, ⟨hi', fun h => by rw [hretrans, hi.retrans h], hnonneg⟩, by simp [havail],
      hbytes'.trans hcount⟩
    rw [List.replicate_succ']
    exact .snoc hrun ⟨hstep, by simp [counted, ← hbytes', hnonneg]⟩

/-- HARQ disabled, and 13443 transmissions of the largest transport block: `sched_ul_bytes`
overflows. -/
theorem not_forall_schedUlBytes_nonneg :
    ¬ ∀ (n : Nat) (c : UlHarqConfig) (ops : List Op) (s : UlUe), n ≤ maxHarqProcesses →
      1 ≤ c.harqRoundMax → Run (fun s op t => s.step c op = .ok t) (init n) ops s →
      Partitioned n c.harqRoundMax s.lists ∧ 0 ≤ s.schedUlBytes := by
  intro hall
  obtain ⟨s, l, hrun, hi, hne, hbytes⟩ := @exists_run_disabled 159749 13442 (by decide)
  obtain ⟨pid, v, hl⟩ := List.exists_cons_of_ne_nil hne
  obtain ⟨t, l', hstep, -, -, -, hbytes'⟩ := hi.newTransmission (by decide) hl 8 159749
  have hneg : t.schedUlBytes < 0 := by
    rw [hbytes', hbytes]
    decide
  have hnonneg := (hall 16 ⟨true, 4⟩ _ t (by decide) (by decide)
    (.snoc (hrun.mono fun _ _ _ h => h.1) hstep)).2
  omega

end UlUe

end OpenAir.Mac

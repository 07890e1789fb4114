import Mathlib
import OpenAir.Lib.Run

/-! Waiting on the shared-memory IQ channel: one thread in `shm_td_iq_channel_wait`, any number of
threads in `shm_td_iq_channel_produce_samples` and `shm_td_iq_channel_abort`, one step at a time. -/

namespace OpenAir.Ds

open Function

inductive IqSignal
  | produceSamples (numSamples : BitVec 64)
  | abort
  deriving DecidableEq

inductive SignalAt
  | idle
  /-- Before `mutexlock`. -/
  | entered (call : IqSignal)
  /-- With the mutex, before its change. -/
  | locked (call : IqSignal)
  /-- Before `condbroadcast`. -/
  | changed
  /-- Before `mutexunlock`. -/
  | signalled
  deriving DecidableEq

def SignalAt.pending : SignalAt → Bool
  | .idle | .signalled => false
  | .entered _ | .locked _ | .changed => true

def SignalAt.holds : SignalAt → Bool
  | .idle | .entered _ => false
  | .locked _ | .changed | .signalled => true

/-- Where the waiter is in `shm_td_iq_channel_wait`; `current` is its `current_timestamp`. -/
inductive WaitAt
  | idle
  /-- Before the first read of the time stamp. -/
  | called (target : BitVec 64)
  /-- Before `mutexlock`. -/
  | behind (target current : BitVec 64)
  /-- With the mutex, at the condition of the loop. -/
  | checking (target current : BitVec 64)
  /-- On the condition variable. -/
  | asleep (target : BitVec 64)
  /-- Woken up, before it has the mutex again. -/
  | woken (target : BitVec 64)
  /-- Its time is over, before it has the mutex again. -/
  | expired
  /-- Before `mutexunlock`. -/
  | leaving
  deriving DecidableEq

def WaitAt.holds : WaitAt → Bool
  | .checking .. | .leaving => true
  | .idle | .called _ | .behind .. | .asleep _ | .woken _ | .expired => false

structure IqWait (τ : Type) where
  timestamp : BitVec 64 := 0
  abort : Bool := false
  mutex : Option (Option τ) := none
  waiter : WaitAt := .idle
  threads : τ → SignalAt := fun _ => .idle

inductive WaitOp (τ : Type)
  | call (target : BitVec 64)
  | read
  | lock
  | check
  | unlock
  /-- A wake-up without a broadcast. -/
  | spurious
  /-- `pthread_cond_timedwait` returns `ETIMEDOUT`. -/
  | timeout
  | enter (t : τ) (call : IqSignal)
  | acquire (t : τ)
  | change (t : τ)
  | broadcast (t : τ)
  | release (t : τ)

namespace IqWait

variable {τ : Type} [DecidableEq τ]

def setThread (s : IqWait τ) (t : τ) (a : SignalAt) : IqWait τ :=
  { s with threads := update s.threads t a }

def apply (s : IqWait τ) : IqSignal → IqWait τ
  | .produceSamples n => { s with timestamp := s.timestamp + n }
  | .abort => { s with abort := true }

/-- `condbroadcast` -/
def wake (s : IqWait τ) : IqWait τ :=
  match s.waiter with
  | .asleep target => { s with waiter := .woken target }
  | _ => s

def exec (s : IqWait τ) : WaitOp τ → Option (IqWait τ)
  | .call target => if s.waiter = .idle then some { s with waiter := .called target } else none
  | .read =>
    match s.waiter with
    | .called target =>
      some { s with waiter := if s.timestamp ≥ target then .idle else .behind target s.timestamp }
    | _ => none
  | .lock =>
    match s.mutex, s.waiter with
    | none, .behind target current =>
      some { s with mutex := some none, waiter := .checking target current }
    | none, .woken target =>
      -- `current_timestamp` is read anew
      some { s with mutex := some none, waiter := .checking target s.timestamp }
    | none, .expired => some { s with mutex := some none, waiter := .leaving }
    | _, _ => none
  | .check =>
    match s.waiter with
    | .checking target current =>
      if current < target ∧ s.abort = false then
        some { s with mutex := none, waiter := .asleep target }
      else some { s with waiter := .leaving }
    | _ => none
  | .unlock => if s.waiter = .leaving then some { s with mutex := none, waiter := .idle } else none
  | .spurious =>
    match s.waiter with
    | .asleep target => some { s with waiter := .woken target }
    | _ => none
  | .timeout =>
    match s.waiter with
    | .asleep _ => some { s with waiter := .expired }
    | _ => none
  | .enter t call => if s.threads t = .idle then some (s.setThread t (.entered call)) else none
  | .acquire t =>
    match s.mutex, s.threads t with
    | none, .entered call => some { s.setThread t (.locked call) with mutex := some (some t) }
    | _, _ => none
  | .change t =>
    match s.threads t with
    | .locked call => some ((s.apply call).setThread t .changed)
    | _ => none
  | .broadcast t => if s.threads t = .changed then some (s.wake.setThread t .signalled) else none
  | .release t =>
    if s.threads t = .signalled then some { s.setThread t .idle with mutex := none } else none

/-- The waiter sleeps with nobody to wake it, and has nothing to wait for. -/
def Missed (s : IqWait τ) : Prop :=
  ∃ target, s.waiter = .asleep target ∧ (target ≤ s.timestamp ∨ s.abort = true) ∧
    ∀ t, (s.threads t).pending = false

def Timely (s : IqWait τ) : WaitOp τ → Prop
  | .change t => ∀ target current n, s.waiter = .behind target current →
      s.threads t = .locked (.produceSamples n) → s.timestamp + n < target
  | _ => True

def Knows (s : IqWait τ) : WaitAt → Prop
  | .behind target _ => s.timestamp < target
  | .checking target current => current < target → s.timestamp < target
  | .asleep target => s.timestamp < target ∧ s.abort = false ∨ ∃ t, s.threads t = .changed
  | .idle | .called _ | .woken _ | .expired | .leaving => True

structure Inv (s : IqWait τ) : Prop where
  thread : ∀ t, (s.threads t).holds = true → s.mutex = some (some t)
  waiter : s.waiter.holds = true → s.mutex = some none
  knows : s.Knows s.waiter

omit [DecidableEq τ] in
theorem inv_init : Inv ({} : IqWait τ) :=
  ⟨fun _ h => (by cases h), fun h => (by cases h), trivial⟩

variable {s s' : IqWait τ} {t u : τ} {a : SignalAt} {w : WaitAt}

theorem setThread_self : (s.setThread t a).threads t = a := update_self ..

theorem setThread_of_ne (h : u ≠ t) : (s.setThread t a).threads u = s.threads u :=
  update_of_ne h ..

theorem Knows.setThread (h : s.Knows w) (ht : s.threads t ≠ .changed) :
    (s.setThread t a).Knows w := by
  cases w with
  | asleep target =>
    refine h.imp_right ?_
    rintro ⟨u, hu⟩
    have hut : u ≠ t := fun hut => ht (hut ▸ hu)
    exact ⟨u, (setThread_of_ne hut).trans hu⟩
  | _ => exact h

namespace Inv

omit [DecidableEq τ] in
theorem waiter_not_holds (h : Inv s) (ht : (s.threads t).holds) : s.waiter.holds = false := by
  by_contra hw
  have hm := h.waiter (Bool.eq_true_of_not_eq_false hw)
  rw [h.thread t ht] at hm
  cases hm

omit [DecidableEq τ] in
theorem free (h : Inv s) (hm : s.mutex = none) :
    (∀ t, (s.threads t).holds = false) ∧ s.waiter.holds = false := by
  constructor
  · intro t
    by_contra ht
    rw [h.thread t (Bool.eq_true_of_not_eq_false ht)] at hm
    cases hm
  · by_contra hw
    rw [h.waiter (Bool.eq_true_of_not_eq_false hw)] at hm
    cases hm

omit [DecidableEq τ] in
theorem move (h : Inv s) (hholds : w.holds = s.waiter.holds) (hknows : s.Knows w) :
    Inv { s with waiter := w } :=
  ⟨h.thread, fun hw => h.waiter (hholds ▸ hw), by cases w <;> exact hknows⟩

omit [DecidableEq τ] in
theorem take (h : Inv s) (hm : s.mutex = none) (hknows : s.Knows w) :
    Inv { s with mutex := some none, waiter := w } := by
  refine ⟨fun t ht => ?_, fun _ => rfl, by cases w <;> exact hknows⟩
  rw [(h.free hm).1 t] at ht
  cases ht

omit [DecidableEq τ] in
theorem give (h : Inv s) (hw : s.waiter.holds) (hholds : w.holds = false)
    (hknows : s.Knows w) : Inv { s with mutex := none, waiter := w } := by
  refine ⟨fun t ht => ?_, fun hw' => ?_, by cases w <;> exact hknows⟩
  · rw [h.waiter_not_holds ht] at hw
    cases hw
  · rw [hholds] at hw'
    cases hw'

theorem exec (h : Inv s) {op : WaitOp τ} (hexec : s.exec op = some s') (htimely : s.Timely op) :
    Inv s' := by
  cases op with
  | call target =>
    simp only [IqWait.exec, Option.ite_none_right_eq_some, Option.some.injEq] at hexec
    obtain ⟨hw, rfl⟩ := hexec
    exact h.move (by rw [hw]; rfl) trivial
  | read =>
    simp only [IqWait.exec] at hexec
    split at hexec
    · next target hw =>
      cases hexec
      split
      · exact h.move (by rw [hw]; rfl) trivial
      · next hts => exact h.move (by rw [hw]; rfl) (BitVec.not_le.mp hts)
    · cases hexec
  | lock =>
    simp only [IqWait.exec] at hexec
    have hknows := h.knows
    split at hexec
    · next target current hm hw =>
      cases hexec
      rw [hw] at hknows
      exact h.take hm fun _ => hknows
    · next target hm hw =>
      cases hexec
      exact h.take hm id
    · next hm hw =>
      cases hexec
      exact h.take hm trivial
    · cases hexec
  | check =>
    simp only [IqWait.exec] at hexec
    have hknows := h.knows
    split at hexec
    · next target current hw =>
      rw [hw] at hknows
      split at hexec
      · next hsleep =>
        cases hexec
        exact h.give (by rw [hw]; rfl) rfl (.inl ⟨hknows hsleep.1, hsleep.2⟩)
      · cases hexec
        exact h.move (by rw [hw]; rfl) trivial
    · cases hexec
  | unlock =>
    simp only [IqWait.exec, Option.ite_none_right_eq_some, Option.some.injEq] at hexec
    obtain ⟨hw, rfl⟩ := hexec
    exact h.give (by rw [hw]; rfl) rfl trivial
  | spurious =>
    simp only [IqWait.exec] at hexec
    split at hexec
    · next hw =>
      cases hexec
      exact h.move (by rw [hw]; rfl) trivial
    · cases hexec
  | timeout =>
    simp only [IqWait.exec] at hexec
    split at hexec
    · next hw =>
      cases hexec
      exact h.move (by rw [hw]; rfl) trivial
    · cases hexec
  | enter t call =>
    simp only [IqWait.exec, Option.ite_none_right_eq_some, Option.some.injEq] at hexec
    obtain ⟨ht, rfl⟩ := hexec
    refine ⟨fun u hu => ?_, h.waiter, h.knows.setThread (by rw [ht]; decide)⟩
    by_cases hut : u = t
    · rw [hut, setThread_self] at hu
      cases hu
    · rw [setThread_of_ne hut] at hu
      exact h.thread u hu
  | acquire t =>
    simp only [IqWait.exec] at hexec
    split at hexec
    · next call hm ht =>
      cases hexec
      obtain ⟨hfree, hwaiter⟩ := h.free hm
      refine ⟨fun u hu => ?_, fun hw => ?_, h.knows.setThread (by simp [ht])⟩
      · by_cases hut : u = t
        · rw [hut]
        · change ((s.setThread t (.locked call)).threads u).holds at hu
          rw [setThread_of_ne hut, hfree u] at hu
          cases hu
      · change s.waiter.holds at hw
        rw [hwaiter] at hw
        cases hw
    · cases hexec
  | change t =>
    simp only [IqWait.exec] at hexec
    split at hexec
    · next call ht =>
      cases hexec
      have hholds : (s.threads t).holds := by rw [ht]; rfl
      have hwaiter := h.waiter_not_holds hholds
      have happly : (s.apply call).threads = s.threads ∧ (s.apply call).mutex = s.mutex ∧
          (s.apply call).waiter = s.waiter := by
        cases call <;> exact ⟨rfl, rfl, rfl⟩
      refine ⟨fun u hu => ?_, fun hw => ?_, ?_⟩
      · refine happly.2.1.trans ?_
        by_cases hut : u = t
        · exact hut ▸ h.thread t hholds
        · rw [setThread_of_ne hut, happly.1] at hu
          exact h.thread u hu
      · change (s.apply call).waiter.holds at hw
        rw [happly.2.2, hwaiter] at hw
        cases hw
      · change Knows _ (s.apply call).waiter
        have hknows := h.knows
        rw [happly.2.2]
        cases hw : s.waiter with
        | behind target current =>
          rw [hw] at hknows
          cases call with
          | produceSamples n => exact htimely target current n hw ht
          | abort => exact hknows
        | checking target current =>
          rw [hw] at hwaiter
          cases hwaiter
        | asleep target => exact .inr ⟨t, setThread_self⟩
        | _ => trivial
    · cases hexec
  | broadcast t =>
    simp only [IqWait.exec, Option.ite_none_right_eq_some, Option.some.injEq] at hexec
    obtain ⟨ht, rfl⟩ := hexec
    have hholds : (s.threads t).holds := by rw [ht]; rfl
    have hwake : s.wake.threads = s.threads ∧ s.wake.mutex = s.mutex ∧
        s.wake.waiter.holds = s.waiter.holds ∧ s.wake.Knows s.wake.waiter ∧
        ∀ target, s.wake.waiter ≠ .asleep target := by
      have hknows := h.knows
      unfold wake
      cases hw : s.waiter with
      | asleep target => exact ⟨rfl, rfl, rfl, trivial, fun _ h => by cases h⟩
      | _ =>
        rw [hw] at hknows
        dsimp only
        rw [hw]
        exact ⟨rfl, rfl, rfl, hknows, fun _ h => by cases h⟩
    refine ⟨fun u hu => ?_, fun hw => ?_, ?_⟩
    · refine hwake.2.1.trans ?_
      by_cases hut : u = t
      · exact hut ▸ h.thread t hholds
      · rw [setThread_of_ne hut, hwake.1] at hu
        exact h.thread u hu
    · exact hwake.2.1.trans (h.waiter (hwake.2.2.1 ▸ hw))
    · have hknows := hwake.2.2.2.1
      change Knows _ s.wake.waiter
      cases hw : s.wake.waiter with
      | asleep target => exact absurd hw (hwake.2.2.2.2 target)
      | _ =>
        rw [hw] at hknows
        exact hknows
  | release t =>
    simp only [IqWait.exec, Option.ite_none_right_eq_some, Option.some.injEq] at hexec
    obtain ⟨ht, rfl⟩ := hexec
    have hholds : (s.threads t).holds := by rw [ht]; rfl
    refine ⟨fun u hu => ?_, fun hw => ?_, h.knows.setThread (by rw [ht]; decide)⟩
    · change ((s.setThread t .idle).threads u).holds at hu
      by_cases hut : u = t
      · rw [hut, setThread_self] at hu
        cases hu
      · rw [setThread_of_ne hut] at hu
        have hm := h.thread u hu
        rw [h.thread t hholds] at hm
        cases hm
        exact absurd rfl hut
    · change s.waiter.holds at hw
      rw [h.waiter_not_holds hholds] at hw
      cases hw

omit [DecidableEq τ] in
theorem not_missed (h : Inv s) : ¬ s.Missed := by
  rintro ⟨target, hw, hdue, hpending⟩
  have hknows := h.knows
  rw [hw] at hknows
  rcases hknows with ⟨hlt, habort⟩ | ⟨t, ht⟩
  · rcases hdue with hle | hab
    · exact absurd hlt (BitVec.not_lt.mpr hle)
    · rw [habort] at hab
      cases hab
  · have hp := hpending t
    rw [ht] at hp
    cases hp

end Inv

/-- In every interleaving in which the time stamp does not get to the target between the waiter's
first read and its lock, no wake-up is missed. -/
theorem not_missed_of_run {ops : List (WaitOp τ)}
    (hrun : Run (fun (s : IqWait τ) op s' => s.exec op = some s' ∧ s.Timely op) {} ops s) :
    ¬ s.Missed :=
  (hrun.invariant Inv inv_init fun _ _ _ h hstep => h.exec hstep.1 hstep.2).not_missed

def sleepFirst : List (WaitOp Unit) :=
  [.call 1, .read, .lock, .check, .enter () (.produceSamples 1), .acquire (), .change ()]

def produceFirst : List (WaitOp Unit) :=
  [.call 1, .read, .enter () (.produceSamples 1), .acquire (), .change (), .broadcast (),
    .release (), .lock, .check]

theorem not_missed_of_run_sleepFirst : ∃ s : IqWait Unit,
    Run (fun (s : IqWait Unit) op s' => s.exec op = some s' ∧ s.Timely op) {} sleepFirst s ∧
      s.waiter = .asleep 1 ∧ s.timestamp = 1 ∧ ¬ s.Missed := by
  have hrun : Run (fun (s : IqWait Unit) op s' => s.exec op = some s' ∧ s.Timely op) {} sleepFirst
      { timestamp := 1, mutex := some (some ()), waiter := .asleep 1, threads :=
        fun _ => .changed } := by
    refine .cons ⟨rfl, trivial⟩ (.cons ⟨rfl, trivial⟩ (.cons ⟨rfl, trivial⟩ (.cons ⟨rfl, trivial⟩
      (.cons ⟨rfl, trivial⟩
        (.cons ⟨rfl, trivial⟩ (.cons ⟨?_, fun _ _ _ hw => by cases hw⟩ .nil))))))
    rfl
  exact ⟨_, hrun, rfl, rfl, not_missed_of_run hrun⟩

/-- The waiter goes by the time stamp it has read before the lock. -/
theorem not_forall_not_missed : ¬ ∀ (ops : List (WaitOp Unit)) (s : IqWait Unit),
    Run (fun (s : IqWait Unit) op s' => s.exec op = some s') {} ops s → ¬ s.Missed := by
  intro h
  refine h produceFirst
    { timestamp := 1, waiter := .asleep 1, threads := update (fun _ => .signalled) () .idle } ?_
    ⟨1, rfl, .inl (by decide), fun _ => rfl⟩
  exact .cons rfl (.cons rfl (.cons rfl (.cons rfl (.cons rfl (.cons rfl (.cons rfl (.cons rfl
    (.cons rfl .nil))))))))

end IqWait

end OpenAir.Ds

import OpenAir.Lib.Run
import OpenAir.Mac.HarqLists

namespace OpenAir.Mac

open HarqLists Function

/-- In `nrRA_Msg4`/`nrRA_MsgB` or `nrRA_WAIT_Msg4_MsgB_ACK`, connected, or gone. -/
inductive Phase
  | msg4
  | waitAck
  | connected
  | released
  deriving DecidableEq

structure DlUe where
  lists : HarqLists
  phase : Phase
  raHarqPid : Nat := 0

abbrev Pucch := Option (Nat × Nat)

def HarqProcess.await (q : HarqProcess) (frame slot : Nat) : HarqProcess :=
  { q with feedbackFrame := frame, feedbackSlot := slot, isWaiting := true }

def setupDlHarqProcess (h : HarqLists) (dlHarqPid : Option Nat) (pucch : Pucch) :
    Except (Fault HarqAssertion) (Nat × HarqLists) :=
  match h.takeProcess dlHarqPid with
  | .error e => .error e
  | .ok (pid, h) =>
    if (h.harq pid).isWaiting then .error (.assertion .waiting)
    else
      match pucch with
      | none => .ok (pid, h.finish pid)
      | some (frame, slot) =>
        .ok (pid, (h.modify pid fun q => q.await frame slot).addTail .feedback pid)

/-- `handle_dl_harq`; `abort_nr_dl_harq` does as `finish_nr_dl_harq` for the lists -/
def handleDlHarq (max : Nat) (h : HarqLists) (pid : Nat) (success : Bool) : HarqLists :=
  let h := h.modify pid fun q => { q with feedbackSlot := noSlot, isWaiting := false }
  if success then h.finish pid
  else if max - 1 ≤ (h.harq pid).round then h.finish pid
  else h.retry pid

/-- The feedback was due before `frame` and `slot`: at most 512 frames ago. -/
def HarqProcess.isPast (q : HarqProcess) (frame slot : Nat) : Bool :=
  ((q.feedbackFrame : Int) - frame + 1024).tmod 1024 > 512 ∨
    q.feedbackFrame = frame ∧ q.feedbackSlot < slot

def HarqProcess.isFuture (q : HarqProcess) (frame slot : Nat) : Bool :=
  ((frame : Int) - q.feedbackFrame + 1024).tmod 1024 > 512 ∨
    q.feedbackFrame = frame ∧ slot < q.feedbackSlot

def findHarqRound (max frame slot : Nat) (h : HarqLists) :
    Except (Fault HarqAssertion) (HarqLists ⊕ (HarqLists × Option Nat)) :=
  match (h.list .feedback).head with
  | none => .ok (.inr (h, none))
  | some pid =>
    if (h.harq pid).isPast frame slot then
      match h.removeFront .feedback with
      | .error e => .error e
      | .ok h => .ok (.inl (handleDlHarq max h pid false))
    else if (h.harq pid).isFuture frame slot then .ok (.inr (h, none))
    else .ok (.inr (h, some pid))

/-- `find_harq`: feedbacks that were missed count as NACKs. -/
def findHarq (max frame slot : Nat) (h : HarqLists) :
    Except (Fault HarqAssertion) (HarqLists × Option Nat) :=
  loop (findHarqRound max frame slot) ((h.list .feedback).len + 1) h

/-- What a HARQ bit does in `handle_nr_uci_pucch_0_1` and `handle_nr_uci_pucch_2_3_4`, and whether
it found its process, the first of `feedback_dl_harq`. -/
def handleHarqBit (max frame slot : Nat) (success : Bool) (h : HarqLists) :
    Except (Fault HarqAssertion) (HarqLists × Bool) :=
  match findHarq max frame slot h with
  | .error e => .error e
  | .ok (h, none) => .ok (h, false)
  | .ok (h, some pid) =>
    if (h.harq pid).isWaiting then
      match h.removeFront .feedback with
      | .error e => .error e
      | .ok h => .ok (handleDlHarq max h pid success, true)
    else .error (.assertion .notWaiting)

/-- `nr_check_Msg4_MsgB_Ack` of a UE that has a `CellGroup`, unless it is rejected, and with room
among the connected UEs, unless that is `full`. -/
def nrCheckMsg4MsgBAck (s : DlUe) (success cellGroup full : Bool) :
    Except (Fault HarqAssertion) DlUe :=
  if (s.lists.harq s.raHarqPid).round = 0 then
    if success && !cellGroup then .ok { s with phase := .released }
    else
      let s := if success then { s with phase := if full then .released else .connected } else s
      if (s.lists.list .retrans).head.isSome then
        match s.lists.remove .retrans s.raHarqPid with
        | .error e => .error e
        | .ok h => .ok { s with lists := h }
      else .ok s
  else .ok { s with phase := .msg4 }

/-- The HARQ management of Msg4 and MsgB.  A process that awaits its retransmission is taken from
`retrans_dl_harq` without being removed. -/
def generateMsg4MsgB (s : DlUe) (frame slot : Nat) : Except (Fault HarqAssertion) DlUe :=
  let taken : Except (Fault HarqAssertion) (Nat × HarqLists) :=
    match (s.lists.list .retrans).head with
    | some pid => .ok (pid, s.lists)
    | none => s.lists.takeProcess none
  match taken with
  | .error e => .error e
  | .ok (pid, h) =>
    if (h.harq pid).isWaiting then .error (.assertion .waiting)
    else
      .ok {
        lists := (h.modify pid fun q => q.await frame slot).addTail .feedback pid
        phase := .waitAck
        raHarqPid := pid }

inductive DlOp
  | newTransmission (selected : Bool) (pucch : Pucch)
  | retransmission (pucch : Pucch)
  | harqBit (frame slot : Nat) (success cellGroup full : Bool)
  | msg4 (frame slot : Nat)
  | reset

def DlUe.transmit (s : DlUe) (first : Option Nat) (sel : Nat → Option Nat) (pucch : Pucch) :
    Except (Fault HarqAssertion) DlUe :=
  match s.phase, first with
  | .connected, some pid =>
    match setupDlHarqProcess s.lists (sel pid) pucch with
    | .error e => .error e
    | .ok (_, h) => .ok { s with lists := h }
  | _, _ => .ok s

def DlUe.step (max : Nat) (s : DlUe) : DlOp → Except (Fault HarqAssertion) DlUe
  | .newTransmission selected pucch =>
    s.transmit (s.lists.list .available).head (fun pid => if selected then some pid else none) pucch
  | .retransmission pucch => s.transmit (s.lists.list .retrans).head some pucch
  | .harqBit frame slot success cellGroup full =>
    match s.phase with
    | .released => .ok s
    | .connected =>
      match handleHarqBit max frame slot success s.lists with
      | .error e => .error e
      | .ok (h, _) => .ok { s with lists := h }
    | _ =>
      match handleHarqBit max frame slot success s.lists with
      | .error e => .error e
      | .ok (h, false) => .ok { s with lists := h }
      | .ok (h, true) => nrCheckMsg4MsgBAck { s with lists := h } success cellGroup full
  | .msg4 frame slot =>
    match s.phase with
    | .msg4 => generateMsg4MsgB s frame slot
    | _ => .ok s
  | .reset =>
    match s.lists.reset with
    | .error e => .error e
    | .ok h => .ok { s with lists := h }

def DlUe.init (n : Nat) (phase : Phase) : DlUe := { lists := create n, phase := phase }

/-- No Msg4 or MsgB is generated while a process awaits its retransmission. -/
def DlUe.fresh (s : DlUe) : DlOp → Bool
  | .msg4 _ _ => s.phase ≠ .msg4 ∨ (s.lists.list .retrans).head = none
  | _ => true

variable {n max : Nat} {h h' : HarqLists} {l : HarqList → List Nat} {pid : Nat} {v : List Nat}

theorem setupDlHarqProcess_inv {sel : Option Nat} (htake : h.takeProcess sel = .ok (pid, h'))
    (hi : Inv n (Fits max) (some pid) h' l) (hwait : (h'.harq pid).isWaiting = false)
    (hround : (h'.harq pid).round < max) (pucch : Pucch) :
    ∃ h'' l', setupDlHarqProcess h sel pucch = .ok (pid, h'') ∧ Inv n (Fits max) none h'' l' := by
  rw [setupDlHarqProcess, htake]
  simp only [hwait, Bool.false_eq_true, if_false]
  cases pucch with
  | none => exact ⟨_, _, rfl, hi.finish hwait⟩
  | some fs => exact ⟨_, _, rfl, hi.await rfl hround⟩

theorem handleDlHarq_cases (hi : Inv n (Fits max) (some pid) h l) (success : Bool) :
    (Inv n (Fits max) none (handleDlHarq max h pid success)
        (update l .available (l .available ++ [pid])) ∧
      ((handleDlHarq max h pid success).harq pid).round = 0) ∨
    (success = false ∧ Inv n (Fits max) none (handleDlHarq max h pid success)
        (update l .retrans (l .retrans ++ [pid])) ∧
      ((handleDlHarq max h pid success).harq pid).round ≠ 0) := by
  have hm := hi.modify fun q => { q with feedbackSlot := noSlot, isWaiting := false }
  unfold handleDlHarq
  dsimp only
  split
  · exact .inl ⟨hm.finish (by simp), harq_finish_round ..⟩
  · next hs =>
    split
    · exact .inl ⟨hm.finish (by simp), harq_finish_round ..⟩
    · next hr => exact .inr ⟨by simpa using hs, hm.retry (by simp) (by omega), by simp⟩

theorem findHarqRound_cases (hi : Inv n (Fits max) none h l) (frame slot : Nat) :
    (∃ r, findHarqRound max frame slot h = .ok (.inr (h, r)) ∧
      ∀ pid, r = some pid → ∃ v, l .feedback = pid :: v) ∨
    ∃ pid v h' l', l .feedback = pid :: v ∧ findHarqRound max frame slot h = .ok (.inl h') ∧
      Inv n (Fits max) none h' l' ∧ l' .feedback = v := by
  unfold findHarqRound
  cases hl : l .feedback with
  | nil =>
    rw [hi.head, hl]
    exact .inl ⟨none, rfl, by simp⟩
  | cons pid v =>
    rw [hi.head, hl]
    simp only [List.head?_cons]
    split
    · obtain ⟨h₁, hrem, -, hinv⟩ := hi.removeFront hl
      rw [hrem]
      right
      rcases handleDlHarq_cases hinv false with ⟨hinv', -⟩ | ⟨-, hinv', -⟩
      · exact ⟨pid, v, _, _, rfl, rfl, hinv', by simp⟩
      · exact ⟨pid, v, _, _, rfl, rfl, hinv', by simp⟩
    · left
      split
      · exact ⟨none, rfl, by simp⟩
      · exact ⟨some pid, rfl, fun i heq => ⟨v, by rw [Option.some.inj heq]⟩⟩

theorem loop_findHarqRound (hi : Inv n (Fits max) none h l) {fuel : Nat}
    (hfuel : (l .feedback).length < fuel) (frame slot : Nat) :
    ∃ h' l' r, loop (findHarqRound max frame slot) fuel h = .ok (h', r) ∧
      Inv n (Fits max) none h' l' ∧ (l' = l ∨ (l' .feedback).length < (l .feedback).length) ∧
      ∀ pid, r = some pid → ∃ v, l' .feedback = pid :: v := by
  induction fuel generalizing h l with
  | zero => omega
  | succ fuel ih =>
    rw [loop]
    rcases findHarqRound_cases hi frame slot with
      ⟨r, hr, hfirst⟩ | ⟨pid, v, h₁, l₁, hl, hr, hi₁, hl₁⟩
    · rw [hr]
      exact ⟨h, l, r, rfl, hi, .inl rfl, hfirst⟩
    · rw [hr]
      have hlen : (l₁ .feedback).length + 1 = (l .feedback).length := by rw [hl₁, hl]; rfl
      obtain ⟨h', l', r, hloop, hi', hlt, hfirst⟩ := ih hi₁ (by omega)
      refine ⟨h', l', r, hloop, hi', .inr ?_, hfirst⟩
      rcases hlt with rfl | hlt <;> omega

theorem findHarq_inv (hi : Inv n (Fits max) none h l) (frame slot : Nat) :
    ∃ h' l' r, findHarq max frame slot h = .ok (h', r) ∧ Inv n (Fits max) none h' l' ∧
      (l' = l ∨ (l' .feedback).length < (l .feedback).length) ∧
      ∀ pid, r = some pid → ∃ v, l' .feedback = pid :: v :=
  loop_findHarqRound hi (Nat.lt_succ_of_le (hi.represents _).length_le) frame slot

theorem handleHarqBit_cases (hi : Inv n (Fits max) none h l) (frame slot : Nat) (success : Bool) :
    ∃ h' l' l'' found, handleHarqBit max frame slot success h = .ok (h', found) ∧
      Inv n (Fits max) none h' l'' ∧ (l' = l ∨ (l' .feedback).length < (l .feedback).length) ∧
      (found = false ∧ l'' = l' ∨ found ∧ ∃ pid v, l' .feedback = pid :: v ∧
        (l'' = update (update l' .feedback v) .available (l' .available ++ [pid]) ∧
          (h'.harq pid).round = 0 ∨
        success = false ∧
          l'' = update (update l' .feedback v) .retrans (l' .retrans ++ [pid]) ∧
          (h'.harq pid).round ≠ 0)) := by
  obtain ⟨h₁, l₁, r, hfind, hi₁, hlt, hfirst⟩ := findHarq_inv hi frame slot
  unfold handleHarqBit
  rw [hfind]
  cases r with
  | none => exact ⟨h₁, l₁, l₁, false, rfl, hi₁, hlt, .inl ⟨rfl, rfl⟩⟩
  | some pid =>
    obtain ⟨v, hl₁⟩ := hfirst pid rfl
    have hwait : (h₁.harq pid).isWaiting := (hi₁.fits .feedback pid (by simp [hl₁])).1
    obtain ⟨h₂, hrem, -, hi₂⟩ := hi₁.removeFront hl₁
    simp only [hwait, if_true, hrem]
    rcases handleDlHarq_cases hi₂ success with ⟨hi₃, hround⟩ | ⟨hs, hi₃, hround⟩
    · exact ⟨_, l₁, _, true, rfl, hi₃, hlt, .inr ⟨rfl, pid, v, hl₁, .inl ⟨rfl, hround⟩⟩⟩
    · exact ⟨_, l₁, _, true, rfl, hi₃, hlt, .inr ⟨rfl, pid, v, hl₁, .inr ⟨hs, rfl, hround⟩⟩⟩

structure DlUe.Inv (n max : Nat) (s : DlUe) (l : HarqList → List Nat) : Prop where
  lists : HarqLists.Inv n (Fits max) none s.lists l
  msg4 : s.phase = .msg4 → l .feedback = []
  waitAck : s.phase = .waitAck → l .feedback = [] ∨ l .feedback = [s.raHarqPid] ∧ l .retrans = []

theorem DlUe.init_inv (n max : Nat) (phase : Phase) : ∃ l, (DlUe.init n phase).Inv n max l :=
  ⟨_, create_inv n max, fun _ => rfl, fun _ => .inl rfl⟩

variable {s t : DlUe}

theorem DlUe.Inv.transmit (hi : s.Inv n max l) {p : HarqList} {sel : Nat → Option Nat}
    (hp : p = .available ∨ p = .retrans ∧ sel = some)
    (hsel : ∀ i, sel i = none ∨ sel i = some i) (hmax : 1 ≤ max) (pucch : Pucch) :
    ∃ t l', s.transmit (s.lists.list p).head sel pucch = .ok t ∧ t.Inv n max l' := by
  unfold DlUe.transmit
  split
  · next pid hphase hhead =>
    rw [hi.lists.head] at hhead
    obtain ⟨v, hl⟩ : ∃ v, l p = pid :: v := List.head?_eq_some_iff.mp hhead
    have hfits := hi.lists.fits p pid (by simp [hl])
    have hsetup : ∃ h'' l', setupDlHarqProcess s.lists (sel pid) pucch = .ok (pid, h'') ∧
        HarqLists.Inv n (Fits max) none h'' l' := by
      rcases hp with rfl | ⟨rfl, rfl⟩
      · obtain ⟨h', htake, hharq, hi'⟩ := hi.lists.takeProcess_available hl (hsel pid)
        exact setupDlHarqProcess_inv htake hi' (hharq ▸ hfits.1)
          (by rw [hharq, hfits.2]; exact hmax) pucch
      · obtain ⟨h', htake, hharq, hi'⟩ := hi.lists.takeProcess_retrans hl
        exact setupDlHarqProcess_inv htake hi' (hharq ▸ hfits.1) (hharq ▸ hfits.2.2) pucch
    obtain ⟨h'', l', heq, hi'⟩ := hsetup
    rw [heq]
    exact ⟨_, l', rfl, hi', fun h => by simp [hphase] at h, fun h => by simp [hphase] at h⟩
  · exact ⟨s, l, rfl, hi⟩

theorem nrCheckMsg4MsgBAck_inv (hi : HarqLists.Inv n (Fits max) none s.lists l)
    (hfb : l .feedback = []) (hretrans : (s.lists.harq s.raHarqPid).round = 0 → l .retrans = [])
    (success cellGroup full : Bool) :
    ∃ t, nrCheckMsg4MsgBAck s success cellGroup full = .ok t ∧ t.Inv n max l := by
  have hinv : ∀ t : DlUe, t.lists = s.lists → t.Inv n max l := fun t ht =>
    ⟨ht ▸ hi, fun _ => hfb, fun _ => .inl hfb⟩
  unfold nrCheckMsg4MsgBAck
  split
  · next hround =>
    have hhead : (s.lists.list .retrans).head = none := by rw [hi.head, hretrans hround]; rfl
    split
    · exact ⟨_, rfl, hinv _ rfl⟩
    · cases success with
      | true =>
        exact ⟨{ s with phase := if full then .released else .connected }, by simp [hhead],
          hinv _ rfl⟩
      | false => exact ⟨s, by simp [hhead], hinv _ rfl⟩
  · exact ⟨_, rfl, hinv _ rfl⟩

theorem DlUe.Inv.harqBit (hi : s.Inv n max l) (frame slot : Nat) (success cellGroup full : Bool) :
    ∃ t l', s.step max (.harqBit frame slot success cellGroup full) = .ok t ∧ t.Inv n max l' := by
  obtain ⟨h', l', l'', found, hbit, hi', hlt, hcases⟩ :=
    handleHarqBit_cases hi.lists frame slot success
  unfold DlUe.step
  cases hphase : s.phase with
  | released => exact ⟨s, l, rfl, hi⟩
  | connected =>
    simp only [hbit]
    exact ⟨_, l'', rfl, hi', by simp, by simp⟩
  | msg4 =>
    have hnil := hi.msg4 hphase
    have hl' : l' = l := hlt.resolve_right (by simp [hnil])
    rcases hcases with ⟨rfl, rfl⟩ | ⟨-, pid, v, hl, -⟩
    · simp only [hbit]
      exact ⟨_, l'', rfl, hi', fun _ => by rw [hl', hnil], by simp⟩
    · simp [hl', hnil] at hl
  | waitAck =>
    simp only [hbit]
    have hwait := hi.waitAck hphase
    rcases hcases with ⟨rfl, rfl⟩ | ⟨rfl, pid, v, hl, hmoved⟩
    · refine ⟨_, l'', rfl, hi', by simp, fun _ => ?_⟩
      rcases hlt with rfl | hlt
      · exact hwait
      · left
        rcases hwait with hnil | ⟨hone, -⟩
        · simp [hnil] at hlt
        · simpa [hone] using hlt
    · obtain ⟨rfl, hone, hretrans⟩ : l' = l ∧ l .feedback = [s.raHarqPid] ∧ l .retrans = [] := by
        rcases hwait with hnil | ⟨hone, hretrans⟩
        · rcases hlt with rfl | hlt
          · simp [hnil] at hl
          · simp [hnil] at hlt
        · rcases hlt with rfl | hlt
          · exact ⟨rfl, hone, hretrans⟩
          · simp [hone, hl] at hlt
      obtain ⟨rfl, rfl⟩ : s.raHarqPid = pid ∧ [] = v := by simpa [hone] using hl
      have hfb : l'' .feedback = [] := by rcases hmoved with ⟨rfl, -⟩ | ⟨-, rfl, -⟩ <;> simp
      have hretrans' : (h'.harq s.raHarqPid).round = 0 → l'' .retrans = [] := by
        rcases hmoved with ⟨rfl, -⟩ | ⟨-, -, hround⟩
        · simp [hretrans]
        · exact fun h => absurd h hround
      obtain ⟨t, ht, hinv⟩ :=
        nrCheckMsg4MsgBAck_inv (s := { s with lists := h', phase := .waitAck })
        hi' hfb hretrans' success cellGroup full
      exact ⟨t, l'', ht, hinv⟩

theorem DlUe.Inv.reset (hi : s.Inv n max l) (hn : n ≤ maxHarqProcesses) :
    ∃ t l', s.step max .reset = .ok t ∧ t.Inv n max l' := by
  obtain ⟨h', l', hreset, hi', hnil, -⟩ := hi.lists.reset hn
  unfold DlUe.step
  simp only [hreset]
  exact ⟨_, l', rfl, hi', fun _ => hnil, fun _ => .inl hnil⟩

theorem DlUe.Inv.msg4_new (hi : s.Inv n max l) (hphase : s.phase = .msg4) (hn : 0 < n)
    (hmax : 1 ≤ max) (hretrans : l .retrans = []) (frame slot : Nat) :
    ∃ t l', generateMsg4MsgB s frame slot = .ok t ∧ t.Inv n max l' := by
  have hfb := hi.msg4 hphase
  obtain ⟨p, hp, -⟩ := hi.lists.unique 0 hn (by simp)
  obtain ⟨pid, v, hl⟩ : ∃ pid v, l .available = pid :: v := by
    cases p with
    | available => exact List.exists_cons_of_ne_nil (List.ne_nil_of_mem hp)
    | feedback => simp [hfb] at hp
    | retrans => simp [hretrans] at hp
  have hfits := hi.lists.fits .available pid (by simp [hl])
  obtain ⟨h', htake, hharq, hi'⟩ := hi.lists.takeProcess_available hl (.inl rfl)
  have hwait : (h'.harq pid).isWaiting = false := hharq ▸ hfits.1
  have hround : (h'.harq pid).round < max := by rw [hharq, hfits.2]; exact hmax
  have hhead : (s.lists.list .retrans).head = none := by rw [hi.lists.head, hretrans]; rfl
  unfold generateMsg4MsgB
  simp only [hhead, htake, hwait, Bool.false_eq_true, if_false]
  refine ⟨_, _, rfl, hi'.await rfl hround, by simp, fun _ => .inr ⟨?_, ?_⟩⟩
  · simp [hfb]
  · simpa using hretrans

theorem DlUe.Inv.msg4_again (hi : s.Inv n max l) (hphase : s.phase = .msg4)
    (hretrans : l .retrans = pid :: v) (frame slot : Nat) :
    ∃ t, generateMsg4MsgB s frame slot = .ok t ∧ ¬ Partitioned n max t.lists := by
  have hmem : pid ∈ l .retrans := by simp [hretrans]
  have hwait : (s.lists.harq pid).isWaiting = false := (hi.lists.fits .retrans pid hmem).1
  have hhead : (s.lists.list .retrans).head = some pid := by rw [hi.lists.head, hretrans]; rfl
  have hfb := hi.lists.represents .feedback
  rw [hi.msg4 hphase] at hfb
  unfold generateMsg4MsgB
  simp only [hhead, hwait, Bool.false_eq_true, if_false]
  have hfb' := hfb.addTail (by simp) (by rw [hi.lists.len]; exact hi.lists.lt hmem)
  exact ⟨_, rfl, not_partitioned (p := .feedback) (q := .retrans) hfb'
    (hi.lists.represents .retrans) (by decide) (by simp) hmem⟩

theorem DlUe.Inv.step (hi : s.Inv n max l) (hn : 0 < n) (hn' : n ≤ maxHarqProcesses)
    (hmax : 1 ≤ max) (op : DlOp) :
    (s.fresh op → ∃ t l', s.step max op = .ok t ∧ t.Inv n max l') ∧
    (s.fresh op = false → ∃ t, s.step max op = .ok t ∧ ¬ Partitioned n max t.lists) := by
  cases op with
  | newTransmission selected pucch =>
    refine ⟨fun _ => hi.transmit (.inl rfl) (fun i => ?_) hmax pucch, by simp [DlUe.fresh]⟩
    cases selected <;> simp
  | retransmission pucch =>
    exact ⟨fun _ => hi.transmit (.inr ⟨rfl, rfl⟩) (fun _ => .inr rfl) hmax pucch,
      by simp [DlUe.fresh]⟩
  | harqBit frame slot success cellGroup full =>
    exact ⟨fun _ => hi.harqBit frame slot success cellGroup full, by simp [DlUe.fresh]⟩
  | reset => exact ⟨fun _ => hi.reset hn', by simp [DlUe.fresh]⟩
  | msg4 frame slot =>
    simp only [DlUe.fresh, DlUe.step]
    by_cases hphase : s.phase = .msg4
    · simp only [hphase, hi.lists.head]
      cases hretrans : l .retrans with
      | nil => exact ⟨fun _ => hi.msg4_new hphase hn hmax hretrans frame slot, by simp⟩
      | cons pid v => exact ⟨by simp, fun _ => hi.msg4_again hphase hretrans frame slot⟩
    · refine ⟨fun _ => ⟨s, l, ?_, hi⟩, by simp [hphase]⟩
      split
      · next h => exact absurd h hphase
      · rfl

def DlUe.FreshStep (max : Nat) (s : DlUe) (op : DlOp) (t : DlUe) : Prop :=
  s.step max op = .ok t ∧ s.fresh op = true

theorem DlUe.inv_of_run (hn : 0 < n) (hn' : n ≤ maxHarqProcesses) (hmax : 1 ≤ max) {phase : Phase}
    {ops : List DlOp} (hrun : Run (DlUe.FreshStep max) (DlUe.init n phase) ops s) :
    ∃ l, s.Inv n max l := by
  refine hrun.invariant (fun s => ∃ l, s.Inv n max l) (DlUe.init_inv n max phase) ?_
  rintro s op t ⟨l, hi⟩ ⟨hstep, hfresh⟩
  obtain ⟨t', l', hstep', hi'⟩ := (hi.step hn hn' hmax op).1 hfresh
  rw [hstep] at hstep'
  cases hstep'
  exact ⟨l', hi'⟩

end OpenAir.Mac

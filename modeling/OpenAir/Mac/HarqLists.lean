import OpenAir.Lib.IndexList

/-! The HARQ processes of a UE at the gNB: the lists of their ids in `NR_UE_sched_ctrl_t` and what
moves an id from one list to another, for the downlink and the uplink alike. -/

namespace OpenAir.Mac

open Function

inductive HarqList
  | available
  | feedback
  | retrans
  deriving DecidableEq

/-- `NR_UE_harq_t` and `NR_UE_ul_harq_t`. -/
structure HarqProcess where
  isWaiting : Bool := false
  ndi : Bool := false
  round : Nat := 0
  feedbackFrame : Nat := 0
  feedbackSlot : Nat := 0

structure HarqLists where
  list : HarqList → IndexList
  harq : Nat → HarqProcess := fun _ => {}

inductive HarqAssertion
  | list (m : IndexList.Misuse)
  | noFreeProcess
  | waiting
  | notWaiting
  | roundOutOfBounds
  deriving DecidableEq

def maxHarqProcesses : Nat := 32

/-- The slot that no feedback is awaited in, `-1` as a `uint16_t`. -/
def noSlot : Nat := 65535

namespace HarqLists

/-- `create_dl_harq_list` -/
def create (n : Nat) : HarqLists where
  list
    | .available => (List.range n).foldl IndexList.addTail { len := n }
    | _ => { len := n }

def addTail (h : HarqLists) (p : HarqList) (pid : Nat) : HarqLists :=
  { h with list := update h.list p ((h.list p).addTail pid) }

def removeFront (h : HarqLists) (p : HarqList) : Except (Fault HarqAssertion) HarqLists :=
  match (h.list p).removeFront with
  | .error e => .error (e.map .list)
  | .ok l => .ok { h with list := update h.list p l }

def remove (h : HarqLists) (p : HarqList) (pid : Nat) : Except (Fault HarqAssertion) HarqLists :=
  match (h.list p).remove pid with
  | .error e => .error (e.map .list)
  | .ok l => .ok { h with list := update h.list p l }

def modify (h : HarqLists) (pid : Nat) (f : HarqProcess → HarqProcess) : HarqLists :=
  { h with harq := update h.harq pid (f (h.harq pid)) }

/-- `finish_nr_dl_harq` and `finish_nr_ul_harq` -/
def finish (h : HarqLists) (pid : Nat) : HarqLists :=
  (h.modify pid fun q => { q with ndi := !q.ndi, round := 0 }).addTail .available pid

/-- The next round of a process.  The round stays below `harq_round_max`, a `uint8_t`. -/
def retry (h : HarqLists) (pid : Nat) : HarqLists :=
  (h.modify pid fun q => { q with round := q.round + 1 }).addTail .retrans pid

@[simp] theorem harq_addTail (h : HarqLists) (p : HarqList) (pid : Nat) :
    (h.addTail p pid).harq = h.harq := rfl

@[simp] theorem harq_modify (h : HarqLists) (pid : Nat) (f : HarqProcess → HarqProcess) :
    (h.modify pid f).harq pid = f (h.harq pid) := update_self ..

@[simp] theorem harq_finish_round (h : HarqLists) (pid : Nat) :
    ((h.finish pid).harq pid).round = 0 := by simp [finish]

@[simp] theorem harq_retry_round (h : HarqLists) (pid : Nat) :
    ((h.retry pid).harq pid).round = (h.harq pid).round + 1 := by simp [retry]

def takeProcess (h : HarqLists) : Option Nat → Except (Fault HarqAssertion) (Nat × HarqLists)
  | none =>
    match (h.list .available).head with
    | none => .error (.assertion .noFreeProcess)
    | some pid =>
      match h.removeFront .available with
      | .error e => .error e
      | .ok h => .ok (pid, h)
  | some pid =>
    match if (h.harq pid).round = 0 then h.remove .available pid else h.remove .retrans pid with
    | .error e => .error e
    | .ok h => .ok (pid, h)

/-- `while ((harq = list.head) >= 0)` of `reset_dl_harq_list` and `reset_ul_harq_list` -/
def drainRound (p : HarqList) (h : HarqLists) :
    Except (Fault HarqAssertion) (HarqLists ⊕ HarqLists) :=
  match (h.list p).head with
  | none => .ok (.inr h)
  | some pid =>
    match h.removeFront p with
    | .error e => .error e
    | .ok h => .ok (.inl (h.addTail .available pid))

def drain (p : HarqList) (h : HarqLists) : Except (Fault HarqAssertion) HarqLists :=
  loop (drainRound p) ((h.list p).len + 1) h

/-- `reset_dl_harq_list` and `reset_ul_harq_list` -/
def reset (h : HarqLists) : Except (Fault HarqAssertion) HarqLists :=
  match h.drain .feedback with
  | .error e => .error e
  | .ok h =>
    match h.drain .retrans with
    | .error e => .error e
    | .ok h =>
      .ok { h with
        harq i :=
          if i < maxHarqProcesses then
            { h.harq i with feedbackSlot := noSlot, round := 0, isWaiting := false }
          else h.harq i }

def Fits (max : Nat) (q : HarqProcess) : HarqList → Prop
  | .available => q.isWaiting = false ∧ q.round = 0
  | .feedback => q.isWaiting = true ∧ q.round < max
  | .retrans => q.isWaiting = false ∧ 1 ≤ q.round ∧ q.round < max

structure Inv (n : Nat) (F : HarqProcess → HarqList → Prop) (held : Option Nat) (h : HarqLists)
    (l : HarqList → List Nat) : Prop where
  represents : ∀ p, (h.list p).Represents (l p)
  len : ∀ p, (h.list p).len = n
  unique : ∀ i < n, held ≠ some i → ∃! p, i ∈ l p
  held : ∀ i, held = some i → i < n ∧ ∀ p, i ∉ l p
  fits : ∀ p, ∀ i ∈ l p, F (h.harq i) p

structure Partitioned (n max : Nat) (h : HarqLists) : Prop where
  exists_lists : ∃ l : HarqList → List Nat,
    (∀ p, (h.list p).Represents (l p)) ∧
    (∀ p, ∀ i ∈ l p, i < n) ∧
    (∀ i < n, ∃! p, i ∈ l p) ∧
    (∀ i < n, (h.harq i).isWaiting = true ↔ i ∈ l .feedback) ∧
    (∀ i ∈ l .available, (h.harq i).round = 0) ∧
    ∀ i ∈ l .retrans, 1 ≤ (h.harq i).round ∧ (h.harq i).round ≤ max - 1

namespace Inv

variable {n max : Nat} {F F' : HarqProcess → HarqList → Prop} {held : Option Nat} {h : HarqLists}
  {l : HarqList → List Nat} {p q : HarqList} {pid : Nat} {u v : List Nat}

theorem lt (hi : Inv n F held h l) (hmem : pid ∈ l p) : pid < n := by
  rw [← hi.len p]
  exact (hi.represents p).lt pid hmem

theorem eq_of_mem (hi : Inv n F held h l) (hp : pid ∈ l p) (hq : pid ∈ l q) : p = q := by
  have hheld : held ≠ some pid := fun heq => (hi.held pid heq).2 p hp
  exact (hi.unique pid (hi.lt hp) hheld).unique hp hq

theorem head (hi : Inv n F held h l) : (h.list p).head = (l p).head? := (hi.represents p).head_eq

theorem mono (hi : Inv n F held h l) (hF : ∀ p, ∀ i ∈ l p, F' (h.harq i) p) :
    Inv n F' held h l :=
  ⟨hi.represents, hi.len, hi.unique, hi.held, hF⟩

theorem isWaiting_iff (hi : Inv n (Fits max) none h l) (hlt : pid < n) :
    (h.harq pid).isWaiting ↔ pid ∈ l .feedback := by
  obtain ⟨p, hp, huniq⟩ := hi.unique pid hlt (by simp)
  have hfits := hi.fits p pid hp
  constructor
  · intro hwait
    cases p with
    | available => simp [hwait, Fits] at hfits
    | feedback => exact hp
    | retrans => simp [hwait, Fits] at hfits
  · intro hmem
    exact (hi.fits _ pid hmem).1

theorem partitioned (hi : Inv n (Fits max) none h l) : Partitioned n max h := by
  refine ⟨l, hi.represents, fun p i => hi.lt, fun i hlt => hi.unique i hlt (by simp),
    fun i => hi.isWaiting_iff, fun i hmem => (hi.fits _ i hmem).2, fun i hmem => ?_⟩
  obtain ⟨-, hpos, hlt⟩ := hi.fits _ i hmem
  exact ⟨hpos, by omega⟩

theorem modify (hi : Inv n F (some pid) h l) (f : HarqProcess → HarqProcess) :
    Inv n F (some pid) (h.modify pid f) l where
  represents := hi.represents
  len := hi.len
  unique := hi.unique
  held := hi.held
  fits p i hmem := by
    have hne : i ≠ pid := fun heq => (hi.held pid rfl).2 p (heq ▸ hmem)
    have hsame : (h.modify pid f).harq i = h.harq i := update_of_ne hne _ _
    rw [hsame]
    exact hi.fits p i hmem

theorem addTail (hi : Inv n F (some pid) h l) (hfits : F (h.harq pid) p) :
    Inv n F none (h.addTail p pid) (update l p (l p ++ [pid])) := by
  obtain ⟨hlt, hnot⟩ := hi.held pid rfl
  have hmem : ∀ q i, i ∈ update l p (l p ++ [pid]) q ↔ i ∈ l q ∨ i = pid ∧ q = p := by
    intro q i
    by_cases hq : q = p
    · subst hq
      simp
    · simp [hq]
  refine ⟨fun q => ?_, fun q => ?_, fun i hi' _ => ?_, by simp, fun q i hiq => ?_⟩
  · by_cases hq : q = p
    · subst hq
      simp only [HarqLists.addTail, update_self]
      exact (hi.represents q).addTail (hnot q) (by rw [hi.len]; exact hlt)
    · simp only [HarqLists.addTail, update_of_ne hq]
      exact hi.represents q
  · by_cases hq : q = p
    · subst hq
      simp only [HarqLists.addTail, update_self, IndexList.addTail_len]
      exact hi.len q
    · simp only [HarqLists.addTail, update_of_ne hq]
      exact hi.len q
  · simp only [hmem]
    by_cases heq : i = pid
    · subst heq
      exact ⟨p, .inr ⟨rfl, rfl⟩, fun q hq => hq.elim (fun hq => absurd hq (hnot q)) And.right⟩
    · obtain ⟨q, hq, huniq⟩ := hi.unique i hi' (fun h => heq (Option.some.inj h).symm)
      exact ⟨q, .inl hq, fun q' hq' => huniq q' (hq'.resolve_right fun h => heq h.1)⟩
  · rcases (hmem q i).mp hiq with hiq | ⟨rfl, rfl⟩
    · exact hi.fits q i hiq
    · exact hfits

theorem take (hi : Inv n F none h l) (hl : l p = u ++ pid :: v) {L : IndexList}
    (hL : L.Represents (u ++ v)) (hlen : L.len = n) :
    Inv n F (some pid) { h with list := update h.list p L }
      (update l p (u ++ v)) := by
  have hmem : pid ∈ l p := by rw [hl]; simp
  have hnodup := (hi.represents p).nodup
  rw [hl] at hnodup
  have hnot : pid ∉ u ++ v := (List.nodup_cons.mp (List.nodup_middle.mp hnodup)).1
  have hiff : ∀ q i, i ≠ pid → (i ∈ update l p (u ++ v) q ↔ i ∈ l q) := by
    intro q i hne
    by_cases hq : q = p
    · subst hq
      simp [hl, hne]
    · simp [hq]
  have hno : ∀ q, pid ∉ update l p (u ++ v) q := by
    intro q hq
    by_cases hqp : q = p
    · subst hqp
      rw [update_self] at hq
      exact hnot hq
    · rw [update_of_ne hqp] at hq
      exact hqp (hi.eq_of_mem hq hmem)
  refine ⟨fun q => ?_, fun q => ?_, fun i hlt hheld => ?_, ?_, fun q i hiq => ?_⟩
  · by_cases hq : q = p
    · subst hq
      simpa using hL
    · simpa [hq] using hi.represents q
  · by_cases hq : q = p
    · subst hq
      simpa using hlen
    · simpa [hq] using hi.len q
  · have hne : i ≠ pid := fun heq => hheld (by rw [heq])
    simp only [hiff _ i hne]
    exact hi.unique i hlt (by simp)
  · rintro i ⟨⟩
    exact ⟨hi.lt hmem, hno⟩
  · have hne : i ≠ pid := fun heq => hno q (heq ▸ hiq)
    exact hi.fits q i ((hiff q i hne).mp hiq)

theorem removeFront (hi : Inv n F none h l) (hl : l p = pid :: v) :
    ∃ h', h.removeFront p = .ok h' ∧ h'.harq = h.harq ∧
      Inv n F (some pid) h' (update l p v) := by
  have hrep := hi.represents p
  rw [hl] at hrep
  obtain ⟨L, hL, hrepL, hlen⟩ := hrep.removeFront
  rw [HarqLists.removeFront, hL]
  exact ⟨_, rfl, rfl, hi.take (u := []) hl hrepL (by rw [hlen, hi.len])⟩

theorem remove (hi : Inv n F none h l) (hl : l p = u ++ pid :: v) :
    ∃ h', h.remove p pid = .ok h' ∧ h'.harq = h.harq ∧
      Inv n F (some pid) h' (update l p (u ++ v)) := by
  have hrep := hi.represents p
  rw [hl] at hrep
  obtain ⟨L, hL, hrepL, hlen⟩ := hrep.remove
  rw [HarqLists.remove, hL]
  exact ⟨_, rfl, rfl, hi.take hl hrepL (by rw [hlen, hi.len])⟩

theorem finish (hi : Inv n (Fits max) (some pid) h l) (hwait : (h.harq pid).isWaiting = false) :
    Inv n (Fits max) none (h.finish pid) (update l .available (l .available ++ [pid])) :=
  (hi.modify _).addTail (by simp [Fits, hwait])

theorem retry (hi : Inv n (Fits max) (some pid) h l) (hwait : (h.harq pid).isWaiting = false)
    (hround : (h.harq pid).round + 1 < max) :
    Inv n (Fits max) none (h.retry pid) (update l .retrans (l .retrans ++ [pid])) :=
  (hi.modify _).addTail (by simp [Fits, hwait, hround])

theorem await (hi : Inv n (Fits max) (some pid) h l) {f : HarqProcess → HarqProcess}
    (hwait : (f (h.harq pid)).isWaiting) (hround : (f (h.harq pid)).round < max) :
    Inv n (Fits max) none ((h.modify pid f).addTail .feedback pid)
      (update l .feedback (l .feedback ++ [pid])) :=
  (hi.modify f).addTail (by simp [Fits, hwait, hround])

theorem takeProcess_available (hi : Inv n (Fits max) none h l) (hl : l .available = pid :: v)
    {sel : Option Nat} (hsel : sel = none ∨ sel = some pid) :
    ∃ h', h.takeProcess sel = .ok (pid, h') ∧ h'.harq = h.harq ∧
      Inv n (Fits max) (some pid) h' (update l .available v) := by
  rcases hsel with rfl | rfl
  · have hhead : (h.list .available).head = some pid := by rw [hi.head, hl, List.head?_cons]
    obtain ⟨h', hrem, hharq, hinv⟩ := hi.removeFront hl
    rw [takeProcess, hhead, hrem]
    exact ⟨h', rfl, hharq, hinv⟩
  · have hround : (h.harq pid).round = 0 := (hi.fits .available pid (by simp [hl])).2
    obtain ⟨h', hrem, hharq, hinv⟩ := hi.remove (u := []) hl
    rw [takeProcess, if_pos hround, hrem]
    exact ⟨h', rfl, hharq, hinv⟩

theorem takeProcess_retrans (hi : Inv n (Fits max) none h l) (hl : l .retrans = pid :: v) :
    ∃ h', h.takeProcess (some pid) = .ok (pid, h') ∧ h'.harq = h.harq ∧
      Inv n (Fits max) (some pid) h' (update l .retrans v) := by
  obtain ⟨-, hpos, -⟩ := hi.fits .retrans pid (by simp [hl])
  obtain ⟨h', hrem, hharq, hinv⟩ := hi.remove (u := []) hl
  rw [takeProcess, if_neg (by omega), hrem]
  exact ⟨h', rfl, hharq, hinv⟩

theorem loop_drainRound (hi : Inv n (fun _ _ => True) none h l) (hp : p ≠ .available) {fuel : Nat}
    (hfuel : (l p).length < fuel) :
    ∃ h' l', loop (drainRound p) fuel h = .ok h' ∧ h'.harq = h.harq ∧
      Inv n (fun _ _ => True) none h' l' ∧ l' p = [] ∧ ∀ q, q ≠ p → q ≠ .available →
      l' q = l q := by
  induction hl : l p generalizing h l fuel with
  | nil =>
    obtain ⟨fuel, rfl⟩ : ∃ k, fuel = k + 1 := ⟨fuel - 1, by omega⟩
    have hhead : (h.list p).head = none := by rw [hi.head, hl, List.head?_nil]
    refine ⟨h, l, ?_, rfl, hi, hl, fun _ _ _ => rfl⟩
    rw [loop, drainRound, hhead]
  | cons pid v ih =>
    obtain ⟨fuel, rfl⟩ : ∃ k, fuel = k + 1 := ⟨fuel - 1, by omega⟩
    have hhead : (h.list p).head = some pid := by rw [hi.head, hl, List.head?_cons]
    obtain ⟨h₁, hrem, hharq, hinv⟩ := hi.removeFront hl
    have hstep : drainRound p h = .ok (.inl (h₁.addTail .available pid)) := by
      rw [drainRound, hhead, hrem]
    have hinv' := hinv.addTail (p := .available) trivial
    rw [update_of_ne hp.symm] at hinv'
    have hlp : update (update l p v) .available (l .available ++ [pid]) p = v := by
      rw [update_of_ne hp, update_self]
    have hlt : (update (update l p v) .available (l .available ++ [pid]) p).length <
        fuel := by
      rw [hlp]
      simpa [hl] using hfuel
    obtain ⟨h', l', hloop, hharq', hi', hnil, hsame⟩ := ih hinv' hlt hlp
    refine ⟨h', l', ?_, hharq'.trans hharq, hi', hnil, fun q hq hqa => ?_⟩
    · rw [loop, hstep]
      exact hloop
    · rw [hsame q hq hqa, update_of_ne hqa, update_of_ne hq]

theorem drain (hi : Inv n (fun _ _ => True) none h l) (hp : p ≠ .available) :
    ∃ h' l', h.drain p = .ok h' ∧ h'.harq = h.harq ∧ Inv n (fun _ _ => True) none h' l' ∧
      l' p = [] ∧ ∀ q, q ≠ p → q ≠ .available → l' q = l q :=
  hi.loop_drainRound hp (Nat.lt_succ_of_le (hi.represents p).length_le)

theorem reset (hi : Inv n (Fits max) none h l) (hn : n ≤ maxHarqProcesses) :
    ∃ h' l', h.reset = .ok h' ∧ Inv n (Fits max) none h' l' ∧ l' .feedback = [] ∧
      l' .retrans = [] := by
  obtain ⟨h₁, l₁, hd₁, -, hi₁, hnil₁, -⟩ :=
    (hi.mono fun _ _ _ => trivial).drain (p := .feedback) (by decide)
  obtain ⟨h₂, l₂, hd₂, -, hi₂, hnil₂, hsame₂⟩ := hi₁.drain (p := .retrans) (by decide)
  have hfb : l₂ .feedback = [] := by rw [hsame₂ _ (by decide) (by decide), hnil₁]
  rw [HarqLists.reset, hd₁]
  dsimp only
  rw [hd₂]
  refine ⟨_, l₂, rfl, ⟨hi₂.represents, hi₂.len, hi₂.unique, hi₂.held, ?_⟩, hfb, hnil₂⟩
  intro p i hmem
  have hlt : i < maxHarqProcesses := Nat.lt_of_lt_of_le (hi₂.lt hmem) hn
  cases p with
  | available => simp [Fits, hlt]
  | feedback => simp [hfb] at hmem
  | retrans => simp [hnil₂] at hmem

end Inv

theorem create_inv (n max : Nat) : Inv n (Fits max) none (create n) fun
    | .available => List.range n
    | _ => [] := by
  have hfold : ∀ m ≤ n, (((List.range m).foldl IndexList.addTail { len := n }).Represents
      (List.range m) ∧ ((List.range m).foldl IndexList.addTail { len := n }).len = n) := by
    intro m hm
    induction m with
    | zero => exact ⟨IndexList.represents_nil n, rfl⟩
    | succ m ih =>
      obtain ⟨hrep, hlen⟩ := ih (by omega)
      rw [List.range_succ, List.foldl_concat]
      exact ⟨hrep.addTail (by simp) (by omega), by rw [IndexList.addTail_len, hlen]⟩
  refine ⟨fun p => ?_, fun p => ?_, fun i hi _ => ?_, by simp, fun p i hmem => ?_⟩
  · cases p with
    | available => exact (hfold n (Nat.le_refl n)).1
    | feedback => exact IndexList.represents_nil n
    | retrans => exact IndexList.represents_nil n
  · cases p with
    | available => exact (hfold n (Nat.le_refl n)).2
    | feedback => rfl
    | retrans => rfl
  · refine ⟨.available, by simpa using hi, fun q hq => ?_⟩
    cases q with
    | available => rfl
    | feedback => cases hq
    | retrans => cases hq
  · cases p with
    | available => exact ⟨rfl, rfl⟩
    | feedback => cases hmem
    | retrans => cases hmem

theorem not_partitioned {n max : Nat} {h : HarqLists} {p q : HarqList} {lp lq : List Nat} {i : Nat}
    (hp : (h.list p).Represents lp) (hq : (h.list q).Represents lq) (hne : p ≠ q) (hip : i ∈ lp)
    (hiq : i ∈ lq) : ¬ Partitioned n max h := by
  rintro ⟨l, hrep, hlt, huniq, -⟩
  rw [hp.unique (hrep p)] at hip
  rw [hq.unique (hrep q)] at hiq
  exact hne ((huniq i (hlt p i hip)).unique hip hiq)

end HarqLists

end OpenAir.Mac

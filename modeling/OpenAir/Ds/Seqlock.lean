import OpenAir.Lib.Memory
import OpenAir.Lib.Run

/-! The sequence lock with one writer and any readers, one atomic step at a time.  `memcpy` moves
the bytes of the payload one by one, in any order. -/

namespace OpenAir.Ds

open Function List

structure Copy where
  dst : Memory
  done : Nat → Bool

namespace Copy

def start (dst : Memory) : Copy := { dst, done := fun _ => false }

def put (c : Copy) (j : Nat) (b : Byte) : Copy where
  dst := update c.dst j b
  done := update c.done j true

def Finished (c : Copy) (n : Nat) : Prop := ∀ j < n, c.done j = true

end Copy

inductive WriteAt
  | idle
  /-- The counter is loaded and made odd. -/
  | loaded (src : Memory) (odd : BitVec 32)
  /-- The odd counter is stored, and bytes are copied. -/
  | copying (src : Memory) (odd : BitVec 32) (done : Nat → Bool)

inductive ReadAt
  | idle
  | trying (dst : Memory) (i : Nat) (maxTries : Int)
  /-- The counter was even, and bytes are copied. -/
  | copying (copy : Copy) (i : Nat) (maxTries : Int) (begun : BitVec 32)

structure Seqlock (ι : Type) where
  sl : BitVec 32
  shared : Memory
  writer : WriteAt
  readers : ι → ReadAt

inductive SeqlockEvent (ι : Type)
  | writeLoads (src : Memory)
  | writeMarks
  | writeCopies (j : Nat)
  | writes (src : Memory)
  | calls (r : ι) (maxTries : Int)
  | begins (r : ι)
  | meetsWrite (r : ι)
  | readCopies (r : ι) (j : Nat)
  | retries (r : ι)
  | gives (r : ι) (dst : Memory)
  | fails (r : ι)

variable {ι : Type} [DecidableEq ι]

namespace Seqlock

def init (payload : Memory) : Seqlock ι where
  sl := 0
  shared := payload
  writer := .idle
  readers := fun _ => .idle

def setReader (s : Seqlock ι) (r : ι) (a : ReadAt) : Seqlock ι :=
  { s with readers := update s.readers r a }

end Seqlock

open Seqlock

inductive SeqlockStep (n : Nat) : Seqlock ι → SeqlockEvent ι → Seqlock ι → Prop
  | writeLoads : s.writer = .idle →
      SeqlockStep n s (.writeLoads src) { s with writer := .loaded src (s.sl ||| 1) }
  | writeMarks : s.writer = .loaded src odd →
      SeqlockStep n s .writeMarks { s with sl := odd, writer := .copying src odd fun _ => false }
  | writeCopies : s.writer = .copying src odd done → j < n → done j = false →
      SeqlockStep n s (.writeCopies j) { s with
        shared := update s.shared j (src j)
        writer := .copying src odd (update done j true) }
  | writes : s.writer = .copying src odd done → (∀ j < n, done j = true) →
      SeqlockStep n s (.writes src) { s with sl := odd + 1, writer := .idle }
  | calls : s.readers r = .idle →
      SeqlockStep n s (.calls r maxTries) (s.setReader r (.trying dst 0 maxTries))
  | begins : s.readers r = .trying dst i maxTries → i < maxTries → s.sl &&& 1 = 0 →
      SeqlockStep n s (.begins r) (s.setReader r (.copying (.start dst) i maxTries s.sl))
  | meetsWrite : s.readers r = .trying dst i maxTries → i < maxTries → s.sl &&& 1 ≠ 0 →
      SeqlockStep n s (.meetsWrite r) (s.setReader r (.trying dst (i + 1) maxTries))
  | readCopies : s.readers r = .copying copy i maxTries begun → j < n → copy.done j = false →
      SeqlockStep n s (.readCopies r j)
        (s.setReader r (.copying (copy.put j (s.shared j)) i maxTries begun))
  | retries : s.readers r = .copying copy i maxTries begun → copy.Finished n → s.sl ≠ begun →
      SeqlockStep n s (.retries r) (s.setReader r (.trying copy.dst (i + 1) maxTries))
  | gives : s.readers r = .copying copy i maxTries begun → copy.Finished n → s.sl = begun →
      SeqlockStep n s (.gives r copy.dst) (s.setReader r .idle)
  | fails : s.readers r = .trying dst i maxTries → ¬ i < maxTries →
      SeqlockStep n s (.fails r) (s.setReader r .idle)

def SeqlockEvent.written : SeqlockEvent ι → Option Memory
  | .writes src => some src
  | _ => none

def payloads (initial : Memory) (ls : List (SeqlockEvent ι)) : List Memory :=
  initial :: ls.filterMap SeqlockEvent.written

def writeCount (ls : List (SeqlockEvent ι)) : Nat := (ls.filterMap SeqlockEvent.written).length

def SeqlockEvent.boundsAttempt (r : ι) : SeqlockEvent ι → Bool
  | .begins r' | .retries r' | .gives r' _ => r' = r
  | _ => false

structure ReadIn (ls : List (SeqlockEvent ι)) (r : ι) (i g : Nat) (dst : Memory) : Prop where
  begins : ls[i]? = some (.begins r)
  gives : ls[g]? = some (.gives r dst)
  lt : i < g
  attempt : ∀ m e, i < m → m < g → ls[m]? = some e → e.boundsAttempt r = false
  few : writeCount (ls.take g) < writeCount (ls.take i) + 2 ^ 31

def WriteAt.isCopying : WriteAt → Bool
  | .copying .. => true
  | _ => false

def WriteAt.CounterOk (sl : BitVec 32) : WriteAt → Prop
  | .idle => sl &&& 1 = 0
  | .loaded _ odd => sl &&& 1 = 0 ∧ odd = sl + 1
  | .copying _ odd _ => sl = odd ∧ (odd + 1) &&& 1 = 0

theorem even_add_two {x : BitVec 32} (h : x &&& 1 = 0) : (x + 1 + 1) &&& 1 = 0 := by
  have hx : x.toNat % 2 = 0 := by
    rw [← Nat.and_one_is_mod]
    exact congrArg BitVec.toNat h
  apply BitVec.eq_of_toNat_eq
  rw [BitVec.toNat_and, show (1 : BitVec 32).toNat = 1 from rfl, Nat.and_one_is_mod,
    BitVec.toNat_add, BitVec.toNat_add]
  simp only [show (1 : BitVec 32).toNat = 1 from rfl, show (0 : BitVec 32).toNat = 0 from rfl]
  omega

variable {n : Nat} {s t : Seqlock ι} {e : SeqlockEvent ι} {ls : List (SeqlockEvent ι)}

theorem CounterOk.step (h : s.writer.CounterOk s.sl) (hs : SeqlockStep n s e t) :
    t.writer.CounterOk t.sl := by
  cases hs with
  | writeLoads hw =>
    rw [hw] at h
    exact ⟨h, (BitVec.add_eq_or_of_and_eq_zero _ _ h).symm⟩
  | writeMarks hw =>
    rw [hw] at h
    obtain ⟨heven, rfl⟩ := h
    exact ⟨rfl, even_add_two heven⟩
  | writeCopies hw =>
    rw [hw] at h
    exact h
  | writes hw =>
    rw [hw] at h
    exact h.2
  | _ => exact h

variable {initial : Memory}

theorem counterOk_of_run (h : Run (SeqlockStep n) (init initial) ls s) :
    s.writer.CounterOk s.sl :=
  h.invariant (fun s => s.writer.CounterOk s.sl) (show (0 : BitVec 32) &&& 1 = 0 from rfl)
    fun _ _ _ => CounterOk.step

def Copied (n : Nat) (src dst : Memory) (done : Nat → Bool) : Prop :=
  ∀ j < n, done j = true → dst j = src j

theorem Copied.put {src dst : Memory} {done : Nat → Bool} (h : Copied n src dst done) (j : Nat) :
    Copied n src (update dst j (src j)) (update done j true) := by
  intro k hk hdone
  by_cases hkj : k = j
  · subst hkj
    exact update_self ..
  · rw [update_of_ne hkj] at hdone ⊢
    exact h k hk hdone

def WriteAt.SharedOk (n : Nat) (shared last : Memory) : WriteAt → Prop
  | .copying src _ done => Copied n src shared done
  | _ => ∀ j < n, shared j = last j

def lastPayload (initial : Memory) (ls : List (SeqlockEvent ι)) : Memory :=
  (ls.filterMap SeqlockEvent.written).getLastD initial

omit [DecidableEq ι] in
theorem lastPayload_snoc :
    lastPayload initial (ls ++ [e]) = e.written.getD (lastPayload initial ls) := by
  unfold lastPayload
  rw [filterMap_append]
  cases he : e.written with
  | none => simp [he]
  | some src => simp [he]

theorem SharedOk.step (h : s.writer.SharedOk n s.shared (lastPayload initial ls))
    (hs : SeqlockStep n s e t) :
    t.writer.SharedOk n t.shared (lastPayload initial (ls ++ [e])) := by
  rw [lastPayload_snoc]
  cases hs with
  | writeLoads hw =>
    rw [hw] at h
    exact h
  | writeMarks hw => exact fun j _ hj => absurd hj Bool.false_ne_true
  | writeCopies hw =>
    rw [hw] at h
    exact Copied.put h _
  | writes hw hall =>
    rw [hw] at h
    exact fun j hj => h j hj (hall j hj)
  | _ => exact h

theorem sharedOk_of_run (h : Run (SeqlockStep n) (init initial) ls s) :
    s.writer.SharedOk n s.shared (lastPayload initial ls) :=
  h.trace_invariant (fun ls s => s.writer.SharedOk n s.shared (lastPayload initial ls))
    (fun _ _ => rfl) fun _ _ _ _ => SharedOk.step

/-- An attempt of `r` that began with the counter `begun` and the payload `base`: the counter tells
how many writes there were, and without any the copy is one of `base`. -/
structure Since (n : Nat) (begun : BitVec 32) (base : Memory) (r : ι) (ls : List (SeqlockEvent ι))
    (s : Seqlock ι) : Prop where
  counterOk : s.writer.CounterOk s.sl
  counter : s.sl = begun + BitVec.ofNat 32 (2 * writeCount ls + s.writer.isCopying.toNat)
  shared : writeCount ls = 0 → s.writer.isCopying = false → s.shared = base
  reader : ∀ copy i maxTries b, s.readers r = .copying copy i maxTries b → b = begun ∧
    (writeCount ls = 0 → s.writer.isCopying = false → Copied n base copy.dst copy.done)

variable {begun : BitVec 32} {base : Memory} {r : ι}

omit [DecidableEq ι] in
theorem writeCount_snoc : writeCount (ls ++ [e]) = writeCount ls + e.written.toList.length := by
  unfold writeCount
  rw [filterMap_append, length_append]
  cases he : e.written with
  | none => simp [he]
  | some src => simp [he]

theorem add_ofNat_succ (b : BitVec 32) (k : Nat) :
    b + BitVec.ofNat 32 k + 1 = b + BitVec.ofNat 32 (k + 1) := by
  rw [BitVec.add_assoc, BitVec.ofNat_add]
  rfl

theorem Since.setReader (h : Since n begun base r ls s) (hw : e.written = none) {r' : ι}
    {a : ReadAt} (ha : ∀ copy i maxTries b, a = .copying copy i maxTries b → r' = r → b = begun ∧
      (writeCount ls = 0 → s.writer.isCopying = false → Copied n base copy.dst copy.done)) :
    Since n begun base r (ls ++ [e]) (s.setReader r' a) := by
  have hcount : writeCount (ls ++ [e]) = writeCount ls := by
    rw [writeCount_snoc, hw]
    rfl
  refine ⟨h.counterOk, hcount ▸ h.counter, hcount ▸ h.shared, ?_⟩
  rw [hcount]
  intro copy i maxTries b hr
  by_cases heq : r' = r
  · subst heq
    exact ha copy i maxTries b ((update_self ..).symm.trans hr) rfl
  · exact h.reader copy i maxTries b ((update_of_ne (Ne.symm heq) ..).symm.trans hr)

omit [DecidableEq ι] in
theorem Since.setWriter (h : Since n begun base r ls s) (hreaders : t.readers = s.readers)
    (hok : t.writer.CounterOk t.sl)
    (hcounter : t.sl = begun + BitVec.ofNat 32
      (2 * writeCount (ls ++ [e]) + t.writer.isCopying.toNat))
    (hquiet : writeCount (ls ++ [e]) = 0 → t.writer.isCopying = false →
      writeCount ls = 0 ∧ s.writer.isCopying = false ∧ t.shared = s.shared) :
    Since n begun base r (ls ++ [e]) t := by
  refine ⟨hok, hcounter, fun hcount hcopy => ?_, fun copy i maxTries b hr => ?_⟩
  · obtain ⟨h₀, hrest, hsame⟩ := hquiet hcount hcopy
    rw [hsame, h.shared h₀ hrest]
  · obtain ⟨hb, hdst⟩ := h.reader copy i maxTries b (hreaders ▸ hr)
    refine ⟨hb, fun hcount hcopy => ?_⟩
    obtain ⟨h₀, hrest, -⟩ := hquiet hcount hcopy
    exact hdst h₀ hrest

theorem Since.step (h : Since n begun base r ls s) (hs : SeqlockStep n s e t) (he : e ≠ .begins r) :
    Since n begun base r (ls ++ [e]) t := by
  have hok := CounterOk.step h.counterOk hs
  have hcounter := h.counter
  have hcok := h.counterOk
  cases hs with
  | writeLoads hw =>
    rw [hw] at hcounter
    refine h.setWriter rfl hok (by rw [writeCount_snoc]; exact hcounter) fun hcount _ => ?_
    rw [writeCount_snoc] at hcount
    exact ⟨hcount, by rw [hw]; rfl, rfl⟩
  | writeMarks hw =>
    rw [hw] at hcounter hcok
    refine h.setWriter rfl hok ?_ fun _ hcopy => ?_
    · rw [writeCount_snoc, hcok.2, hcounter]
      exact add_ofNat_succ ..
    · cases hcopy
  | writeCopies hw =>
    rw [hw] at hcounter
    refine h.setWriter rfl hok (by rw [writeCount_snoc]; exact hcounter) fun _ hcopy => ?_
    cases hcopy
  | writes hw =>
    rw [hw] at hcounter hcok
    refine h.setWriter rfl hok ?_ fun hcount => ?_
    · rw [writeCount_snoc, ← hcok.1, hcounter]
      exact add_ofNat_succ ..
    · rw [writeCount_snoc] at hcount
      cases hcount
  | calls hr => exact h.setReader rfl fun _ _ _ _ ha => by cases ha
  | begins hr =>
    refine h.setReader rfl fun _ _ _ _ _ heq => ?_
    subst heq
    exact absurd rfl he
  | meetsWrite hr => exact h.setReader rfl fun _ _ _ _ ha => by cases ha
  | readCopies hr =>
    refine h.setReader rfl fun _ _ _ _ ha heq => ?_
    subst heq
    cases ha
    obtain ⟨hb, hdst⟩ := h.reader _ _ _ _ hr
    refine ⟨hb, fun h₀ hrest => ?_⟩
    rw [h.shared h₀ hrest]
    exact (hdst h₀ hrest).put _
  | retries hr => exact h.setReader rfl fun _ _ _ _ ha => by cases ha
  | gives hr => exact h.setReader rfl fun _ _ _ _ ha => by cases ha
  | fails hr => exact h.setReader rfl fun _ _ _ _ ha => by cases ha

theorem isCopying_of_even {sl : BitVec 32} {w : WriteAt} (h : w.CounterOk sl)
    (heven : sl &&& 1 = 0) : w.isCopying = false := by
  cases w with
  | idle => rfl
  | loaded src odd => rfl
  | copying src odd done =>
    obtain ⟨rfl, hodd⟩ := h
    have h₁ := congrArg BitVec.toNat heven
    have h₂ := congrArg BitVec.toNat hodd
    rw [BitVec.toNat_and, show (1 : BitVec 32).toNat = 1 from rfl, Nat.and_one_is_mod] at h₁ h₂
    rw [BitVec.toNat_add] at h₂
    simp only [show (1 : BitVec 32).toNat = 1 from rfl,
      show (0 : BitVec 32).toNat = 0 from rfl] at h₁ h₂
    omega

theorem WriteAt.SharedOk.rest {shared last : Memory} {w : WriteAt} (h : w.SharedOk n shared last)
    (hrest : w.isCopying = false) : ∀ j < n, shared j = last j := by
  cases w with
  | idle => exact h
  | loaded src odd => exact h
  | copying src odd done => cases hrest

theorem Since.begins {u : Seqlock ι} (hok : s.writer.CounterOk s.sl)
    (hb : SeqlockStep n s (.begins r) u) :
    Since n s.sl s.shared r [] u ∧ s.writer.isCopying = false := by
  cases hb with
  | begins hr hi heven =>
    have hrest := isCopying_of_even hok heven
    have hwriter : s.writer.isCopying.toNat = 0 := by rw [hrest]; rfl
    refine ⟨⟨hok, ?_, fun _ _ => rfl, fun copy i maxTries b hcopy => ?_⟩, hrest⟩
    · show s.sl = s.sl + BitVec.ofNat 32 (0 + s.writer.isCopying.toNat)
      rw [hwriter]
      exact (BitVec.add_zero _).symm
    · cases (update_self ..).symm.trans hcopy
      exact ⟨rfl, fun _ _ j _ hdone => absurd hdone Bool.false_ne_true⟩

omit [DecidableEq ι] in
theorem Since.noWrite (h : Since n begun base r ls s) (hsl : s.sl = begun)
    (hfew : writeCount ls < 2 ^ 31) : writeCount ls = 0 ∧ s.writer.isCopying = false := by
  have hmod := congrArg BitVec.toNat (hsl.symm.trans h.counter)
  rw [BitVec.toNat_add, BitVec.toNat_ofNat] at hmod
  cases hw : s.writer.isCopying with
  | false =>
    rw [hw, Bool.toNat_false] at hmod
    exact ⟨by omega, rfl⟩
  | true =>
    rw [hw, Bool.toNat_true] at hmod
    omega

theorem snapshot {dst : Memory} {before during : List (SeqlockEvent ι)}
    (h : Run (SeqlockStep n) (init initial) (before ++ (.begins r :: during) ++ [.gives r dst]) t)
    (hatt : .begins r ∉ during) (hfew : writeCount during < 2 ^ 31) :
    ∀ j < n, dst j = lastPayload initial before j := by
  obtain ⟨w, hw, hgives⟩ := Run.snoc_inv h
  obtain ⟨s, hs, hsw⟩ := Run.append_inv hw
  rw [← singleton_append] at hsw
  obtain ⟨u, hsu, huw⟩ := Run.append_inv hsw
  rw [← nil_append [SeqlockEvent.begins r]] at hsu
  obtain ⟨s', hs', hbegins⟩ := Run.snoc_inv hsu
  cases Run.nil_inv hs'
  obtain ⟨hsince, hrest⟩ := Since.begins (counterOk_of_run hs) hbegins
  have hattempt : Since n s.sl s.shared r during w := by
    refine huw.trace_invariant (fun ls w => SeqlockEvent.begins r ∉ ls →
      Since n s.sl s.shared r ls w) (fun _ => hsince) (fun ls v e v' ih hstep hnot => ?_) hatt
    rw [mem_append, not_or, mem_singleton] at hnot
    exact (ih hnot.1).step hstep (Ne.symm hnot.2)
  cases hgives with
  | gives hr hfin hsl =>
    obtain ⟨rfl, hcopied⟩ := hattempt.reader _ _ _ _ hr
    obtain ⟨h₀, hquiet⟩ := hattempt.noWrite hsl hfew
    intro j hj
    rw [hcopied h₀ hquiet j hj (hfin j hj)]
    exact (sharedOk_of_run hs).rest hrest j hj

omit [DecidableEq ι] in
theorem getElem?_payloads (initial : Memory) (before rest : List (SeqlockEvent ι)) :
    (payloads initial (before ++ rest))[writeCount before]? =
      some (lastPayload initial before) := by
  unfold payloads writeCount lastPayload
  rw [filterMap_append]
  generalize before.filterMap SeqlockEvent.written = l
  cases l using List.reverseRecOn with
  | nil => rfl
  | append_singleton l a => simp

omit [DecidableEq ι] in
theorem writeCount_append (ls ls' : List (SeqlockEvent ι)) :
    writeCount (ls ++ ls') = writeCount ls + writeCount ls' := by
  unfold writeCount
  rw [filterMap_append, length_append]

variable {i g : Nat} {dst : Memory}

def ReadIn.during (ls : List (SeqlockEvent ι)) (i g : Nat) : List (SeqlockEvent ι) :=
  (ls.drop (i + 1)).take (g - (i + 1))

theorem ReadIn.take_eq (h : ReadIn ls r i g dst) :
    ls.take g = ls.take i ++ (.begins r :: during ls i g) := by
  have hg : g = i + 1 + (g - (i + 1)) := by
    have := h.lt
    omega
  have hsplit : ls.take g = ls.take (i + 1) ++ during ls i g := by
    rw [during, ← take_add, ← hg]
  rw [hsplit, take_add_one, h.begins, Option.toList_some, append_assoc, singleton_append]

theorem ReadIn.split (h : ReadIn ls r i g dst) :
    ls = ls.take i ++ (.begins r :: during ls i g) ++ [.gives r dst] ++ ls.drop (g + 1) := by
  rw [← h.take_eq]
  calc ls = ls.take (g + 1) ++ ls.drop (g + 1) := (take_append_drop ..).symm
    _ = ls.take g ++ [.gives r dst] ++ ls.drop (g + 1) := by
      rw [take_add_one, h.gives, Option.toList_some]

theorem ReadIn.begins_not_mem (h : ReadIn ls r i g dst) : .begins r ∉ during ls i g := by
  intro hmem
  obtain ⟨k, hk⟩ := mem_iff_getElem?.mp hmem
  rw [during, List.getElem?_take] at hk
  split at hk
  · next hlt =>
    rw [List.getElem?_drop] at hk
    have hbound := h.attempt (i + 1 + k) _ (by omega) (by omega) hk
    simp [SeqlockEvent.boundsAttempt] at hbound
  · cases hk

theorem ReadIn.writeCount_lt (h : ReadIn ls r i g dst) : writeCount (during ls i g) < 2 ^ 31 := by
  have hfew := h.few
  have hcons : writeCount (SeqlockEvent.begins r :: during ls i g) = writeCount (during ls i g) :=
    rfl
  rw [h.take_eq, writeCount_append, hcons] at hfew
  omega

theorem ReadIn.lt_begins {i' g' : Nat} {dst' : Memory} (h : ReadIn ls r i g dst)
    (h' : ReadIn ls r i' g' dst') (hlt : g < g') : i < i' := by
  by_contra hle
  have := h.lt
  have hbound := h'.attempt g _ (by omega) hlt h.gives
  simp [SeqlockEvent.boundsAttempt] at hbound

/-- Every successful read gives the payload of the write that was the last one completed when its
attempt began, and the reads of a reader never go back. -/
theorem seqlock_snapshots (n : Nat) (initial : Memory) (ls : List (SeqlockEvent ι)) (t : Seqlock ι)
    (hrun : Run (SeqlockStep n) (init initial) ls t) :
    (∀ r i g dst, ReadIn ls r i g dst →
      ∃ w, (payloads initial ls)[writeCount (ls.take i)]? = some w ∧ ∀ j < n, dst j = w j) ∧
    ∀ r i g dst i' g' dst', ReadIn ls r i g dst → ReadIn ls r i' g' dst' → g < g' →
      writeCount (ls.take i) ≤ writeCount (ls.take i') := by
  constructor
  · intro r i g dst h
    refine ⟨lastPayload initial (ls.take i), ?_, ?_⟩
    · have hall := getElem?_payloads initial (ls.take i) (ls.drop i)
      rwa [take_append_drop] at hall
    · rw [h.split] at hrun
      obtain ⟨u, hu, -⟩ := Run.append_inv hrun
      exact snapshot hu h.begins_not_mem h.writeCount_lt
  · intro r i g dst i' g' dst' h h' hlt
    have hle : i ≤ i' := Nat.le_of_lt (h.lt_begins h' hlt)
    have hsplit : ls.take i' = ls.take i ++ (ls.drop i).take (i' - i) := by
      rw [← take_add, Nat.add_sub_cancel' hle]
    rw [hsplit, writeCount_append]
    exact Nat.le_add_right _ _

def byteCopy : Copy := (Copy.start fun _ => 0).put 0 5

def writeThenRead : List (SeqlockEvent Unit) :=
  [.writeLoads fun _ => 5, .writeMarks, .writeCopies 0, .writes fun _ => 5,
    .calls () 1, .begins (), .readCopies () 0, .gives () byteCopy.dst]

def written5 (a : ReadAt) : Seqlock Unit where
  sl := 2
  shared := update (fun _ => 0) 0 5
  writer := .idle
  readers := update (fun _ => .idle) () a

theorem run_writeThenRead :
    Run (SeqlockStep 1) (init fun _ => 0) writeThenRead (written5 .idle) := by
  have hall : ∀ j < 1, update (fun _ => false) 0 true j := by decide
  have hread : SeqlockStep 1 (written5 (.copying byteCopy 0 1 2)) (.gives () byteCopy.dst)
      (written5 .idle) := .gives rfl hall rfl
  have hcopy : SeqlockStep 1 (written5 (.copying (.start fun _ => 0) 0 1 2)) (.readCopies () 0)
      (written5 (.copying byteCopy 0 1 2)) := .readCopies rfl (by decide) rfl
  have hbegin : SeqlockStep 1 (written5 (.trying (fun _ => 0) 0 1)) (.begins ())
      (written5 (.copying (.start fun _ => 0) 0 1 2)) := .begins rfl (by decide) rfl
  have hcall : SeqlockStep 1 (written5 .idle) (.calls () 1) (written5 (.trying (fun _ => 0) 0 1)) :=
    .calls rfl
  refine .cons (.writeLoads rfl) (.cons (.writeMarks rfl) (.cons (.writeCopies rfl (by decide) rfl)
    (.cons (.writes rfl hall) ?_)))
  exact .cons hcall (.cons hbegin (.cons hcopy (.cons hread .nil)))

theorem readIn_writeThenRead : ReadIn writeThenRead () 5 7 byteCopy.dst := by
  refine ⟨rfl, rfl, by decide, fun m e hm hm' he => ?_, by decide⟩
  obtain rfl : m = 6 := by omega
  cases he
  rfl

theorem seqlock_snapshots_writeThenRead :
    ∃ w, (payloads (fun _ => 0) writeThenRead)[1]? = some w ∧ w 0 = 5 := by
  obtain ⟨w, hw, hdst⟩ :=
    (seqlock_snapshots 1 _ _ _ run_writeThenRead).1 _ _ _ _ readIn_writeThenRead
  exact ⟨w, hw, (hdst 0 (by decide)).symm⟩

end OpenAir.Ds

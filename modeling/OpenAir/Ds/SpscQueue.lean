import OpenAir.Lib.Memory
import OpenAir.Lib.RingView
import OpenAir.Lib.Run

/-! The single-producer single-consumer queue, one atomic step at a time.  Elements are copied and
tested byte by byte. -/

namespace OpenAir.Ds

open Function List

structure SpscSize where
  capacity : BitVec 64
  elsiz : Nat

def SpscSize.cnt (c : SpscSize) : Nat := (c.capacity + 1).toNat

theorem SpscSize.cnt_sub_one (c : SpscSize) (h : c.cnt ≠ 0) : c.cnt - 1 = c.capacity.toNat := by
  have hcnt : c.cnt = (c.capacity.toNat + 1) % 2 ^ 64 := BitVec.toNat_add c.capacity 1
  omega

abbrev Pred (υ : Type) := List Byte → υ → Bool × υ

def Pred.always {υ : Type} : Pred υ := fun _ user => (true, user)

inductive GetMode
  /-- `spsc_q_get` and `spsc_q_get_if` -/
  | once
  /-- `spsc_q_get_while` -/
  | getWhile (count max : Nat)
  /-- `spsc_q_drop_while` -/
  | dropWhile (dropped : Nat)

structure GetCall (υ : Type) where
  mode : GetMode
  pred : Pred υ
  user : υ
  dest : Bool

def GetMode.goesOn : GetMode → Bool
  | .once => true
  | .getWhile count max => count < max
  | .dropWhile _ => true

inductive PutAt
  | idle
  /-- `write_idx` is loaded. -/
  | loadedWrite (src : List Byte) (w : Nat)
  /-- There was room, and `j` bytes are copied. -/
  | copying (src : List Byte) (w j : Nat)

inductive GetAt (υ : Type)
  | idle
  /-- About to call `spsc_q_get_if`. -/
  | start (call : GetCall υ)
  /-- `write_idx` is loaded. -/
  | loadedWrite (call : GetCall υ) (w : Nat)
  /-- `read_idx` is loaded, and differs. -/
  | loadedRead (call : GetCall υ) (r : Nat)
  /-- The predicate looks at the element in place `pos`, and has read the bytes `seen`. -/
  | testing (call : GetCall υ) (r pos : Nat) (seen : List Byte)
  /-- The predicate holds, and the bytes `copied` are in `dest`. -/
  | copying (call : GetCall υ) (r pos : Nat) (copied : List Byte)
  /-- About to store `read_idx`, having taken `x`. -/
  | storing (call : GetCall υ) (r : Nat) (x : List Byte)

structure SpscQ (υ : Type) where
  buf : Memory
  writeIdx : Nat
  readIdx : Nat
  producer : PutAt
  consumer : GetAt υ

inductive SpscEvent
  | putLoads (src : List Byte)
  | putFails
  | putReserves
  | putCopies
  | put (x : List Byte)
  | calls
  | returns
  | getLoads
  | getFails
  | getReads
  | getPlaces
  | getTests
  | rejects (x : List Byte)
  | accepts
  | getCopies
  | copied
  | removes (x : List Byte)

def SpscEvent.ofProducer : SpscEvent → Bool
  | .putLoads _ | .putFails | .putReserves | .putCopies | .put _ => true
  | _ => false

variable {υ : Type}

/-- `spsc_q_alloc`, with the buffer cleared. -/
def SpscQ.alloc : SpscQ υ :=
  { buf := fun _ => 0, writeIdx := 0, readIdx := 0, producer := .idle, consumer := .idle }

def GetCall.next (call : GetCall υ) : GetAt υ :=
  match call.mode with
  | .once => .idle
  | .getWhile count max => .start { call with mode := .getWhile (count + 1) max }
  | .dropWhile dropped => .start { call with mode := .dropWhile (dropped + 1) }

/-- One step.  With `cnt` 0 the division of `spsc_q_put` traps. -/
inductive SpscStep (c : SpscSize) : SpscQ υ → SpscEvent → SpscQ υ → Prop
  | putLoads : q.producer = .idle → src.length = c.elsiz →
      SpscStep c q (.putLoads src) { q with producer := .loadedWrite src q.writeIdx }
  | putFails : q.producer = .loadedWrite src w → c.cnt ≠ 0 → (w + 1) % c.cnt = q.readIdx →
      SpscStep c q .putFails { q with producer := .idle }
  | putReserves : q.producer = .loadedWrite src w → c.cnt ≠ 0 → (w + 1) % c.cnt ≠ q.readIdx →
      SpscStep c q .putReserves { q with producer := .copying src w 0 }
  | putCopies : q.producer = .copying src w j → src[j]? = some b →
      SpscStep c q .putCopies { q with
        buf := update q.buf (w * c.elsiz + j) b
        producer := .copying src w (j + 1) }
  | put : q.producer = .copying src w c.elsiz →
      SpscStep c q (.put src) { q with writeIdx := (w + 1) % c.cnt, producer := .idle }
  | calls : q.consumer = .idle → SpscStep c q .calls { q with consumer := .start call }
  | returns : q.consumer = .start call → call.mode.goesOn = false →
      SpscStep c q .returns { q with consumer := .idle }
  | getLoads : q.consumer = .start call → call.mode.goesOn = true →
      SpscStep c q .getLoads { q with consumer := .loadedWrite call q.writeIdx }
  | getFails : q.consumer = .loadedWrite call w → w = q.readIdx →
      SpscStep c q .getFails { q with consumer := .idle }
  | getReads : q.consumer = .loadedWrite call w → w ≠ q.readIdx →
      SpscStep c q .getReads { q with consumer := .loadedRead call q.readIdx }
  | getPlaces : q.consumer = .loadedRead call r →
      SpscStep c q .getPlaces { q with consumer := .testing call r q.readIdx [] }
  | getTests : q.consumer = .testing call r pos seen → seen.length < c.elsiz →
      SpscStep c q .getTests { q with
        consumer := .testing call r pos (seen ++ [q.buf (pos * c.elsiz + seen.length)]) }
  | rejects : q.consumer = .testing call r pos seen → seen.length = c.elsiz →
      (call.pred seen call.user).1 = false →
      SpscStep c q (.rejects seen) { q with consumer := .idle }
  | accepts : q.consumer = .testing call r pos seen → seen.length = c.elsiz →
      call.pred seen call.user = (true, user) →
      SpscStep c q .accepts { q with
        consumer := if call.dest then .copying { call with user } r pos []
          else .storing { call with user } r seen }
  | getCopies : q.consumer = .copying call r pos x → x.length < c.elsiz →
      SpscStep c q .getCopies { q with
        consumer := .copying call r pos (x ++ [q.buf (pos * c.elsiz + x.length)]) }
  | copied : q.consumer = .copying call r pos x → x.length = c.elsiz →
      SpscStep c q .copied { q with consumer := .storing call r x }
  | removes : q.consumer = .storing call r x →
      SpscStep c q (.removes x) { q with readIdx := (r + 1) % c.cnt, consumer := call.next }

variable {c : SpscSize} {q q' : SpscQ υ}

namespace SpscQ

def element (c : SpscSize) (q : SpscQ υ) (i : Nat) : List Byte := q.buf.read (i * c.elsiz) c.elsiz

def contents (c : SpscSize) (q : SpscQ υ) : List (List Byte) :=
  Ring.view (q.element c) c.cnt q.readIdx q.writeIdx

end SpscQ

section states

variable (c : SpscSize) (buf : Memory) (readIdx writeIdx : Nat)

def PutAt.Ok : PutAt → Prop
  | .idle => True
  | .loadedWrite src w => src.length = c.elsiz ∧ w = writeIdx
  | .copying src w j => src.length = c.elsiz ∧ w = writeIdx ∧ c.cnt ≠ 0 ∧
      (w + 1) % c.cnt ≠ readIdx ∧ buf.read (w * c.elsiz) j = src.take j

structure Reads (r pos : Nat) (x : List Byte) : Prop where
  index : r = readIdx
  place : pos = readIdx
  nonempty : readIdx ≠ writeIdx
  length_le : x.length ≤ c.elsiz
  read : buf.read (pos * c.elsiz) x.length = x

def GetAt.Ok : GetAt υ → Prop
  | .idle => True
  | .start _ => True
  | .loadedWrite _ w => w ≠ readIdx → readIdx ≠ writeIdx
  | .loadedRead _ r => r = readIdx ∧ readIdx ≠ writeIdx
  | .testing _ r pos seen => Reads c buf readIdx writeIdx r pos seen
  | .copying _ r pos x => Reads c buf readIdx writeIdx r pos x
  | .storing _ r x => Reads c buf readIdx writeIdx r readIdx x ∧ x.length = c.elsiz

end states

variable {buf : Memory} {readIdx writeIdx r pos w j : Nat} {src x : List Byte} {b : Byte}

theorem Reads.snoc (h : Reads c buf readIdx writeIdx r pos x) (hlt : x.length < c.elsiz) :
    Reads c buf readIdx writeIdx r pos (x ++ [buf (pos * c.elsiz + x.length)]) := by
  refine ⟨h.index, h.place, h.nonempty, ?_, ?_⟩
  · rw [length_append, length_singleton]
    exact hlt
  · rw [length_append, length_singleton, Memory.read_succ, h.read]

theorem Reads.copy (h : Reads c buf readIdx writeIdx r pos x) (hj : j < c.elsiz) :
    Reads c (update buf (writeIdx * c.elsiz + j) b) readIdx writeIdx r pos x :=
  ⟨h.index, h.place, h.nonempty, h.length_le, by
    rw [h.place, Memory.read_update_cell h.nonempty.symm h.length_le hj, ← h.place, h.read]⟩

theorem Reads.put (h : Reads c buf readIdx writeIdx r pos x) (hne : readIdx ≠ w) :
    Reads c buf readIdx w r pos x := ⟨h.index, h.place, hne, h.length_le, h.read⟩

theorem GetAt.Ok.copy {a : GetAt υ} (h : a.Ok c buf readIdx writeIdx) (hj : j < c.elsiz) :
    a.Ok c (update buf (writeIdx * c.elsiz + j) b) readIdx writeIdx := by
  cases a with
  | idle => trivial
  | start => trivial
  | loadedWrite => exact h
  | loadedRead => exact h
  | testing => exact Reads.copy h hj
  | copying => exact Reads.copy h hj
  | storing => exact ⟨Reads.copy h.1 hj, h.2⟩

theorem GetAt.Ok.put {a : GetAt υ} (h : a.Ok c buf readIdx writeIdx) (hne : readIdx ≠ w) :
    a.Ok c buf readIdx w := by
  cases a with
  | idle => trivial
  | start => trivial
  | loadedWrite => exact fun _ => hne
  | loadedRead => exact ⟨h.1, hne⟩
  | testing => exact Reads.put h hne
  | copying => exact Reads.put h hne
  | storing => exact ⟨Reads.put h.1 hne, h.2⟩

theorem PutAt.Ok.removes {a : PutAt} (h : a.Ok c buf readIdx writeIdx) (hne : readIdx ≠ writeIdx)
    (hr : readIdx < c.cnt) (hw : writeIdx < c.cnt) :
    a.Ok c buf ((readIdx + 1) % c.cnt) writeIdx := by
  cases a with
  | idle => trivial
  | loadedWrite => exact h
  | copying src w j =>
    obtain ⟨hlen, rfl, hcnt, -, hread⟩ := h
    refine ⟨hlen, rfl, hcnt, fun heq => hne ?_, hread⟩
    rcases Nat.lt_or_ge (w + 1) c.cnt with hlt | hge <;>
      rcases Nat.lt_or_ge (readIdx + 1) c.cnt with hlt' | hge'
    · rw [Nat.mod_eq_of_lt hlt, Nat.mod_eq_of_lt hlt'] at heq
      omega
    · rw [Nat.mod_eq_of_lt hlt, show readIdx + 1 = c.cnt by omega, Nat.mod_self] at heq
      omega
    · rw [Nat.mod_eq_of_lt hlt', show w + 1 = c.cnt by omega, Nat.mod_self] at heq
      omega
    · omega

namespace SpscQ

structure Wf (c : SpscSize) (q : SpscQ υ) : Prop where
  lt : c.cnt ≠ 0 → q.readIdx < c.cnt ∧ q.writeIdx < c.cnt
  trap : c.cnt = 0 → q.readIdx = q.writeIdx
  producer : q.producer.Ok c q.buf q.readIdx q.writeIdx
  consumer : q.consumer.Ok c q.buf q.readIdx q.writeIdx

theorem alloc_wf : (alloc : SpscQ υ).Wf c :=
  ⟨fun h => ⟨Nat.pos_of_ne_zero h, Nat.pos_of_ne_zero h⟩, fun _ => rfl, trivial, trivial⟩

theorem Wf.lt_of_ne (h : q.Wf c) (hne : q.readIdx ≠ q.writeIdx) :
    c.cnt ≠ 0 ∧ q.readIdx < c.cnt ∧ q.writeIdx < c.cnt :=
  have hcnt : c.cnt ≠ 0 := fun h₀ => hne (h.trap h₀)
  ⟨hcnt, h.lt hcnt⟩

theorem contents_eq_cons (h : q.Wf c) (hne : q.readIdx ≠ q.writeIdx) : q.contents c =
    q.element c q.readIdx :: Ring.view (q.element c) c.cnt ((q.readIdx + 1) % c.cnt)
      q.writeIdx := by
  obtain ⟨-, hr, hw⟩ := h.lt_of_ne hne
  exact Ring.view_pop hr hw hne

def Moves (q q' : List (List Byte)) : SpscEvent → Prop
  | .put x => q' = q ++ [x]
  | .removes x => q = x :: q'
  | _ => q' = q

theorem Wf.step {l : SpscEvent} (h : q.Wf c) (hs : SpscStep c q l q') :
    q'.Wf c ∧ Moves (q.contents c) (q'.contents c) l := by
  have hp := h.producer
  have hc := h.consumer
  cases hs with
  | putLoads _ hsrc => exact ⟨⟨h.lt, h.trap, ⟨hsrc, rfl⟩, hc⟩, rfl⟩
  | putFails => exact ⟨⟨h.lt, h.trap, trivial, hc⟩, rfl⟩
  | putReserves ha hcnt hroom =>
    rw [ha] at hp
    exact ⟨⟨h.lt, h.trap, ⟨hp.1, hp.2, hcnt, hroom, rfl⟩, hc⟩, rfl⟩
  | putCopies ha hb =>
    rw [ha] at hp
    obtain ⟨hlen, rfl, hcnt, hroom, hread⟩ := hp
    obtain ⟨hr, hw⟩ := h.lt hcnt
    have hj := hlen ▸ (List.getElem?_eq_some_iff.mp hb).1
    refine ⟨⟨h.lt, h.trap, ⟨hlen, rfl, hcnt, hroom, Memory.read_copy hread hb⟩, hc.copy hj⟩, ?_⟩
    exact Ring.view_congr hr hw fun i hi => Memory.read_update_cell (Ne.symm hi) le_rfl hj
  | put ha =>
    rw [ha] at hp
    obtain ⟨hlen, rfl, hcnt, hroom, hread⟩ := hp
    obtain ⟨hr, hw⟩ := h.lt hcnt
    rw [← hlen, take_length, hlen] at hread
    refine ⟨⟨fun _ => ⟨hr, Nat.mod_lt _ (Nat.pos_of_ne_zero hcnt)⟩, fun h₀ => absurd h₀ hcnt,
      trivial, hc.put hroom.symm⟩, ?_⟩
    refine (Ring.view_push hr hw hroom).trans ?_
    rw [element, hread]
    rfl
  | calls => exact ⟨⟨h.lt, h.trap, hp, trivial⟩, rfl⟩
  | returns => exact ⟨⟨h.lt, h.trap, hp, trivial⟩, rfl⟩
  | getLoads => exact ⟨⟨h.lt, h.trap, hp, fun hne => hne.symm⟩, rfl⟩
  | getFails => exact ⟨⟨h.lt, h.trap, hp, trivial⟩, rfl⟩
  | getReads ha hne =>
    rw [ha] at hc
    exact ⟨⟨h.lt, h.trap, hp, rfl, hc hne⟩, rfl⟩
  | getPlaces ha =>
    rw [ha] at hc
    exact ⟨⟨h.lt, h.trap, hp, hc.1, rfl, hc.2, Nat.zero_le _, rfl⟩, rfl⟩
  | getTests ha hlt =>
    rw [ha] at hc
    exact ⟨⟨h.lt, h.trap, hp, Reads.snoc hc hlt⟩, rfl⟩
  | rejects => exact ⟨⟨h.lt, h.trap, hp, trivial⟩, rfl⟩
  | accepts ha hlen hpred =>
    rw [ha] at hc
    refine ⟨⟨h.lt, h.trap, hp, ?_⟩, rfl⟩
    dsimp only
    split
    · exact ⟨hc.index, hc.place, hc.nonempty, Nat.zero_le _, rfl⟩
    · exact ⟨⟨hc.index, rfl, hc.nonempty, hc.length_le, hc.place ▸ hc.read⟩, hlen⟩
  | getCopies ha hlt =>
    rw [ha] at hc
    exact ⟨⟨h.lt, h.trap, hp, Reads.snoc hc hlt⟩, rfl⟩
  | copied ha hlen =>
    rw [ha] at hc
    exact ⟨⟨h.lt, h.trap, hp, ⟨hc.index, rfl, hc.nonempty, hc.length_le, hc.place ▸ hc.read⟩, hlen⟩,
      rfl⟩
  | @removes q call r x ha =>
    rw [ha] at hc
    obtain ⟨⟨rfl, -, hne, -, hread⟩, hlen⟩ := hc
    obtain ⟨hcnt, hr, hw⟩ := h.lt_of_ne hne
    refine ⟨⟨fun _ => ⟨Nat.mod_lt _ (Nat.pos_of_ne_zero hcnt), hw⟩, fun h₀ => absurd h₀ hcnt,
      hp.removes hne hr hw, ?_⟩, ?_⟩
    · dsimp only
      unfold GetCall.next
      split <;> trivial
    · rw [hlen] at hread
      refine (contents_eq_cons h hne).trans ?_
      rw [element, hread]
      rfl

end SpscQ

def puts (ls : List SpscEvent) : List (List Byte) :=
  ls.filterMap fun | .put x => some x | _ => none

def removals (ls : List SpscEvent) : List (List Byte) :=
  ls.filterMap fun | .removes x => some x | _ => none

variable {ls : List SpscEvent}

theorem SpscQ.run_wf (h : Run (SpscStep c) (.alloc : SpscQ υ) ls q) :
    q.Wf c ∧ puts ls = removals ls ++ q.contents c := by
  have h₀ : (alloc : SpscQ υ).contents c = [] := Ring.view_self
  refine Run.trace_invariant (fun (ls : List SpscEvent) (q : SpscQ υ) => q.Wf c ∧
    puts ls = removals ls ++ q.contents c) ⟨alloc_wf, h₀.symm⟩ ?_ h
  rintro ls s l t ⟨hwf, heq⟩ hs
  obtain ⟨hwf', hmoves⟩ := hwf.step hs
  refine ⟨hwf', ?_⟩
  rw [puts, removals, filterMap_append, filterMap_append]
  change puts ls ++ _ = (removals ls ++ _) ++ _
  rw [heq]
  cases l <;> simp_all [Moves]

theorem SpscQ.empty_of_loaded (h : Run (SpscStep c) (.alloc : SpscQ υ) ls q) {call : GetCall υ}
    (hload : q.consumer = .loadedWrite call q.readIdx) :
    ∃ ls₁ q₁ ls₂, ls = ls₁ ++ .getLoads :: ls₂ ∧ (∀ l ∈ ls₂, l.ofProducer) ∧
      Run (SpscStep c) (.alloc : SpscQ υ) ls₁ q₁ ∧ q₁.contents c = [] := by
  induction h with
  | nil => cases hload
  | @snoc ls q l q' h hs ih =>
    -- the producer leaves the consumer and its index alone
    have hkeep (hl : l.ofProducer) (hc : q'.consumer = q.consumer)
        (hr : q'.readIdx = q.readIdx) : ∃ ls₁ q₁ ls₂, ls ++ [l] = ls₁ ++ .getLoads :: ls₂ ∧
          (∀ l ∈ ls₂, l.ofProducer) ∧ Run (SpscStep c) (.alloc : SpscQ υ) ls₁ q₁ ∧
          q₁.contents c = [] := by
      rw [hc, hr] at hload
      obtain ⟨ls₁, q₁, ls₂, rfl, hprod, h₁, hnil⟩ := ih hload
      refine ⟨ls₁, q₁, ls₂ ++ [l], by simp, fun l' hl' => ?_, h₁, hnil⟩
      rcases mem_append.mp hl' with hl' | hl'
      · exact hprod l' hl'
      · rwa [mem_singleton.mp hl']
    cases hs with
    | putLoads => exact hkeep rfl rfl rfl
    | putFails => exact hkeep rfl rfl rfl
    | putReserves => exact hkeep rfl rfl rfl
    | putCopies => exact hkeep rfl rfl rfl
    | put => exact hkeep rfl rfl rfl
    | getLoads =>
      injection hload with _ heq
      refine ⟨ls, q, [], rfl, fun l hl => absurd hl not_mem_nil, h, ?_⟩
      rw [contents, heq]
      exact Ring.view_self
    | accepts =>
      dsimp only at hload
      split at hload <;> cases hload
    | removes =>
      dsimp only [GetCall.next] at hload
      split at hload <;> cases hload
    | calls | returns | getFails | getReads | getPlaces | getTests | rejects | getCopies | copied =>
      cases hload

/-- In every interleaving the elements removed are a prefix of the elements put, whole and in order;
a put fails only when the queue is full; a get fails only when the queue was empty in its first
step, or when the predicate rejects the head, which stays. -/
theorem spsc_q_fifo (h : Run (SpscStep c) (.alloc : SpscQ υ) ls q) :
    puts ls = removals ls ++ q.contents c ∧
    (∀ q', SpscStep c q .putFails q' → (q.contents c).length = c.capacity.toNat) ∧
    (∀ q', SpscStep c q .getFails q' → ∃ ls₁ q₁ ls₂, ls = ls₁ ++ .getLoads :: ls₂ ∧
      (∀ l ∈ ls₂, l.ofProducer = true) ∧ Run (SpscStep c) (.alloc : SpscQ υ) ls₁ q₁ ∧
      q₁.contents c = []) ∧
    ∀ x q', SpscStep c q (.rejects x) q' →
      (q.contents c).head? = some x ∧ q'.contents c = q.contents c := by
  obtain ⟨hwf, hputs⟩ := SpscQ.run_wf h
  refine ⟨hputs, fun q' hs => ?_, fun q' hs => ?_, fun x q' hs => ⟨?_, (hwf.step hs).2⟩⟩
  · cases hs with
    | putFails ha hcnt hfull =>
      have hp := hwf.producer
      rw [ha] at hp
      obtain ⟨-, rfl⟩ := hp
      obtain ⟨hr, hw⟩ := hwf.lt hcnt
      rw [SpscQ.contents, Ring.length_view_of_full hr hw hfull]
      exact c.cnt_sub_one hcnt
  · cases hs with
    | getFails ha heq => exact SpscQ.empty_of_loaded h (heq ▸ ha)
  · cases hs with
    | rejects ha hlen hpred =>
      have hc := hwf.consumer
      rw [ha] at hc
      have hread := hc.read
      rw [hlen, hc.place] at hread
      rw [SpscQ.contents_eq_cons hwf hc.nonempty, SpscQ.element, hread, List.head?_cons]

theorem spsc_q_fifo_full : ∃ (c : SpscSize) (q : SpscQ Unit) (ls : List SpscEvent),
    Run (SpscStep c) .alloc ls q ∧ puts ls = [[7]] ∧ removals ls = [] ∧
      (∃ q', SpscStep c q .putFails q') ∧ (q.contents c).length = 1 := by
  have h₁ : Run (SpscStep ⟨1, 1⟩) (.alloc : SpscQ Unit) [.calls, .putLoads [7], .putReserves] _ :=
    .cons (@SpscStep.calls Unit _ .alloc ⟨.once, .always, (), true⟩ rfl)
      (.cons (.putLoads rfl rfl) (.cons (.putReserves rfl (by decide) (by decide)) .nil))
  have h₂ : Run _ _ (_ ++ [SpscEvent.putCopies, .put [7]]) _ :=
    h₁.append (.cons (.putCopies rfl rfl) (.cons (.put rfl) .nil))
  have h₃ : Run _ _ (_ ++ [SpscEvent.getLoads, .getReads, .getPlaces, .getTests]) _ :=
    h₂.append (.cons (.getLoads rfl rfl) (.cons (.getReads rfl (by decide))
      (.cons (.getPlaces rfl) (.cons (.getTests rfl (by decide)) .nil))))
  have h : Run _ _ (_ ++ [SpscEvent.putLoads [8]]) _ := h₃.snoc (.putLoads rfl rfl)
  exact ⟨_, _, _, h, rfl, rfl, ⟨_, .putFails rfl (by decide) rfl⟩,
    (spsc_q_fifo h).2.1 _ (.putFails rfl (by decide) rfl)⟩

end OpenAir.Ds

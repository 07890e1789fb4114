import OpenAir.Lib.RingDeque

/-! The queue of `queue_t.c`: a circular array of pointers with operations at both ends, against
a bounded deque. A call returns `none` when an assertion of it fails. -/

namespace OpenAir.Ds

open Function List

variable {α : Type*}

def maxQueueSize : Nat := 512

structure Queue (α : Type*) where
  items : Nat → Option α
  readIndex : Nat
  writeIndex : Nat
  numItems : Nat

def initQueue : Queue α := ⟨fun _ => none, 0, 0, 0⟩

namespace Queue

def takeRead (q : Queue α) : Option (α × Queue α) :=
  (q.items q.readIndex).map fun item =>
    (item, { q with
      items := update q.items q.readIndex none
      readIndex := (q.readIndex + 1) % maxQueueSize
      numItems := q.numItems - 1 })

def storeWrite (q : Queue α) (item : α) : Option (Queue α) :=
  if (q.items q.writeIndex).isNone then
    some { q with
      items := update q.items q.writeIndex (some item)
      writeIndex := (q.writeIndex + 1) % maxQueueSize
      numItems := q.numItems + 1 }
  else none

def putQueueReplace (q : Queue α) (item : α) : Option (Option α × Queue α) :=
  if maxQueueSize ≤ q.numItems then do
    let evicted ← q.takeRead
    let q ← evicted.2.storeWrite item
    return (some evicted.1, q)
  else do
    let q ← q.storeWrite item
    return (none, q)

def putQueue (q : Queue α) (item : α) : Option (Bool × Queue α) :=
  if maxQueueSize ≤ q.numItems then some (false, q)
  else do
    let q ← q.storeWrite item
    return (true, q)

def getQueue (q : Queue α) : Option (Option α × Queue α) :=
  if 0 < q.numItems then do
    let item ← q.takeRead
    return (some item.1, item.2)
  else some (none, q)

def requeue (q : Queue α) (item : α) : Option (Bool × Queue α) :=
  if maxQueueSize ≤ q.numItems then some (false, q)
  else
    let readIndex := (q.readIndex + maxQueueSize - 1) % maxQueueSize
    if (q.items readIndex).isNone then
      some (true, { q with
        items := update q.items readIndex (some item)
        readIndex := readIndex
        numItems := q.numItems + 1 })
    else none

def unqueue (q : Queue α) : Option α × Queue α :=
  if 0 < q.numItems then
    let writeIndex := (q.writeIndex + maxQueueSize - 1) % maxQueueSize
    (q.items writeIndex, { q with
      items := update q.items writeIndex none
      writeIndex := writeIndex
      numItems := q.numItems - 1 })
  else (none, q)

def searchMatching (q : Queue α) (matcher : Option α → Bool) : Nat → Nat → Nat → Option Nat
  | 0, _, _ => none
  | _ + 1, 0, _ => none
  | rounds + 1, maxDepth + 1, endi =>
    let endi := (endi + maxQueueSize - 1) % maxQueueSize
    if matcher (q.items endi) then some endi else q.searchMatching matcher rounds maxDepth endi

def moveDown : Nat → Queue α → Nat → Option (Queue α)
  | 0, _, _ => none
  | fuel + 1, q, endi =>
    let j := (endi + 1) % maxQueueSize
    if j = q.writeIndex then
      some { q with
        items := update q.items endi none
        writeIndex := endi
        numItems := q.numItems - 1 }
    else moveDown fuel { q with items := update q.items endi (q.items j) } j

/-- `matcher` is the source's one with its first argument `wanted` given. -/
def unqueueMatching (q : Queue α) (maxDepth : Nat) (matcher : Option α → Bool) :
    Option (Option α × Queue α) :=
  match q.searchMatching matcher q.numItems maxDepth q.writeIndex with
  | none => some (none, q)
  | some endi => do
    let q' ← moveDown maxQueueSize q endi
    return (q.items endi, q')

end Queue

inductive QueueOp (α : Type*) where
  | putQueue (item : α)
  | putQueueReplace (item : α)
  | getQueue
  | requeue (item : α)
  | unqueue
  | unqueueMatching (maxDepth : Nat) (matcher : Option α → Bool)

inductive QueueAnswer (α : Type*) where
  | queued (b : Bool)
  | item (x : Option α)

def Queue.exec (q : Queue α) : QueueOp α → Option (QueueAnswer α × Queue α)
  | .putQueue a => (q.putQueue a).map (Prod.map .queued id)
  | .putQueueReplace a => (q.putQueueReplace a).map (Prod.map .item id)
  | .getQueue => q.getQueue.map (Prod.map .item id)
  | .requeue a => (q.requeue a).map (Prod.map .queued id)
  | .unqueue => some (Prod.map .item id q.unqueue)
  | .unqueueMatching d m => (q.unqueueMatching d m).map (Prod.map .item id)

def Queue.execAll (q : Queue α) : List (QueueOp α) → Option (List (QueueAnswer α) × Queue α)
  | [] => some ([], q)
  | op :: ops => do
    let r ← q.exec op
    let rs ← r.2.execAll ops
    return (r.1 :: rs.1, rs.2)

namespace BoundedDeque

def deleteMatching (l : List α) (d : Nat) (p : α → Bool) : Option α × List α :=
  match (l.reverse.take d).findIdx? p with
  | none => (none, l)
  | some i => (l[l.length - 1 - i]?, l.eraseIdx (l.length - 1 - i))

def exec (l : List α) : QueueOp α → QueueAnswer α × List α
  | .putQueue a => if l.length < maxQueueSize then (.queued true, l ++ [a]) else (.queued false, l)
  | .putQueueReplace a =>
    if l.length < maxQueueSize then (.item none, l ++ [a]) else (.item l.head?, l.tail ++ [a])
  | .getQueue => (.item l.head?, l.tail)
  | .requeue a => if l.length < maxQueueSize then (.queued true, a :: l) else (.queued false, l)
  | .unqueue => (.item l.getLast?, l.dropLast)
  | .unqueueMatching d m => Prod.map .item id (deleteMatching l d fun a => m (some a))

def execAll (l : List α) : List (QueueOp α) → List (QueueAnswer α) × List α
  | [] => ([], l)
  | op :: ops =>
    ((exec l op).1 :: (execAll (exec l op).2 ops).1, (execAll (exec l op).2 ops).2)

end BoundedDeque

structure Queue.Holds (q : Queue α) (l : List α) : Prop where
  ring : RingDeque maxQueueSize q.items q.readIndex l
  writeIndex_eq : q.writeIndex = (q.readIndex + l.length) % maxQueueSize
  numItems_eq : q.numItems = l.length

def Queue.Follows (q : Queue α) (l : List α) (op : QueueOp α) : Prop :=
  ∃ r, q.exec op = some r ∧ r.1 = (BoundedDeque.exec l op).1 ∧ r.2.Holds (BoundedDeque.exec l op).2

theorem maxQueueSize_pos : 0 < maxQueueSize := by decide

theorem initQueue_holds : (initQueue : Queue α).Holds [] :=
  ⟨⟨maxQueueSize_pos, Nat.zero_le _, fun _ _ => rfl⟩, rfl, rfl⟩

namespace Queue.Holds

variable {q : Queue α} {l : List α} {a : α}

theorem takeRead {t : List α} (h : q.Holds (a :: t)) :
    ∃ q', q.takeRead = some (a, q') ∧ q'.Holds t := by
  obtain ⟨hget, hring⟩ := h.ring.tail rfl
  refine ⟨_, by rw [Queue.takeRead, hget, Option.map_some], hring, ?_, ?_⟩
  · rw [h.writeIndex_eq, Nat.mod_add_mod, length_cons, Nat.add_assoc, Nat.add_comm 1]
  · simp [h.numItems_eq]

theorem storeWrite (h : q.Holds l) (hl : l.length < maxQueueSize) :
    ∃ q', q.storeWrite a = some q' ∧ q'.Holds (l ++ [a]) := by
  have hfree : q.items q.writeIndex = none := by
    rw [h.writeIndex_eq]
    exact h.ring.empty_behind hl
  refine ⟨_, by rw [Queue.storeWrite, hfree, Option.isNone_none, if_pos rfl], ?_, ?_, ?_⟩
  · rw [h.writeIndex_eq]
    exact h.ring.concat hl
  · rw [h.writeIndex_eq, Nat.mod_add_mod, length_append, length_singleton,
      Nat.add_assoc]
  · rw [h.numItems_eq, length_append, length_singleton]

theorem putQueue (h : q.Holds l) : q.Follows l (.putQueue a) := by
  simp only [Queue.Follows, Queue.exec, Queue.putQueue, BoundedDeque.exec, h.numItems_eq]
  by_cases hl : l.length < maxQueueSize
  · obtain ⟨q', hput, hq'⟩ := h.storeWrite (a := a) hl
    rw [if_neg (by omega), if_pos hl, hput]
    exact ⟨_, rfl, rfl, hq'⟩
  · rw [if_pos (by omega), if_neg hl]
    exact ⟨_, rfl, rfl, h⟩

theorem putQueueReplace (h : q.Holds l) : q.Follows l (.putQueueReplace a) := by
  simp only [Queue.Follows, Queue.exec, Queue.putQueueReplace, BoundedDeque.exec, h.numItems_eq]
  by_cases hl : l.length < maxQueueSize
  · obtain ⟨q', hput, hq'⟩ := h.storeWrite (a := a) hl
    rw [if_neg (by omega), if_pos hl, hput]
    exact ⟨_, rfl, rfl, hq'⟩
  · -- a full queue has an oldest item, and its slot is the one that is written next
    rw [if_pos (by omega), if_neg hl]
    cases l with
    | nil => exact absurd maxQueueSize_pos hl
    | cons b t =>
      have hle := h.ring.length_le
      rw [length_cons] at hle
      obtain ⟨q₁, htake, hq₁⟩ := h.takeRead
      obtain ⟨q₂, hput, hq₂⟩ := hq₁.storeWrite (a := a) (by omega)
      refine ⟨(.item (some b), q₂), ?_, rfl, hq₂⟩
      simp [htake, hput]

theorem getQueue (h : q.Holds l) : q.Follows l .getQueue := by
  simp only [Queue.Follows, Queue.exec, Queue.getQueue, BoundedDeque.exec, h.numItems_eq]
  cases l with
  | nil => exact ⟨_, rfl, rfl, h⟩
  | cons b t =>
    obtain ⟨q', htake, hq'⟩ := h.takeRead
    rw [if_pos (length_pos_of_mem mem_cons_self), htake]
    exact ⟨_, rfl, rfl, hq'⟩

theorem requeue (h : q.Holds l) : q.Follows l (.requeue a) := by
  simp only [Queue.Follows, Queue.exec, Queue.requeue, BoundedDeque.exec, h.numItems_eq]
  by_cases hl : l.length < maxQueueSize
  · obtain ⟨hfree, hring⟩ := h.ring.cons (a := a) hl
    rw [if_neg (by omega), if_pos hl, hfree, Option.isNone_none, if_pos rfl]
    refine ⟨_, rfl, rfl, hring, ?_, rfl⟩
    simp only [Prod.map_snd, id, h.writeIndex_eq, Nat.mod_add_mod, length_cons]
    rw [show q.readIndex + maxQueueSize - 1 + (l.length + 1) =
      q.readIndex + l.length + maxQueueSize by omega, Nat.add_mod_right]
  · rw [if_pos (by omega), if_neg hl]
    exact ⟨_, rfl, rfl, h⟩

theorem pred_slot_succ (r p : Nat) :
    ((r + (p + 1)) % maxQueueSize + maxQueueSize - 1) % maxQueueSize = (r + p) % maxQueueSize := by
  simp only [maxQueueSize]
  omega

theorem succ_slot (r p : Nat) :
    ((r + p) % maxQueueSize + 1) % maxQueueSize = (r + (p + 1)) % maxQueueSize := by
  rw [Nat.mod_add_mod, Nat.add_assoc]

theorem unqueue (h : q.Holds l) : q.Follows l .unqueue := by
  simp only [Queue.Follows, Queue.exec, Queue.unqueue, BoundedDeque.exec, h.numItems_eq]
  have hle := h.ring.length_le
  by_cases hl : l = []
  · subst hl
    exact ⟨_, rfl, rfl, h⟩
  · have hpos := length_pos_iff.mpr hl
    have hlast : (q.writeIndex + maxQueueSize - 1) % maxQueueSize =
        (q.readIndex + (l.length - 1)) % maxQueueSize := by
      rw [h.writeIndex_eq, ← pred_slot_succ q.readIndex (l.length - 1), Nat.sub_add_cancel hpos]
    rw [if_pos hpos, hlast, h.ring.get _ (by omega), ← List.getLast?_eq_getElem?]
    refine ⟨_, rfl, rfl, h.ring.dropLast hl, ?_, ?_⟩
    · simp
    · simp

theorem searchMatching (h : q.Holds l) (m : Option α → Bool) (first : List α) :
    ∀ d, first <+: l →
      q.searchMatching m first.length d ((q.readIndex + first.length) % maxQueueSize) =
        ((first.reverse.take d).findIdx? fun a => m (some a)).map fun i =>
          (q.readIndex + (first.length - 1 - i)) % maxQueueSize := by
  induction first using List.reverseRecOn with
  | nil => intro d _; simp [Queue.searchMatching]
  | append_singleton first a ih =>
    intro d hfirst
    cases d with
    | zero => simp [Queue.searchMatching]
    | succ d =>
      have hlen := hfirst.length_le
      have hle := h.ring.length_le
      rw [length_append, length_singleton] at hlen
      have hget : q.items ((q.readIndex + first.length) % maxQueueSize) = some a := by
        rw [h.ring.get _ (by omega), prefix_iff_getElem?.mp hfirst first.length (by simp)]
        simp
      rw [length_append, length_singleton, Queue.searchMatching, pred_slot_succ, hget,
        reverse_append, reverse_singleton, singleton_append, take_succ_cons,
        List.findIdx?_cons]
      by_cases hm : m (some a)
      · simp [hm]
      · rw [if_neg hm, if_neg hm, ih d ((prefix_append _ _).trans hfirst), Option.map_map]
        congr 1
        funext i
        simp only [Function.comp]
        congr 2
        omega

theorem succ_slot_eq_writeIndex (h : q.Holds l) {p : Nat} (hp : p < l.length) :
    (q.readIndex + (p + 1)) % maxQueueSize = q.writeIndex ↔ p + 1 = l.length := by
  have hle := h.ring.length_le
  rw [h.writeIndex_eq]
  simp only [maxQueueSize] at *
  omega

theorem moveDown (fuel : Nat) : ∀ {q : Queue α} {l : List α} {p : Nat}, q.Holds l →
    p < l.length → l.length ≤ p + fuel →
    ∃ q', Queue.moveDown fuel q ((q.readIndex + p) % maxQueueSize) = some q' ∧
      q'.Holds (l.eraseIdx p) := by
  induction fuel with
  | zero => intro q l p _ hp hfuel; omega
  | succ fuel ih =>
    intro q l p h hp hfuel
    have hle := h.ring.length_le
    rw [Queue.moveDown, succ_slot]
    by_cases hlast : p + 1 = l.length
    · have hp' : p = l.length - 1 := by omega
      rw [if_pos ((h.succ_slot_eq_writeIndex hp).mpr hlast)]
      refine ⟨_, rfl, ?_, ?_, ?_⟩
      · rw [hp', eraseIdx_length_sub_one]
        exact h.ring.dropLast (length_pos_iff.mp (by omega))
      · rw [length_eraseIdx_of_lt hp, hp']
      · rw [length_eraseIdx_of_lt hp, h.numItems_eq]
    · rw [if_neg (mt (h.succ_slot_eq_writeIndex hp).mp hlast)]
      have hb : l[p + 1]? = some l[p + 1] := List.getElem?_eq_getElem (by omega)
      rw [h.ring.get _ (by omega), hb]
      -- the queue between two rounds holds the next item twice
      have hset : Queue.Holds { q with
          items := update q.items ((q.readIndex + p) % maxQueueSize)
            (some l[p + 1]) } (l.set p l[p + 1]) :=
        ⟨h.ring.set hp, by simpa using h.writeIndex_eq, by simpa using h.numItems_eq⟩
      have hnext := ih (p := p + 1) hset (by simp; omega) (by simp; omega)
      rwa [eraseIdx_set_next hb] at hnext

theorem unqueueMatching (h : q.Holds l) (d : Nat) (m : Option α → Bool) :
    q.Follows l (.unqueueMatching d m) := by
  have hle := h.ring.length_le
  have hsearch := h.searchMatching m l d (prefix_refl l)
  simp only [Queue.Follows, Queue.exec, Queue.unqueueMatching, BoundedDeque.exec,
    BoundedDeque.deleteMatching]
  rw [h.numItems_eq, h.writeIndex_eq, hsearch]
  cases hfind : (l.reverse.take d).findIdx? fun a => m (some a) with
  | none => exact ⟨_, rfl, rfl, h⟩
  | some i =>
    have hi : i < l.length := by
      have := (List.findIdx?_eq_some_iff_findIdx_eq.mp hfind).1
      simp at this
      omega
    obtain ⟨q', hmove, hq'⟩ := Queue.Holds.moveDown maxQueueSize (p := l.length - 1 - i) h
      (by omega) (by omega)
    refine ⟨(.item l[l.length - 1 - i]?, q'), ?_, rfl, hq'⟩
    simp [hmove, h.ring.get _ (show l.length - 1 - i < maxQueueSize by omega)]

theorem exec (h : q.Holds l) (op : QueueOp α) : q.Follows l op := by
  cases op with
  | putQueue a => exact h.putQueue
  | putQueueReplace a => exact h.putQueueReplace
  | getQueue => exact h.getQueue
  | requeue a => exact h.requeue
  | unqueue => exact h.unqueue
  | unqueueMatching d m => exact h.unqueueMatching d m

theorem execAll (ops : List (QueueOp α)) : ∀ {q : Queue α} {l : List α}, q.Holds l →
    ∃ q', q.execAll ops = some ((BoundedDeque.execAll l ops).1, q') ∧
      q'.Holds (BoundedDeque.execAll l ops).2 := by
  induction ops with
  | nil => intro q l h; exact ⟨q, rfl, h⟩
  | cons op ops ih =>
    intro q l h
    obtain ⟨r, hexec, hanswer, hr⟩ := h.exec op
    obtain ⟨q', hrest, hq'⟩ := ih hr
    exact ⟨q', by simp [Queue.execAll, BoundedDeque.execAll, hexec, hrest, hanswer], hq'⟩

end Queue.Holds

/-- Every run of calls on a new queue goes through, with the answers and the items of the deque. -/
theorem queue_refines_deque (ops : List (QueueOp α)) :
    ∃ q : Queue α, initQueue.execAll ops = some ((BoundedDeque.execAll [] ops).1, q) ∧
      q.Holds (BoundedDeque.execAll [] ops).2 :=
  Queue.Holds.execAll ops initQueue_holds

end OpenAir.Ds

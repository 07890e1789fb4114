import OpenAir.Lib.BitReader
import OpenAir.Lib.IndexList

/-! `NR_list_t` as a sequence of ids without duplicates. -/

namespace OpenAir.Mac.NrList

open Function List
open IndexList (Slot slot)

inductive Assertion
  | list (m : IndexList.Misuse)
  | alreadyIn
  | headOut
  | tailOut
  | entryOut
  | noMemory
  deriving DecidableEq

abbrev Exec := Except (Fault Assertion)

inductive Op
  | create (len : Nat)
  | resize (newLen : Nat)
  | add (id : Nat)
  | addTail (id : Nat)
  | addFront (id : Nat)
  | remove (id : Nat)
  | removeFront

section

-- whether `malloc` and `realloc` return memory for so many entries
variable (memory : Nat → Bool)

def createNrList (len : Nat) : Exec IndexList :=
  if memory len then .ok { len } else .error (.assertion .noMemory)

def resizeNrList (L : IndexList) (newLen : Nat) : Exec IndexList :=
  if newLen = L.len then .ok L
  else if L.len < newLen then
    if memory newLen then
      .ok { L with
        next := fun i => if L.len ≤ i ∧ i < newLen then none else L.next i, len := newLen }
    else .error (.assertion .noMemory)
  else if L.head.any (newLen ≤ ·) then .error (.assertion .headOut)
  else if L.tail.any (newLen ≤ ·) then .error (.assertion .tailOut)
  else if (List.range L.len).any fun i => (L.next i).any (newLen ≤ ·) then
    .error (.assertion .entryOut)
  else if memory newLen then .ok { L with len := newLen }
  else .error (.assertion .noMemory)

def addRound (L : IndexList) (id : Nat) (cur : Slot) : Exec (Slot ⊕ Slot) :=
  match L.read cur with
  | none => .ok (.inr cur)
  | some x => if x = id then .error (.assertion .alreadyIn) else .ok (.inl (.next x))

def addNrList (L : IndexList) (id : Nat) : Exec IndexList := do
  let cur ← loop (addRound L id) (L.len + 1) .head
  let L := L.write (some id) cur
  return { L with tail := if (L.next id).isNone then some id else L.tail }

def addFrontNrList (L : IndexList) (id : Nat) : IndexList :=
  { L with
    head := some id
    next := update L.next id L.head
    tail := if L.tail.isNone then some id else L.tail }

def exec (L : IndexList) : Op → Exec IndexList
  | .create len => createNrList memory len
  | .resize newLen => resizeNrList memory L newLen
  | .add id => addNrList L id
  | .addTail id => .ok (L.addTail id)
  | .addFront id => .ok (addFrontNrList L id)
  | .remove id => (L.remove id).mapError (Fault.map .list)
  | .removeFront => L.removeFront.mapError (Fault.map .list)

structure IdList where
  len : Nat
  ids : List Nat := []

namespace IdList

def exec (a : IdList) : Op → IdList
  | .create len => { len }
  | .resize newLen => { a with len := newLen }
  | .add id | .addTail id => { a with ids := a.ids ++ [id] }
  | .addFront id => { a with ids := id :: a.ids }
  | .remove id => { a with ids := a.ids.erase id }
  | .removeFront => { a with ids := a.ids.tail }

def Meets (a : IdList) : Op → Prop
  | .create len => memory len = true
  | .resize newLen => (newLen ≠ a.len → memory newLen = true) ∧ ∀ x ∈ a.ids, x < newLen
  | .add id | .addTail id | .addFront id => id < a.len ∧ id ∉ a.ids
  | .remove id => id ∈ a.ids
  | .removeFront => a.ids ≠ []

def Permits (a : IdList) : List Op → Prop
  | [] => True
  | op :: ops => a.Meets memory op ∧ (a.exec op).Permits ops

end IdList

end

structure Holds (L : IndexList) (a : IdList) : Prop where
  represents : L.Represents a.ids
  len : L.len = a.len
  absent : ∀ i < a.len, i ∉ a.ids → L.next i = none

variable {memory : Nat → Bool} {L : IndexList} {a : IdList} {id : Nat}

theorem loop_addRound {p p' : List Nat} {fuel : Nat}
    (h : IndexList.Seg L.next L.head (p ++ p') none) (hid : id ∉ p') (hfuel : p'.length < fuel) :
    loop (addRound L id) fuel (slot p) = .ok (slot (p ++ p')) := by
  induction p' generalizing p fuel with
  | nil =>
    obtain ⟨fuel, rfl⟩ : ∃ k, fuel = k + 1 := ⟨fuel - 1, by omega⟩
    rw [append_nil] at *
    rw [loop, addRound, h.read]
  | cons x p' ih =>
    obtain ⟨fuel, rfl⟩ : ∃ k, fuel = k + 1 := ⟨fuel - 1, by omega⟩
    obtain ⟨hx, hid⟩ := ne_and_not_mem_of_not_mem_cons hid
    obtain ⟨m, hp, hm, -⟩ := IndexList.seg_append.mp h
    rw [loop, addRound, hp.read, hm]
    have hnext := @ih (p ++ [x]) fuel (by simpa using h) hid (by simpa using hfuel)
    rw [IndexList.slot_concat] at hnext
    simp only [if_neg hx.symm]
    rw [hnext, append_cons p x p']

namespace Holds

theorem create (len : Nat) : Holds { len } { len } :=
  ⟨IndexList.represents_nil len, rfl, fun _ _ _ => rfl⟩

theorem resize (h : Holds L a) {newLen : Nat} (hm : newLen ≠ a.len → memory newLen)
    (hlt : ∀ x ∈ a.ids, x < newLen) :
    ∃ L', resizeNrList memory L newLen = .ok L' ∧ Holds L' { a with len := newLen } := by
  obtain ⟨hrep, hlen, habsent⟩ := h
  unfold resizeNrList
  rw [hlen]
  split
  next heq =>
    subst heq
    exact ⟨L, rfl, hrep, hlen, habsent⟩
  next hne =>
  split
  next hgrow =>
    rw [if_pos (hm hne)]
    refine ⟨_, rfl, ⟨hrep.seg.congr fun x hx => if_neg ?_, hrep.tail, hrep.nodup, hlt⟩, rfl,
      fun i hi hmem => ?_⟩
    · have := hrep.lt x hx
      omega
    · by_cases hold : i < a.len
      · rw [← habsent i hold hmem]
        exact if_neg (by omega)
      · exact if_pos ⟨by omega, hi⟩
  next hshrink =>
    have hany (o : Option Nat) (ho : ∀ x, o = some x → x ∈ a.ids) : ¬o.any (newLen ≤ ·) := by
      cases o with
      | none => simp
      | some x => simpa using hlt x (ho x rfl)
    have hhead := hany L.head fun x hx => mem_of_head? (hrep.head_eq ▸ hx)
    have htail := hany L.tail fun x hx => mem_of_getLast? (hrep.tail ▸ hx)
    have hnext : ¬((List.range a.len).any fun i => (L.next i).any (newLen ≤ ·)) := by
      rw [any_eq_true]
      rintro ⟨i, hi, hi'⟩
      refine hany (L.next i) (fun x hx => hrep.seg.next_mem ?_ hx) hi'
      by_contra hnot
      cases (habsent i (mem_range.mp hi) hnot).symm.trans hx
    rw [if_neg hhead, if_neg htail, if_neg hnext, if_pos (hm hne)]
    refine ⟨_, rfl, ⟨hrep.seg, hrep.tail, hrep.nodup, hlt⟩, rfl, fun i (hi : i < newLen) hmem => ?_⟩
    exact habsent i (by omega) hmem

theorem slot_eq (h : Holds L a) : slot a.ids = L.tail.elim .head .next := by
  rw [h.represents.tail, slot]

theorem addTail (h : Holds L a) (hlt : id < a.len) (hid : id ∉ a.ids) :
    Holds (L.addTail id) { a with ids := a.ids ++ [id] } := by
  refine ⟨h.represents.addTail hid (h.len ▸ hlt), (IndexList.addTail_len ..).trans h.len,
    fun i hi hmem => ?_⟩
  obtain ⟨hmem, hne⟩ : i ∉ a.ids ∧ i ≠ id := by simpa using hmem
  unfold IndexList.addTail
  rw [← h.slot_eq]
  simp only [update_of_ne hne, IndexList.write_next_of_not_mem hmem]
  exact h.absent i hi hmem

theorem addNrList_eq (h : Holds L a) (hlt : id < a.len) (hid : id ∉ a.ids) :
    addNrList L id = .ok (L.addTail id) := by
  have hloop := @loop_addRound L id [] a.ids (L.len + 1) h.represents.seg hid
    (Nat.lt_succ_of_le h.represents.length_le)
  have hnone : (L.write (some id) (slot a.ids)).next id = none := by
    rw [IndexList.write_next_of_not_mem hid, h.absent id hlt hid]
  rw [addNrList, show Slot.head = slot [] from rfl, hloop, nil_append, ok_bind]
  dsimp only
  rw [hnone]
  unfold IndexList.addTail
  rw [← h.slot_eq]
  dsimp only
  rw [(congrArg (update _ id) hnone.symm).trans (update_eq_self ..)]
  rfl

theorem addFront (h : Holds L a) (hlt : id < a.len) (hid : id ∉ a.ids) :
    Holds (addFrontNrList L id) { a with ids := id :: a.ids } := by
  obtain ⟨hrep, hlen, habsent⟩ := h
  refine ⟨⟨⟨rfl, ?_⟩, ?_, nodup_cons.mpr ⟨hid, hrep.nodup⟩, ?_⟩, hlen, fun i hi hmem => ?_⟩
  · simp only [addFrontNrList, update_self]
    exact hrep.seg.update hid _
  · simp only [addFrontNrList, hrep.tail]
    cases hids : a.ids <;> simp
  · simpa [addFrontNrList, hlen, hlt] using hlen ▸ hrep.lt
  · obtain ⟨hne, hmem⟩ := ne_and_not_mem_of_not_mem_cons hmem
    exact (update_of_ne hne ..).trans (habsent i hi hmem)

theorem remove (h : Holds L a) (hid : id ∈ a.ids) :
    ∃ L', L.remove id = .ok L' ∧ Holds L' { a with ids := a.ids.erase id } := by
  obtain ⟨hrep, hlen, habsent⟩ := h
  obtain ⟨p, q, hpq⟩ := append_of_mem hid
  rw [hpq] at hrep
  have hp : id ∉ p := fun hmem => (nodup_append.mp hrep.nodup).2.2 id hmem id (by simp) rfl
  obtain ⟨L', hL', hrep', hlen'⟩ := hrep.remove
  rw [hpq, erase_append_right _ hp, erase_cons_head]
  refine ⟨L', hL', hrep', hlen'.trans hlen, fun i hi hmem => ?_⟩
  obtain rfl := Except.ok.inj (hrep.remove_eq.symm.trans hL')
  rw [IndexList.retail_next, IndexList.unlink]
  by_cases hix : i = id
  · exact hix ▸ update_self ..
  · rw [mem_append, not_or] at hmem
    dsimp only
    rw [update_of_ne hix, IndexList.write_next_of_not_mem hmem.1]
    exact habsent i hi (by simp [hpq, hix, hmem])

theorem removeFront (h : Holds L a) (hne : a.ids ≠ []) :
    ∃ L', L.removeFront = .ok L' ∧ Holds L' { a with ids := a.ids.tail } := by
  obtain ⟨hrep, hlen, habsent⟩ := h
  obtain ⟨x, l, hl⟩ := exists_cons_of_ne_nil hne
  rw [hl] at hrep
  obtain ⟨L', hL', hrep', hlen'⟩ := hrep.removeFront
  refine ⟨L', hL', by rwa [hl], hlen'.trans hlen, fun i hi hmem => ?_⟩
  rw [IndexList.removeFront, hrep.head_eq] at hL'
  cases hL'
  by_cases hix : i = x
  · exact hix ▸ update_self ..
  · exact (update_of_ne hix ..).trans (habsent i hi (by simpa [hl, hix] using hmem))

theorem step (h : Holds L a) {op : Op} (hm : a.Meets memory op) :
    ∃ L', exec memory L op = .ok L' ∧ Holds L' (a.exec op) := by
  cases op with
  | create len => exact ⟨_, if_pos hm, create len⟩
  | resize newLen => exact h.resize hm.1 hm.2
  | add id => exact ⟨_, h.addNrList_eq hm.1 hm.2, h.addTail hm.1 hm.2⟩
  | addTail id => exact ⟨_, rfl, h.addTail hm.1 hm.2⟩
  | addFront id => exact ⟨_, rfl, h.addFront hm.1 hm.2⟩
  | remove id =>
    obtain ⟨L', hL', h'⟩ := h.remove hm
    exact ⟨L', by rw [exec, hL']; rfl, h'⟩
  | removeFront =>
    obtain ⟨L', hL', h'⟩ := h.removeFront hm
    exact ⟨L', by rw [exec, hL']; rfl, h'⟩

theorem run (h : Holds L a) {ops : List Op} (hp : a.Permits memory ops) :
    ∃ L', ops.foldlM (exec memory) L = .ok L' ∧ Holds L' (ops.foldl IdList.exec a) := by
  induction ops generalizing L a with
  | nil => exact ⟨L, rfl, h⟩
  | cons op ops ih =>
    obtain ⟨L₁, hL₁, h₁⟩ := h.step hp.1
    obtain ⟨L₂, hL₂, h₂⟩ := ih h₁ hp.2
    exact ⟨L₂, by rw [foldlM_cons, hL₁, ok_bind, hL₂], h₂⟩

end Holds

/-- After `create_nr_list`, as long as ids are in range, added when absent and removed when
present. -/
theorem nrList_refines_ids (memory : Nat → Bool) (len : Nat) (ops : List Op)
    (h : IdList.Permits memory { len } (.create len :: ops)) :
    ∃ L₀ L, createNrList memory len = .ok L₀ ∧ ops.foldlM (exec memory) L₀ = .ok L ∧
      Holds L (ops.foldl IdList.exec { len }) := by
  obtain ⟨L, hL, hh⟩ := (Holds.create len).run h.2
  exact ⟨_, L, if_pos h.1, hL, hh⟩

theorem nrList_refines_ids_run :
    let ops := [.addTail 2, .add 0, .addFront 1, .resize 3, .remove 0, .removeFront]
    ∃ L₀ L, createNrList (0 < ·) 4 = .ok L₀ ∧ ops.foldlM (exec (0 < ·)) L₀ = .ok L ∧
    Holds L { len := 3, ids := [2] } :=
  nrList_refines_ids (0 < ·) 4 _ (by simp [IdList.Permits, IdList.Meets, IdList.exec])

end OpenAir.Mac.NrList

import Mathlib.Data.List.Nodup
import Mathlib.Data.List.Perm.Subperm
import Mathlib.Logic.Function.Basic
import OpenAir.Lib.Loop

/-! Lists of indices that are threaded through an array of successors, with a pointer to the last
element.  A list is changed through the places that hold its links. -/

namespace OpenAir

open Function List

/-- The head, the successors and the last of a list; `none` stands for a negative index. -/
structure IndexList where
  head : Option Nat := none
  next : Nat → Option Nat := fun _ => none
  tail : Option Nat := none
  len : Nat

namespace IndexList

inductive Slot
  | head
  | next (i : Nat)
  deriving DecidableEq

def read (l : IndexList) : Slot → Option Nat
  | .head => l.head
  | .next i => l.next i

def write (l : IndexList) (o : Option Nat) : Slot → IndexList
  | .head => { l with head := o }
  | .next i => { l with next := update l.next i o }

inductive Misuse
  | empty
  | notFound
  deriving DecidableEq

def addTail (l : IndexList) (id : Nat) : IndexList :=
  let l' := l.write (some id) (l.tail.elim .head .next)
  { l' with next := update l'.next id none, tail := some id }

def removeFront (l : IndexList) : Except (Fault Misuse) IndexList :=
  match l.head with
  | none => .error (.assertion .empty)
  | some h =>
    .ok { l with
      head := l.next h
      next := update l.next h none
      tail := if (l.next h).isSome then l.tail else none }

def removeRound (l : IndexList) (id : Nat) (st : Slot × Slot) :
    Except (Fault Misuse) ((Slot × Slot) ⊕ (Slot × Slot)) :=
  match l.read st.2 with
  | none => .error (.assertion .notFound)
  | some x => if x = id then .ok (.inr st) else .ok (.inl (st.2, .next x))

def unlink (l : IndexList) (id : Nat) (cur : Slot) : IndexList :=
  let l' := l.write (l.next id) cur
  { l' with next := update l'.next id none }

def retail (l : IndexList) (prev : Slot) : IndexList :=
  match l.read prev with
  | none => { l with tail := none }
  | some x => if (l.next x).isSome then l else { l with tail := some x }

def remove (l : IndexList) (id : Nat) : Except (Fault Misuse) IndexList :=
  match loop (l.removeRound id) (l.len + 1) (.head, .head) with
  | .error e => .error e
  | .ok (prev, cur) => .ok ((l.unlink id cur).retail prev)

def Seg (next : Nat → Option Nat) (o : Option Nat) : List Nat → Option Nat → Prop
  | [], o' => o = o'
  | x :: p, o' => o = some x ∧ Seg next (next x) p o'

section

variable {next next' : Nat → Option Nat} {o o' : Option Nat} {p q : List Nat} {x : Nat}

theorem seg_append : Seg next o (p ++ q) o' ↔ ∃ m, Seg next o p m ∧ Seg next m q o' := by
  induction p generalizing o with
  | nil => simp [Seg]
  | cons x p ih => simp [Seg, ih, and_assoc]

theorem seg_concat : Seg next o (p ++ [x]) o' ↔ Seg next o p (some x) ∧ next x = o' := by
  rw [seg_append]
  constructor
  · rintro ⟨m, hp, hm, hx⟩
    exact ⟨hm ▸ hp, hx⟩
  · rintro ⟨hp, hx⟩
    exact ⟨some x, hp, rfl, hx⟩

theorem Seg.congr (h : Seg next o p o') (hp : ∀ x ∈ p, next' x = next x) : Seg next' o p o' := by
  induction p generalizing o with
  | nil => exact h
  | cons x p ih =>
    obtain ⟨hx, hseg⟩ := h
    refine ⟨hx, ?_⟩
    rw [hp x (mem_cons_self ..)]
    exact ih hseg fun y hy => hp y (mem_cons_of_mem _ hy)

theorem Seg.update (h : Seg next o p o') (hx : x ∉ p) (v : Option Nat) :
    Seg (update next x v) o p o' :=
  h.congr fun y hy => update_of_ne (fun heq : y = x => hx (heq ▸ hy)) _ _

theorem Seg.unique (h : Seg next o p none) (h' : Seg next o q none) : p = q := by
  induction p generalizing o q with
  | nil =>
    cases q with
    | nil => rfl
    | cons y q => cases (h : o = none) ▸ h'.1
  | cons x p ih =>
    cases q with
    | nil => cases (h' : o = none) ▸ h.1
    | cons y q =>
      obtain ⟨rfl, hp⟩ := h
      obtain ⟨hxy, hq⟩ := h'
      cases hxy
      rw [ih hp hq]

theorem Seg.next_mem {y : Nat} (h : Seg next o p none) (hx : x ∈ p) (hy : next x = some y) :
    y ∈ p := by
  induction p generalizing o with
  | nil => cases hx
  | cons z p ih =>
    obtain ⟨-, hseg⟩ := h
    rcases mem_cons.mp hx with rfl | hx
    · rw [hy] at hseg
      cases p with
      | nil => cases (hseg : some y = none)
      | cons w p =>
        cases hseg.1
        simp
    · exact mem_cons_of_mem _ (ih hseg hx)

end

structure Represents (L : IndexList) (l : List Nat) : Prop where
  seg : Seg L.next L.head l none
  tail : L.tail = l.getLast?
  nodup : l.Nodup
  lt : ∀ x ∈ l, x < L.len

variable {L L' : IndexList} {l : List Nat} {id : Nat}

theorem addTail_len (L : IndexList) (id : Nat) : (L.addTail id).len = L.len := by
  unfold addTail
  cases L.tail <;> rfl

theorem represents_nil (n : Nat) : Represents { len := n } [] :=
  ⟨rfl, rfl, nodup_nil, by simp⟩

namespace Represents

theorem head_eq (h : L.Represents l) : L.head = l.head? := by
  have hseg := h.seg
  cases l with
  | nil => exact hseg
  | cons x l => exact hseg.1

theorem unique {l' : List Nat} (h : L.Represents l) (h' : L.Represents l') : l = l' :=
  h.seg.unique h'.seg

theorem length_le (h : L.Represents l) : l.length ≤ L.len := by
  have hsub : l ⊆ List.range L.len := fun x hx => mem_range.mpr (h.lt x hx)
  simpa using (subperm_of_subset h.nodup hsub).length_le

theorem addTail (h : L.Represents l) (hid : id ∉ l) (hlt : id < L.len) :
    (L.addTail id).Represents (l ++ [id]) := by
  have hnodup : (l ++ [id]).Nodup := by
    rw [nodup_append]
    refine ⟨h.nodup, nodup_singleton _, fun a ha b hb heq => hid ?_⟩
    rwa [← mem_singleton.mp hb, ← heq]
  have hseg := h.seg
  refine ⟨?_, by simp [IndexList.addTail], hnodup, fun x hx => ?_⟩
  · rw [seg_concat]
    unfold IndexList.addTail
    rw [h.tail]
    refine ⟨?_, by simp⟩
    rcases eq_nil_or_concat l with rfl | ⟨p, x, rfl⟩
    · exact rfl
    · rw [concat_eq_append] at *
      rw [seg_concat] at hseg
      have hx : x ∉ p := fun hmem => (nodup_append.mp h.nodup).2.2 x hmem x (by simp) rfl
      simp only [List.getLast?_concat, Option.elim_some, write]
      refine seg_concat.mpr ⟨(hseg.1.update hx _).update (fun hmem => hid (by simp [hmem])) _, ?_⟩
      rw [update_of_ne (fun heq => hid (by simp [heq])), update_self]
  · rw [addTail_len]
    rcases mem_append.mp hx with hx | hx
    · exact h.lt x hx
    · rwa [mem_singleton.mp hx]

theorem removeFront (h : L.Represents (id :: l)) :
    ∃ L', L.removeFront = .ok L' ∧ L'.Represents l ∧ L'.len = L.len := by
  obtain ⟨hhead, hseg⟩ := h.seg
  obtain ⟨hid, hnodup⟩ := nodup_cons.mp h.nodup
  unfold IndexList.removeFront
  rw [hhead]
  refine ⟨_, rfl, ⟨hseg.update hid _, ?_, hnodup, fun x hx => h.lt x (mem_cons_of_mem _ hx)⟩, rfl⟩
  have htail := h.tail
  cases l with
  | nil =>
    rw [show L.next id = none from hseg]
    rfl
  | cons y l =>
    rw [hseg.1, htail]
    simp

end Represents

def slot (p : List Nat) : Slot := p.getLast?.elim .head .next

theorem slot_concat (p : List Nat) (x : Nat) : slot (p ++ [x]) = .next x := by simp [slot]

theorem Seg.read {p : List Nat} {o : Option Nat} (h : Seg L.next L.head p o) :
    L.read (slot p) = o := by
  rcases eq_nil_or_concat p with rfl | ⟨p, x, rfl⟩
  · exact h
  · rw [concat_eq_append] at *
    rw [slot_concat]
    exact (seg_concat.mp h).2

theorem write_next_of_not_mem {p : List Nat} {i : Nat} (h : i ∉ p) (o : Option Nat) :
    (L.write o (slot p)).next i = L.next i := by
  rcases eq_nil_or_concat p with rfl | ⟨p, x, rfl⟩
  · rfl
  · rw [concat_eq_append] at *
    rw [slot_concat]
    exact update_of_ne (fun heq => h (by simp [heq])) _ _

theorem loop_removeRound {p p' q : List Nat} {fuel : Nat}
    (h : Seg L.next L.head (p ++ (p' ++ id :: q)) none) (hid : id ∉ p') (hfuel : p'.length < fuel) :
    loop (L.removeRound id) fuel (slot p.dropLast, slot p) =
      .ok (slot (p ++ p').dropLast, slot (p ++ p')) := by
  induction p' generalizing p fuel with
  | nil =>
    obtain ⟨fuel, rfl⟩ : ∃ k, fuel = k + 1 := ⟨fuel - 1, by simp at hfuel; omega⟩
    obtain ⟨m, hp, hm, -⟩ := seg_append.mp h
    rw [loop, removeRound, hp.read, hm]
    simp
  | cons x p' ih =>
    obtain ⟨fuel, rfl⟩ : ∃ k, fuel = k + 1 := ⟨fuel - 1, by simp at hfuel; omega⟩
    have hx : id ≠ x := fun heq => hid (heq ▸ mem_cons_self ..)
    replace hid := fun hmem : id ∈ p' => hid (mem_cons_of_mem _ hmem)
    obtain ⟨m, hp, hm, -⟩ := seg_append.mp h
    rw [loop, removeRound, hp.read, hm]
    simp only [if_neg (Ne.symm hx)]
    have hnext := @ih (p ++ [x]) fuel (by simpa using h) hid (by simpa using hfuel)
    rw [dropLast_concat, slot_concat] at hnext
    rw [hnext, append_cons p x p']

theorem retail_head (L : IndexList) (s : Slot) : (L.retail s).head = L.head := by
  unfold retail
  split
  · rfl
  · split <;> rfl

theorem retail_next (L : IndexList) (s : Slot) : (L.retail s).next = L.next := by
  unfold retail
  split
  · rfl
  · split <;> rfl

theorem retail_len (L : IndexList) (s : Slot) : (L.retail s).len = L.len := by
  unfold retail
  split
  · rfl
  · split <;> rfl

theorem unlink_tail (L : IndexList) (id : Nat) (s : Slot) : (L.unlink id s).tail = L.tail := by
  cases s <;> rfl

theorem unlink_len (L : IndexList) (id : Nat) (s : Slot) : (L.unlink id s).len = L.len := by
  cases s <;> rfl

theorem retail_tail {p q : List Nat} (h : Seg L.next L.head (p ++ q) none) (hnil : q = [] → p = [])
    (htail : 2 ≤ q.length → L.tail = (p ++ q).getLast?) :
    (L.retail (slot p)).tail = (p ++ q).getLast? := by
  obtain ⟨m, hp, hq⟩ := seg_append.mp h
  unfold retail
  rw [hp.read]
  cases q with
  | nil =>
    rw [show m = none from hq, hnil rfl]
    rfl
  | cons x q =>
    obtain ⟨rfl, hx⟩ := hq
    cases q with
    | nil =>
      have hnone : L.next x = none := hx
      simp [hnone]
    | cons y q =>
      have hsome : (L.next x).isSome := by rw [hx.1]; rfl
      simp only [hsome, if_true, htail (by simp : 2 ≤ (x :: y :: q).length)]

theorem Represents.unlink {p q : List Nat} (h : L.Represents (p ++ id :: q)) :
    Seg (L.unlink id (slot p)).next (L.unlink id (slot p)).head (p ++ q) none := by
  obtain ⟨hp, hidq, hdisj⟩ := nodup_append.mp h.nodup
  obtain ⟨hidq, hq⟩ := nodup_cons.mp hidq
  have hidp : id ∉ p := fun hmem => hdisj id hmem id (by simp) rfl
  obtain ⟨m, hsegp, rfl, hsegq⟩ := seg_append.mp h.seg
  unfold IndexList.unlink
  rcases eq_nil_or_concat p with rfl | ⟨p, x, rfl⟩
  · exact hsegq.update hidq _
  · rw [concat_eq_append] at *
    have hx : x ∉ p := fun hmem => (nodup_append.mp hp).2.2 x hmem x (by simp) rfl
    have hxq : x ∉ q := fun hmem => hdisj x (by simp) x (by simp [hmem]) rfl
    have hxid : x ≠ id := fun heq => hidp (by simp [heq])
    rw [slot_concat]
    refine seg_append.mpr ⟨L.next id, seg_concat.mpr ⟨?_, ?_⟩, (hsegq.update hxq _).update hidq _⟩
    · exact ((seg_concat.mp hsegp).1.update hx _).update (fun hmem => hidp (by simp [hmem])) _
    · simp [write, hxid]

theorem Represents.remove_eq {p q : List Nat} (h : L.Represents (p ++ id :: q)) :
    L.remove id = .ok ((L.unlink id (slot p)).retail (slot p.dropLast)) := by
  have hidp : id ∉ p := fun hmem => (nodup_append.mp h.nodup).2.2 id hmem id (by simp) rfl
  have hloop := @loop_removeRound L id [] p q (L.len + 1) (by simpa using h.seg) hidp (by
    have := h.length_le
    simp at this
    omega)
  rw [nil_append, show slot ([] : List Nat).dropLast = .head from rfl,
    show slot ([] : List Nat) = .head from rfl] at hloop
  rw [IndexList.remove, hloop]

theorem Represents.remove {p q : List Nat} (h : L.Represents (p ++ id :: q)) :
    ∃ L', L.remove id = .ok L' ∧ L'.Represents (p ++ q) ∧ L'.len = L.len := by
  have hsub : (p ++ q).Sublist (p ++ id :: q) := (sublist_cons_self id q).append_left p
  have hlen : ((L.unlink id (slot p)).retail (slot p.dropLast)).len = L.len := by
    rw [retail_len, unlink_len]
  refine ⟨_, h.remove_eq, ⟨?_, ?_, h.nodup.sublist hsub, fun x hx => ?_⟩, hlen⟩
  · rw [retail_next, retail_head]
    exact h.unlink
  · have hold : q ≠ [] → L.tail = (p ++ q).getLast? := fun hq => by
      rw [h.tail, List.getLast?_append_of_ne_nil _ (by simp), List.getLast?_cons_of_ne_nil hq,
        List.getLast?_append_of_ne_nil _ hq]
    have hseg := h.unlink
    rcases eq_nil_or_concat p with rfl | ⟨p, x, rfl⟩
    · refine @retail_tail _ [] q hseg (fun _ => rfl) fun hq => ?_
      rw [unlink_tail, hold (by rintro rfl; simp at hq)]
    · rw [concat_eq_append] at *
      rw [dropLast_concat, append_assoc] at *
      refine retail_tail hseg (by simp) fun hq => ?_
      rw [unlink_tail, hold (by rintro rfl; simp at hq)]
  · rw [hlen]
    exact h.lt x (hsub.subset hx)

end IndexList

end OpenAir

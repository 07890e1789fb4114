import Mathlib.Algebra.BigOperators.Group.List.Basic
import Mathlib.Data.List.Nodup
import Mathlib.Tactic.Linarith
import OpenAir.Rlc.Sdu

namespace OpenAir.Rlc

open List

namespace Heap

variable {h : Heap} {p q : Nat} {f : Sdu → Sdu}

def Live (h : Heap) (p : Nat) : Prop := p ∈ h.sdus.map Sdu.ptr

theorem find?_map_ite (l : List Sdu) (hf : ∀ x, (f x).ptr = x.ptr) :
    (l.map fun s => if s.ptr = p then f s else s).find? (·.ptr = q) =
      (l.find? (·.ptr = q)).map fun s => if s.ptr = p then f s else s := by
  induction l with
  | nil => rfl
  | cons x l ih =>
    have hx : (if x.ptr = p then f x else x).ptr = x.ptr := by
      split
      · exact hf x
      · rfl
    rw [map_cons, List.find?_cons, List.find?_cons, hx]
    cases decide (x.ptr = q) <;> simp [ih]

theorem sdu_modify_of_ne (hf : ∀ x, (f x).ptr = x.ptr) (hne : q ≠ p) :
    (h.modify p f).sdu q = h.sdu q := by
  unfold sdu modify
  rw [find?_map_ite _ hf]
  cases hfind : h.sdus.find? (·.ptr = q) with
  | none => rfl
  | some x =>
    have hx : x.ptr = q := by simpa using List.find?_some hfind
    simp [hx, hne]

theorem sdu_modify_self (hf : ∀ x, (f x).ptr = x.ptr) (hl : h.Live p) :
    (h.modify p f).sdu p = f (h.sdu p) := by
  unfold sdu modify
  rw [find?_map_ite _ hf]
  cases hfind : h.sdus.find? (·.ptr = p) with
  | none =>
    obtain ⟨x, hx, rfl⟩ := mem_map.mp hl
    have := List.find?_eq_none.mp hfind x hx
    simp at this
  | some x =>
    have hx : x.ptr = p := by simpa using List.find?_some hfind
    simp [hx]

theorem sdu_modify_apply {β : Type*} (g : Sdu → β) (hf : ∀ x, (f x).ptr = x.ptr)
    (hg : ∀ x, g (f x) = g x) : g ((h.modify p f).sdu q) = g (h.sdu q) := by
  unfold sdu modify
  rw [find?_map_ite _ hf]
  cases h.sdus.find? (·.ptr = q) with
  | none => rfl
  | some x =>
    simp only [Option.map_some, Option.getD_some]
    split
    · exact hg x
    · rfl

theorem map_ptr_modify (hf : ∀ x, (f x).ptr = x.ptr) :
    (h.modify p f).sdus.map Sdu.ptr = h.sdus.map Sdu.ptr := by
  unfold modify
  rw [map_map]
  refine map_congr_left fun x _ => ?_
  change (if x.ptr = p then f x else x).ptr = x.ptr
  split
  · exact hf x
  · rfl

theorem live_modify (hf : ∀ x, (f x).ptr = x.ptr) : (h.modify p f).Live q ↔ h.Live q := by
  rw [Live, map_ptr_modify hf, Live]

theorem live_free : (h.free p).Live q ↔ h.Live q ∧ q ≠ p := by
  simp only [Live, free, mem_map, mem_filter, decide_not, Bool.not_eq_true',
    decide_eq_false_iff_not]
  constructor
  · rintro ⟨x, ⟨hx, hne⟩, rfl⟩
    exact ⟨⟨x, hx, rfl⟩, hne⟩
  · rintro ⟨⟨x, hx, rfl⟩, hne⟩
    exact ⟨x, ⟨hx, hne⟩, rfl⟩

theorem sdu_free_of_ne (hne : q ≠ p) : (h.free p).sdu q = h.sdu q := by
  unfold sdu free
  congr 1
  induction h.sdus with
  | nil => rfl
  | cons x l ih =>
    rw [filter_cons]
    split
    · rw [List.find?_cons, List.find?_cons, ih]
    · next hx =>
      have hx : x.ptr = p := by simpa using hx
      rw [ih, List.find?_cons]
      simp [hx, hne.symm]

end Heap

structure Segment.Fits (s : Segment) (x : Sdu) : Prop where
  stop_le : s.stop ≤ x.size
  pos : 0 < x.size → 0 < s.size
  first : s.isFirst = true ↔ s.so = 0
  last : s.isLast = true ↔ s.stop = x.size

variable {s : Segment}

theorem Segment.Fits.of_size {x y : Sdu} (h : s.Fits x) (hsize : y.size = x.size) :
    s.Fits y :=
  ⟨hsize ▸ h.stop_le, hsize ▸ h.pos, h.first, hsize ▸ h.last⟩

def Segment.Disjoint (s t : Segment) : Prop :=
  s.sdu = t.sdu → (s.stop ≤ t.so ∧ s.so < t.so) ∨ (t.stop ≤ s.so ∧ t.so < s.so)

theorem Segment.Disjoint.symm {t : Segment} (h : s.Disjoint t) : t.Disjoint s :=
  fun heq => (h heq.symm).symm

def segmentsOf (p : Nat) (l : List Segment) : Nat := l.countP (·.sdu = p)

theorem segmentsOf_cons (p : Nat) (s : Segment) (l : List Segment) :
    segmentsOf p (s :: l) = segmentsOf p l + if s.sdu = p then 1 else 0 := by
  simp [segmentsOf, countP_cons]

variable {l : List Segment}

theorem segmentsOf_pos {p : Nat} (hs : s ∈ l) (hp : s.sdu = p) :
    0 < segmentsOf p l := countP_pos_iff.mpr ⟨s, hs, by simpa using hp⟩

structure Heap.Holds (h : Heap) (l : List Segment) : Prop where
  ptr_nodup : (h.sdus.map Sdu.ptr).Nodup
  ptr_lt : ∀ p, h.Live p → p < h.fresh
  id_nodup : (l.map Segment.id).Nodup
  id_lt : ∀ s ∈ l, s.id < h.fresh
  live : ∀ s ∈ l, h.Live s.sdu
  held : ∀ p, h.Live p → 0 < segmentsOf p l
  count : ∀ p, h.Live p → (h.sdu p).freeCount + segmentsOf p l = (h.sdu p).refCount
  fits : ∀ s ∈ l, s.Fits (h.sdu s.sdu)
  disjoint : l.Pairwise Segment.Disjoint

namespace Heap.Holds

variable {h : Heap} {l l' : List Segment} {s : Segment} {f : Sdu → Sdu} {p : Nat}

theorem nil : Heap.Holds {} [] :=
  ⟨by simp, by simp [Live], by simp, by simp, by simp, by simp [Live], by simp [Live], by simp,
    by simp⟩

theorem perm (hh : h.Holds l) (hp : l.Perm l') : h.Holds l' where
  ptr_nodup := hh.ptr_nodup
  ptr_lt := hh.ptr_lt
  id_nodup := (hp.map _).nodup_iff.mp hh.id_nodup
  id_lt s hs := hh.id_lt s (hp.mem_iff.mpr hs)
  live s hs := hh.live s (hp.mem_iff.mpr hs)
  held p hl := by
    rw [segmentsOf, ← hp.countP_eq]
    exact hh.held p hl
  count p hl := by
    rw [segmentsOf, ← hp.countP_eq]
    exact hh.count p hl
  fits s hs := hh.fits s (hp.mem_iff.mpr hs)
  disjoint := (hp.pairwise_iff fun h => h.symm).mp hh.disjoint

theorem modify (hh : h.Holds l) (hf : ∀ x, (f x).ptr = x.ptr ∧ (f x).data = x.data ∧
      (f x).refCount = x.refCount ∧ (f x).freeCount = x.freeCount) (hl : h.Live p) :
    (h.modify p f).Holds l := by
  have hptr := fun x => (hf x).1
  have hsdu : ∀ q, h.Live q → ((h.modify p f).sdu q).data = (h.sdu q).data ∧
      ((h.modify p f).sdu q).refCount = (h.sdu q).refCount ∧
      ((h.modify p f).sdu q).freeCount = (h.sdu q).freeCount := by
    intro q _
    by_cases hq : q = p
    · subst hq
      rw [sdu_modify_self hptr hl]
      exact (hf _).2
    · rw [sdu_modify_of_ne hptr hq]
      exact ⟨rfl, rfl, rfl⟩
  refine ⟨?_, ?_, hh.id_nodup, hh.id_lt, ?_, ?_, ?_, ?_, hh.disjoint⟩
  · rw [map_ptr_modify hptr]
    exact hh.ptr_nodup
  · exact fun q hq => hh.ptr_lt q ((live_modify hptr).mp hq)
  · exact fun s hs => (live_modify hptr).mpr (hh.live s hs)
  · exact fun q hq => hh.held q ((live_modify hptr).mp hq)
  · intro q hq
    have hq := (live_modify hptr).mp hq
    rw [(hsdu q hq).2.1, (hsdu q hq).2.2]
    exact hh.count q hq
  · intro s hs
    exact (hh.fits s hs).of_size (congrArg List.length (hsdu _ (hh.live s hs)).1)

theorem not_live_fresh (hh : h.Holds l) : ¬ h.Live h.fresh := fun hl => by
  have := hh.ptr_lt _ hl
  omega

theorem segmentsOf_eq_zero (hh : h.Holds l) (hl : ¬ h.Live p) : segmentsOf p l = 0 := by
  rw [segmentsOf, countP_eq_zero]
  rintro s hs hp
  exact hl ((by simpa using hp : s.sdu = p) ▸ hh.live s hs)

end Heap.Holds

section newSdu

variable {h : Heap} {l : List Segment} (buffer : List Byte) (upperLayerId : Int)

theorem live_newSdu {q : Nat} :
    (newSdu h buffer upperLayerId).1.Live q ↔ h.Live q ∨ q = h.fresh := by
  simp [newSdu, Heap.Live]

theorem sdu_newSdu_of_ne {q : Nat} (hq : q ≠ h.fresh) :
    (newSdu h buffer upperLayerId).1.sdu q = h.sdu q := by
  have hq' : ¬ h.fresh = q := fun heq => hq heq.symm
  simp only [newSdu, Heap.sdu, List.find?_append]
  cases h.sdus.find? (·.ptr = q) with
  | some x => rfl
  | none => simp [hq']

theorem sdu_newSdu_self (hl : ¬ h.Live h.fresh) :
    (newSdu h buffer upperLayerId).1.sdu h.fresh =
      { ptr := h.fresh, sn := none, upperLayerId, data := buffer, retxCount := -1, refCount := 1
        freeCount := 0 } := by
  have hnone : h.sdus.find? (·.ptr = h.fresh) = none := by
    refine List.find?_eq_none.mpr fun x hx hp => hl ?_
    exact mem_map.mpr ⟨x, hx, by simpa using hp⟩
  simp [newSdu, Heap.sdu, List.find?_append, hnone]

theorem Heap.Holds.newSdu (hh : h.Holds l) :
    (newSdu h buffer upperLayerId).1.Holds ((newSdu h buffer upperLayerId).2 :: l) := by
  have hfresh := hh.not_live_fresh
  have hself := sdu_newSdu_self buffer upperLayerId hfresh
  have hne : ∀ q, h.Live q → q ≠ h.fresh := fun q hq heq => hfresh (heq ▸ hq)
  refine ⟨?_, ?_, ?_, ?_, ?_, ?_, ?_, ?_, ?_⟩
  · simp only [Rlc.newSdu, map_append, map_cons, map_nil]
    rw [nodup_append]
    refine ⟨hh.ptr_nodup, by simp, ?_⟩
    rintro a ha b hb rfl
    rw [mem_singleton] at hb
    exact hfresh (hb ▸ ha)
  · intro q hq
    change q < h.fresh + 2
    rcases (live_newSdu buffer upperLayerId).mp hq with hq | rfl
    · have := hh.ptr_lt q hq
      omega
    · omega
  · rw [map_cons, nodup_cons]
    refine ⟨fun hmem => ?_, hh.id_nodup⟩
    obtain ⟨t, ht, hid⟩ := mem_map.mp hmem
    have hlt := hh.id_lt t ht
    have hid : t.id = h.fresh + 1 := hid
    omega
  · intro t ht
    change t.id < h.fresh + 2
    rcases mem_cons.mp ht with rfl | ht
    · change h.fresh + 1 < h.fresh + 2
      omega
    · have := hh.id_lt t ht
      omega
  · intro t ht
    rw [live_newSdu]
    rcases mem_cons.mp ht with rfl | ht
    · exact .inr rfl
    · exact .inl (hh.live t ht)
  · intro q hq
    rw [segmentsOf_cons]
    rcases (live_newSdu buffer upperLayerId).mp hq with hq | rfl
    · exact Nat.add_pos_left (hh.held q hq) _
    · exact Nat.add_pos_right _ (by simp [Rlc.newSdu])
  · intro q hq
    rw [segmentsOf_cons]
    rcases (live_newSdu buffer upperLayerId).mp hq with hq | rfl
    · have hne' : ¬ (Rlc.newSdu h buffer upperLayerId).2.sdu = q := fun heq => hne q hq heq.symm
      rw [if_neg hne', sdu_newSdu_of_ne buffer upperLayerId (hne q hq)]
      exact hh.count q hq
    · rw [hself, hh.segmentsOf_eq_zero hfresh]
      simp [Rlc.newSdu]
  · intro t ht
    rcases mem_cons.mp ht with rfl | ht
    · change Segment.Fits _ ((Rlc.newSdu h buffer upperLayerId).1.sdu h.fresh)
      rw [hself]
      exact ⟨by simp [Rlc.newSdu, Segment.stop, Sdu.size], by simp [Rlc.newSdu, Sdu.size],
        by simp [Rlc.newSdu], by simp [Rlc.newSdu, Segment.stop, Sdu.size]⟩
    · rw [sdu_newSdu_of_ne buffer upperLayerId (hne _ (hh.live t ht))]
      exact hh.fits t ht
  · rw [pairwise_cons]
    refine ⟨fun t ht heq => absurd (hh.live t ht) ?_, hh.disjoint⟩
    rw [← heq]
    exact hfresh

end newSdu

section freeSduSegment

variable {h : Heap} {s : Segment} {l : List Segment} {q : Nat}

theorem freeSduSegment_snd (hh : h.Holds (s :: l)) :
    (freeSduSegment h s).2 = decide (segmentsOf s.sdu l = 0) := by
  have hlive := hh.live s (by simp)
  have hc := hh.count _ hlive
  rw [segmentsOf_cons, if_pos rfl] at hc
  unfold freeSduSegment
  dsimp only
  rw [Heap.sdu_modify_self (by simp) hlive]
  dsimp only
  split
  · next heq => exact (decide_eq_true (by omega)).symm
  · next hne => exact (decide_eq_false (by omega)).symm

theorem freeSduSegment_fst (hh : h.Holds (s :: l)) :
    (freeSduSegment h s).1 =
      if segmentsOf s.sdu l = 0 then
        (h.modify s.sdu fun sdu => { sdu with freeCount := sdu.freeCount + 1 }).free s.sdu
      else h.modify s.sdu fun sdu => { sdu with freeCount := sdu.freeCount + 1 } := by
  have hsnd := freeSduSegment_snd hh
  unfold freeSduSegment at hsnd ⊢
  dsimp only at hsnd ⊢
  split at hsnd
  · next heq =>
    rw [if_pos heq, if_pos (by simpa using hsnd.symm)]
  · next hne =>
    rw [if_neg hne, if_neg (by simpa using hsnd.symm)]

theorem live_freeSduSegment (hh : h.Holds (s :: l)) :
    (freeSduSegment h s).1.Live q ↔ h.Live q ∧ (q = s.sdu → 0 < segmentsOf q l) := by
  rw [freeSduSegment_fst hh]
  split
  · next hz =>
    rw [Heap.live_free, Heap.live_modify (by simp)]
    refine and_congr_right fun _ => ⟨fun hne heq => absurd heq hne, fun himp heq => ?_⟩
    have := himp heq
    rw [heq, hz] at this
    exact absurd this (Nat.lt_irrefl 0)
  · next hz =>
    rw [Heap.live_modify (by simp)]
    refine ⟨fun hl => ⟨hl, fun heq => ?_⟩, And.left⟩
    rw [heq]
    exact Nat.pos_of_ne_zero hz

theorem sdu_freeSduSegment (hh : h.Holds (s :: l)) (hq : (freeSduSegment h s).1.Live q) :
    (freeSduSegment h s).1.sdu q =
      { h.sdu q with freeCount := (h.sdu q).freeCount + if s.sdu = q then 1 else 0 } := by
  have hlive := (live_freeSduSegment hh).mp hq
  rw [freeSduSegment_fst hh]
  by_cases heq : q = s.sdu
  · subst heq
    rw [if_neg (Nat.pos_iff_ne_zero.mp (hlive.2 rfl)), Heap.sdu_modify_self (by simp) hlive.1,
      if_pos rfl]
  · rw [if_neg (Ne.symm heq)]
    split
    · rw [Heap.sdu_free_of_ne heq, Heap.sdu_modify_of_ne (by simp) heq]
      rfl
    · rw [Heap.sdu_modify_of_ne (by simp) heq]
      rfl

theorem fresh_freeSduSegment : (freeSduSegment h s).1.fresh = h.fresh := by
  unfold freeSduSegment
  dsimp only
  split <;> rfl

theorem Heap.Holds.freeSduSegment (hh : h.Holds (s :: l)) : (freeSduSegment h s).1.Holds l := by
  have hnd : (s.id :: l.map Segment.id).Nodup := hh.id_nodup
  rw [nodup_cons] at hnd
  have hlive : ∀ t ∈ l, (Rlc.freeSduSegment h s).1.Live t.sdu := fun t ht =>
    (live_freeSduSegment hh).mpr ⟨hh.live t (mem_cons_of_mem s ht), fun _ =>
      segmentsOf_pos ht rfl⟩
  refine ⟨?_, ?_, hnd.2, ?_, hlive, ?_, ?_, ?_, (pairwise_cons.mp hh.disjoint).2⟩
  · rw [freeSduSegment_fst hh]
    have hmod : ((h.modify s.sdu fun sdu => { sdu with freeCount := sdu.freeCount + 1 }).sdus.map
        Sdu.ptr).Nodup := by
      rw [map_ptr_modify (by simp)]
      exact hh.ptr_nodup
    split
    · exact hmod.sublist (filter_sublist.map _)
    · exact hmod
  · intro q hq
    rw [fresh_freeSduSegment]
    exact hh.ptr_lt q ((live_freeSduSegment hh).mp hq).1
  · intro t ht
    rw [fresh_freeSduSegment]
    exact hh.id_lt t (mem_cons_of_mem s ht)
  · intro q hq
    have hl := (live_freeSduSegment hh).mp hq
    by_cases heq : q = s.sdu
    · exact hl.2 heq
    · have := hh.held q hl.1
      rwa [segmentsOf_cons, if_neg (Ne.symm heq)] at this
  · intro q hq
    have hc := hh.count q ((live_freeSduSegment hh).mp hq).1
    rw [sdu_freeSduSegment hh hq]
    rw [segmentsOf_cons] at hc
    dsimp only
    omega
  · intro t ht
    rw [sdu_freeSduSegment hh (hlive t ht)]
    exact (hh.fits t (mem_cons_of_mem s ht)).of_size rfl

end freeSduSegment

structure Segment.Splits (s s₁ s₂ : Segment) (fresh : Nat) : Prop where
  id₁ : s₁.id = s.id
  id₂ : s₂.id = fresh
  sdu₁ : s₁.sdu = s.sdu
  sdu₂ : s₂.sdu = s.sdu
  so₁ : s₁.so = s.so
  so₂ : s₂.so = s₁.stop
  stop₂ : s₂.stop = s.stop
  size₁ : 0 < s₁.size
  size₂ : 0 < s₂.size
  first₁ : s₁.isFirst = s.isFirst
  first₂ : s₂.isFirst = false
  last₁ : s₁.isLast = false
  last₂ : s₂.isLast = s.isLast

def Heap.split (h : Heap) (p : Nat) : Heap :=
  { h.modify p fun sdu => { sdu with refCount := sdu.refCount + 1 } with fresh := h.fresh + 1 }

section split

variable {h : Heap} {s s₁ s₂ : Segment} {l : List Segment} {p q : Nat}

theorem Heap.live_split : (h.split p).Live q ↔ h.Live q :=
  Heap.live_modify (h := h) (f := fun sdu => { sdu with refCount := sdu.refCount + 1 }) (by simp)

theorem Heap.sdu_split (hl : h.Live q) : (h.split p).sdu q =
    { h.sdu q with refCount := (h.sdu q).refCount + if p = q then 1 else 0 } := by
  change (h.modify p fun sdu => { sdu with refCount := sdu.refCount + 1 }).sdu q = _
  by_cases hq : q = p
  · subst hq
    rw [sdu_modify_self (by simp) hl, if_pos rfl]
  · rw [sdu_modify_of_ne (by simp) hq, if_neg (Ne.symm hq)]
    rfl

theorem Heap.Holds.split (hh : h.Holds (s :: l)) (hs : s.Splits s₁ s₂ h.fresh) :
    (h.split s.sdu).Holds (s₁ :: s₂ :: l) := by
  have hmem : ∀ t ∈ s₁ :: s₂ :: l, t = s₁ ∨ t = s₂ ∨ t ∈ l := by simp
  have hlive := hh.live s (by simp)
  have hcount : ∀ q, segmentsOf q (s₁ :: s₂ :: l) =
      segmentsOf q (s :: l) + if s.sdu = q then 1 else 0 := by
    intro q
    rw [segmentsOf_cons, segmentsOf_cons, segmentsOf_cons, hs.sdu₁, hs.sdu₂]
  have hlt := hh.id_lt s (by simp)
  have hnd : (s.id :: l.map Segment.id).Nodup := hh.id_nodup
  have hfits := hh.fits s (by simp)
  have hst₁ : s₁.stop = s₁.so + s₁.size := rfl
  have hst₂ : s₂.stop = s₂.so + s₂.size := rfl
  have hso₁ := hs.so₁
  have hso₂ := hs.so₂
  have hstop₂ := hs.stop₂
  have hp₁ := hs.size₁
  have hp₂ := hs.size₂
  refine ⟨?_, ?_, ?_, ?_, ?_, ?_, ?_, ?_, ?_⟩
  · change ((h.modify s.sdu _).sdus.map Sdu.ptr).Nodup
    rw [map_ptr_modify (by simp)]
    exact hh.ptr_nodup
  · intro q hq
    have := hh.ptr_lt q (live_split.mp hq)
    change q < h.fresh + 1
    omega
  · rw [map_cons, map_cons, hs.id₁, hs.id₂, nodup_cons, nodup_cons]
    rw [nodup_cons] at hnd
    refine ⟨?_, fun hmem => ?_, hnd.2⟩
    · rw [mem_cons]
      rintro (heq | hmem)
      · omega
      · exact hnd.1 hmem
    · obtain ⟨t, ht, hid⟩ := mem_map.mp hmem
      have := hh.id_lt t (mem_cons_of_mem s ht)
      omega
  · intro t ht
    change t.id < h.fresh + 1
    rcases hmem t ht with rfl | rfl | ht
    · rw [hs.id₁]
      omega
    · rw [hs.id₂]
      omega
    · have := hh.id_lt t (mem_cons_of_mem s ht)
      omega
  · intro t ht
    rw [live_split]
    rcases hmem t ht with rfl | rfl | ht
    · exact hs.sdu₁ ▸ hlive
    · exact hs.sdu₂ ▸ hlive
    · exact hh.live t (mem_cons_of_mem s ht)
  · intro q hq
    rw [hcount]
    exact Nat.add_pos_left (hh.held q (live_split.mp hq)) _
  · intro q hq
    have hc := hh.count q (live_split.mp hq)
    rw [sdu_split (live_split.mp hq), hcount]
    dsimp only
    omega
  · intro t ht
    have hf : t.Fits (h.sdu t.sdu) := by
      rcases hmem t ht with rfl | rfl | ht
      · rw [hs.sdu₁]
        refine ⟨?_, fun _ => hp₁, ?_, ?_⟩
        · have := hfits.stop_le
          omega
        · rw [hs.first₁, hfits.first, hso₁]
        · rw [hs.last₁]
          have := hfits.stop_le
          constructor
          · intro hf
            cases hf
          · omega
      · rw [hs.sdu₂]
        refine ⟨hstop₂ ▸ hfits.stop_le, fun _ => hp₂, ?_, ?_⟩
        · rw [hs.first₂]
          constructor
          · intro hf
            cases hf
          · omega
        · rw [hs.last₂, hfits.last, hstop₂]
      · exact hh.fits t (mem_cons_of_mem s ht)
    have hl : h.Live t.sdu := by
      rcases hmem t ht with rfl | rfl | ht
      · exact hs.sdu₁ ▸ hlive
      · exact hs.sdu₂ ▸ hlive
      · exact hh.live t (mem_cons_of_mem s ht)
    rw [sdu_split hl]
    exact hf.of_size rfl
  · have hd := pairwise_cons.mp hh.disjoint
    rw [pairwise_cons, pairwise_cons]
    refine ⟨fun t ht heq => ?_, fun t ht heq => ?_, hd.2⟩
    · rcases mem_cons.mp ht with rfl | ht
      · exact .inl ⟨hso₂.ge, by omega⟩
      · have := hd.1 t ht (hs.sdu₁ ▸ heq)
        omega
    · have := hd.1 t ht (hs.sdu₂ ▸ heq)
      omega

end split

theorem holds_freeSduSegmentList {h : Heap} {l' : List Segment} (hh : h.Holds (l ++ l')) :
    (freeSduSegmentList h l).Holds l' := by
  induction l generalizing h with
  | nil => exact hh
  | cons s l ih => exact ih hh.freeSduSegment

theorem linkAfter_of_mem {w : Segment} (s : Segment) (hw : w ∈ l) (hid : (l.map Segment.id).Nodup) :
    ∃ l₁ l₂, l = l₁ ++ w :: l₂ ∧ linkAfter l w.id s = l₁ ++ [w, s] := by
  induction l with
  | nil => cases hw
  | cons x l ih =>
    rw [map_cons, nodup_cons] at hid
    rw [linkAfter]
    rcases mem_cons.mp hw with rfl | hw
    · exact ⟨[], l, rfl, if_pos rfl⟩
    · have hne : x.id ≠ w.id := fun heq => hid.1 (heq ▸ mem_map_of_mem hw)
      obtain ⟨l₁, l₂, hl, hlink⟩ := ih hw hid.2
      refine ⟨x :: l₁, l₂, by rw [hl, cons_append], ?_⟩
      rw [if_neg hne, hlink, cons_append]

structure Appends (l : List Segment) (end_ : Option Segment) (s : Segment) (l₁ l₂ : List Segment) :
    Prop where
  eq : l = l₁ ++ l₂
  last : ∀ w, l₁.getLast? = some w → end_ = some w
  tail : end_ = l.getLast? → l₂ = []

theorem sduSegmentListAppend_appends {l' : List Segment} {end_ end' : Option Segment}
    (hid : (l.map Segment.id).Nodup) (h : sduSegmentListAppend l end_ s = some (l', end')) :
    ∃ l₁ l₂, Appends l end_ s l₁ l₂ ∧ l' = l₁ ++ [s] ∧ end' = some s := by
  unfold sduSegmentListAppend at h
  split at h
  · cases h
    exact ⟨[], [], ⟨rfl, by simp, fun _ => rfl⟩, rfl, rfl⟩
  · cases h
  · next w _ =>
    split at h
    · next hw =>
      cases h
      obtain ⟨l₁, l₂, rfl, hlink⟩ := linkAfter_of_mem s hw hid
      refine ⟨l₁ ++ [w], l₂, ⟨by simp, by simp, fun htail => ?_⟩, by simp [hlink], rfl⟩
      -- no other segment has the address of the last one
      cases l₂ with
      | nil => rfl
      | cons x l₂ =>
        rw [List.getLast?_append, List.getLast?_cons_cons] at htail
        have hmem : w ∈ x :: l₂ := by
          cases hlast : (x :: l₂).getLast? with
          | none => simp at hlast
          | some y =>
            rw [hlast] at htail
            cases htail
            exact mem_of_getLast? hlast
        rw [map_append, map_cons] at hid
        have := (nodup_cons.mp (nodup_append.mp hid).2.1).1
        exact absurd (mem_map_of_mem hmem) this
    · cases h

end OpenAir.Rlc

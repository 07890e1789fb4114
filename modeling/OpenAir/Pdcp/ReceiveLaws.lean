import OpenAir.Lib.Sorted
import OpenAir.Pdcp.Step

namespace OpenAir.Pdcp

open List

variable {s : Sdu} {l : List Sdu} {n : UInt32}

theorem sduListAdd_eq (s : Sdu) (l : List Sdu) :
    sduListAdd s l = l.orderedInsert (fun a b => a.count.toNat < b.count.toNat) s := by
  induction l with
  | nil => rfl
  | cons a l ih => simp only [sduListAdd, orderedInsert_cons, UInt32.lt_iff_toNat_lt, ih]

theorem sduListAdd_perm (s : Sdu) (l : List Sdu) : (sduListAdd s l).Perm (s :: l) := by
  rw [sduListAdd_eq]
  exact perm_orderedInsert _ s l

theorem mem_sduListAdd {t : Sdu} : t ∈ sduListAdd s l ↔ t = s ∨ t ∈ l := by
  rw [(sduListAdd_perm s l).mem_iff, mem_cons]

theorem sduInList_eq_false : sduInList l n = false ↔ ∀ s ∈ l, s.count ≠ n := by
  simp [sduInList]

def Ascending (l : List Sdu) : Prop := l.Pairwise fun s t => s.count < t.count

theorem Ascending.sduListAdd (hl : Ascending l) (hs : sduInList l s.count = false) :
    Ascending (sduListAdd s l) := by
  have hkey : l.Pairwise fun a b => a.count.toNat < b.count.toNat :=
    hl.imp UInt32.lt_iff_toNat_lt.mp
  have hne : ∀ a ∈ l, a.count.toNat ≠ s.count.toNat := fun a ha heq =>
    sduInList_eq_false.mp hs a ha (UInt32.toNat_inj.mp heq)
  rw [Ascending, sduListAdd_eq]
  exact (Sorted.pairwise_orderedInsert hkey hne).imp UInt32.lt_iff_toNat_lt.mpr

structure DeliversFrom (n last : UInt32) (l out rest : List Sdu) (next : UInt32) : Prop where
  append : out ++ rest = l
  le : n ≤ next
  next_le : next ≤ last
  out_lt : ∀ s ∈ out, s.count < next
  rest_gt : ∀ s ∈ rest, next < s.count

theorem deliversFrom {last : UInt32} (hl : Ascending l)
    (hin : ∀ s ∈ l, n ≤ s.count ∧ s.count < last) (hn : n ≤ last) :
    DeliversFrom n last l (deliverFrom n l).1 (deliverFrom n l).2.1 (deliverFrom n l).2.2 := by
  induction l generalizing n with
  | nil => exact ⟨rfl, UInt32.le_refl n, hn, by simp [deliverFrom], by simp [deliverFrom]⟩
  | cons a l ih =>
    obtain ⟨ha, hl⟩ := pairwise_cons.mp hl
    have hcur := hin a (by simp)
    rw [deliverFrom]
    split
    · next heq =>
      have hrest : ∀ s ∈ l, n + 1 ≤ s.count ∧ s.count < last := fun s hs => by
        have h₁ := ha s hs
        have h₂ := (hin s (by simp [hs])).2
        grind
      have h := ih hl hrest (by grind)
      refine ⟨congrArg (a :: ·) h.append, ?_, h.next_le, fun s hs => ?_, h.rest_gt⟩
      · have := h.le
        grind
      · rcases mem_cons.mp hs with rfl | hs
        · have := h.le
          grind
        · exact h.out_lt s hs
    · next hne =>
      refine ⟨rfl, UInt32.le_refl n, hn, by simp, fun s hs => ?_⟩
      rcases mem_cons.mp hs with rfl | hs
      · grind
      · have := ha s hs
        grind

namespace Entity

variable {sec : Security} {c : Config} {e : Entity}

@[simp] theorem startTReordering_rxList : e.startTReordering.rxList = e.rxList := by
  unfold startTReordering
  split <;> rfl

@[simp] theorem startTReordering_rxDeliv : e.startTReordering.rxDeliv = e.rxDeliv := by
  unfold startTReordering
  split <;> rfl

@[simp] theorem startTReordering_rxNext : e.startTReordering.rxNext = e.rxNext := by
  unfold startTReordering
  split <;> rfl

@[simp] theorem stopTReordering_rxList : e.stopTReordering.rxList = e.rxList := by
  unfold stopTReordering
  split <;> rfl

@[simp] theorem stopTReordering_rxDeliv : e.stopTReordering.rxDeliv = e.rxDeliv := by
  unfold stopTReordering
  split <;> rfl

@[simp] theorem stopTReordering_rxNext : e.stopTReordering.rxNext = e.rxNext := by
  unfold stopTReordering
  split <;> rfl

structure Stored (e : Entity) : Prop where
  sorted : Ascending e.rxList
  between : ∀ s ∈ e.rxList, e.rxDeliv < s.count ∧ s.count < e.rxNext
  deliv_le : e.rxDeliv ≤ e.rxNext

structure Reordering (e : Entity) : Prop extends e.Stored where
  reord : e.tReorderingStart ≠ 0 → e.rxDeliv < e.rxReord ∧ e.rxReord ≤ e.rxNext

structure Delivers (e e' : Entity) (accepted : Option Sdu) (out : List Sdu) : Prop where
  deliv_le : e.rxDeliv ≤ e'.rxDeliv
  sorted : Ascending out
  between : ∀ s ∈ out, e.rxDeliv ≤ s.count ∧ s.count < e'.rxDeliv
  perm : (out ++ e'.rxList).Perm (accepted.toList ++ e.rxList)

theorem Stored.startTReordering (h : e.Stored) : e.startTReordering.Stored :=
  ⟨by simpa using h.sorted, by simpa using h.between, by simpa using h.deliv_le⟩

theorem Stored.stopTReordering (h : e.Stored) : e.stopTReordering.Stored :=
  ⟨by simpa using h.sorted, by simpa using h.between, by simpa using h.deliv_le⟩

theorem Stored.starts (h : e.Stored)
    (hr : e.tReorderingStart ≠ 0 → e.rxDeliv < e.rxReord ∧ e.rxReord ≤ e.rxNext) :
    e.startTReordering.Reordering := by
  refine ⟨h.startTReordering, fun hrun => ?_⟩
  unfold Entity.startTReordering at hrun ⊢
  split
  · next hs => exact ⟨hs.2, UInt32.le_refl _⟩
  · next hs =>
    rw [if_neg hs] at hrun
    exact hr hrun

theorem Stored.restarts (h : e.Stored) (hr : e.tReorderingStart ≠ 0 → e.rxReord ≤ e.rxNext) :
    e.stopTReordering.startTReordering.Reordering := by
  refine h.stopTReordering.starts fun hrun => ?_
  unfold Entity.stopTReordering at hrun ⊢
  split
  · next hs =>
    rw [if_pos hs] at hrun
    exact absurd rfl hrun
  · next hs =>
    rw [if_neg hs] at hrun
    exact ⟨by grind, hr hrun⟩

theorem deliver_stored (hl : Ascending e.rxList)
    (hin : ∀ s ∈ e.rxList, n ≤ s.count ∧ s.count < e.rxNext) (hn : n ≤ e.rxNext) :
    (e.deliver n).1.Stored ∧ n ≤ (e.deliver n).1.rxDeliv ∧
      (e.deliver n).2 ++ (e.deliver n).1.rxList = e.rxList ∧
      ∀ s ∈ (e.deliver n).2, s.count < (e.deliver n).1.rxDeliv := by
  have h := deliversFrom hl hin hn
  have hsub : ∀ s ∈ (deliverFrom n e.rxList).2.1, s ∈ e.rxList := fun s hs =>
    h.append ▸ mem_append_right _ hs
  refine ⟨⟨?_, fun s hs => ⟨h.rest_gt s hs, (hin s (hsub s hs)).2⟩, h.next_le⟩, h.le, h.append,
    h.out_lt⟩
  have happ := h.append ▸ hl
  exact (pairwise_append.mp happ).2.1

theorem accepted_eq_some {pdu : List Byte} : e.accepted sec c pdu = some s ↔
    e.decode sec c pdu = some s ∧ e.rxDeliv ≤ s.count ∧ sduInList e.rxList s.count = false := by
  simp only [accepted, Option.filter_eq_some_iff, Bool.not_or, Bool.and_eq_true,
    Bool.not_eq_true', decide_eq_false_iff_not, UInt32.not_lt]

theorem store_between (h : e.Stored) (hle : e.rxDeliv ≤ s.count) (hmax : s.count ≠ 0xffffffff) :
    ∀ t ∈ (e.store s).rxList, e.rxDeliv ≤ t.count ∧ t.count < (e.store s).rxNext := by
  intro t ht
  have hnext : (e.store s).rxNext = if s.count ≥ e.rxNext then s.count + 1 else e.rxNext := rfl
  rcases mem_sduListAdd.mp ht with rfl | ht
  · refine ⟨hle, ?_⟩
    rw [hnext]
    grind
  · have := h.between t ht
    refine ⟨UInt32.le_of_lt this.1, ?_⟩
    rw [hnext]
    grind

theorem store_rxNext_le (e : Entity) (hmax : s.count ≠ 0xffffffff) :
    e.rxNext ≤ (e.store s).rxNext ∧ s.count < (e.store s).rxNext := by
  have hnext : (e.store s).rxNext = if s.count ≥ e.rxNext then s.count + 1 else e.rxNext := rfl
  rw [hnext]
  grind

def storeDeliver (e : Entity) (s : Sdu) : Entity × List Sdu :=
  if s.count = (e.store s).rxDeliv then (e.store s).deliver (e.store s).rxDeliv else (e.store s, [])

theorem recvPdu_eq (e : Entity) (pdu : List Byte) : e.recvPdu sec c pdu =
    match e.accepted sec c pdu with
    | none => (e, [])
    | some s => ((e.storeDeliver s).1.stopTReordering.startTReordering, (e.storeDeliver s).2) := rfl

section

variable (h : e.Stored) (hle : e.rxDeliv ≤ s.count) (hnew : sduInList e.rxList s.count = false)
  (hmax : s.count ≠ 0xffffffff)
include h hle hnew hmax

theorem Stored.storeDeliver :
    (e.storeDeliver s).1.Stored ∧ e.rxDeliv ≤ (e.storeDeliver s).1.rxDeliv ∧
    (e.storeDeliver s).2 ++ (e.storeDeliver s).1.rxList = sduListAdd s e.rxList ∧
    ∀ t ∈ (e.storeDeliver s).2, t.count < (e.storeDeliver s).1.rxDeliv := by
  have hsorted : Ascending (e.store s).rxList := h.sorted.sduListAdd hnew
  have hbetween := store_between h hle hmax
  have hnext := (store_rxNext_le e hmax).1
  have hdeliv := h.deliv_le
  unfold Entity.storeDeliver
  split
  · next heq =>
    exact deliver_stored hsorted hbetween (show e.rxDeliv ≤ _ by grind)
  · next hne =>
    refine ⟨⟨hsorted, fun t ht => ⟨?_, (hbetween t ht).2⟩, show e.rxDeliv ≤ _ by grind⟩,
      UInt32.le_refl _, rfl, by simp⟩
    rcases mem_sduListAdd.mp ht with rfl | ht
    · change ¬ t.count = e.rxDeliv at hne
      change e.rxDeliv < t.count
      grind
    · exact (h.between t ht).1

theorem Stored.storeDeliver_delivers :
    Delivers e (e.storeDeliver s).1 (some s) (e.storeDeliver s).2 := by
  obtain ⟨-, hdeliv, happ, hout⟩ := h.storeDeliver hle hnew hmax
  have hsorted : Ascending (sduListAdd s e.rxList) := h.sorted.sduListAdd hnew
  have hbetween := store_between h hle hmax
  refine ⟨hdeliv, ?_, fun t ht => ⟨(hbetween t ?_).1, hout t ht⟩, ?_⟩
  · rw [← happ] at hsorted
    exact (pairwise_append.mp hsorted).1
  · change t ∈ sduListAdd s e.rxList
    rw [← happ]
    exact mem_append_left _ ht
  · rw [happ]
    exact sduListAdd_perm s e.rxList

end

theorem storeDeliver_rxNext (e : Entity) (s : Sdu) :
    (e.storeDeliver s).1.rxNext = (e.store s).rxNext := by
  unfold storeDeliver
  split <;> rfl

theorem storeDeliver_timer (e : Entity) (s : Sdu) :
    (e.storeDeliver s).1.tReorderingStart = e.tReorderingStart ∧
      (e.storeDeliver s).1.rxReord = e.rxReord ∧ (e.storeDeliver s).1.tCurrent = e.tCurrent := by
  unfold storeDeliver
  split <;> exact ⟨rfl, rfl, rfl⟩

def stopped (e : Entity) : Entity :=
  { e with
    tReorderingStart := 0
    rxList := e.rxList.dropWhile fun s => decide (s.count < e.rxReord) }

def expire (e : Entity) : Entity × List Sdu :=
  ((e.stopped.deliver e.rxReord).1.startTReordering,
    (e.rxList.takeWhile fun s => decide (s.count < e.rxReord)) ++ (e.stopped.deliver e.rxReord).2)

theorem setTime_cases (c : Config) (e : Entity) (now : UInt64) :
    e.setTime c now = ({ e with tCurrent := now }, []) ∨
      (e.tReorderingStart ≠ 0 ∧ e.tReorderingStart + .ofInt c.tReordering < now ∧
        e.setTime c now = expire { e with tCurrent := now }) := by
  unfold setTime checkTReordering
  split
  · exact .inl rfl
  · split
    · exact .inl rfl
    · next hexp =>
      obtain ⟨hrun, hlate⟩ := not_or.mp hexp
      exact .inr ⟨hrun, UInt64.not_le.mp hlate, rfl⟩

namespace Reordering

variable {pdu : List Byte} (h : e.Reordering)
include h

theorem recvPdu (hwrap : ∀ s, e.accepted sec c pdu = some s → s.count ≠ 0xffffffff) :
    (e.recvPdu sec c pdu).1.Reordering ∧
      Delivers e (e.recvPdu sec c pdu).1 (e.accepted sec c pdu) (e.recvPdu sec c pdu).2 := by
  rw [recvPdu_eq]
  cases hacc : e.accepted sec c pdu with
  | none => exact ⟨h, UInt32.le_refl _, .nil, by simp, by simp⟩
  | some s =>
    obtain ⟨-, hle, hnew⟩ := accepted_eq_some.mp hacc
    have hmax := hwrap s hacc
    have hd := h.storeDeliver_delivers hle hnew hmax
    refine ⟨(h.storeDeliver hle hnew hmax).1.restarts fun hrun => ?_, ?_, hd.sorted, ?_, ?_⟩
    · obtain ⟨hstart, hreord, -⟩ := storeDeliver_timer e s
      rw [hstart] at hrun
      have h₁ := (h.reord hrun).2
      have h₂ := (store_rxNext_le e hmax).1
      rw [storeDeliver_rxNext, hreord]
      grind
    · simpa using hd.deliv_le
    · simpa using hd.between
    · simpa using hd.perm

theorem takeWhile_reord :
    (e.rxList.takeWhile fun s => decide (s.count < e.rxReord)) =
        e.rxList.filter (fun s => decide (s.count < e.rxReord)) ∧
      (e.rxList.dropWhile fun s => decide (s.count < e.rxReord)) =
        e.rxList.filter fun s => !decide (s.count < e.rxReord) := by
  have hpre : e.rxList.Pairwise fun s t =>
      decide (t.count < e.rxReord) → decide (s.count < e.rxReord) := by
    refine h.sorted.imp fun {s t} hst ht => ?_
    simp only [decide_eq_true_eq] at ht ⊢
    exact UInt32.lt_trans hst ht
  exact ⟨Sorted.takeWhile_eq_filter hpre, Sorted.dropWhile_eq_filter hpre⟩

theorem expire (hrun : e.tReorderingStart ≠ 0) :
    e.expire.1.Reordering ∧ Delivers e e.expire.1 none e.expire.2 := by
  obtain ⟨hlt, hle⟩ := h.reord hrun
  obtain ⟨htake, hdrop⟩ := h.takeWhile_reord
  have hsplit : (e.rxList.takeWhile fun s => decide (s.count < e.rxReord)) ++
      (e.rxList.dropWhile fun s => decide (s.count < e.rxReord)) = e.rxList :=
    takeWhile_append_dropWhile
  have hsorted : Ascending (_ ++ _) := hsplit ▸ h.sorted
  obtain ⟨-, hsorted', -⟩ := pairwise_append.mp hsorted
  have hin : ∀ s ∈ e.rxList.dropWhile (fun s => decide (s.count < e.rxReord)),
      e.rxReord ≤ s.count ∧ s.count < e.rxNext := fun s hs => by
    rw [hdrop, mem_filter] at hs
    exact ⟨by simpa using hs.2, (h.between s hs.1).2⟩
  have hstored := deliver_stored (e := e.stopped) hsorted' hin hle
  obtain ⟨hst, hdeliv, happ, hout⟩ := hstored
  have hall : e.expire.2 ++ e.expire.1.rxList = e.rxList := by
    rw [Entity.expire, append_assoc, startTReordering_rxList, happ]
    exact hsplit
  refine ⟨hst.starts fun hr => absurd rfl hr, ?_, ?_, fun s hs => ⟨?_, ?_⟩, ?_⟩
  · rw [Entity.expire, startTReordering_rxDeliv]
    exact UInt32.le_trans (UInt32.le_of_lt hlt) hdeliv
  · have hs := h.sorted
    rw [← hall] at hs
    exact (pairwise_append.mp hs).1
  · exact UInt32.le_of_lt (h.between s (hall ▸ mem_append_left _ hs)).1
  · rw [Entity.expire, startTReordering_rxDeliv]
    rcases mem_append.mp hs with hs | hs
    · rw [htake, mem_filter, decide_eq_true_eq] at hs
      exact UInt32.lt_of_lt_of_le hs.2 hdeliv
    · exact hout s hs
  · rw [hall]
    exact .refl _

theorem setTime (now : UInt64) :
    (e.setTime c now).1.Reordering ∧ Delivers e (e.setTime c now).1 none (e.setTime c now).2 := by
  have htime : Reordering { e with tCurrent := now } := ⟨⟨h.sorted, h.between, h.deliv_le⟩, h.reord⟩
  rcases setTime_cases c e now with heq | ⟨hrun, -, heq⟩
  · rw [heq]
    exact ⟨htime, UInt32.le_refl _, .nil, by simp, by simp⟩
  · rw [heq]
    obtain ⟨hre, hd⟩ := htime.expire hrun
    exact ⟨hre, hd.deliv_le, hd.sorted, hd.between, hd.perm⟩

end Reordering

end Entity

end OpenAir.Pdcp

import OpenAir.Lib.Sorted
import OpenAir.Rlc.ReassemblyLaws
import OpenAir.Rlc.Um.Receive

/-! The reassembly window.  SNs are ordered by their rank in it, and the PDUs of an SN lie together
in the reception list. -/

namespace OpenAir.Rlc.Um

open RxManager List

variable {c : Config} {highest a b x : Nat}

namespace Config

variable (c : Config)

theorem windowSize_ge : 32 ≤ c.windowSize := by
  rcases c.snFieldLength_eq with h | h <;> simp [windowSize, snModulus, h]

theorem snModulus_eq : c.snModulus = 2 * c.windowSize := by
  rcases c.snFieldLength_eq with h | h <;> simp [windowSize, snModulus, h]

end Config

def rank (c : Config) (highest sn : Nat) : Nat :=
  Cyclic.dist c.snModulus ((highest + c.snModulus - c.windowSize) % c.snModulus) sn

section

variable (hh : highest < c.snModulus)
include hh

theorem base_eq : (highest + c.snModulus - c.windowSize) % c.snModulus =
    if c.windowSize ≤ highest then highest - c.windowSize else highest + c.windowSize := by
  have hM := c.snModulus_eq
  split
  · rw [show highest + c.snModulus - c.windowSize = highest - c.windowSize + c.snModulus by omega,
      Nat.add_mod_right, Nat.mod_eq_of_lt (by omega)]
  · rw [Nat.mod_eq_of_lt (by omega)]
    omega

theorem base_lt : (highest + c.snModulus - c.windowSize) % c.snModulus < c.snModulus :=
  Nat.mod_lt _ (by omega)

theorem rank_lt (ha : a < c.snModulus) : rank c highest a < c.snModulus :=
  Cyclic.dist_lt (base_lt hh) ha

theorem rank_inj (ha : a < c.snModulus) (hb : b < c.snModulus) :
    rank c highest a = rank c highest b ↔ a = b :=
  ⟨Cyclic.dist_inj (base_lt hh) ha hb, fun h => h ▸ rfl⟩

@[simp] theorem rank_highest : rank c highest highest = c.windowSize := by
  have hM := c.snModulus_eq
  rw [rank, base_eq hh, Cyclic.dist]
  split <;> split <;> omega

omit hh in
theorem rank_base :
    rank c highest ((highest + c.snModulus - c.windowSize) % c.snModulus) = 0 := by
  rw [rank, Cyclic.dist_self]

theorem rank_succ (ha : a < c.snModulus) (hr : rank c highest a + 1 < c.snModulus) :
    rank c highest ((a + 1) % c.snModulus) = rank c highest a + 1 := by
  have hM := c.snModulus_eq
  have hs : (a + 1) % c.snModulus = if a + 1 < c.snModulus then a + 1 else 0 := by
    rw [Cyclic.add_mod_of_lt ha (by omega)]
    split <;> omega
  unfold rank at hr ⊢
  rw [base_eq hh] at hr ⊢
  rw [hs]
  unfold Cyclic.dist at hr ⊢
  split at hr <;> split at hr <;> split <;> split <;> omega

theorem rank_base_move (hx : x < c.snModulus) (hout : c.windowSize ≤ rank c highest x) :
    rank c highest (((x + 1) % c.snModulus + c.snModulus - c.windowSize) % c.snModulus) +
      c.windowSize = rank c highest x + 1 := by
  have hM := c.snModulus_eq
  have hs : (x + 1) % c.snModulus = if x + 1 < c.snModulus then x + 1 else 0 := by
    rw [Cyclic.add_mod_of_lt hx (by omega)]
    split <;> omega
  rw [base_eq (Nat.mod_lt _ (by omega)), hs]
  unfold rank at hout ⊢
  rw [base_eq hh] at hout ⊢
  unfold Cyclic.dist at hout ⊢
  by_cases h₁ : x + 1 < c.snModulus
  · rw [if_pos h₁]
    split at hout <;> split at hout <;> split <;> split <;> omega
  · rw [if_neg h₁]
    split at hout <;> split at hout <;> split <;> split <;> omega

variable (ha : a < c.snModulus) (hx : x < c.snModulus) (hout : c.windowSize ≤ rank c highest x)
include ha hx hout

theorem rank_move :
    rank c ((x + 1) % c.snModulus) a + (rank c highest x + 1) =
      if rank c highest a + c.windowSize ≤ rank c highest x then
        rank c highest a + c.snModulus + c.windowSize
      else rank c highest a + c.windowSize := by
  have hbase := rank_base_move hh hx hout
  have hb := base_lt hh
  have hb' : ((x + 1) % c.snModulus + c.snModulus - c.windowSize) % c.snModulus < c.snModulus :=
    Nat.mod_lt _ (by omega)
  unfold rank at hbase ⊢
  split
  · have := Cyclic.dist_rebase_of_lt (a := a) hb hb' (by omega)
    omega
  · have := Cyclic.dist_rebase hb hb' ha (by omega)
    omega

theorem rank_move_lt_iff (hle : rank c highest a ≤ rank c highest x) :
    rank c ((x + 1) % c.snModulus) a < c.windowSize ↔
      rank c highest x < rank c highest a + c.windowSize := by
  have hmove := rank_move hh ha hx hout
  have hlt := rank_lt hh hx
  have hM := c.snModulus_eq
  split at hmove <;> omega

theorem rank_move_of_lt (hlt : rank c highest x < rank c highest a + c.windowSize) :
    rank c ((x + 1) % c.snModulus) a + (rank c highest x + 1) =
      rank c highest a + c.windowSize := by
  have hmove := rank_move hh ha hx hout
  rwa [if_neg (by omega)] at hmove

end

namespace Rx

variable {e : Rx}

theorem modulusRx_eq (hh : e.rxNextHighest < c.snModulus) (ha : a < c.snModulus) :
    e.modulusRx c a = rank c e.rxNextHighest a := by
  have hM := c.snModulus_eq
  have hr := rank_lt hh ha
  have heq : (if (a : Int) - (e.rxNextHighest - c.windowSize) < 0 then
      (a : Int) - (e.rxNextHighest - c.windowSize) + c.snModulus
      else (a : Int) - (e.rxNextHighest - c.windowSize)) = rank c e.rxNextHighest a ∨
      (if (a : Int) - (e.rxNextHighest - c.windowSize) < 0 then
      (a : Int) - (e.rxNextHighest - c.windowSize) + c.snModulus
      else (a : Int) - (e.rxNextHighest - c.windowSize)) =
        rank c e.rxNextHighest a + c.snModulus := by
    rw [rank, base_eq hh, Cyclic.dist]
    split <;> split <;> split <;> omega
  unfold modulusRx
  dsimp only
  rcases heq with h | h
  · rw [h, Int.emod_eq_of_lt (by omega) (by omega)]
  · rw [h, Int.add_emod_right, Int.emod_eq_of_lt (by omega) (by omega)]

theorem snCompareRx_eq (hh : e.rxNextHighest < c.snModulus) (ha : a < c.snModulus)
    (hb : b < c.snModulus) :
    e.snCompareRx c a b = (rank c e.rxNextHighest a : Int) - rank c e.rxNextHighest b := by
  rw [snCompareRx, modulusRx_eq hh ha, modulusRx_eq hh hb]

end Rx

/-! The order of the reception list. -/

def Before (c : Config) (highest : Nat) (p q : Pdu) : Prop :=
  rank c highest p.sn < rank c highest q.sn ∨ p.sn = q.sn ∧ p.so ≤ q.so

theorem Before.rank_le {p q : Pdu} (h : Before c highest p q) :
    rank c highest p.sn ≤ rank c highest q.sn := by
  rcases h with h | ⟨h, -⟩
  · exact h.le
  · rw [h]

theorem Before.trans {p q r : Pdu} (h : Before c highest p q) (h' : Before c highest q r) :
    Before c highest p r := by
  unfold Before at *
  rcases h with h | ⟨h, hso⟩ <;> rcases h' with h' | ⟨h', hso'⟩
  · exact .inl (h.trans h')
  · exact .inl (h' ▸ h)
  · exact .inl (h ▸ h')
  · exact .inr ⟨h.trans h', hso.trans hso'⟩

theorem before_or {p q : Pdu} (hh : highest < c.snModulus) (hp : p.sn < c.snModulus)
    (hq : q.sn < c.snModulus) :
    (rank c highest p.sn > rank c highest q.sn ∨ (p.sn = q.sn ∧ p.so > q.so)) ∧
        Before c highest q p ∨
      ¬ (rank c highest p.sn > rank c highest q.sn ∨ (p.sn = q.sn ∧ p.so > q.so)) ∧
        Before c highest p q := by
  have hinj := rank_inj hh hp hq
  unfold Before
  by_cases heq : p.sn = q.sn
  · simp only [heq, lt_self_iff_false, gt_iff_lt, true_and, false_or, not_lt]
    omega
  · have hne : rank c highest p.sn ≠ rank c highest q.sn := fun hr => heq (hinj.mp hr)
    simp only [heq, Ne.symm heq, false_and, or_false]
    omega

section

variable {cmp : Nat → Nat → Int} {q : Pdu} {l : List Pdu}

theorem pduListAdd_perm (cmp : Nat → Nat → Int) (q : Pdu) (l : List Pdu) :
    (pduListAdd cmp q l).Perm (q :: l) := by
  induction l with
  | nil => rfl
  | cons p l ih =>
    rw [pduListAdd]
    split
    · rfl
    · exact (ih.cons p).trans (List.Perm.swap q p l)

variable (hh : highest < c.snModulus) (hq : q.sn < c.snModulus) (hl : ∀ p ∈ l, p.sn < c.snModulus)
  (hs : l.Pairwise (Before c highest))
  (hcmp : ∀ a b, a < c.snModulus → b < c.snModulus →
    cmp a b = (rank c highest a : Int) - rank c highest b)
include hh hq hl hs hcmp

theorem pduListAdd_sorted : (pduListAdd cmp q l).Pairwise (Before c highest) := by
  induction l with
  | nil => simp [pduListAdd]
  | cons p l ih =>
    obtain ⟨hp, hl'⟩ := pairwise_cons.mp hs
    have hpM := hl p (by simp)
    rw [pduListAdd, hcmp _ _ hpM hq]
    rcases before_or hh hpM hq with ⟨htest, hbefore⟩ | ⟨htest, hbefore⟩
    · rw [if_pos (by omega)]
      refine pairwise_cons.mpr ⟨fun r hr => ?_, hs⟩
      rcases mem_cons.mp hr with rfl | hr
      · exact hbefore
      · exact hbefore.trans (hp r hr)
    · rw [if_neg (by omega)]
      refine pairwise_cons.mpr ⟨fun r hr => ?_, ih (fun r hr => hl r (by simp [hr])) hl'⟩
      rcases mem_cons.mp ((pduListAdd_perm cmp q l).mem_iff.mp hr) with rfl | hr
      · exact hbefore
      · exact hp r hr

omit hh in
theorem filter_pduListAdd_self :
    (pduListAdd cmp q l).filter (·.sn = q.sn) = insertPdu q (l.filter (·.sn = q.sn)) := by
  induction l with
  | nil => simp [pduListAdd, insertPdu]
  | cons p l ih =>
    obtain ⟨hp, hl'⟩ := pairwise_cons.mp hs
    have hpM := hl p (by simp)
    have ih := ih (fun r hr => hl r (by simp [hr])) hl'
    rw [pduListAdd, hcmp _ _ hpM hq]
    by_cases heq : p.sn = q.sn
    · by_cases hso : p.so > q.so
      · rw [if_pos (.inr ⟨heq, hso⟩)]
        simp [heq, insertPdu, hso]
      · rw [heq, if_neg (by simp [hso])]
        simp [heq, insertPdu, hso, ih]
    · split
      · next htest =>
        -- all PDUs from `p` on have a greater rank
        have hgt : rank c highest q.sn < rank c highest p.sn := by
          have := htest.resolve_right (fun h => heq h.1)
          omega
        have hnone : (p :: l).filter (·.sn = q.sn) = [] := by
          rw [filter_eq_nil_iff]
          intro r hr hrq
          have hle : rank c highest p.sn ≤ rank c highest r.sn := by
            rcases mem_cons.mp hr with rfl | hr
            · exact le_rfl
            · exact (hp r hr).rank_le
          rw [of_decide_eq_true hrq] at hle
          omega
        rw [filter_cons_of_pos (by simp), hnone]
        rfl
      · rw [filter_cons_of_neg (by simpa using heq), filter_cons_of_neg (by simpa using heq),
          ih]

omit hh hq hl hs hcmp in
theorem filter_pduListAdd_of_ne (hx : q.sn ≠ x) :
    (pduListAdd cmp q l).filter (·.sn = x) = l.filter (·.sn = x) := by
  induction l with
  | nil => simp [pduListAdd, hx]
  | cons p l ih =>
    rw [pduListAdd]
    split
    · rw [filter_cons_of_neg (by simpa using hx)]
    · rw [filter_cons, filter_cons, ih]

end

structure Rx.Ordered (c : Config) (e : Rx) : Prop where
  highest_lt : e.rxNextHighest < c.snModulus
  sn_lt : ∀ p ∈ e.rxList, p.sn < c.snModulus
  sorted : e.rxList.Pairwise (Before c e.rxNextHighest)

def Rx.slot (e : Rx) (sn : Nat) : List Pdu := e.rxList.filter (·.sn = sn)

theorem filter_sn_filter (l : List Pdu) (P : Nat → Prop) [DecidablePred P] (s : Nat) :
    (l.filter fun p => decide (P p.sn)).filter (·.sn = s) =
      if P s then l.filter (·.sn = s) else [] := by
  rw [filter_filter]
  split
  · next hs =>
    refine filter_congr fun p hp => ?_
    by_cases hps : p.sn = s <;> simp [hps, hs]
  · next hs =>
    rw [filter_eq_nil_iff]
    intro p hp hps
    simp only [Bool.and_eq_true, decide_eq_true_eq] at hps
    exact hs (hps.1 ▸ hps.2)

def clear (p : Pdu) : Pdu := { p with data := none, size := 0 }

namespace Rx.Ordered

variable {e : Rx} (h : e.Ordered c)
include h

theorem rank_eq_iff (hx : x < c.snModulus) {p : Pdu} (hp : p ∈ e.rxList) :
    decide (p.sn = x) ↔ rank c e.rxNextHighest p.sn = rank c e.rxNextHighest x := by
  rw [rank_inj h.highest_lt (h.sn_lt p hp) hx, decide_eq_true_eq]

theorem segments_eq (hx : x < c.snModulus) : e.segments x = e.slot x := by
  have := Sorted.takeWhile_dropWhile_eq_filter (h.sorted.imp Before.rank_le)
    fun p hp => h.rank_eq_iff hx hp
  simpa [segments, slot] using this

theorem sduDelivered_eq (hx : x < c.snModulus) : e.sduDelivered x = processed (e.slot x) := by
  rw [sduDelivered, h.segments_eq hx]

theorem sduFull_eq (hx : x < c.snModulus) :
    e.sduFull x = (!processed (e.slot x) && fullFrom (e.slot x) (-1)) := by
  rw [sduFull, h.segments_eq hx]

theorem reassembleAndDeliver_rxList (hx : x < c.snModulus) :
    (e.reassembleAndDeliver x).1.rxList = e.rxList.map fun p => if p.sn = x then
      clear p else p := by
  have := Sorted.append_map_append (h.sorted.imp Before.rank_le)
    (fun p hp => h.rank_eq_iff hx hp) clear
  rw [show clear = fun p : Pdu => { p with data := none, size := 0 } from rfl] at this ⊢
  simpa [reassembleAndDeliver, segments] using this

end Rx.Ordered

end OpenAir.Rlc.Um

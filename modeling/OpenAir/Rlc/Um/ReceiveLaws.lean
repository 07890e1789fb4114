import OpenAir.Rlc.PduLaws
import OpenAir.Rlc.Um.Window

namespace OpenAir.Rlc.Um

open RxManager List

variable {c : Config} {e e' : Rx} {q : Pdu} {x s sn : Nat} {fuel : Nat} {out : List Delivery}

namespace Rx

structure Stores (c : Config) (e : Rx) : Prop extends e.Ordered c where
  reassembly_lt : e.rxNextReassembly < c.snModulus
  reassembly_le : rank c e.rxNextHighest e.rxNextReassembly ≤ c.windowSize
  trigger_lt : e.rxTimerTrigger < c.snModulus
  head : ∀ x, ∀ p ∈ (e.slot x).head?, p.data = none → p.so = 0

def InWindow (c : Config) (e : Rx) : Prop :=
  ∀ p ∈ e.rxList, rank c e.rxNextHighest p.sn < c.windowSize

structure FirstUndelivered (c : Config) (e : Rx) (s sn : Nat) : Prop where
  lt : sn < c.snModulus
  le : rank c e.rxNextHighest s ≤ rank c e.rxNextHighest sn
  rank_le : rank c e.rxNextHighest sn ≤ c.windowSize
  stop : e.sduDelivered sn = false
  before : ∀ k < c.snModulus, rank c e.rxNextHighest s ≤ rank c e.rxNextHighest k →
    rank c e.rxNextHighest k < rank c e.rxNextHighest sn → e.sduDelivered k = true

section

variable (h : e.Ordered c) (hw : e.InWindow c)
include h hw

omit h in
theorem slot_eq_nil (hx : c.windowSize ≤ rank c e.rxNextHighest x) : e.slot x = [] := by
  rw [slot, filter_eq_nil_iff]
  intro p hp hpx
  have := hw p hp
  rw [of_decide_eq_true hpx] at this
  omega

theorem sduDelivered_highest : e.sduDelivered e.rxNextHighest = false := by
  rw [h.sduDelivered_eq h.highest_lt, slot_eq_nil hw (rank_highest h.highest_lt).ge]
  rfl

variable (hs : s < c.snModulus) (hle : rank c e.rxNextHighest s ≤ c.windowSize)
include hs hle

theorem firstUndelivered_of_eq_some (hn : nextUndelivered c fuel e s = some sn) :
    e.FirstUndelivered c s sn := by
  have hM := c.snModulus_eq
  have hinv := whileLoop.invariant (fun sn => sn < c.snModulus ∧
    rank c e.rxNextHighest s ≤ rank c e.rxNextHighest sn ∧
    rank c e.rxNextHighest sn ≤ c.windowSize ∧
    ∀ k < c.snModulus, rank c e.rxNextHighest s ≤ rank c e.rxNextHighest k →
      rank c e.rxNextHighest k < rank c e.rxNextHighest sn → e.sduDelivered k)
    ⟨hs, le_rfl, hle, fun k _ _ _ => by omega⟩ ?_ hn
  · obtain ⟨⟨hlt, hle, hrank, hbefore⟩, hstop⟩ := hinv
    exact ⟨hlt, hle, hrank, hstop, hbefore⟩
  · rintro t ⟨hlt, hst, hrank, hbefore⟩ hcond
    -- the loop has not reached the end of the window, which is not delivered
    have hne : rank c e.rxNextHighest t ≠ c.windowSize := by
      intro heq
      rw [← rank_highest h.highest_lt] at heq
      rw [(rank_inj h.highest_lt hlt h.highest_lt).mp heq] at hcond
      exact absurd hcond (by simp [sduDelivered_highest h hw])
    have hsucc := rank_succ h.highest_lt hlt (by omega)
    refine ⟨Nat.mod_lt _ (by omega), by omega, by omega, fun k hk hsk hkt => ?_⟩
    by_cases heq : rank c e.rxNextHighest k = rank c e.rxNextHighest t
    · rwa [(rank_inj h.highest_lt hk hlt).mp heq]
    · exact hbefore k hk hsk (by omega)

omit hle in
theorem exists_nextUndelivered : ∃ fuel sn, nextUndelivered c fuel e s = some sn := by
  have hend : (fun sn => (sn + 1) % c.snModulus)^[Cyclic.dist c.snModulus s e.rxNextHighest] s =
      e.rxNextHighest := by
    have hiter := Cyclic.iterate_succ_mod c.snModulus s (Cyclic.dist c.snModulus s e.rxNextHighest)
    rwa [Nat.mod_eq_of_lt hs, Cyclic.add_dist hs h.highest_lt] at hiter
  exact ⟨_, whileLoop.terminates (by rw [hend]; exact sduDelivered_highest h hw)⟩

end

end Rx

structure IsSegment (c : Config) (q : Pdu) : Prop where
  sn_lt : q.sn < c.snModulus
  data : ∃ d, q.data = some d ∧ q.size = d.length
  first : q.isFirst = true ↔ q.so = 0
  not_whole : ¬ (q.isFirst = true ∧ q.isLast = true)

theorem IsSegment.data_ne (hq : IsSegment c q) : q.data ≠ none := by
  obtain ⟨d, hd, -⟩ := hq.data
  simp [hd]

theorem IsSegment.fullFrom (hq : IsSegment c q) : fullFrom [q] (-1) = false := by
  have hfirst := hq.first
  have hwhole := hq.not_whole
  by_cases hso : q.so = 0
  · have hlast : q.isLast = false := by simpa [hfirst.mpr hso] using hwhole
    simp [Rlc.fullFrom, hlast]
  · rw [Rlc.fullFrom, if_pos (by omega)]

namespace Rx

def add (c : Config) (e : Rx) (q : Pdu) : Rx :=
  { e with rxSize := e.rxSize + q.size
           rxList := pduListAdd (e.snCompareRx c) q e.rxList }

theorem mem_add {p : Pdu} : p ∈ (e.add c q).rxList ↔ p = q ∨ p ∈ e.rxList := by
  rw [add, (pduListAdd_perm _ q e.rxList).mem_iff, mem_cons]

section

variable (h : e.Ordered c) (hq : q.sn < c.snModulus)
include h hq

theorem slot_add (x : Nat) :
    (e.add c q).slot x = if q.sn = x then insertPdu q (e.slot x) else e.slot x := by
  split
  · next hx =>
    subst hx
    exact filter_pduListAdd_self hq h.sn_lt h.sorted fun _ _ => snCompareRx_eq h.highest_lt
  · next hx => exact filter_pduListAdd_of_ne hx

theorem Ordered.add : (e.add c q).Ordered c where
  highest_lt := h.highest_lt
  sn_lt p hp := by
    rcases mem_add.mp hp with rfl | hp
    · exact hq
    · exact h.sn_lt p hp
  sorted :=
    pduListAdd_sorted h.highest_lt hq h.sn_lt h.sorted fun _ _ => snCompareRx_eq h.highest_lt

end

section

variable (h : e.Stores c) (hq : IsSegment c q)
include h hq

theorem processed_add (x : Nat) : processed ((e.add c q).slot x) = processed (e.slot x) := by
  rw [slot_add h.toOrdered hq.sn_lt]
  split
  · exact processed_insertPdu_of_head hq.data_ne (h.head x)
  · rfl

theorem sduDelivered_add (hx : x < c.snModulus) :
    (e.add c q).sduDelivered x = e.sduDelivered x := by
  rw [(h.toOrdered.add hq.sn_lt).sduDelivered_eq hx, h.sduDelivered_eq hx, processed_add h hq]

theorem Stores.add : (e.add c q).Stores c where
  toOrdered := h.toOrdered.add hq.sn_lt
  reassembly_lt := h.reassembly_lt
  reassembly_le := h.reassembly_le
  trigger_lt := h.trigger_lt
  head x p hp hd := by
    rw [slot_add h.toOrdered hq.sn_lt] at hp
    split at hp
    · -- a processed head is the old one
      cases hl : e.slot x with
      | nil =>
        rw [hl] at hp
        cases hp
        exact absurd hd hq.data_ne
      | cons r l =>
        rw [hl, insertPdu] at hp
        split at hp
        · cases hp
          exact absurd hd hq.data_ne
        · cases hp
          exact h.head x p (by simp [hl]) hd
    · exact h.head x p hp hd

theorem sduFull_add_of_out (hw : e.InWindow c)
    (hout : c.windowSize ≤ rank c e.rxNextHighest q.sn) : (e.add c q).sduFull q.sn = false := by
  rw [(h.toOrdered.add hq.sn_lt).sduFull_eq hq.sn_lt, slot_add h.toOrdered hq.sn_lt, if_pos rfl,
    slot_eq_nil hw hout]
  simp [insertPdu, hq.fullFrom]

end

section

variable (h : e.Ordered c) (hx : x < c.snModulus)
include h hx

theorem slot_reassembleAndDeliver (y : Nat) :
    (e.reassembleAndDeliver x).1.slot y = if y = x then (e.slot x).map clear else e.slot y := by
  have hsn : ((fun p : Pdu => decide (p.sn = y)) ∘ fun p : Pdu => if p.sn = x then clear p else p) =
      fun p : Pdu => decide (p.sn = y) := by
    funext p
    simp only [Function.comp_apply]
    split <;> rfl
  rw [slot, h.reassembleAndDeliver_rxList hx, filter_map, hsn]
  split
  · next hy =>
    subst hy
    refine map_congr_left fun p hp => ?_
    rw [if_pos (by simpa using (mem_filter.mp hp).2)]
  · next hy =>
    refine (map_congr_left fun p hp => ?_).trans (map_id _)
    have : p.sn = y := by simpa using (mem_filter.mp hp).2
    rw [if_neg (by omega)]
    rfl

theorem Ordered.reassembleAndDeliver : (e.reassembleAndDeliver x).1.Ordered c where
  highest_lt := h.highest_lt
  sn_lt p hp := by
    rw [h.reassembleAndDeliver_rxList hx] at hp
    obtain ⟨r, hr, rfl⟩ := mem_map.mp hp
    have := h.sn_lt r hr
    split <;> exact this
  sorted := by
    rw [h.reassembleAndDeliver_rxList hx, pairwise_map]
    refine h.sorted.imp fun {p r} hpr => ?_
    split <;> split <;> exact hpr

theorem InWindow.reassembleAndDeliver (hw : e.InWindow c) :
    (e.reassembleAndDeliver x).1.InWindow c := by
  intro p hp
  rw [h.reassembleAndDeliver_rxList hx] at hp
  obtain ⟨r, hr, rfl⟩ := mem_map.mp hp
  have := hw r hr
  split <;> exact this

end

theorem Stores.reassembleAndDeliver (h : e.Stores c) (hx : x < c.snModulus)
    (hfull : e.sduFull x) : (e.reassembleAndDeliver x).1.Stores c where
  toOrdered := h.toOrdered.reassembleAndDeliver hx
  reassembly_lt := h.reassembly_lt
  reassembly_le := h.reassembly_le
  trigger_lt := h.trigger_lt
  head y p hp hd := by
    rw [slot_reassembleAndDeliver h.toOrdered hx] at hp
    split at hp
    · rw [h.sduFull_eq hx] at hfull
      cases hl : e.slot x with
      | nil => simp [hl] at hp
      | cons r l =>
        rw [hl] at hp hfull
        cases hp
        have hso := head_so_of_fullFrom (Bool.and_eq_true_iff.mp hfull).2
        exact hso
    · exact h.head y p hp hd

theorem sduDelivered_reassembleAndDeliver (h : e.Ordered c) (hx : x < c.snModulus)
    (hfull : e.sduFull x) (hs : s < c.snModulus) :
    (e.reassembleAndDeliver x).1.sduDelivered s = (decide (s = x) || e.sduDelivered s) := by
  rw [(h.reassembleAndDeliver hx).sduDelivered_eq hs, h.sduDelivered_eq hs,
    slot_reassembleAndDeliver h hx]
  split
  · next heq =>
    subst heq
    rw [h.sduFull_eq hx] at hfull
    cases hl : e.slot s with
    | nil => simp [hl, fullFrom] at hfull
    | cons r l => simp [processed, clear]
  · next hne => simp [hne]

def move (c : Config) (e : Rx) (x : Nat) : Rx :=
  discardOutOfWindow c { e with rxNextHighest := (x + 1) % c.snModulus }

@[simp] theorem move_rxNextHighest : (e.move c x).rxNextHighest = (x + 1) % c.snModulus := rfl

@[simp] theorem move_rxNextReassembly : (e.move c x).rxNextReassembly = e.rxNextReassembly := rfl

section

variable (h : e.Ordered c) (hx : x < c.snModulus) (hout : c.windowSize ≤ rank c e.rxNextHighest x)
  (hle : ∀ p ∈ e.rxList, rank c e.rxNextHighest p.sn ≤ rank c e.rxNextHighest x)
include h hx hout hle

theorem move_rxList : (e.move c x).rxList =
    e.rxList.filter fun p => decide (rank c ((x + 1) % c.snModulus) p.sn < c.windowSize) := by
  have hx' : (x + 1) % c.snModulus < c.snModulus := Nat.mod_lt _ (by omega)
  have htest (p) (hp : p ∈ e.rxList) : decide
      (({ e with rxNextHighest := (x + 1) % c.snModulus } : Rx).snCompareRx c p.sn
        ((x + 1) % c.snModulus) ≥ 0) ↔
      ¬ rank c ((x + 1) % c.snModulus) p.sn < c.windowSize := by
    have := rank_highest (c := c) hx'
    rw [snCompareRx_eq hx' (h.sn_lt p hp) hx', decide_eq_true_eq]
    dsimp only
    omega
  rw [move, discardOutOfWindow, Sorted.dropWhile_eq_filter]
  · refine filter_congr fun p hp => ?_
    rw [Bool.eq_iff_iff, Bool.not_eq_true', ← Bool.not_eq_true, htest p hp, not_not,
      decide_eq_true_eq]
  · refine h.sorted.imp_of_mem fun {p r} hp hr hpr hP => ?_
    have hle' := hpr.rank_le
    rw [htest r hr, rank_move_lt_iff h.highest_lt (h.sn_lt r hr) hx hout (hle r hr)] at hP
    rw [htest p hp, rank_move_lt_iff h.highest_lt (h.sn_lt p hp) hx hout (hle p hp)]
    omega

theorem InWindow.move : (e.move c x).InWindow c := by
  intro p hp
  rw [move_rxList h hx hout hle] at hp
  rw [move_rxNextHighest]
  simpa using (mem_filter.mp hp).2

theorem Ordered.move : (e.move c x).Ordered c where
  highest_lt := Nat.mod_lt _ (by omega)
  sn_lt p hp := by
    rw [move_rxList h hx hout hle] at hp
    exact h.sn_lt p (mem_filter.mp hp).1
  sorted := by
    rw [move_rxList h hx hout hle]
    refine (h.sorted.sublist filter_sublist).imp_of_mem fun {p r} hp hr hpr => ?_
    obtain ⟨hp, hpw⟩ := mem_filter.mp hp
    obtain ⟨hr, hrw⟩ := mem_filter.mp hr
    have hp' := rank_move_of_lt h.highest_lt (h.sn_lt p hp) hx hout
      ((rank_move_lt_iff h.highest_lt (h.sn_lt p hp) hx hout (hle p hp)).mp (of_decide_eq_true hpw))
    have hr' := rank_move_of_lt h.highest_lt (h.sn_lt r hr) hx hout
      ((rank_move_lt_iff h.highest_lt (h.sn_lt r hr) hx hout (hle r hr)).mp (of_decide_eq_true hrw))
    rcases hpr with hlt | heq
    · refine .inl ?_
      show rank c ((x + 1) % c.snModulus) p.sn < rank c ((x + 1) % c.snModulus) r.sn
      omega
    · exact .inr heq

theorem slot_move (s : Nat) : (e.move c x).slot s =
    if rank c ((x + 1) % c.snModulus) s < c.windowSize then e.slot s else [] := by
  rw [slot, move_rxList h hx hout hle]
  exact filter_sn_filter e.rxList (fun sn => rank c ((x + 1) % c.snModulus) sn < c.windowSize) s

theorem sduDelivered_move (hs : s < c.snModulus)
    (hin : rank c ((x + 1) % c.snModulus) s < c.windowSize) :
    (e.move c x).sduDelivered s = e.sduDelivered s := by
  rw [(h.move hx hout hle).sduDelivered_eq hs, slot_move h hx hout hle, if_pos hin,
    h.sduDelivered_eq hs]

end

inductive Acts (c : Config) (e : Rx) (x : Nat) : Rx → List Delivery → Prop
  | delivers (hfull : e.sduFull x = true) (hne : x ≠ e.rxNextReassembly) :
      Acts c e x (e.reassembleAndDeliver x).1 (e.reassembleAndDeliver x).2
  | passes {sn : Nat} (hfull : e.sduFull x = true) (heq : x = e.rxNextReassembly)
      (hnext : (e.reassembleAndDeliver x).1.FirstUndelivered c x sn) :
      Acts c e x { (e.reassembleAndDeliver x).1 with rxNextReassembly := sn }
        (e.reassembleAndDeliver x).2
  | waits (hfull : e.sduFull x = false) (hin : rank c e.rxNextHighest x < c.windowSize) :
      Acts c e x e []
  | moves (hfull : e.sduFull x = false) (hout : c.windowSize ≤ rank c e.rxNextHighest x)
      (hin : rank c ((x + 1) % c.snModulus) e.rxNextReassembly < c.windowSize) :
      Acts c e x (e.move c x) []
  | jumps {sn : Nat} (hfull : e.sduFull x = false) (hout : c.windowSize ≤ rank c e.rxNextHighest x)
      (hin : c.windowSize ≤ rank c ((x + 1) % c.snModulus) e.rxNextReassembly)
      (hnext : (e.move c x).FirstUndelivered c
        (((x + 1) % c.snModulus + c.snModulus - c.windowSize) % c.snModulus) sn) :
      Acts c e x { e.move c x with rxNextReassembly := sn } []

def InWindowBut (c : Config) (e : Rx) (x : Nat) : Prop :=
  ∀ p ∈ e.rxList, rank c e.rxNextHighest p.sn < c.windowSize ∨ p.sn = x

theorem InWindowBut.rank_le (hw : e.InWindowBut c x)
    (hout : c.windowSize ≤ rank c e.rxNextHighest x) :
    ∀ p ∈ e.rxList, rank c e.rxNextHighest p.sn ≤ rank c e.rxNextHighest x := by
  intro p hp
  rcases hw p hp with hlt | rfl
  · omega
  · exact le_rfl

theorem InWindowBut.inWindow (hw : e.InWindowBut c x)
    (hin : rank c e.rxNextHighest x < c.windowSize) : e.InWindow c := by
  intro p hp
  rcases hw p hp with hlt | rfl
  · exact hlt
  · exact hin

def actions (c : Config) (fuel : Nat) (e : Rx) (x : Nat) : Option (Rx × List Delivery) :=
  if e.sduFull x then e.deliverActions c fuel x
  else (e.advanceWindow c fuel x).map fun e => (e, [])

section

variable (h : e.Stores c) (hx : x < c.snModulus) (hw : e.InWindowBut c x)
  (hfullin : e.sduFull x → rank c e.rxNextHighest x < c.windowSize)
include h hx hw hfullin

theorem acts_of_actions (ha : e.actions c fuel x = some (e', out)) : Acts c e x e' out := by
  unfold actions at ha
  split at ha
  · next hfull =>
    have hin := hw.inWindow (hfullin hfull)
    unfold deliverActions at ha
    dsimp only at ha
    split at ha
    · next heq =>
      obtain ⟨sn, hn, hr⟩ := Option.map_eq_some_iff.mp ha
      cases hr
      rw [← heq] at hn
      exact .passes hfull heq (firstUndelivered_of_eq_some (h.toOrdered.reassembleAndDeliver hx)
        (hin.reassembleAndDeliver h.toOrdered hx) hx (hfullin hfull).le hn)
    · next hne =>
      cases ha
      exact .delivers hfull hne
  · next hfull =>
    have hfull : e.sduFull x = false := by simpa using hfull
    obtain ⟨e₂, hadv, hr⟩ := Option.map_eq_some_iff.mp ha
    cases hr
    unfold advanceWindow at hadv
    rw [snCompareRx_eq h.highest_lt hx h.highest_lt, rank_highest h.highest_lt] at hadv
    split at hadv
    · next hout =>
      have hout : c.windowSize ≤ rank c e.rxNextHighest x := by omega
      have hord := h.toOrdered.move hx hout (hw.rank_le hout)
      dsimp only at hadv
      rw [show discardOutOfWindow c { e with rxNextHighest := (x + 1) % c.snModulus } =
        e.move c x from rfl] at hadv
      rw [snCompareRx_eq hord.highest_lt (by exact h.reassembly_lt) hord.highest_lt,
        rank_highest hord.highest_lt, move_rxNextHighest, move_rxNextReassembly] at hadv
      split at hadv
      · next hN =>
        have hN : c.windowSize ≤ rank c ((x + 1) % c.snModulus) e.rxNextReassembly := by omega
        obtain ⟨sn, hn, rfl⟩ := Option.map_eq_some_iff.mp hadv
        refine .jumps hfull hout hN (firstUndelivered_of_eq_some hord
          (InWindow.move h.toOrdered hx hout (hw.rank_le hout)) (base_lt hord.highest_lt) ?_ hn)
        rw [move_rxNextHighest, rank_base]
        omega
      · next hN =>
        cases hadv
        exact .moves hfull hout (by omega)
    · next hin =>
      cases hadv
      exact .waits hfull (by omega)

theorem exists_actions : ∃ fuel r, e.actions c fuel x = some r := by
  unfold actions
  split
  · next hfull =>
    have hin := hw.inWindow (hfullin hfull)
    unfold deliverActions
    dsimp only
    split
    · obtain ⟨fuel, sn, hn⟩ := exists_nextUndelivered (h.toOrdered.reassembleAndDeliver hx)
        (hin.reassembleAndDeliver h.toOrdered hx) h.reassembly_lt
      exact ⟨fuel, _, by
        rw [show (e.reassembleAndDeliver x).1.rxNextReassembly = e.rxNextReassembly from rfl, hn]
        rfl⟩
    · exact ⟨0, _, rfl⟩
  · unfold advanceWindow
    rw [snCompareRx_eq h.highest_lt hx h.highest_lt, rank_highest h.highest_lt]
    split
    · next hout =>
      have hout : c.windowSize ≤ rank c e.rxNextHighest x := by omega
      have hord := h.toOrdered.move hx hout (hw.rank_le hout)
      obtain ⟨fuel, sn, hn⟩ := exists_nextUndelivered hord
        (InWindow.move h.toOrdered hx hout (hw.rank_le hout)) (base_lt hord.highest_lt)
      refine ⟨fuel, ?_⟩
      dsimp only
      split
      · exact ⟨_, by
          rw [show discardOutOfWindow c { e with rxNextHighest := (x + 1) % c.snModulus } =
            e.move c x from rfl, hn]
          rfl⟩
      · exact ⟨_, rfl⟩
    · exact ⟨0, _, rfl⟩

end

end Rx

end OpenAir.Rlc.Um

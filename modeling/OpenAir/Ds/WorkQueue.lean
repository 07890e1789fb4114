import Mathlib.Data.Set.Card
import OpenAir.Lib.Memory
import OpenAir.Lib.Run

/-! The slot-handoff work queue.  Any number of threads call `work_q_push`, one atomic step at a
time; the slots it returns are released with `work_q_done`. -/

namespace OpenAir.Ds

open Function List

structure WorkQSize where
  cnt : Nat
  elsiz : Nat
  cnt_pow : ∃ k, cnt = 2 ^ k
  elsiz_pos : 0 < elsiz

namespace WorkQSize

variable (c : WorkQSize)

def mask : Nat := c.cnt - 1

def stride : Nat := (c.elsiz + 31) / 32 * 32

theorem elsiz_le_stride : c.elsiz ≤ c.stride := by
  unfold stride
  omega

theorem stride_pos : 0 < c.stride := Nat.lt_of_lt_of_le c.elsiz_pos c.elsiz_le_stride

theorem and_mask_lt (n : Nat) : n &&& c.mask < c.cnt := by
  obtain ⟨k, hk⟩ := c.cnt_pow
  have hpos : 0 < c.cnt := hk ▸ Nat.two_pow_pos k
  have hle : n &&& c.mask ≤ c.cnt - 1 := Nat.and_le_right
  omega

end WorkQSize

inductive PushAt
  | idle
  /-- The slot is reserved by the fetch-and-add. -/
  | reserved (src : List Byte) (idx : Nat)
  /-- The exchange found the slot free, and `j` bytes are copied. -/
  | copying (src : List Byte) (idx j : Nat)

structure WorkQ (τ : Type) where
  prodHead : BitVec 64
  busy : Nat → Bool
  slots : Memory
  threads : τ → PushAt
  handed : List (Nat × List Byte)

inductive WorkQEvent (τ : Type)
  | reserve (t : τ) (src : List Byte)
  | full (t : τ) (idx : Nat)
  | acquire (t : τ) (idx : Nat)
  | copy (t : τ)
  | push (t : τ) (slot : Nat)
  | done (slot : Nat)

variable {τ : Type} {c : WorkQSize}

def WorkQ.alloc : WorkQ τ :=
  { prodHead := 0, busy := fun _ => false, slots := fun _ => 0, threads := fun _ => .idle,
    handed := [] }

/-- One step of `work_q_push` or `work_q_done`.  A slot that is handed out is released once. -/
inductive WorkQStep [DecidableEq τ] (c : WorkQSize) : WorkQ τ → WorkQEvent τ → WorkQ τ → Prop
  | reserve : q.threads t = .idle → src.length = c.elsiz →
      WorkQStep c q (.reserve t src) { q with
        prodHead := q.prodHead + 1
        threads := update q.threads t (.reserved src (q.prodHead.toNat &&& c.mask)) }
  | full : q.threads t = .reserved src idx → q.busy idx = true →
      WorkQStep c q (.full t idx) { q with threads := update q.threads t .idle }
  | acquire : q.threads t = .reserved src idx → q.busy idx = false →
      WorkQStep c q (.acquire t idx) { q with
        busy := update q.busy idx true
        threads := update q.threads t (.copying src idx 0) }
  | copy : q.threads t = .copying src idx j → src[j]? = some b →
      WorkQStep c q (.copy t) { q with
        slots := update q.slots (idx * c.stride + j) b
        threads := update q.threads t (.copying src idx (j + 1)) }
  | push : q.threads t = .copying src idx c.elsiz →
      WorkQStep c q (.push t (idx * c.stride)) { q with
        threads := update q.threads t .idle
        handed := q.handed ++ [(idx * c.stride, src)] }
  | done : q.handed = l₁ ++ (slot, x) :: l₂ →
      WorkQStep c q (.done slot) { q with
        busy := update q.busy (slot / c.stride) false
        handed := l₁ ++ l₂ }

inductive Owner (τ : Type)
  | pusher (t : τ)
  | handle (n : Nat)

def Owner.beforePush (t : τ) (n : Nat) : Owner τ → Owner τ
  | .pusher t => .pusher t
  | .handle m => if m = n then .pusher t else .handle m

def Owner.beforeDone (n : Nat) : Owner τ → Owner τ
  | .pusher t => .pusher t
  | .handle m => .handle (if m < n then m else m + 1)

def PushAt.Ok (c : WorkQSize) (slots : Memory) : PushAt → Prop
  | .idle => True
  | .reserved src i => i < c.cnt ∧ src.length = c.elsiz
  | .copying src i j => i < c.cnt ∧ src.length = c.elsiz ∧ slots.read (i * c.stride) j = src.take j

namespace WorkQ

def Owns (c : WorkQSize) (q : WorkQ τ) : Owner τ → Nat → Prop
  | .pusher t, i => ∃ src j, q.threads t = .copying src i j
  | .handle n, i => ∃ x, q.handed[n]? = some (i * c.stride, x)

def Held (c : WorkQSize) (q : WorkQ τ) (i : Nat) : Prop := ∃ o, q.Owns c o i

structure Wf (c : WorkQSize) (q : WorkQ τ) : Prop where
  threads : ∀ t, (q.threads t).Ok c q.slots
  handed : ∀ h ∈ q.handed, ∃ i < c.cnt, h.1 = i * c.stride ∧ q.slots.read h.1 c.elsiz = h.2
  busy : ∀ i, q.busy i = true ↔ q.Held c i
  one : ∀ {o o' i}, q.Owns c o i → q.Owns c o' i → o = o'

theorem alloc_wf : (alloc : WorkQ τ).Wf c := by
  have hnone : ∀ o i, ¬ (alloc : WorkQ τ).Owns c o i := by
    rintro (t | n) i h
    · obtain ⟨src, j, h⟩ := h
      cases h
    · obtain ⟨x, h⟩ := h
      cases h
  refine ⟨fun _ => trivial, fun _ h => (by cases h), fun i => ⟨fun h => (by cases h), ?_⟩,
    fun h => absurd h (hnone _ _)⟩
  rintro ⟨o, h⟩
  exact absurd h (hnone o i)

variable {q q' : WorkQ τ} {i : Nat} {o : Owner τ}

theorem Wf.lt (h : q.Wf c) (ho : q.Owns c o i) : i < c.cnt := by
  cases o with
  | pusher t =>
    obtain ⟨src, j, ht⟩ := ho
    have hok := h.threads t
    rw [ht] at hok
    exact hok.1
  | handle n =>
    obtain ⟨x, hx⟩ := ho
    obtain ⟨i', hi', heq, -⟩ := h.handed _ (mem_of_getElem? hx)
    rwa [Nat.eq_of_mul_eq_mul_right c.stride_pos heq]

theorem Wf.of_owns (h : q.Wf c) (hbusy : q'.busy = q.busy)
    (howns : ∀ o i, q'.Owns c o i ↔ q.Owns c o i) (hthreads : ∀ t, (q'.threads t).Ok c q'.slots)
    (hhanded : ∀ h ∈ q'.handed, ∃ i < c.cnt, h.1 = i * c.stride ∧ q'.slots.read h.1 c.elsiz = h.2) :
    q'.Wf c := by
  refine ⟨hthreads, hhanded, fun i => ?_,
    fun ho ho' => h.one ((howns _ _).mp ho) ((howns _ _).mp ho')⟩
  rw [hbusy, h.busy]
  exact exists_congr fun o => (howns o i).symm

theorem Wf.done {l₁ l₂ : List (Nat × List Byte)} {slot : Nat} {x : List Byte} (h : q.Wf c)
    (hhanded : q.handed = l₁ ++ (slot, x) :: l₂) :
    Wf c { q with busy := update q.busy (slot / c.stride) false, handed := l₁ ++ l₂ } := by
  obtain ⟨idx, hidx, heq, -⟩ := h.handed (slot, x) (by simp [hhanded])
  dsimp only at heq
  subst heq
  rw [Nat.mul_div_cancel _ c.stride_pos]
  have howns : ∀ o i, Owns c { q with
      busy := update q.busy idx false
      handed := l₁ ++ l₂ } o i ↔ q.Owns c (o.beforeDone l₁.length) i := by
    rintro (t' | n) i
    · exact Iff.rfl
    · simp only [Owns, Owner.beforeDone, hhanded]
      split
      · next hn => rw [List.getElem?_append_left hn, List.getElem?_append_left hn]
      · next hn =>
        rw [List.getElem?_append_right (by omega), List.getElem?_append_right (by omega),
          Nat.sub_add_comm (by omega), List.getElem?_cons_succ]
  have hgone : q.Owns c (.handle l₁.length) idx := ⟨x, by simp [hhanded]⟩
  have hne : ∀ o : Owner τ, o.beforeDone l₁.length ≠ .handle l₁.length := by
    rintro (t' | n) heq
    · cases heq
    · have := Owner.handle.inj heq
      split at this <;> omega
  refine ⟨h.threads, fun y hy => h.handed y ?_, fun i => ?_, fun {o o' i} ho ho' => ?_⟩
  · rw [hhanded]
    rcases mem_append.mp hy with hy | hy
    · exact mem_append_left _ hy
    · exact mem_append_right _ (mem_cons_of_mem _ hy)
  · by_cases hi : i = idx
    · subst hi
      refine iff_of_false (by simp) ?_
      rintro ⟨o, ho⟩
      exact hne o (h.one ((howns o i).mp ho) hgone)
    · dsimp only
      rw [update_of_ne hi, h.busy]
      constructor
      · rintro ⟨o, ho⟩
        cases o with
        | pusher t' => exact ⟨.pusher t', ho⟩
        | handle n =>
          have hn : n ≠ l₁.length := by
            rintro rfl
            obtain ⟨y, hy⟩ := ho
            obtain ⟨z, hz⟩ := hgone
            rw [hy] at hz
            exact hi
              (Nat.eq_of_mul_eq_mul_right c.stride_pos (congrArg Prod.fst (Option.some.inj hz)))
          refine ⟨.handle (if n < l₁.length then n else n - 1), (howns _ i).mpr ?_⟩
          have hold : Owner.beforeDone l₁.length (.handle (if n < l₁.length then n else n - 1)) =
              (.handle n : Owner τ) := by
            simp only [Owner.beforeDone, Owner.handle.injEq]
            by_cases hlt : n < l₁.length
            · rw [if_pos hlt, if_pos hlt]
            · rw [if_neg hlt, if_neg (by omega)]
              omega
          rwa [hold]
      · rintro ⟨o, ho⟩
        exact ⟨o.beforeDone l₁.length, (howns o i).mp ho⟩
  · have hold := h.one ((howns o i).mp ho) ((howns o' i).mp ho')
    rcases o with t₁ | n <;> rcases o' with t₂ | n' <;> simp only [Owner.beforeDone] at hold
    · exact hold
    · cases hold
    · cases hold
    · have := Owner.handle.inj hold
      congr 1
      split at this <;> split at this <;> omega

section steps

variable [DecidableEq τ] {t : τ} {src : List Byte} {idx j : Nat}

theorem owns_update {a : PushAt}
    (ha : ∀ i, (∃ src j, a = .copying src i j) ↔ ∃ src j, q.threads t = .copying src i j)
    (hthreads : q'.threads = update q.threads t a) (hhanded : q'.handed = q.handed)
    (o : Owner τ) (i : Nat) : q'.Owns c o i ↔ q.Owns c o i := by
  cases o with
  | handle n => simp only [Owns, hhanded]
  | pusher t' =>
    by_cases heq : t' = t
    · subst heq
      simp only [Owns, hthreads, update_self]
      exact ha i
    · simp only [Owns, hthreads, update_of_ne heq]

theorem Wf.reserve (h : q.Wf c) (ht : q.threads t = .idle) (hsrc : src.length = c.elsiz) :
    Wf c { q with
      prodHead := q.prodHead + 1
      threads := update q.threads t (.reserved src (q.prodHead.toNat &&& c.mask)) } := by
  refine h.of_owns rfl (owns_update (by simp [ht]) rfl rfl) ?_ h.handed
  exact forall_update_iff q.threads (fun _ => PushAt.Ok c q.slots) |>.mpr
    ⟨⟨c.and_mask_lt _, hsrc⟩, fun t' _ => h.threads t'⟩

theorem Wf.full (h : q.Wf c) (ht : q.threads t = .reserved src idx) :
    Wf c { q with threads := update q.threads t .idle } := by
  refine h.of_owns rfl (owns_update (by simp [ht]) rfl rfl) ?_ h.handed
  exact forall_update_iff q.threads (fun _ => PushAt.Ok c q.slots) |>.mpr
    ⟨trivial, fun t' _ => h.threads t'⟩

theorem Wf.acquire (h : q.Wf c) (ht : q.threads t = .reserved src idx)
    (hbusy : q.busy idx = false) :
    Wf c { q with
      busy := update q.busy idx true
      threads := update q.threads t (.copying src idx 0) } := by
  have hfree : ¬ q.Held c idx := by
    rw [← h.busy, hbusy]
    exact Bool.false_ne_true
  have howns : ∀ o i, Owns c { q with
      busy := update q.busy idx true
      threads := update q.threads t (.copying src idx 0) } o i ↔
      (o = .pusher t ∧ i = idx) ∨ q.Owns c o i := by
    rintro (t' | n) i
    · by_cases heq : t' = t
      · subst heq
        simp [Owns, ht, eq_comm]
      · simp [Owns, heq]
    · simp [Owns]
  refine ⟨?_, h.handed, fun i => ?_, fun {o o' i} ho ho' => ?_⟩
  · have hok := h.threads t
    rw [ht] at hok
    exact forall_update_iff q.threads (fun _ => PushAt.Ok c q.slots) |>.mpr
      ⟨⟨hok.1, hok.2, rfl⟩, fun t' _ => h.threads t'⟩
  · by_cases heq : i = idx
    · subst heq
      exact iff_of_true (update_self _ _ _) ⟨_, (howns _ _).mpr (.inl ⟨rfl, rfl⟩)⟩
    · simp only [Held, howns, update_of_ne heq, h.busy, heq, and_false, false_or]
  · rw [howns] at ho ho'
    rcases ho with ⟨rfl, rfl⟩ | ho
    · rcases ho' with ⟨rfl, -⟩ | ho'
      · rfl
      · exact absurd ⟨o', ho'⟩ hfree
    · rcases ho' with ⟨rfl, rfl⟩ | ho'
      · exact absurd ⟨o, ho⟩ hfree
      · exact h.one ho ho'

theorem copied_le {slots : Memory} (hlen : src.length = c.elsiz)
    (hread : slots.read (idx * c.stride) j = src.take j) : j ≤ c.elsiz := by
  have := congrArg List.length hread
  rw [Memory.length_read, length_take] at this
  omega

theorem Wf.copy {b : Byte} (h : q.Wf c) (ht : q.threads t = .copying src idx j)
    (hb : src[j]? = some b) :
    Wf c { q with
      slots := update q.slots (idx * c.stride + j) b
      threads := update q.threads t (.copying src idx (j + 1)) } := by
  have hok := h.threads t
  rw [ht] at hok
  obtain ⟨hidx, hlen, hread⟩ := hok
  have hj : j < c.stride := by
    have := (List.getElem?_eq_some_iff.mp hb).1
    have := c.elsiz_le_stride
    omega
  have hother : ∀ o i n, o ≠ .pusher t → q.Owns c o i → n ≤ c.stride →
      Memory.read (update q.slots (idx * c.stride + j) b) (i * c.stride) n =
        q.slots.read (i * c.stride) n := by
    intro o i n hne ho hn
    refine Memory.read_update_cell (fun heq => ?_) hn hj
    subst heq
    exact hne (h.one ho ⟨src, j, ht⟩)
  refine h.of_owns rfl (owns_update (by simp [ht]) rfl rfl) ?_ ?_
  · refine forall_update_iff q.threads
      (fun _ => PushAt.Ok c (update q.slots (idx * c.stride + j) b)) |>.mpr ⟨?_, fun t' hne => ?_⟩
    · exact ⟨hidx, hlen, Memory.read_copy hread hb⟩
    · have hok' := h.threads t'
      cases ht' : q.threads t' with
      | idle => trivial
      | reserved src' i => rwa [ht'] at hok'
      | copying src' i k =>
        rw [ht'] at hok'
        obtain ⟨hi, hlen', hread'⟩ := hok'
        refine ⟨hi, hlen', ?_⟩
        rw [hother (.pusher t') i k (fun heq => hne (Owner.pusher.inj heq)) ⟨src', k, ht'⟩
          ((copied_le hlen' hread').trans c.elsiz_le_stride), hread']
  · intro x hx
    obtain ⟨i, hi, hp, hread'⟩ := h.handed x hx
    obtain ⟨n, hn⟩ := mem_iff_getElem?.mp hx
    refine ⟨i, hi, hp, ?_⟩
    rw [← hread', hp]
    refine hother (.handle n) i _ nofun ⟨x.2, ?_⟩ c.elsiz_le_stride
    rw [hn, ← hp]

theorem Wf.push (h : q.Wf c) (ht : q.threads t = .copying src idx c.elsiz) :
    Wf c { q with
      threads := update q.threads t .idle
      handed := q.handed ++ [(idx * c.stride, src)] } := by
  have hok := h.threads t
  rw [ht] at hok
  obtain ⟨hidx, hlen, hread⟩ := hok
  rw [← hlen, take_length, hlen] at hread
  have howns : ∀ o i, Owns c { q with
      threads := update q.threads t .idle
      handed := q.handed ++ [(idx * c.stride, src)] } o i ↔ o ≠ .pusher t ∧
        q.Owns c (o.beforePush t q.handed.length) i := by
    rintro (t' | n) i
    · by_cases heq : t' = t
      · subst heq
        simp [Owns]
      · simp [Owns, Owner.beforePush, heq]
    · rcases Nat.lt_trichotomy n q.handed.length with hn | rfl | hn
      · simp [Owns, Owner.beforePush, hn, hn.ne, List.getElem?_append_left]
      · simp [Owns, Owner.beforePush, ht, Nat.mul_right_cancel_iff c.stride_pos]
      · have h₁ : q.handed[n]? = none := List.getElem?_eq_none hn.le
        have h₂ : (q.handed ++ [(idx * c.stride, src)])[n]? = none :=
          List.getElem?_eq_none (by simpa using hn)
        simp [Owns, Owner.beforePush, hn.ne', h₁, h₂]
  refine ⟨?_, ?_, fun i => ?_, fun {o o' i} ho ho' => ?_⟩
  · exact forall_update_iff q.threads (fun _ => PushAt.Ok c q.slots) |>.mpr
      ⟨trivial, fun t' _ => h.threads t'⟩
  · intro x hx
    rcases mem_append.mp hx with hx | hx
    · exact h.handed x hx
    · rw [mem_singleton.mp hx]
      exact ⟨idx, hidx, rfl, hread⟩
  · rw [h.busy]
    constructor
    · rintro ⟨o, ho⟩
      by_cases heq : o = .pusher t
      · refine ⟨.handle q.handed.length, (howns _ i).mpr ⟨nofun, ?_⟩⟩
        simpa [Owner.beforePush, ← heq] using ho
      · refine ⟨o, (howns o i).mpr ⟨heq, ?_⟩⟩
        cases o with
        | pusher t' => exact ho
        | handle n =>
          obtain ⟨x, hx⟩ := ho
          have hn : n ≠ q.handed.length := (List.getElem?_eq_some_iff.mp hx).1.ne
          simpa [Owner.beforePush, hn] using ⟨x, hx⟩
    · rintro ⟨o, ho⟩
      exact ⟨_, ((howns o i).mp ho).2⟩
  · rw [howns] at ho ho'
    have hold := h.one ho.2 ho'.2
    rcases o with t₁ | n <;> rcases o' with t₂ | n' <;> simp only [Owner.beforePush] at hold
    · exact hold
    · split at hold
      · exact absurd hold ho.1
      · cases hold
    · split at hold
      · exact absurd hold.symm ho'.1
      · cases hold
    · split at hold <;> split at hold <;> grind

theorem Wf.step {l : WorkQEvent τ} (h : q.Wf c) (hs : WorkQStep c q l q') : q'.Wf c := by
  cases hs with
  | reserve ht hsrc => exact h.reserve ht hsrc
  | full ht _ => exact h.full ht
  | acquire ht hbusy => exact h.acquire ht hbusy
  | copy ht hb => exact h.copy ht hb
  | push ht => exact h.push ht
  | done hh => exact h.done hh

end steps

end WorkQ

/-- In every interleaving a slot has at most one owner; the slots handed out hold the items of their
pushes; a push fails only on a slot that is held; at most `cnt` slots are held; and the assertions
of `work_q_done` hold. -/
theorem work_q_exclusive [DecidableEq τ] {ls : List (WorkQEvent τ)} {q : WorkQ τ}
    (h : Run (WorkQStep c) .alloc ls q) :
    (∀ o o' i, q.Owns c o i → q.Owns c o' i → o = o') ∧
    (∀ slot x, (slot, x) ∈ q.handed → q.slots.read slot c.elsiz = x) ∧
    (∀ t i q', WorkQStep c q (.full t i) q' → q.Held c i) ∧
    ({i | q.Held c i}.Finite ∧ {i | q.Held c i}.ncard ≤ c.cnt) ∧
    ∀ slot x, (slot, x) ∈ q.handed → slot < c.cnt * c.stride ∧ slot % c.stride = 0 := by
  have hwf : q.Wf c := h.invariant (WorkQ.Wf c) WorkQ.alloc_wf fun _ _ _ hq hs => hq.step hs
  have hsub : {i | q.Held c i} ⊆ ↑(Finset.range c.cnt) := by
    rintro i ⟨o, ho⟩
    exact Finset.mem_coe.mpr (Finset.mem_range.mpr (hwf.lt ho))
  refine ⟨fun o o' i => hwf.one, fun slot x hx => ?_, fun t i q' hs => ?_,
    ⟨(Finset.finite_toSet _).subset hsub, ?_⟩, fun slot x hx => ?_⟩
  · obtain ⟨i, -, -, hread⟩ := hwf.handed _ hx
    exact hread
  · cases hs with
    | full _ hbusy => exact (hwf.busy i).mp hbusy
  · have := Set.ncard_le_ncard hsub (Finset.finite_toSet _)
    rwa [Set.ncard_coe_finset, Finset.card_range] at this
  · obtain ⟨i, hi, hp, -⟩ := hwf.handed _ hx
    dsimp only at hp
    rw [hp]
    exact ⟨Nat.mul_lt_mul_of_pos_right hi c.stride_pos, Nat.mul_mod_left i c.stride⟩

theorem work_q_exclusive_full : ∃ (c : WorkQSize) (q : WorkQ Bool) (ls : List (WorkQEvent Bool)),
    Run (WorkQStep c) .alloc ls q ∧ q.handed = [(0, [7])] ∧ q.slots.read 0 1 = [7] ∧
      (∃ q', WorkQStep c q (.full true 0) q') ∧ q.Held c 0 := by
  have h₁ : Run (WorkQStep ⟨1, 1, ⟨0, rfl⟩, by decide⟩) (.alloc : WorkQ Bool)
      [.reserve false [7], .acquire false 0] _ :=
    .cons (.reserve rfl rfl) (.cons (.acquire rfl rfl) .nil)
  have h₂ : Run _ _ (_ ++ [WorkQEvent.copy false, .push false (0 * _)]) _ :=
    h₁.append (.cons (.copy rfl rfl) (.cons (.push rfl) .nil))
  have h : Run _ _ (_ ++ [WorkQEvent.reserve true [8]]) _ := h₂.snoc (.reserve rfl rfl)
  exact ⟨_, _, _, h, rfl, (work_q_exclusive h).2.1 0 [7] (by decide), ⟨_, .full rfl rfl⟩,
    (work_q_exclusive h).2.2.1 true 0 _ (.full rfl rfl)⟩

end OpenAir.Ds

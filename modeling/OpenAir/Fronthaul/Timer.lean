import Mathlib.Data.Nat.ModEq
import OpenAir.Lib.Loop
import OpenAir.Lib.Run

/-! The symbol clock of the fronthaul. -/

namespace OpenAir.Fronthaul

open List

def nsPerMs : Nat := 1000000
def maxFhTimerCbs : Nat := 8

/-- `fh_timer_t`; a callback is a function with its user data. -/
structure Timer (κ : Type) where
  numerology : Nat
  cbs : List κ
  cbs_le : cbs.length ≤ maxFhTimerCbs
  running : Bool
  sAbs : UInt64
  targetGpsNs : UInt64
  nextSAbs : UInt64

inductive Act (κ : Type)
  | stop
  | registerCb (cb : κ)

namespace Timer

variable {κ : Type}

def totalSymsPerMs (t : Timer κ) : Nat := 14 <<< t.numerology

def symbolAt (t : Timer κ) (now : UInt64) : UInt64 :=
  .ofNat (now.toNat * t.totalSymsPerMs / nsPerMs)

def targetOf (t : Timer κ) (s : UInt64) : UInt64 :=
  .ofNat (s.toNat * nsPerMs / t.totalSymsPerMs)

def seedFromNow (t : Timer κ) (gpsNow : UInt64) : Timer κ :=
  let s := t.symbolAt gpsNow
  { t with sAbs := s, nextSAbs := s + 1, targetGpsNs := t.targetOf (s + 1) }

def init (numerology : Nat) (gpsNow : UInt64) : Option (Timer κ) :=
  if numerology > 3 then none
  else some (seedFromNow
    { numerology, cbs := [], cbs_le := Nat.zero_le _, running := true, sAbs := 0, targetGpsNs := 0
      nextSAbs := 0 } gpsNow)

def registerCb (t : Timer κ) (cb : κ) : Option (Timer κ) :=
  if h : t.cbs.length ≥ maxFhTimerCbs then none
  else some { t with
    cbs := t.cbs ++ [cb]
    cbs_le := by rw [length_append, length_singleton]; omega }

def stop (t : Timer κ) : Timer κ := { t with running := false }

def act (t : Timer κ) : Act κ → Timer κ
  | .stop => t.stop
  | .registerCb cb => (t.registerCb cb).getD t

abbrev Behaviour (κ : Type) := Nat → UInt64 → List (Act κ)

variable (does : Behaviour κ)

/-- The calls from place `i` on.  `num_cbs` is read again after each call. -/
def callCbs (s : UInt64) : Nat → Nat → Timer κ → Timer κ × List κ
  | 0, _, t => (t, [])
  | n + 1, i, t =>
    match t.cbs[i]? with
    | none => (t, [])
    | some cb =>
      let r := callCbs s n (i + 1) ((does i s).foldl act t)
      (r.1, cb :: r.2)

def deliver (t : Timer κ) : Timer κ × UInt64 × List κ :=
  let s := t.nextSAbs
  let r := callCbs does s maxFhTimerCbs 0 { t with sAbs := s }
  ({ r.1 with nextSAbs := r.1.nextSAbs + 1 }, s, r.2)

def tick (fuel : Nat) (now : UInt64) (t : Timer κ) : Option (Timer κ × List (UInt64 × List κ)) :=
  if !t.running then some (t, [])
  else if now ≥ t.targetGpsNs then
    -- after a backwards adjustment of the clock nothing is due
    if t.symbolAt now < t.nextSAbs then some (t, [])
    else
      (whileLoop (fun s => s.1.nextSAbs ≤ t.symbolAt now && s.1.running)
        (fun s => ((s.1.deliver does).1, s.2 ++ [(s.1.deliver does).2])) fuel (t, [])).map fun s =>
          ({ s.1 with targetGpsNs := s.1.targetOf s.1.nextSAbs }, s.2)
  else some (t, [])

end Timer

inductive TimerOp (κ : Type)
  | tick (now : UInt64) (does : Timer.Behaviour κ)
  | registerCb (cb : κ)
  | stop

variable {κ : Type}

inductive TimerStep : Timer κ → TimerOp κ × List (UInt64 × List κ) → Timer κ → Prop
  | tick : t.tick does fuel now = some (t', ds) → TimerStep t (.tick now does, ds) t'
  | registerCb : TimerStep t (.registerCb cb, []) ((t.registerCb cb).getD t)
  | stop : TimerStep t (.stop, []) t.stop

def deliveries (ls : List (TimerOp κ × List (UInt64 × List κ))) : List (UInt64 × List κ) :=
  ls.flatMap (·.2)

def symbols (ds : List (UInt64 × List κ)) : List Nat := ds.map (·.1.toNat)

def callsOf (i : Nat) (ds : List (UInt64 × List κ)) : List Nat :=
  symbols (ds.filter fun d => i < d.2.length)

namespace Timer

structure Extends (t t' : Timer κ) : Prop where
  numerology : t'.numerology = t.numerology
  next : t'.nextSAbs = t.nextSAbs
  target : t'.targetGpsNs = t.targetGpsNs
  cbs : t.cbs <+: t'.cbs

theorem Extends.refl (t : Timer κ) : t.Extends t := ⟨rfl, rfl, rfl, prefix_refl _⟩

theorem Extends.trans {t t' t'' : Timer κ} (h : t.Extends t') (h' : t'.Extends t'') :
    t.Extends t'' :=
  ⟨h'.numerology.trans h.numerology, h'.next.trans h.next, h'.target.trans h.target,
    h.cbs.trans h'.cbs⟩

theorem registerCb_extends (t : Timer κ) (cb : κ) : t.Extends ((t.registerCb cb).getD t) := by
  unfold registerCb
  split
  · exact .refl t
  · exact ⟨rfl, rfl, rfl, prefix_append _ _⟩

theorem act_extends (t : Timer κ) (a : Act κ) : t.Extends (t.act a) := by
  cases a with
  | stop => exact ⟨rfl, rfl, rfl, prefix_refl _⟩
  | registerCb cb => exact t.registerCb_extends cb

theorem acts_extends (l : List (Act κ)) (t : Timer κ) : t.Extends (l.foldl act t) := by
  induction l generalizing t with
  | nil => exact .refl t
  | cons a l ih => exact (t.act_extends a).trans (ih _)

variable {does : Behaviour κ} {t t' : Timer κ} {s now : UInt64}

theorem callCbs_eq (does : Behaviour κ) (s : UInt64) (t : Timer κ) {n i : Nat}
    (hn : i + n = maxFhTimerCbs) :
    t.Extends (callCbs does s n i t).1 ∧
      (callCbs does s n i t).2 = (callCbs does s n i t).1.cbs.drop i := by
  induction n generalizing i t with
  | zero =>
    have hle : t.cbs.length ≤ i := by
      have := t.cbs_le
      omega
    exact ⟨.refl t, (drop_eq_nil_of_le hle).symm⟩
  | succ n ih =>
    rw [callCbs]
    cases hcb : t.cbs[i]? with
    | none => exact ⟨.refl t, (drop_eq_nil_of_le (List.getElem?_eq_none_iff.mp hcb)).symm⟩
    | some cb =>
      obtain ⟨h, hdrop⟩ := ih ((does i s).foldl act t) (i := i + 1) (by omega)
      have hext := (acts_extends (does i s) t).trans h
      refine ⟨hext, ?_⟩
      dsimp only
      generalize callCbs does s n (i + 1) ((does i s).foldl act t) = r at hdrop hext ⊢
      obtain ⟨hlt, hget⟩ := List.getElem?_eq_some_iff.mp hcb
      obtain ⟨l, hl⟩ := hext.cbs
      rw [hdrop, ← hl, drop_append_of_le_length hlt, drop_append_of_le_length hlt.le,
        drop_eq_getElem_cons hlt, hget, cons_append]

theorem deliver_eq (does : Behaviour κ) (t : Timer κ) :
    (t.deliver does).1.numerology = t.numerology ∧
    (t.deliver does).1.nextSAbs = t.nextSAbs + 1 ∧ t.cbs <+: (t.deliver does).1.cbs ∧
    (t.deliver does).2 = (t.nextSAbs, (t.deliver does).1.cbs) := by
  obtain ⟨h, hcalled⟩ := callCbs_eq does t.nextSAbs { t with sAbs := t.nextSAbs }
    (Nat.zero_add maxFhTimerCbs)
  refine ⟨h.numerology, ?_, h.cbs, ?_⟩
  · change _ + 1 = _ + 1
    rw [h.next]
  · change (_, _) = _
    rw [hcalled, drop_zero]
    rfl

theorem toNat_next_deliver (does : Behaviour κ) (h : t.nextSAbs.toNat + 1 < 2 ^ 64) :
    (t.deliver does).1.nextSAbs.toNat = t.nextSAbs.toNat + 1 := by
  rw [(deliver_eq does t).2.1, UInt64.toNat_add]
  exact Nat.mod_eq_of_lt h

structure Logged (first : Nat) (ds : List (UInt64 × List κ)) (t : Timer κ) : Prop where
  first_le : first ≤ t.nextSAbs.toNat
  symbols_eq : symbols ds = List.range' first (t.nextSAbs.toNat - first)
  suffix : ∀ i, callsOf i ds <:+ symbols ds
  unregistered : ∀ i, t.cbs.length ≤ i → callsOf i ds = []

theorem symbols_append (ds ds' : List (UInt64 × List κ)) :
    symbols (ds ++ ds') = symbols ds ++ symbols ds' := map_append

theorem callsOf_append (i : Nat) (ds ds' : List (UInt64 × List κ)) :
    callsOf i (ds ++ ds') = callsOf i ds ++ callsOf i ds' := by
  rw [callsOf, filter_append, symbols_append]
  rfl

theorem callsOf_eq_symbols {i : Nat} {ds : List (UInt64 × List κ)}
    (h : ∀ d ∈ ds, i < d.2.length) : callsOf i ds = symbols ds := by
  rw [callsOf, filter_eq_self.mpr fun d hd => decide_eq_true (h d hd)]

variable {first : Nat} {ds : List (UInt64 × List κ)}

theorem Logged.extends (h : Logged first ds t) (hnext : t'.nextSAbs = t.nextSAbs)
    (hcbs : t.cbs <+: t'.cbs) : Logged first ds t' :=
  ⟨hnext ▸ h.first_le, hnext ▸ h.symbols_eq, h.suffix,
    fun i hi => h.unregistered i (hcbs.length_le.trans hi)⟩

theorem Logged.deliver (h : Logged first ds t) (hlt : t.nextSAbs.toNat + 1 < 2 ^ 64) :
    Logged first (ds ++ [(t.deliver does).2]) (t.deliver does).1 := by
  obtain ⟨-, hnext, hcbs, heq⟩ := deliver_eq does t
  have hnat := toNat_next_deliver does hlt
  have hfirst := h.first_le
  generalize (t.deliver does).1 = u at hnext hcbs heq hnat ⊢
  rw [heq]
  refine ⟨by omega, ?_, fun i => ?_, fun i hi => ?_⟩
  · rw [symbols_append, h.symbols_eq, hnat, Nat.sub_add_comm hfirst, List.range'_concat,
      one_mul, Nat.add_sub_cancel' hfirst]
    rfl
  · rw [symbols_append, callsOf_append]
    by_cases hi : i < u.cbs.length
    · have hall : callsOf i [(t.nextSAbs, u.cbs)] = symbols [(t.nextSAbs, u.cbs)] :=
        callsOf_eq_symbols fun d hd => by rwa [mem_singleton.mp hd]
      rw [hall]
      obtain ⟨l, hl⟩ := h.suffix i
      exact ⟨l, by rw [← append_assoc, hl]⟩
    · rw [h.unregistered i (hcbs.length_le.trans (not_lt.mp hi))]
      simp [callsOf, hi, symbols]
  · rw [callsOf_append, h.unregistered i (hcbs.length_le.trans hi)]
    simp [callsOf, Nat.not_lt.mpr hi, symbols]

structure Tracks (μ : Nat) (t : Timer κ) : Prop where
  numerology : t.numerology = μ
  next_le : t.nextSAbs.toNat ≤ 2 ^ 64 * (14 * 2 ^ μ) / nsPerMs + 1
  target : t.targetGpsNs = t.targetOf t.nextSAbs

variable {μ : Nat}

theorem due_lt (hμ : μ ≤ 3) : 2 ^ 64 * (14 * 2 ^ μ) / nsPerMs + 2 < 2 ^ 64 := by
  have hpow : 2 ^ μ ≤ 2 ^ 3 := Nat.pow_le_pow_right (by decide) hμ
  calc 2 ^ 64 * (14 * 2 ^ μ) / nsPerMs + 2 ≤ 2 ^ 64 * (14 * 2 ^ 3) / nsPerMs + 2 :=
        Nat.add_le_add_right
          (Nat.div_le_div_right (Nat.mul_le_mul_left _ (Nat.mul_le_mul_left _ hpow))) 2
    _ < 2 ^ 64 := by decide

theorem totalSymsPerMs_eq (h : t.numerology = μ) : t.totalSymsPerMs = 14 * 2 ^ μ := by
  rw [totalSymsPerMs, h, Nat.shiftLeft_eq]

theorem targetOf_congr (h : t'.numerology = t.numerology) (s : UInt64) :
    t'.targetOf s = t.targetOf s := by
  rw [targetOf, targetOf, totalSymsPerMs, totalSymsPerMs, h]

theorem symbol_le (now : UInt64) :
    now.toNat * (14 * 2 ^ μ) / nsPerMs ≤ 2 ^ 64 * (14 * 2 ^ μ) / nsPerMs :=
  Nat.div_le_div_right (Nat.mul_le_mul_right _ now.toNat_lt.le)

theorem toNat_symbolAt (hμ : μ ≤ 3) (h : t.numerology = μ) (now : UInt64) :
    (t.symbolAt now).toNat = now.toNat * (14 * 2 ^ μ) / nsPerMs := by
  have hlt := due_lt hμ
  have hle := symbol_le (μ := μ) now
  rw [symbolAt, totalSymsPerMs_eq h, UInt64.toNat_ofNat_of_lt' (show _ < 2 ^ 64 by omega)]

theorem symbolAt_lt_of_lt_targetOf (h : t.numerology = μ) (hlt : now < t.targetOf s) :
    now.toNat * (14 * 2 ^ μ) / nsPerMs < s.toNat := by
  have hle : (t.targetOf s).toNat ≤ s.toNat * nsPerMs / (14 * 2 ^ μ) := by
    rw [targetOf, totalSymsPerMs_eq h, UInt64.toNat_ofNat']
    exact Nat.mod_le _ _
  have hnow : now.toNat + 1 ≤ s.toNat * nsPerMs / (14 * 2 ^ μ) :=
    (UInt64.lt_iff_toNat_lt.mp hlt).trans_le hle
  have hpos : 0 < 14 * 2 ^ μ := Nat.mul_pos (by decide) (Nat.two_pow_pos μ)
  rw [Nat.le_div_iff_mul_le hpos] at hnow
  rw [Nat.div_lt_iff_lt_mul (by decide)]
  exact (Nat.mul_lt_mul_of_pos_right (Nat.lt_succ_self _) hpos).trans_le hnow

structure Ticks (μ first : Nat) (log : List (UInt64 × List κ)) (now : UInt64) (t : Timer κ)
    (ds : List (UInt64 × List κ)) (t' : Timer κ) : Prop where
  cbs : t.cbs <+: t'.cbs
  logged : Logged first (log ++ ds) t'
  tracks : Tracks μ t'
  due : ∀ d ∈ ds, d.1.toNat * nsPerMs ≤ now.toNat * (14 * 2 ^ μ)
  called : ∀ d ∈ ds, t.cbs.length ≤ d.2.length
  caught : t'.running = true → now.toNat * (14 * 2 ^ μ) / nsPerMs < t'.nextSAbs.toNat

structure Catches (μ first last : Nat) (log : List (UInt64 × List κ)) (t : Timer κ)
    (r : Timer κ × List (UInt64 × List κ)) : Prop where
  numerology : r.1.numerology = μ
  next_le : r.1.nextSAbs.toNat ≤ last + 1
  cbs : t.cbs <+: r.1.cbs
  logged : Logged first (log ++ r.2) r.1
  due : ∀ d ∈ r.2, d.1.toNat ≤ last
  called : ∀ d ∈ r.2, t.cbs.length ≤ d.2.length

variable {last : Nat} {log : List (UInt64 × List κ)} {r : Timer κ × List (UInt64 × List κ)}

theorem Catches.deliver (h : Catches μ first last log t r) (hlast : last + 2 < 2 ^ 64)
    (hle : r.1.nextSAbs.toNat ≤ last) :
    Catches μ first last log t ((r.1.deliver does).1, r.2 ++ [(r.1.deliver does).2]) ∧
      (r.1.deliver does).1.nextSAbs.toNat = r.1.nextSAbs.toNat + 1 := by
  obtain ⟨hnum, hnext, hcbs, heq⟩ := deliver_eq does r.1
  have hnat := toNat_next_deliver does (t := r.1) (by omega)
  have hcbs' := h.cbs.trans hcbs
  refine ⟨⟨hnum.trans h.numerology, by dsimp only; omega, hcbs', ?_, ?_, ?_⟩, hnat⟩
  · rw [← append_assoc]
    exact h.logged.deliver (by omega)
  · intro d hd
    rcases mem_append.mp hd with hd | hd
    · exact h.due d hd
    · rw [mem_singleton.mp hd, heq]
      exact hle
  · intro d hd
    rcases mem_append.mp hd with hd | hd
    · exact h.called d hd
    · rw [mem_singleton.mp hd, heq]
      exact hcbs'.length_le

theorem Tracks.ticks_nil (ht : Tracks μ t) (hl : Logged first log t)
    (h : t.running → now.toNat * (14 * 2 ^ μ) / nsPerMs < t.nextSAbs.toNat) :
    Ticks μ first log now t [] t :=
  ⟨prefix_refl _, (append_nil log).symm ▸ hl, ht, fun _ hd => absurd hd not_mem_nil,
    fun _ hd => absurd hd not_mem_nil, h⟩

theorem Catches.ticks (hc : Catches μ first (now.toNat * (14 * 2 ^ μ) / nsPerMs) log t r)
    (hend : r.1.running → now.toNat * (14 * 2 ^ μ) / nsPerMs < r.1.nextSAbs.toNat) :
    Ticks μ first log now t r.2 { r.1 with targetGpsNs := r.1.targetOf r.1.nextSAbs } := by
  refine ⟨hc.cbs, hc.logged.extends rfl (prefix_refl _),
    ⟨hc.numerology, ?_, ?_⟩, fun d hd => ?_, hc.called, hend⟩
  · exact hc.next_le.trans (Nat.add_le_add_right (symbol_le now) 1)
  · -- by `rfl` the kernel would multiply out the nanoseconds
    symm
    apply targetOf_congr
    rfl
  · exact (Nat.le_div_iff_mul_le (by decide)).mp (hc.due d hd)

theorem tick_ticks {fuel : Nat} (hμ : μ ≤ 3) (ht : Tracks μ t) (hl : Logged first log t)
    (h : t.tick does fuel now = some (t', ds)) : Ticks μ first log now t ds t' := by
  have hnow := toNat_symbolAt hμ ht.numerology now
  have hbound := symbol_le (μ := μ) now
  have hsmall := due_lt hμ
  unfold tick at h
  split at h
  · next hrun =>
    cases h
    exact ht.ticks_nil hl fun hr => by simp [hr] at hrun
  · split at h
    · next htarget =>
      split at h
      · next hback =>
        cases h
        exact ht.ticks_nil hl fun _ => hnow ▸ UInt64.lt_iff_toNat_lt.mp hback
      · next hfwd =>
        obtain ⟨r, hloop, heq⟩ := Option.map_eq_some_iff.mp h
        cases heq
        have hge : t.nextSAbs.toNat ≤ (t.symbolAt now).toNat := by
          rw [UInt64.lt_iff_toNat_lt] at hfwd
          omega
        obtain ⟨hc, hend⟩ := whileLoop.invariant
          (Catches μ first (t.symbolAt now).toNat log t)
          ⟨ht.numerology, by dsimp only; omega, prefix_refl _, (append_nil log).symm ▸ hl,
            fun _ hd => absurd hd not_mem_nil, fun _ hd => absurd hd not_mem_nil⟩
          (fun r hr hcond => by
            simp only [Bool.and_eq_true, decide_eq_true_eq] at hcond
            exact (hr.deliver (by omega) (UInt64.le_iff_toNat_le.mp hcond.1)).1) hloop
        rw [hnow] at hc
        refine hc.ticks fun hrun => ?_
        simp only [hrun, Bool.and_true, decide_eq_false_iff_not, UInt64.le_iff_toNat_le] at hend
        omega
    · next htarget =>
      cases h
      refine ht.ticks_nil hl fun _ => symbolAt_lt_of_lt_targetOf ht.numerology ?_
      rw [← ht.target]
      exact UInt64.not_le.mp htarget

theorem tick_returns (hμ : μ ≤ 3) (ht : Tracks μ t) (does : Behaviour κ) (now : UInt64) :
    ∃ fuel r, t.tick does fuel now = some r := by
  have hnow := toNat_symbolAt hμ ht.numerology now
  have hbound := symbol_le (μ := μ) now
  have hsmall := due_lt hμ
  obtain ⟨r, hr⟩ : ∃ r, whileLoop (fun s : Timer κ × List (UInt64 × List κ) =>
        s.1.nextSAbs ≤ t.symbolAt now && s.1.running)
      (fun s => ((s.1.deliver does).1, s.2 ++ [(s.1.deliver does).2]))
      ((t.symbolAt now).toNat + 1 - t.nextSAbs.toNat).succ (t, []) = some r :=
    whileLoop.returns (fun _ => True) (fun s => (t.symbolAt now).toNat + 1 - s.1.nextSAbs.toNat)
    (fun s _ hcond => by
      simp only [Bool.and_eq_true, decide_eq_true_eq, UInt64.le_iff_toNat_le] at hcond
      have hnext := toNat_next_deliver does (t := s.1) (by omega)
      refine ⟨trivial, ?_⟩
      dsimp only
      omega)
    trivial (Nat.lt_succ_self _)
  refine ⟨((t.symbolAt now).toNat + 1 - t.nextSAbs.toNat).succ, ?_⟩
  unfold tick
  split
  · exact ⟨_, rfl⟩
  · split
    · split
      · exact ⟨_, rfl⟩
      · rw [hr]
        exact ⟨_, rfl⟩
    · exact ⟨_, rfl⟩

theorem init_eq {gpsNow : UInt64} (h : init μ gpsNow = some t) : μ ≤ 3 ∧ Tracks μ t ∧
    t.nextSAbs.toNat = gpsNow.toNat * (14 * 2 ^ μ) / nsPerMs + 1 := by
  unfold init at h
  split at h
  · cases h
  · next hμ =>
    have hμ : μ ≤ 3 := by omega
    have hsmall := due_lt hμ
    have hbound := symbol_le (μ := μ) gpsNow
    cases h
    have hnat : ∀ t : Timer κ, t.numerology = μ →
        (t.symbolAt gpsNow + 1).toNat = gpsNow.toNat * (14 * 2 ^ μ) / nsPerMs + 1 := fun t ht => by
      rw [UInt64.toNat_add, toNat_symbolAt hμ ht]
      exact Nat.mod_eq_of_lt (show _ + 1 < 2 ^ 64 by omega)
    have hnext := hnat { numerology := μ, cbs := [], cbs_le := Nat.zero_le _, running := true
                         sAbs := 0, targetGpsNs := 0, nextSAbs := 0 } rfl
    exact ⟨hμ, ⟨rfl, hnext.trans_le (Nat.add_le_add_right hbound 1), rfl⟩, hnext⟩

variable {l : TimerOp κ × List (UInt64 × List κ)}

theorem Tracks.extends (h : Tracks μ t) (he : t.Extends t') : Tracks μ t' := by
  refine ⟨he.numerology.trans h.numerology, he.next ▸ h.next_le, ?_⟩
  rw [he.target, he.next, h.target, targetOf_congr he.numerology]

theorem step_keeps (hμ : μ ≤ 3) (ht : Tracks μ t) (hl : Logged first log t) (h : TimerStep t l t') :
    t.cbs <+: t'.cbs ∧ Tracks μ t' ∧ Logged first (log ++ l.2) t' ∧
      ∀ d ∈ l.2, t.cbs.length ≤ d.2.length := by
  have hquiet : ∀ {t'}, t.Extends t' → t.cbs <+: t'.cbs ∧ Tracks μ t' ∧
      Logged first (log ++ []) t' ∧
      ∀ d ∈ ([] : List (UInt64 × List κ)), t.cbs.length ≤ d.2.length := fun he =>
    ⟨he.cbs, ht.extends he, (append_nil log).symm ▸ hl.extends he.next he.cbs,
      fun _ hd => absurd hd not_mem_nil⟩
  cases h with
  | tick h =>
    have h := tick_ticks hμ ht hl h
    exact ⟨h.cbs, h.tracks, h.logged, h.called⟩
  | registerCb => exact hquiet (t.registerCb_extends _)
  | stop => exact hquiet (t.act_extends .stop)

variable {ls : List (TimerOp κ × List (UInt64 × List κ))}

theorem deliveries_concat : deliveries (ls ++ [l]) = deliveries ls ++ l.2 := by
  simp [deliveries]

theorem run_keeps (hμ : μ ≤ 3) (ht : Tracks μ t) (hl : Logged first log t)
    (h : Run TimerStep t ls t') :
    t.cbs <+: t'.cbs ∧ Tracks μ t' ∧ Logged first (log ++ deliveries ls) t' ∧
      ∀ d ∈ deliveries ls, t.cbs.length ≤ d.2.length := by
  refine Run.trace_invariant (fun ls t' => t.cbs <+: t'.cbs ∧ Tracks μ t' ∧
      Logged first (log ++ deliveries ls) t' ∧ ∀ d ∈ deliveries ls, t.cbs.length ≤ d.2.length)
    ⟨prefix_refl _, ht, (append_nil log).symm ▸ hl, fun _ hd => absurd hd not_mem_nil⟩
    ?_ h
  rintro ls s l u ⟨hcbs, ht, hl, hcalled⟩ hs
  obtain ⟨hcbs', ht', hl', hcalled'⟩ := step_keeps hμ ht hl hs
  rw [deliveries_concat]
  refine ⟨hcbs.trans hcbs', ht', by rwa [← append_assoc], fun d hd => ?_⟩
  rcases mem_append.mp hd with hd | hd
  · exact hcalled d hd
  · exact hcbs.length_le.trans (hcalled' d hd)

end Timer

/-- Every callback is called with consecutive symbols, each once, none before the clock has reached
it; after a tick of a timer that runs, all symbols up to the clock are delivered. -/
theorem timer_exact {μ : Nat} {now₀ : UInt64} {t₀ t : Timer κ}
    {ls : List (TimerOp κ × List (UInt64 × List κ))} (h₀ : Timer.init μ now₀ = some t₀)
    (h : Run TimerStep t₀ ls t) :
    (∃ n, symbols (deliveries ls) =
      List.range' (now₀.toNat * (14 * 2 ^ μ) / nsPerMs + 1) n) ∧
    (∀ i, callsOf i (deliveries ls) <:+ symbols (deliveries ls)) ∧
    (∀ ls₁ ls₂ t₁, ls = ls₁ ++ ls₂ → Run TimerStep t₀ ls₁ t₁ → Run TimerStep t₁ ls₂ t →
      ∀ i < t₁.cbs.length, callsOf i (deliveries ls₂) = symbols (deliveries ls₂)) ∧
    (∀ now does ds, (.tick now does, ds) ∈ ls → ∀ d ∈ ds,
      now.toNat * (14 * 2 ^ μ) ≥ d.1.toNat * nsPerMs) ∧
    (∀ ls' now does ds, ls = ls' ++ [(.tick now does, ds)] → t.running = true →
      ∀ s, now₀.toNat * (14 * 2 ^ μ) / nsPerMs < s → s ≤ now.toNat * (14 * 2 ^ μ) / nsPerMs →
        s ∈ symbols (deliveries ls)) ∧
    ∀ now does, ∃ fuel r, t.tick does fuel now = some r := by
  obtain ⟨hμ, ht₀, hnext⟩ := Timer.init_eq h₀
  have hl₀ : Timer.Logged (now₀.toNat * (14 * 2 ^ μ) / nsPerMs + 1) [] t₀ :=
    ⟨hnext.ge, by rw [hnext, Nat.sub_self]; rfl, fun _ => nil_suffix, fun _ _ => rfl⟩
  obtain ⟨-, ht, hl, -⟩ := Timer.run_keeps hμ ht₀ hl₀ h
  refine ⟨⟨_, hl.symbols_eq⟩, hl.suffix, ?_, ?_, ?_,
    fun now does => Timer.tick_returns hμ ht does now⟩
  · rintro ls₁ ls₂ t₁ rfl h₁ h₂ i hi
    obtain ⟨-, ht₁, hl₁, -⟩ := Timer.run_keeps hμ ht₀ hl₀ h₁
    obtain ⟨-, -, -, hcalled⟩ := Timer.run_keeps hμ ht₁ hl₁ h₂
    exact Timer.callsOf_eq_symbols fun d hd => hi.trans_le (hcalled d hd)
  · intro now does ds hmem
    obtain ⟨ls₁, u, v, h₁, hs⟩ := h.step_of_mem hmem
    obtain ⟨-, ht₁, hl₁, -⟩ := Timer.run_keeps hμ ht₀ hl₀ h₁
    cases hs with
    | tick htick => exact (Timer.tick_ticks hμ ht₁ hl₁ htick).due
  · rintro ls' now does ds rfl hrun s hlo hhi
    obtain ⟨t', h', hs⟩ := h.snoc_inv
    obtain ⟨-, ht', hl', -⟩ := Timer.run_keeps hμ ht₀ hl₀ h'
    cases hs with
    | tick htick =>
      have hcaught := (Timer.tick_ticks hμ ht' hl' htick).caught hrun
      rw [nil_append] at hl
      rw [hl.symbols_eq, mem_range'_1]
      omega

theorem timer_exact_backwards : ∃ (t₀ t : Timer Unit) (ls : List (TimerOp Unit × _)),
    Timer.init 1 0 = some t₀ ∧ Run TimerStep t₀ ls t ∧ t.running = true ∧
      callsOf 0 (deliveries ls) = [1, 2] ∧
      ∀ s, 0 * (14 * 2 ^ 1) / nsPerMs < s → s ≤ 50000 * (14 * 2 ^ 1) / nsPerMs →
        s ∈ symbols (deliveries ls) := by
  obtain ⟨t₀, h₀⟩ : ∃ t₀ : Timer Unit, Timer.init 1 0 = some t₀ := ⟨_, rfl⟩
  have hobs : ((t₀.registerCb ()).getD t₀ |>.tick (fun _ _ => []) 5 80000).bind (fun r =>
      (r.1.tick (fun _ _ => []) 5 50000).map fun r' =>
        (r'.1.running, callsOf 0 (r.2 ++ r'.2))) = some (true, [1, 2]) := by
    cases h₀
    decide
  obtain ⟨⟨t₁, ds⟩, htick, hobs⟩ := Option.bind_eq_some_iff.mp hobs
  obtain ⟨⟨t, ds'⟩, htick', heq⟩ := Option.map_eq_some_iff.mp hobs
  obtain ⟨hrun, hcalls⟩ := Prod.mk.inj heq
  have h : Run TimerStep t₀
      ([(.registerCb (), []), (.tick 80000 _, ds)] ++ [(.tick 50000 _, ds')]) t :=
    .snoc (.cons .registerCb (.cons (.tick htick) .nil)) (.tick htick')
  refine ⟨t₀, t, _, h₀, h, hrun, ?_, (timer_exact h₀ h).2.2.2.2.1 _ _ _ _ rfl hrun⟩
  simpa [deliveries] using hcalls

end OpenAir.Fronthaul

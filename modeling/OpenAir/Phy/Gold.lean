import OpenAir.Ds.HashTable
import OpenAir.Lib.BitReader

/-! The pseudo-random sequences of section 5.2.1 of 38.211, 32 bits at a time, and their cache. -/

namespace OpenAir.Phy.Gold

open Ds Function

abbrev Word := BitVec 32

def x1 (n : Nat) : Bool := if n < 31 then n = 0 else x1 (n - 31 + 3) ^^ x1 (n - 31)
decreasing_by all_goals omega

def x2 (cInit : Word) (n : Nat) : Bool :=
  if n < 31 then cInit.getLsbD n
  else x2 cInit (n - 31 + 3) ^^ x2 cInit (n - 31 + 2) ^^ x2 cInit (n - 31 + 1) ^^ x2 cInit (n - 31)
decreasing_by all_goals omega

def c (cInit : Word) (n : Nat) : Bool := x1 (n + 1600) ^^ x2 cInit (n + 1600)

def advance1 (x : Word) : Word :=
  let x := (x >>> 1) ^^^ (x >>> 4)
  x ^^^ (x <<< 31) ^^^ (x <<< 28)

def advance2 (x : Word) : Word :=
  let x := (x >>> 1) ^^^ (x >>> 2) ^^^ (x >>> 3) ^^^ (x >>> 4)
  x ^^^ (x <<< 31) ^^^ (x <<< 30) ^^^ (x <<< 29) ^^^ (x <<< 28)

def advance (x : Word × Word) : Word × Word := (advance1 x.1, advance2 x.2)

def start (x : Word) : Word × Word :=
  (1 + (1 <<< 31), x ^^^ ((x ^^^ (x >>> 1) ^^^ (x >>> 2) ^^^ (x >>> 3)) <<< 31))

def goldGeneric (x : Word × Word) (reset : Bool) : Word × (Word × Word) :=
  let x := if reset then advance^[49] (start x.2) else x
  let x := advance x
  (x.1 ^^^ x.2, x)

def goldCall (x : Word × Word) : Nat → Word × (Word × Word)
  | 0 => goldGeneric x true
  | k + 1 => goldGeneric (goldCall x k).2 false

structure GoldEntry where
  length : Int
  seq : List Word

inductive GoldFault
  | invalidLength
  | nullEntry
  deriving DecidableEq

def goldGenerate (key : Word) (length : Int) : Except GoldFault (List Word) :=
  if 0 < length then .ok ((List.range length.toNat).map fun k => (goldCall (0, key) k).1)
  else .error .invalidLength

def grain : Int := 16

def roundUp (length : Int) : Int := (length + grain - 1).tdiv grain * grain

abbrev GoldTable := HashTable GoldEntry

def insertNew (ht : GoldTable) (key : Word) (length : Int) : Except GoldFault
    (List Word × GoldTable) := do
  let seq ← goldGenerate key length
  return (seq, (ht.hashtableInsert (key.setWidth 64) (some { length, seq }) true).2)

/-- `gold_cache`, with the table of the thread, which the first call creates. -/
def goldCache (table : Option GoldTable) (key : Word) (length : Int) :
    Except GoldFault (List Word × GoldTable) :=
  let ht := table.getD (hashtableCreate 1024 none)
  let length := roundUp length
  let found := ht.hashtableGet (key.setWidth 64)
  if found.rc = .ok then
    match found.data with
    | none => .error .nullEntry
    | some entry =>
      if length ≤ entry.length then .ok (entry.seq, ht)
      else insertNew (ht.hashtableRemove (key.setWidth 64) true).2 key length
  else insertNew ht key length

def goldCaches (table : Option GoldTable) (calls : List (Word × Int)) :
    Except GoldFault (Option GoldTable) :=
  calls.foldlM (fun table call => (some ·.2) <$> goldCache table call.1 call.2) table

section

variable (taps : List Nat)

def xorBits (f : Nat → Bool) : Bool := taps.foldr (fun t b => f t ^^ b) false

def xorWords (f : Nat → Word) : Word := taps.foldr (fun t w => f t ^^^ w) 0

def advanceBy (w : Word) : Word :=
  let y := xorWords taps fun t => w >>> (t + 1)
  y ^^^ xorWords taps fun t => y <<< (31 - t)

def Shows (x : Nat → Bool) (n : Nat) (w : Word) : Prop := ∀ i < 32, w.getLsbD i = x (n + i)

end

variable {taps : List Nat}

theorem getLsbD_xorWords (f : Nat → Word) (i : Nat) :
    (xorWords taps f).getLsbD i = xorBits taps fun t => (f t).getLsbD i := by
  induction taps with
  | nil => simp [xorWords, xorBits]
  | cons t taps ih =>
    rw [xorWords, List.foldr_cons, BitVec.getLsbD_xor]
    exact congrArg _ ih

theorem xorBits_xor (f g : Nat → Bool) :
    (xorBits taps f ^^ xorBits taps g) = xorBits taps fun t => f t ^^ g t := by
  induction taps with
  | nil => rfl
  | cons t taps ih =>
    simp only [xorBits, List.foldr_cons] at ih ⊢
    rw [← ih, Bool.xor_assoc, Bool.xor_assoc, Bool.xor_left_comm (g t)]

theorem xorBits_congr {f g : Nat → Bool} (h : ∀ t ∈ taps, f t = g t) :
    xorBits taps f = xorBits taps g := by
  induction taps with
  | nil => rfl
  | cons t taps ih =>
    obtain ⟨ht, h⟩ := List.forall_mem_cons.mp h
    simp only [xorBits, List.foldr_cons, ht]
    exact congrArg _ (ih h)

variable {n : Nat}

theorem Shows.advanceBy {x : Nat → Bool} {w : Word} (h : Shows x n w) (htaps : ∀ t ∈ taps, t ≤ 3)
    (hx : ∀ n, x (n + 31) = xorBits taps fun t => x (n + t)) :
    Shows x (n + 32) (advanceBy taps w) := by
  have hold (t i : Nat) :
      (w >>> (t + 1)).getLsbD i = (decide (i + t < 31) && x (n + 1 + i + t)) := by
    rw [BitVec.getLsbD_ushiftRight]
    by_cases hi : i + t < 31
    · rw [h _ (by omega), show n + (t + 1 + i) = n + 1 + i + t by omega, decide_eq_true hi,
        Bool.true_and]
    · rw [BitVec.getLsbD_of_ge _ _ (by omega), decide_eq_false hi, Bool.false_and]
  have hnext (i : Nat) : x (n + 32 + i) = xorBits taps fun t => x (n + 1 + i + t) := by
    rw [show n + 32 + i = n + 1 + i + 31 by omega, hx]
  have hlow (i : Nat) (hi : i < 28) :
      (xorWords taps fun t => w >>> (t + 1)).getLsbD i = x (n + 32 + i) := by
    rw [getLsbD_xorWords, hnext]
    refine xorBits_congr fun t ht => ?_
    have := htaps t ht
    rw [hold, decide_eq_true (by omega), Bool.true_and]
  intro i hi
  unfold Gold.advanceBy
  dsimp only
  rw [BitVec.getLsbD_xor, getLsbD_xorWords, getLsbD_xorWords, xorBits_xor, hnext]
  refine xorBits_congr fun t ht => ?_
  have hle := htaps t ht
  rw [hold, BitVec.getLsbD_shiftLeft]
  by_cases hit : i + t < 31
  · simp [hit, show i < 31 - t by omega]
  · rw [hlow _ (by omega), show n + 32 + (i - (31 - t)) = n + 1 + i + t by omega]
    simp [hit, hi, show ¬i < 31 - t by omega]

theorem x1_add (n : Nat) : x1 (n + 31) = xorBits [0, 3] fun t => x1 (n + t) := by
  rw [x1, if_neg (by omega), show n + 31 - 31 = n by omega]
  simp [xorBits, Bool.xor_comm]

theorem x2_add (cInit : Word) (n : Nat) :
    x2 cInit (n + 31) = xorBits [0, 1, 2, 3] fun t => x2 cInit (n + t) := by
  rw [x2, if_neg (by omega), show n + 31 - 31 = n by omega]
  simp [xorBits, Bool.xor_comm]

def At (cInit : Word) (n : Nat) (x : Word × Word) : Prop := Shows x1 n x.1 ∧ Shows (x2 cInit) n x.2

variable {cInit : Word}

theorem At.advance {x : Word × Word} (h : At cInit n x) :
    At cInit (n + 32) (advance x) := by
  have h₁ := h.1.advanceBy (by decide) x1_add
  have h₂ := h.2.advanceBy (by decide) (x2_add cInit)
  simp only [advanceBy, xorWords, List.foldr_cons, List.foldr_nil] at h₁ h₂
  exact ⟨by simpa [Gold.advance, advance1, BitVec.xor_assoc] using h₁,
    by simpa [Gold.advance, advance2, BitVec.xor_assoc] using h₂⟩

theorem At.iterate {x : Word × Word} (h : At cInit n x) (k : Nat) :
    At cInit (n + 32 * k) (Gold.advance^[k] x) := by
  induction k with
  | zero => exact h
  | succ k ih =>
    rw [iterate_succ_apply']
    exact ih.advance

theorem At.start (h : cInit.toNat < 2 ^ 31) : At cInit 0 (start cInit) := by
  constructor
  · intro i hi
    have hfirst : ∀ i < 31, (1 + (1 <<< 31) : Word).getLsbD i = decide (i = 0) := by decide
    rw [Nat.zero_add]
    by_cases hlt : i < 31
    · rw [x1, if_pos hlt]
      exact hfirst i hlt
    · obtain rfl : i = 31 := by omega
      simp [x1, Gold.start]
  · intro i hi
    have htop : cInit.getLsbD 31 = false := Nat.testBit_lt_two_pow h
    rw [Nat.zero_add, Gold.start, BitVec.getLsbD_xor, BitVec.getLsbD_shiftLeft]
    by_cases hlt : i < 31
    · rw [x2, if_pos hlt]
      simp [hlt]
    · obtain rfl : i = 31 := by omega
      rw [x2, if_neg hlt, htop]
      simp [x2, Bool.xor_comm]

theorem At.goldCall (h : cInit.toNat < 2 ^ 31) (w : Word) (k : Nat) :
    At cInit (1600 + 32 * k) (goldCall (w, cInit) k).2 := by
  induction k with
  | zero => exact ((At.start h).iterate 49).advance
  | succ k ih => exact ih.advance

theorem getLsbD_goldCall (h : cInit.toNat < 2 ^ 31) (w : Word) (k i : Nat) (hi : i < 32) :
    (goldCall (w, cInit) k).1.getLsbD i = c cInit (32 * k + i) := by
  have hat := At.goldCall h w k
  have hword :
      (goldCall (w, cInit) k).1 = (goldCall (w, cInit) k).2.1 ^^^ (goldCall (w, cInit) k).2.2 := by
    cases k <;> rfl
  rw [hword, BitVec.getLsbD_xor, hat.1 i hi, hat.2 i hi, c,
    show 1600 + 32 * k + i = 32 * k + i + 1600 by omega]

structure Sound (ht : GoldTable) (m : KeyMap GoldEntry) : Prop where
  refines : ht.Refines m
  entry : ∀ (key : Word) d, m (key.setWidth 64) = some d → ∃ e, d = some e ∧
    goldGenerate key e.length = .ok e.seq

theorem goldGenerate_prefix {key : Word} {length : Int} {seq : List Word}
    (h : goldGenerate key length = .ok seq)
    {k : Nat} (hk : (k : Int) < length) : seq[k]? = some (goldCall (0, key) k).1 := by
  unfold goldGenerate at h
  split at h
  · cases h
    simp [List.getElem?_range (show k < length.toNat by omega)]
  · cases h

namespace Sound

variable {ht : GoldTable} {m : KeyMap GoldEntry} {key : Word} {length : Int}

theorem create : Sound (hashtableCreate 1024 none) (fun _ => none) :=
  ⟨hashtableCreate_refines (by decide) none, fun _ _ h => by cases h⟩

theorem update (h : Sound ht m) {ht' : GoldTable} {v : Option (Option GoldEntry)}
    (href : ht'.Refines (update m (key.setWidth 64) v))
    (hv : ∀ d, v = some d → ∃ e, d = some e ∧ goldGenerate key e.length = .ok e.seq) :
    Sound ht' (update m (key.setWidth 64) v) := by
  refine ⟨href, fun key' d hd => ?_⟩
  by_cases hkey : key' = key
  · subst hkey
    rw [update_self] at hd
    exact hv d hd
  · have hne : key'.setWidth 64 ≠ key.setWidth 64 := by
      intro heq
      have hnat := congrArg BitVec.toNat heq
      rw [BitVec.toNat_setWidth, BitVec.toNat_setWidth] at hnat
      exact hkey (BitVec.eq_of_toNat_eq (by omega))
    rw [update_of_ne hne] at hd
    exact h.entry key' d hd

theorem insertNew (h : Sound ht m) {r : List Word × GoldTable}
    (hr : insertNew ht key length = .ok r) :
    goldGenerate key length = .ok r.1 ∧ ∃ m', Sound r.2 m' := by
  obtain ⟨seq, hseq, hr⟩ := bind_eq_ok.mp hr
  cases hr
  refine ⟨hseq, _, h.update (h.refines.insert (some { length, seq }) true).2 ?_⟩
  rintro _ ⟨⟩
  exact ⟨_, rfl, hseq⟩

theorem goldCache_cases {table : Option GoldTable}
    (h : Sound (table.getD (hashtableCreate 1024 none)) m) (key : Word) (length : Int) :
    (∃ e : GoldEntry, roundUp length ≤ e.length ∧ goldGenerate key e.length = .ok e.seq ∧
      goldCache table key length = .ok (e.seq, table.getD (hashtableCreate 1024 none))) ∨
    ∃ ht m', Sound ht m' ∧ goldCache table key length = Gold.insertNew ht key (roundUp length) := by
  have hget : (table.getD (hashtableCreate 1024 none)).hashtableGet (key.setWidth 64) = _ :=
    h.refines.get
  unfold goldCache
  simp only [hget, KeyMap.exec]
  cases hm : m (key.setWidth 64) with
  | none => exact .inr ⟨_, m, h, rfl⟩
  | some d =>
    obtain ⟨e, rfl, he⟩ := h.entry key d hm
    simp only [Option.isSome_some, if_true, Option.join_some]
    split
    next hle => exact .inl ⟨e, hle, he, rfl⟩
    next hlt => exact .inr ⟨_, _, h.update (h.refines.remove true).2 (by rintro _ ⟨⟩), rfl⟩

theorem goldCaches {table : Option GoldTable} {calls : List (Word × Int)}
    (hc : goldCaches none calls = .ok table) :
    ∃ m, Sound (table.getD (hashtableCreate 1024 none)) m := by
  refine foldlM_invariant (fun t => ∃ m, Sound (t.getD (hashtableCreate 1024 none)) m) ?_
    ⟨_, create⟩ hc
  rintro table ⟨key, length⟩ table' ⟨m, h⟩ hcall
  obtain ⟨r, hr, rfl⟩ := map_eq_ok.mp hcall
  rcases h.goldCache_cases key length with ⟨e, -, -, he⟩ | ⟨ht, m', h', he⟩
  · cases he.symm.trans hr
    exact ⟨m, h⟩
  · exact (h'.insertNew (he.symm.trans hr)).2

end Sound

theorem goldCaches_snoc {calls : List (Word × Int)} {table : Option GoldTable} {key : Word}
    {length : Int} {r : List Word × GoldTable} (h : goldCaches none calls = .ok table)
    (hr : goldCache table key length = .ok r) :
    goldCaches none (calls ++ [(key, length)]) = .ok (some r.2) := by
  rw [goldCaches] at h ⊢
  rw [List.foldlM_append, h]
  exact congrArg (fun x => (some ·.2) <$> x >>= pure) hr

theorem le_roundUp (length : Int) : length ≤ roundUp length := by
  have hdiv := Int.mul_tdiv_add_tmod (length + grain - 1) grain
  have hlt := Int.tmod_lt_of_pos (length + grain - 1) (show 0 < grain by decide)
  unfold roundUp grain at *
  omega

/-- Word `n / 32` of the calls that follow a call with `reset`, and the words that `gold_cache`
returns. -/
theorem gold_sequences :
    (∀ w cInit : Word, cInit.toNat < 2 ^ 31 → ∀ n,
      (goldCall (w, cInit) (n / 32)).1.getLsbD (n % 32) = c cInit n) ∧
    ∀ calls table, goldCaches none calls = .ok table → ∀ key length,
      (0 < length → ∃ r, goldCache table key length = .ok r) ∧
      ∀ r, goldCache table key length = .ok r → ∀ k : Nat, (k : Int) < length →
        r.1[k]? = some (goldCall (0, key) k).1 := by
  refine ⟨fun w cInit h n => ?_, fun calls table hc key length => ?_⟩
  · rw [getLsbD_goldCall h w _ _ (Nat.mod_lt _ (by decide)), Nat.div_add_mod]
  obtain ⟨m, h⟩ := Sound.goldCaches hc
  have hround := le_roundUp length
  rcases h.goldCache_cases key length with ⟨e, hle, hseq, he⟩ | ⟨ht, m', h', he⟩
  · refine ⟨fun _ => ⟨_, he⟩, fun r hr k hk => ?_⟩
    cases he.symm.trans hr
    exact goldGenerate_prefix hseq (by omega)
  · refine ⟨fun hpos => ?_, fun r hr k hk => ?_⟩
    · rw [he, insertNew, goldGenerate, if_pos (by omega)]
      exact ⟨_, rfl⟩
    · exact goldGenerate_prefix (h'.insertNew (he.symm.trans hr)).1 (by omega)

/-- The sequence of the first call is replaced by a longer one. -/
theorem gold_sequences_longer_call :
    (1 : Word).toNat < 2 ^ 31 ∧ ∃ table r, goldCaches none [(1, 3), (2, 1)] = .ok table ∧
      goldCache table 1 300 = .ok r ∧
      ∀ n < 9600, (r.1[n / 32]?).map (·.getLsbD (n % 32)) = some (c 1 n) := by
  obtain ⟨hbits, hcache⟩ := gold_sequences
  obtain ⟨r₁, h₁⟩ := (hcache [] none rfl 1 3).1 (by decide)
  have hcalls₁ := goldCaches_snoc (show goldCaches none [] = .ok none from rfl) h₁
  obtain ⟨r₂, h₂⟩ := (hcache _ _ hcalls₁ 2 1).1 (by decide)
  have hcalls₂ := goldCaches_snoc hcalls₁ h₂
  obtain ⟨hok, hwords⟩ := hcache _ _ hcalls₂ 1 300
  obtain ⟨r, hr⟩ := hok (by decide)
  refine ⟨by decide, _, r, hcalls₂, hr, fun n hn => ?_⟩
  rw [hwords r hr (n / 32) (by omega), Option.map_some, hbits 0 1 (by decide)]

end OpenAir.Phy.Gold

import OpenAir.Lib.Bits
import OpenAir.Lib.Loop
import OpenAir.Lib.Slice

/-! Producers that append bytes to a bounded buffer, and parsers of bytes in memory. -/

namespace OpenAir

open List

/-- A buffer of `cap` bytes and what has been put into it. -/
structure Producer where
  cap : Nat
  out : List Byte := []

namespace Producer

def putByte (p : Producer) (b : Byte) : Option Producer :=
  if p.out.length = p.cap then none else some { p with out := p.out ++ [b] }

def put (bs : List Byte) (p : Producer) : Option Producer := bs.foldlM putByte p

def padRound (r : Nat) (p : Producer) : Producer ⊕ Option Producer :=
  if p.out.length % 4 ≠ r then
    match p.putByte 0 with
    | none => .inr none
    | some p => .inl p
  else .inr (some p)

def padTo (r : Nat) (p : Producer) : Option Producer :=
  match loop (ε := Empty) (fun p => .ok (padRound r p)) 4 p with
  | .ok p => p
  | .error _ => none

def zerosTo (r n : Nat) : List Byte := List.replicate ((r + 4 - n % 4) % 4) 0

theorem length_zerosTo_lt (r n : Nat) : (zerosTo r n).length < 4 := by
  rw [zerosTo, length_replicate]
  omega

theorem loop_padRound {r : Nat} (hr : r < 4) (fuel : Nat) (p : Producer)
    (hfuel : (zerosTo r p.out.length).length < fuel)
    (hp : p.out.length + (zerosTo r p.out.length).length ≤ p.cap) :
    loop (ε := Empty) (fun p => .ok (padRound r p)) fuel p =
      .ok (some { p with out := p.out ++ zerosTo r p.out.length }) := by
  induction fuel generalizing p with
  | zero => omega
  | succ fuel ih =>
    rw [loop, padRound]
    simp only [zerosTo, length_replicate] at hfuel hp
    by_cases hmod : p.out.length % 4 = r
    · simp [zerosTo, hmod]
    · have hput : p.putByte 0 = some { p with out := p.out ++ [0] } := by
        rw [putByte, if_neg (by omega)]
      have hpad : zerosTo r p.out.length = [0] ++ zerosTo r (p.out.length + 1) := by
        have hlen : (r + 4 - p.out.length % 4) % 4 = (r + 4 - (p.out.length + 1) % 4) % 4 + 1 := by
          omega
        rw [zerosTo, hlen, replicate_succ]
        rfl
      have hnext := ih { p with out := p.out ++ [0] } (by simp [zerosTo]; omega)
        (by simp [zerosTo]; omega)
      simp only [ne_eq, hmod, not_false_eq_true, if_true, hput, hnext]
      simp [hpad]

theorem padTo_eq {r : Nat} (hr : r < 4) {p : Producer}
    (hp : p.out.length + (zerosTo r p.out.length).length ≤ p.cap) :
    padTo r p = some { p with out := p.out ++ zerosTo r p.out.length } := by
  rw [padTo, loop_padRound hr 4 p (length_zerosTo_lt r _) hp]

def Writes (f : Producer → Option Producer) (bs : List Byte) : Prop :=
  ∀ p, p.out.length + bs.length ≤ p.cap → f p = some { p with out := p.out ++ bs }

namespace Writes

variable {f g : Producer → Option Producer} {bs bs' : List Byte}

theorem nil : Writes some [] := fun p _ => by simp

theorem bind (hf : Writes f bs) (hg : Writes g bs') : Writes (fun p => f p >>= g) (bs ++ bs') := by
  intro p hp
  rw [length_append] at hp
  show (f p).bind g = _
  rw [hf p (by omega), Option.bind_some, hg _ (by simp; omega), append_assoc]

theorem put (bs : List Byte) : Writes (put bs) bs := by
  induction bs with
  | nil => exact nil
  | cons b bs ih =>
    intro p hp
    rw [length_cons] at hp
    have hroom : p.out.length ≠ p.cap := by omega
    have hput : p.putByte b = some { p with out := p.out ++ [b] } := by rw [putByte, if_neg hroom]
    rw [Producer.put, foldlM_cons, hput]
    simpa [Producer.put] using ih { p with out := p.out ++ [b] } (by simp; omega)

end Writes

end Producer

/-- Why a parser returns nothing: it rejects its input, or it has read beyond the end. -/
inductive ReadFault (ε : Type*)
  | rejected (e : ε)
  | outOfBounds
  deriving DecidableEq

/-- A parser of the first `len` bytes of a memory, from a position on. -/
def Parser (ε α : Type) : Type := (Nat → Byte) → Int → Nat → Except (ReadFault ε) (α × Nat)

namespace Parser

variable {ε α β : Type}

instance : Monad (Parser ε) where
  pure a := fun _ _ pos => .ok (a, pos)
  bind g f := fun mem len pos =>
    match g mem len pos with
    | .error e => .error e
    | .ok (a, pos) => f a mem len pos

def reject (e : ε) : Parser ε α := fun _ _ _ => .error (.rejected e)

/-- A check that `n` more bytes are there; `e` is told how many are needed and how many there
are. -/
def need (e : Nat → Int → ε) (n : Nat) : Parser ε Unit := fun _ len pos =>
  if (pos + n : Nat) > len then .error (.rejected (e (pos + n) len)) else .ok ((), pos)

def grab (n : Nat) : Parser ε (List Byte) := fun mem len pos =>
  if (pos + n : Nat) ≤ len then .ok (slice mem pos n, pos + n) else .error .outOfBounds

def optional (b : Bool) (g : Parser ε α) : Parser ε (Option α) :=
  if b then do return some (← g) else pure none

def times (g : Parser ε α) : Nat → Parser ε (List α)
  | 0 => pure []
  | n + 1 => do
    let a ← g
    let l ← times g n
    return a :: l

def Within (g : Parser ε α) (n : Nat) : Prop :=
  ∀ mem (len : Int) pos, (pos + n : Nat) ≤ len →
    (∃ a, g mem len pos = .ok (a, pos + n)) ∨ ∃ e, g mem len pos = .error (.rejected e)

def Safe (g : Parser ε α) : Prop := ∀ mem len pos, g mem len pos ≠ .error .outOfBounds

def Reads (g : Parser ε α) (b : List Byte) (a : α) : Prop :=
  ∀ mem (len : Int) pos, Holds mem pos b → (pos + b.length : Nat) ≤ len →
    g mem len pos = .ok (a, pos + b.length)

def Begins (mem : Nat → Byte) (len : Int) (pos : Nat) (b : List Byte) : Prop :=
  ∀ i (hi : i < b.length), (pos + i : Nat) < len → mem (pos + i) = b[i]

def Accepts (g : Parser ε α) (b : List Byte) (a : α) : Prop :=
  ∀ mem (len : Int) (pos : Nat), pos ≤ len → Begins mem len pos b →
    if (pos + b.length : Nat) ≤ len then g mem len pos = .ok (a, pos + b.length)
    else ∃ e, g mem len pos = .error (.rejected e)

section

variable {g : Parser ε α} {f : α → Parser ε β} {m n : Nat} {b b' : List Byte} {a : α} {c : β}

theorem bind_ok {mem : Nat → Byte} {len : Int} {pos pos' : Nat}
    (h : g mem len pos = .ok (a, pos')) : (g >>= f) mem len pos = f a mem len pos' := by
  simp only [Bind.bind, h]

theorem bind_error {mem : Nat → Byte} {len : Int} {pos : Nat} {e : ReadFault ε}
    (h : g mem len pos = .error e) : (g >>= f) mem len pos = .error e := by
  simp only [Bind.bind, h]

namespace Begins

variable {mem : Nat → Byte} {len : Int} {pos : Nat}

theorem append (h : Begins mem len pos (b ++ b')) :
    Begins mem len pos b ∧ Begins mem len (pos + b.length) b' := by
  constructor
  · intro i hi hlt
    rw [h i (by simp; omega) hlt, getElem_append_left hi]
  · intro i hi hlt
    rw [Nat.add_assoc] at hlt ⊢
    rw [h (b.length + i) (by simp; omega) hlt, getElem_append_right (by omega)]
    simp

theorem holds (h : Begins mem len pos b) (hlen : (pos + b.length : Nat) ≤ len) :
    Holds mem pos b := by
  refine ext_getElem length_slice fun i _ hi => ?_
  simpa [slice] using h i hi (by omega)

theorem of_holds (h : Holds mem pos b) :
    Begins mem len pos b := fun _ hi _ => h.get hi

end Begins

theorem Within.pure (a : α) : Within (pure a : Parser ε α) 0 := fun _ _ _ _ => .inl ⟨a, rfl⟩

theorem Within.bind (hg : Within g m) (hf : ∀ a, Within (f a) n) : Within (g >>= f) (m + n) := by
  intro mem len pos hlen
  rcases hg mem len pos (by omega) with ⟨a, ha⟩ | ⟨e, he⟩
  · rw [bind_ok ha, ← Nat.add_assoc]
    exact hf a mem len (pos + m) (by omega)
  · exact .inr ⟨e, bind_error he⟩

theorem Within.grab (n : Nat) : Within (grab n : Parser ε (List Byte)) n :=
  fun mem _ pos hlen => .inl ⟨slice mem pos n, if_pos hlen⟩

theorem Within.times (hg : Within g n) (k : Nat) : Within (times g k) (n * k) := by
  induction k with
  | zero => exact .pure []
  | succ k ih =>
    have hn : n * (k + 1) = n + (n * k + 0) := by ring
    rw [hn]
    exact hg.bind fun a => ih.bind fun l => .pure (a :: l)

theorem Safe.pure (a : α) : Safe (pure a : Parser ε α) := fun _ _ _ h => by cases h

theorem Safe.reject (e : ε) : Safe (reject e : Parser ε α) := fun _ _ _ h => by cases h

theorem Safe.bind (hg : Safe g) (hf : ∀ a, Safe (f a)) : Safe (g >>= f) := by
  intro mem len pos
  cases hr : g mem len pos with
  | error e =>
    rw [bind_error hr]
    rintro ⟨⟩
    exact hg mem len pos hr
  | ok r =>
    rw [@bind_ok _ _ _ _ _ r.1 _ _ _ r.2 hr]
    exact hf r.1 mem len r.2

theorem Safe.need (hg : Within g n) (e : Nat → Int → ε) : Safe (need e n >>= fun _ => g) := by
  intro mem len pos
  by_cases hlen : ((pos + n : Nat) : Int) > len
  · rw [bind_error (if_pos hlen)]
    simp
  · rw [bind_ok (if_neg hlen)]
    rcases hg mem len pos (by omega) with ⟨a, ha⟩ | ⟨e, he⟩
    · simp [ha]
    · simp [he]

theorem Safe.optional (hg : Safe g) (b : Bool) : Safe (optional b g) := by
  cases b with
  | true => exact hg.bind fun a => .pure (some a)
  | false => exact .pure none

theorem Reads.pure (a : α) : Reads (pure a : Parser ε α) [] a := fun _ _ _ _ _ => rfl

theorem Reads.bind (hg : Reads g b a) (hf : Reads (f a) b' c) : Reads (g >>= f) (b ++ b') c := by
  intro mem len pos hmem hlen
  obtain ⟨hmem, hmem'⟩ := Holds.append_iff.mp hmem
  rw [length_append] at hlen ⊢
  rw [bind_ok (hg mem len pos hmem (by omega)), hf mem len _ hmem' (by omega), Nat.add_assoc]

theorem Reads.map {h : α → β} (hg : Reads g b a) (hc : h a = c) :
    Reads (do return h (← g)) b c := by
  have hbind : Reads (g >>= fun a => (Pure.pure (h a) : Parser ε β)) (b ++ []) c :=
    hg.bind (hc ▸ .pure (h a))
  rwa [append_nil] at hbind

theorem Reads.grab (b : List Byte) : Reads (grab b.length : Parser ε (List Byte)) b b := by
  intro mem len pos hmem hlen
  rw [Parser.grab, if_pos hlen, show slice mem pos b.length = b from hmem]

theorem Reads.times {bytes : α → List Byte} {l : List α} (hg : ∀ a ∈ l, Reads g (bytes a) a) :
    Reads (times g l.length) (l.flatMap bytes) l := by
  induction l with
  | nil => exact .pure []
  | cons a l ih =>
    have hl := ih fun a ha => hg a (mem_cons_of_mem _ ha)
    exact (hg a (mem_cons_self ..)).bind (hl.map rfl)

theorem Accepts.pure (a : α) : Accepts (pure a : Parser ε α) [] a := by
  intro mem len pos hpos _
  rw [if_pos (by simpa using hpos)]
  rfl

theorem Accepts.bind (hg : Accepts g b a) (hf : Accepts (f a) b' c) :
    Accepts (g >>= f) (b ++ b') c := by
  intro mem len pos hpos hmem
  obtain ⟨hmem, hmem'⟩ := hmem.append
  have hg := hg mem len pos hpos hmem
  rw [length_append, ← Nat.add_assoc]
  by_cases hlen : ((pos + b.length : Nat) : Int) ≤ len
  · rw [if_pos hlen] at hg
    rw [bind_ok hg]
    exact hf mem len (pos + b.length) hlen hmem'
  · rw [if_neg hlen] at hg
    obtain ⟨e, he⟩ := hg
    rw [if_neg (by omega)]
    exact ⟨e, bind_error he⟩

theorem Accepts.need (hg : Reads g b a) (e : Nat → Int → ε) (hn : n = b.length) :
    Accepts (need e n >>= fun _ => g) b a := by
  subst hn
  intro mem len pos hpos hmem
  split
  · next hlen =>
    rw [bind_ok (if_neg (by omega))]
    exact hg mem len pos (hmem.holds hlen) hlen
  · next hlen => exact ⟨e (pos + b.length) len, bind_error (if_pos (by omega))⟩

theorem Accepts.map {h : α → β} (hg : Accepts g b a) (hc : h a = c) :
    Accepts (do return h (← g)) b c := by
  have hbind : Accepts (g >>= fun a => (Pure.pure (h a) : Parser ε β)) (b ++ []) c :=
    hg.bind (hc ▸ .pure (h a))
  rwa [append_nil] at hbind

theorem Accepts.optional {bytes : α → List Byte} {x : Option α}
    (hg : ∀ a ∈ x, Accepts g (bytes a) a) :
    Accepts (optional x.isSome g) (x.elim [] bytes) x := by
  cases x with
  | none => exact .pure none
  | some a => exact (hg a rfl).map rfl

end

end Parser

end OpenAir

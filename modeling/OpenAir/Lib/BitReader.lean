import OpenAir.Lib.Bits

/-! Bytes read with a check of the bounds, and the bit fields that lie in them. -/

namespace OpenAir

open List

section Checked

variable {α β ε : Type}

@[simp] theorem ok_bind (a : α) (f : α → Except ε β) : (Except.ok a >>= f) = f a := rfl

theorem bind_eq_ok {x : Except ε α} {f : α → Except ε β} {b : β} :
    (x >>= f) = .ok b ↔ ∃ a, x = .ok a ∧ f a = .ok b := by
  cases x with
  | error e =>
    constructor
    · rintro ⟨⟩
    · rintro ⟨_, ⟨⟩, _⟩
  | ok a =>
    constructor
    · exact fun h => ⟨a, rfl, h⟩
    · rintro ⟨_, ⟨⟩, hf⟩
      exact hf

theorem map_eq_ok {x : Except ε α} {f : α → β} {b : β} :
    f <$> x = .ok b ↔ ∃ a, x = .ok a ∧ f a = b := by
  cases x with
  | error e =>
    constructor
    · rintro ⟨⟩
    · rintro ⟨_, ⟨⟩, _⟩
  | ok a =>
    constructor
    · exact fun h => ⟨a, rfl, Except.ok.inj h⟩
    · rintro ⟨_, ⟨⟩, hf⟩
      exact congrArg _ hf

theorem foldlM_invariant (P : β → Prop) {f : β → α → Except ε β}
    (hf : ∀ b a b', P b → f b a = .ok b' → P b') {l : List α} {b b' : β} (h₀ : P b)
    (h : l.foldlM f b = .ok b') : P b' := by
  induction l generalizing b with
  | nil =>
    cases h
    exact h₀
  | cons a l ih =>
    rw [foldlM_cons] at h
    obtain ⟨b₁, h₁, h⟩ := bind_eq_ok.mp h
    exact ih (hf b a b₁ h₀ h₁) h

def readAt (err : ε) (data : List α) (pos : Nat) : Except ε α :=
  match data[pos]? with
  | some a => .ok a
  | none => .error err

theorem readAt_eq_ok {err : ε} {data : List α} {pos : Nat} {a : α} (h : data[pos]? = some a) :
    readAt err data pos = .ok a := by
  rw [readAt, h]

theorem exists_readAt (err : ε) {data : List α} {pos : Nat} (h : pos < data.length) :
    ∃ a, data[pos]? = some a ∧ readAt err data pos = .ok a :=
  ⟨data[pos], List.getElem?_eq_getElem h, readAt_eq_ok (List.getElem?_eq_getElem h)⟩

theorem mapM_eq_ok {f : α → Except ε β} {g : α → β} {l : List α}
    (h : ∀ a ∈ l, f a = .ok (g a)) : l.mapM f = .ok (l.map g) := by
  induction l with
  | nil => rfl
  | cons a l ih =>
    rw [mapM_cons, h a mem_cons_self, ok_bind,
      ih fun b hb => h b (mem_cons_of_mem a hb), ok_bind]
    rfl

theorem foldlM_range_eq_ok {f : β → Nat → Except ε β} {g : Nat → β} {n : Nat}
    (h : ∀ i < n, f (g i) i = .ok (g (i + 1))) :
    (List.range n).foldlM f (g 0) = .ok (g n) := by
  induction n with
  | zero => rfl
  | succ n ih =>
    rw [range_succ, foldlM_append, ih fun i hi => h i (by omega), ok_bind,
      foldlM_cons, h n (by omega)]
    rfl

end Checked

namespace Bits

def field (bytes : List Byte) (pos width : Nat) : Nat :=
  toNat (((unpack bytes).drop pos).take width)

def signedField (bytes : List Byte) (pos width : Nat) : Int :=
  (BitVec.ofNat width (field bytes pos width)).toInt

variable {bytes : List Byte} {pos width k : Nat}

@[simp] theorem field_zero : field bytes pos 0 = 0 := by simp [field]

theorem field_lt : field bytes pos width < 2 ^ width := by
  refine (toNat_lt _).trans_le (Nat.pow_le_pow_right (by decide) ?_)
  exact length_take_le _ _

theorem toNat_concat (bs : List Bool) (b : Bool) : toNat (bs ++ [b]) = 2 * toNat bs + b.toNat := by
  simp [toNat]

theorem field_succ {b : Byte} (hb : bytes[(pos + width) / 8]? = some b) :
    field bytes pos (width + 1) =
      2 * field bytes pos width + (b.getMsbD ((pos + width) % 8)).toNat := by
  have hbit := getElem?_unpack hb (Nat.mod_lt (pos + width) (by decide : 8 > 0))
  rw [Nat.div_add_mod] at hbit
  rw [field, take_add_one, List.getElem?_drop, hbit, Option.toList_some, toNat_concat, field]

theorem field_drop : field (bytes.drop k) pos width = field bytes (8 * k + pos) width := by
  rw [field, field, unpack_drop, drop_drop]

theorem signedField_drop :
    signedField (bytes.drop k) pos width = signedField bytes (8 * k + pos) width := by
  rw [signedField, signedField, field_drop]

theorem unpack_take (k : Nat) (bytes : List Byte) :
    unpack (bytes.take k) = (unpack bytes).take (8 * k) := by
  induction k generalizing bytes with
  | zero => rfl
  | succ k ih =>
    cases bytes with
    | nil => simp
    | cons b bytes =>
      have hb : (unpackByte b).take (8 * (k + 1)) = unpackByte b :=
        take_of_length_le (by rw [length_unpackByte]; omega)
      rw [take_succ_cons, unpack_cons, ih, unpack_cons, take_append, hb,
        length_unpackByte, show 8 * (k + 1) - 8 = 8 * k by omega]

theorem signedField_take (h : pos + width ≤ 8 * k) :
    signedField (bytes.take k) pos width = signedField bytes pos width := by
  rw [signedField, signedField, field, field, unpack_take, drop_take, take_take,
    Nat.min_eq_left (by omega)]

theorem signedField_eq (hw : 0 < width) : signedField bytes pos width =
    if (field bytes pos width).testBit (width - 1) then (field bytes pos width : Int) - 2 ^ width
    else field bytes pos width := by
  have hlt : field bytes pos width < 2 ^ width := field_lt
  have hpow : 2 ^ width = 2 * 2 ^ (width - 1) := by
    rw [← Nat.pow_succ', Nat.succ_eq_add_one, Nat.sub_add_cancel hw]
  have htest : (field bytes pos width).testBit (width - 1) =
      decide (2 ^ (width - 1) ≤ field bytes pos width) := by
    rw [Nat.testBit_eq_decide_div_mod_eq]
    refine decide_eq_decide.mpr ⟨fun h => ?_, fun h => ?_⟩
    · by_contra hle
      rw [Nat.div_eq_of_lt (by omega)] at h
      cases h
    · have hdiv : field bytes pos width / 2 ^ (width - 1) = 1 :=
        Nat.div_eq_of_lt_le (by omega) (by omega)
      rw [hdiv]
  rw [signedField, BitVec.toInt_eq_toNat_cond, BitVec.toNat_ofNat, Nat.mod_eq_of_lt hlt, htest]
  simp only [decide_eq_true_eq]
  by_cases hle : 2 ^ (width - 1) ≤ field bytes pos width
  · rw [if_neg (by omega), if_pos hle]
    norm_cast
  · rw [if_pos (by omega), if_neg hle]

end Bits

end OpenAir

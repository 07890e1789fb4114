import Mathlib

/-! Fields packed into a word one behind the other, from its top bit down. -/

namespace OpenAir

/-- A field of a word: its width, and a value of which the low `width` bits count. -/
structure BitField where
  width : Nat
  val : Nat
  deriving DecidableEq

namespace BitField

def bits (f : BitField) : Nat := f.val % 2 ^ f.width

theorem bits_lt (f : BitField) : f.bits < 2 ^ f.width := Nat.mod_lt _ (Nat.two_pow_pos _)

def withWidth (f : BitField) (n : Nat) : BitField := { f with width := n }

def withVal (f : BitField) (v : Nat) : BitField := { f with val := v }

def widthIf (f : BitField) (b : Bool) (n : Nat) : BitField := if b then f.withWidth n else f

@[simp] theorem width_withWidth (f : BitField) (n : Nat) : (f.withWidth n).width = n := rfl

@[simp] theorem width_withVal (f : BitField) (v : Nat) : (f.withVal v).width = f.width := rfl

theorem width_widthIf (f : BitField) (b : Bool) (n : Nat) :
    (f.widthIf b n).width = if b then n else f.width := by
  cases b <;> rfl

end BitField

def totalWidth (fs : List BitField) : Nat := (fs.map BitField.width).sum

section

variable {f : BitField} {fs gs : List BitField}

@[simp] theorem totalWidth_nil : totalWidth [] = 0 := rfl

@[simp] theorem totalWidth_cons : totalWidth (f :: fs) = f.width + totalWidth fs := by
  simp [totalWidth]

@[simp] theorem totalWidth_append : totalWidth (fs ++ gs) = totalWidth fs + totalWidth gs := by
  simp [totalWidth]

end

/-- One field more, behind the `s.1` bits of a word of `size` bits that are already used. -/
def packField (size : Nat) (s : Nat × Nat) (f : BitField) : Option (Nat × Nat) :=
  if s.1 + f.width ≤ size then
    some (s.1 + f.width, s.2 ||| f.bits <<< (size - (s.1 + f.width)))
  else none

def packFields (size : Nat) (fs : List BitField) : Option (Nat × Nat) :=
  fs.foldlM (packField size) (0, 0)

def image (fs : List BitField) : Nat := fs.foldl (fun n f => n <<< f.width ||| f.bits) 0

section Image

variable {size : Nat} {f : BitField} {fs gs : List BitField}

theorem image_concat : image (fs ++ [f]) = image fs <<< f.width ||| f.bits := by
  simp [image]

theorem image_append : image (fs ++ gs) = image fs <<< totalWidth gs + image gs := by
  induction gs using List.reverseRecOn with
  | nil => simp [image]
  | append_singleton gs f ih =>
    rw [← List.append_assoc, image_concat, ih, image_concat,
      ← Nat.shiftLeft_add_eq_or_of_lt f.bits_lt, ← Nat.shiftLeft_add_eq_or_of_lt f.bits_lt]
    simp only [Nat.shiftLeft_eq, totalWidth_append, totalWidth_cons, totalWidth_nil, Nat.add_zero,
      Nat.pow_add, Nat.add_mul, Nat.mul_assoc, Nat.add_assoc]

theorem image_lt : image fs < 2 ^ totalWidth fs := by
  induction fs using List.reverseRecOn with
  | nil => simp [image]
  | append_singleton fs f ih =>
    have hf := f.bits_lt
    rw [image_concat, ← Nat.shiftLeft_add_eq_or_of_lt hf, Nat.shiftLeft_eq, totalWidth_append,
      totalWidth_cons, totalWidth_nil, Nat.add_zero, Nat.pow_add]
    calc image fs * 2 ^ f.width + f.bits
        < (image fs + 1) * 2 ^ f.width := by rw [Nat.succ_mul]; omega
      _ ≤ 2 ^ totalWidth fs * 2 ^ f.width := Nat.mul_le_mul_right _ ih

theorem packFields_concat : packFields size (fs ++ [f]) =
    (packFields size fs).bind fun s => packField size s f := by
  rw [packFields, List.foldlM_append, packFields]
  cases fs.foldlM (packField size) (0, 0) <;> simp

theorem image_packField (h : totalWidth fs + f.width ≤ size) :
    image fs <<< (size - totalWidth fs) ||| f.bits <<< (size - (totalWidth fs + f.width)) =
      image (fs ++ [f]) <<< (size - totalWidth (fs ++ [f])) := by
  have hsplit : size - totalWidth fs = f.width + (size - (totalWidth fs + f.width)) := by omega
  rw [hsplit, Nat.shiftLeft_add, ← Nat.shiftLeft_or_distrib, ← image_concat]
  simp

theorem packFields_eq : packFields size fs =
    if totalWidth fs ≤ size then
      some (totalWidth fs, image fs <<< (size - totalWidth fs)) else none := by
  induction fs using List.reverseRecOn with
  | nil => simp [packFields, image]
  | append_singleton fs f ih =>
    rw [packFields_concat, ih]
    by_cases h : totalWidth fs + f.width ≤ size
    · rw [if_pos (by omega), Option.bind_some, packField, if_pos h, image_packField h]
      simp [h]
    · rw [if_neg (show ¬ totalWidth (fs ++ [f]) ≤ size by simpa using h)]
      split
      · rw [Option.bind_some, packField, if_neg h]
      · rfl

end Image

def PacksExactly (size : Nat) (fs : List BitField) : Prop :=
  ∃ word, packFields size fs = some (size, word) ∧
    ∀ above f below, fs = above ++ f :: below →
      word >>> (size - totalWidth (above ++ [f])) % 2 ^ f.width = f.bits

theorem image_shiftRight_mod (above below : List BitField) (f : BitField) :
    image (above ++ f :: below) >>> totalWidth below % 2 ^ f.width = f.bits := by
  have hsplit : above ++ f :: below = (above ++ [f]) ++ below := by simp
  rw [hsplit, image_append, Nat.shiftLeft_eq, Nat.shiftRight_eq_div_pow,
    Nat.mul_comm, Nat.mul_add_div (Nat.two_pow_pos _), Nat.div_eq_of_lt image_lt, Nat.add_zero,
    image_concat, ← Nat.shiftLeft_add_eq_or_of_lt f.bits_lt, Nat.shiftLeft_eq,
    Nat.mul_comm, Nat.mul_add_mod, Nat.mod_eq_of_lt f.bits_lt]

theorem packsExactly_iff {size : Nat} {fs : List BitField} :
    PacksExactly size fs ↔ totalWidth fs = size := by
  constructor
  · rintro ⟨word, hpack, -⟩
    rw [packFields_eq] at hpack
    split at hpack
    · exact (Prod.mk.inj (Option.some.inj hpack)).1
    · cases hpack
  · rintro rfl
    refine ⟨image fs, by simp [packFields_eq], ?_⟩
    rintro above f below rfl
    have hbelow : totalWidth (above ++ f :: below) - totalWidth (above ++ [f])
        = totalWidth below := by
      simp
      omega
    rw [hbelow, image_shiftRight_mod]

end OpenAir

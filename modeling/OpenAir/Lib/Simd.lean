import OpenAir.Lib.Bits

/-! Registers of sixteen bytes, and the instructions that move bytes between them and memory. -/

namespace OpenAir

/-- A register of 128 bits, byte by byte from the lowest address. -/
abbrev M128 := Fin 16 → Byte

namespace M128

def unpacklo (w : Nat) (a b : M128) : M128 := fun i =>
  let j := Fin.ofNat 16 (i / w / 2 * w + i % w)
  if i / w % 2 = 0 then a j else b j

def unpackhi (w : Nat) (a b : M128) : M128 := fun i =>
  let j := Fin.ofNat 16 (8 + i / w / 2 * w + i % w)
  if i / w % 2 = 0 then a j else b j

/-- `shuffle_epi8`: each byte comes from where the mask says, or is zero if the mask is negative. -/
def shuffleEpi8 (a mask : M128) : M128 := fun i =>
  if (mask i).msb then 0 else a (Fin.ofNat 16 (mask i).toNat)

def ofList (l : List Nat) : M128 := fun i => .ofNat 8 (l.getD i 0)

def loadu (mem : Nat → Byte) (p : Nat) : M128 := fun i => mem (p + i)

def storeu (mem : Nat → Byte) (p : Nat) (r : M128) : Nat → Byte := fun q =>
  if p ≤ q ∧ q < p + 16 then r (Fin.ofNat 16 (q - p)) else mem q

def storeAll (mem : Nat → Byte) (p : Nat) : List M128 → Nat → Byte
  | [] => mem
  | r :: rs => storeAll (storeu mem p r) (p + 16) rs

def loadu16 (mem : Nat → BitVec 16) (p : Nat) : M128 := fun i =>
  if i.val % 2 = 0 then (mem (p + i / 2)).extractLsb' 0 8 else (mem (p + i / 2)).extractLsb' 8 8

def storeu16 (mem : Nat → BitVec 16) (p : Nat) (r : M128) : Nat → BitVec 16 := fun q =>
  if p ≤ q ∧ q < p + 8 then
    r (Fin.ofNat 16 (2 * (q - p) + 1)) ++ r (Fin.ofNat 16 (2 * (q - p)))
  else mem q

def byteAt (l : List M128) (q : Nat) : Byte := (l.getD (q / 16) fun _ => 0) (Fin.ofNat 16 q)

section Stored

variable {mem : Nat → Byte} {p q : Nat} {l : List M128}

theorem storeAll_of_lt (h : q < p) : storeAll mem p l q = mem q := by
  induction l generalizing mem p with
  | nil => rfl
  | cons r l ih =>
    rw [storeAll, ih (by omega), storeu, if_neg (by omega)]

theorem storeAll_add (h : q < 16 * l.length) : storeAll mem p l (p + q) = byteAt l q := by
  induction l generalizing mem p q with
  | nil => simp at h
  | cons r l ih =>
    rw [List.length_cons] at h
    rw [storeAll]
    by_cases hq : q < 16
    · rw [storeAll_of_lt (by omega), storeu, if_pos (by omega), Nat.add_sub_cancel_left, byteAt,
        Nat.div_eq_of_lt hq]
      rfl
    · obtain ⟨k, rfl⟩ : ∃ k, q = 16 + k := ⟨q - 16, by omega⟩
      have hbyte : Fin.ofNat 16 (16 + k) = Fin.ofNat 16 k := Fin.ext (Nat.add_mod_left 16 k)
      rw [← Nat.add_assoc, ih (by omega), byteAt, byteAt, Nat.add_div_left _ (by decide), hbyte,
        List.getD_cons_succ]

end Stored

def elem16 (r : M128) (j : Nat) : BitVec 16 :=
  r (Fin.ofNat 16 (2 * j + 1)) ++ r (Fin.ofNat 16 (2 * j))

theorem storeu16_add (mem : Nat → BitVec 16) (p : Nat) (r : M128) {j : Nat} (h : j < 8) :
    storeu16 mem p r (p + j) = elem16 r j := by
  rw [storeu16, if_pos (by omega), Nat.add_sub_cancel_left]
  rfl

theorem storeu16_of_out {mem : Nat → BitVec 16} {p q : Nat} {r : M128} (h : q < p ∨ p + 8 ≤ q) :
    storeu16 mem p r q = mem q := if_neg (by omega)

theorem elem16_loadu16 (mem : Nat → BitVec 16) (p : Nat) {j : Nat} (h : j < 8) :
    elem16 (loadu16 mem p) j = mem (p + j) := by
  have heven : (Fin.ofNat 16 (2 * j)).val = 2 * j := Nat.mod_eq_of_lt (by omega)
  have hodd : (Fin.ofNat 16 (2 * j + 1)).val = 2 * j + 1 := Nat.mod_eq_of_lt (by omega)
  rw [elem16, loadu16, loadu16, heven, hodd, if_neg (by omega), if_pos (by omega),
    show (2 * j + 1) / 2 = j by omega, show 2 * j / 2 = j by omega]
  exact BitVec.extractLsb'_append_extractLsb'

end M128

end OpenAir

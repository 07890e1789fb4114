import Mathlib.Data.Nat.Bitwise
import Mathlib.Data.List.Basic
import Mathlib.Tactic.Ring

/-! Bit strings, most significant bit first, and their packing into bytes. -/

namespace OpenAir

open List

abbrev Byte := BitVec 8

namespace Bits

/-- The `n` low bits of `v`, most significant first. -/
def ofNat : Nat → Nat → List Bool
  | 0, _ => []
  | n + 1, v => v.testBit n :: ofNat n v

def toNat (bs : List Bool) : Nat := bs.foldl (fun a b => 2 * a + b.toNat) 0

@[simp] theorem length_ofNat (n v : Nat) : (ofNat n v).length = n := by
  induction n with
  | zero => rfl
  | succ n ih => simp [ofNat, ih]

theorem foldl_eq (bs : List Bool) (a : Nat) :
    bs.foldl (fun a b => 2 * a + b.toNat) a = a * 2 ^ bs.length + toNat bs := by
  induction bs generalizing a with
  | nil => simp [toNat]
  | cons b bs ih =>
    simp only [toNat, foldl_cons, length_cons]
    rw [ih, ih (2 * 0 + b.toNat)]
    ring

theorem toNat_cons (b : Bool) (bs : List Bool) :
    toNat (b :: bs) = b.toNat * 2 ^ bs.length + toNat bs := by
  rw [toNat, foldl_cons, foldl_eq]
  simp

@[simp] theorem toNat_nil : toNat [] = 0 := rfl

theorem toNat_ofNat (n v : Nat) : toNat (ofNat n v) = v % 2 ^ n := by
  induction n with
  | zero => simp [ofNat, Nat.mod_one]
  | succ n ih =>
    rw [ofNat, toNat_cons, length_ofNat, ih, Nat.mod_pow_succ, Nat.toNat_testBit]
    ring

theorem toNat_ofNat_of_lt {n v : Nat} (h : v < 2 ^ n) : toNat (ofNat n v) = v := by
  rw [toNat_ofNat, Nat.mod_eq_of_lt h]

theorem toNat_lt (bs : List Bool) : toNat bs < 2 ^ bs.length := by
  induction bs with
  | nil => simp
  | cons b bs ih =>
    rw [toNat_cons, length_cons, pow_succ]
    cases b <;> simp <;> omega

theorem ofNat_toNat (bs : List Bool) : ofNat bs.length (toNat bs) = bs := by
  have aux : ∀ (bs : List Bool) (k : Nat), ofNat bs.length (k * 2 ^ bs.length + toNat bs) = bs := by
    intro bs
    induction bs with
    | nil => intro k; rfl
    | cons b bs ih =>
      intro k
      have hlt := toNat_lt bs
      rw [toNat_cons, length_cons, ofNat]
      have e : k * 2 ^ (bs.length + 1) + (b.toNat * 2 ^ bs.length + toNat bs) =
          (2 * k + b.toNat) * 2 ^ bs.length + toNat bs := by ring
      rw [e, ih]
      congr 1
      rw [Nat.testBit_eq_decide_div_mod_eq, Nat.mul_comm, Nat.mul_add_div (Nat.two_pow_pos _),
        Nat.div_eq_of_lt hlt]
      cases b <;> simp
  simpa using aux bs 0

def unpackByte (b : Byte) : List Bool := ofNat 8 b.toNat

def unpack (bytes : List Byte) : List Bool := bytes.flatMap unpackByte

def pack : List Bool → List Byte
  | b₇ :: b₆ :: b₅ :: b₄ :: b₃ :: b₂ :: b₁ :: b₀ :: bs =>
    BitVec.ofNat 8 (toNat [b₇, b₆, b₅, b₄, b₃, b₂, b₁, b₀]) :: pack bs
  | _ => []

@[simp] theorem length_unpackByte (b : Byte) : (unpackByte b).length = 8 := length_ofNat 8 _

@[simp] theorem unpack_nil : unpack [] = [] := rfl

theorem unpack_cons (b : Byte) (bytes : List Byte) :
    unpack (b :: bytes) = unpackByte b ++ unpack bytes := rfl

theorem unpack_append (xs ys : List Byte) : unpack (xs ++ ys) = unpack xs ++ unpack ys := by
  simp [unpack]

@[simp] theorem length_unpack (bytes : List Byte) : (unpack bytes).length = 8 * bytes.length := by
  induction bytes with
  | nil => rfl
  | cons b bytes ih => rw [unpack_cons, length_append, ih, length_unpackByte, length_cons]; ring

theorem unpackByte_injective : Function.Injective unpackByte := fun a b h => by
  have hnat := congrArg toNat h
  rw [unpackByte, unpackByte, toNat_ofNat_of_lt a.isLt, toNat_ofNat_of_lt b.isLt] at hnat
  exact BitVec.eq_of_toNat_eq hnat

theorem unpack_injective : Function.Injective unpack := by
  intro xs ys h
  have hlen : xs.length = ys.length := by simpa using congrArg List.length h
  induction xs generalizing ys with
  | nil => exact (length_eq_zero_iff.mp hlen.symm).symm
  | cons x xs ih =>
    cases ys with
    | nil => cases hlen
    | cons y ys =>
      obtain ⟨hx, hxs⟩ := append_inj h (by simp)
      rw [unpackByte_injective hx, ih hxs (Nat.succ.inj hlen)]

theorem unpackByte_ofNat {bs : List Bool} (h : bs.length = 8) :
    unpackByte (BitVec.ofNat 8 (toNat bs)) = bs := by
  have hlt := toNat_lt bs
  rw [h] at hlt
  rw [unpackByte, BitVec.toNat_ofNat, Nat.mod_eq_of_lt hlt, ← h, ofNat_toNat]

theorem unpack_pack (k : Nat) (bs : List Bool) (h : bs.length = 8 * k) : unpack (pack bs) = bs := by
  induction k generalizing bs with
  | zero => rw [length_eq_zero_iff.mp (by omega : bs.length = 0)]; rfl
  | succ k ih =>
    match bs, h with
    | b₇ :: b₆ :: b₅ :: b₄ :: b₃ :: b₂ :: b₁ :: b₀ :: bs, h =>
      simp only [length_cons] at h
      rw [pack, unpack_cons, unpackByte_ofNat rfl, ih bs (by omega)]
      rfl
    | [], h | [_], h | [_, _], h | [_, _, _], h | [_, _, _, _], h | [_, _, _, _, _], h
    | [_, _, _, _, _, _], h | [_, _, _, _, _, _, _], h =>
      simp only [length_cons, length_nil] at h; omega

theorem length_pack (k : Nat) (bs : List Bool) (h : bs.length = 8 * k) : (pack bs).length = k := by
  have := congrArg List.length (unpack_pack k bs h)
  rw [length_unpack, h] at this
  omega

theorem unpack_drop (k : Nat) (bytes : List Byte) :
    unpack (bytes.drop k) = (unpack bytes).drop (8 * k) := by
  induction k generalizing bytes with
  | zero => rfl
  | succ k ih =>
    cases bytes with
    | nil => simp
    | cons b bytes =>
      rw [drop_succ_cons, ih, unpack_cons, show 8 * (k + 1) = (unpackByte b).length + 8 * k by
        rw [length_unpackByte]; ring, drop_append]
      simp

theorem getElem?_unpack {bytes : List Byte} {k i : Nat} {b : Byte} (hb : bytes[k]? = some b)
    (hi : i < 8) : (unpack bytes)[8 * k + i]? = some (b.getMsbD i) := by
  induction k generalizing bytes with
  | zero =>
    cases bytes with
    | nil => simp at hb
    | cons x bytes =>
      simp only [List.getElem?_cons_zero, Option.some.injEq] at hb
      subst hb
      rw [unpack_cons, List.getElem?_append_left (by rw [length_unpackByte]; omega)]
      have : i = 0 ∨ i = 1 ∨ i = 2 ∨ i = 3 ∨ i = 4 ∨ i = 5 ∨ i = 6 ∨ i = 7 := by omega
      rcases this with rfl | rfl | rfl | rfl | rfl | rfl | rfl | rfl <;>
        simp [unpackByte, ofNat, BitVec.getMsbD, BitVec.getLsbD]
  | succ k ih =>
    cases bytes with
    | nil => simp at hb
    | cons x bytes =>
      rw [List.getElem?_cons_succ] at hb
      rw [unpack_cons, List.getElem?_append_right (by rw [length_unpackByte]; omega),
        length_unpackByte, show 8 * (k + 1) + i - 8 = 8 * k + i by omega]
      exact ih hb

end Bits

end OpenAir

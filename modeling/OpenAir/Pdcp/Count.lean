import OpenAir.Pdcp.Transmit

namespace OpenAir.Pdcp

variable {c : Config} {e : Entity} {sn k : Nat}

theorem toNat_compose (hfn : UInt32) (hk : k < 32) (hsn : sn < 2 ^ k) :
    (hfn <<< .ofNat k ||| .ofNat sn : UInt32).toNat = hfn.toNat % 2 ^ (32 - k) * 2 ^ k + sn := by
  have hpow : 2 ^ 32 = 2 ^ (32 - k) * 2 ^ k := by
    rw [← Nat.pow_add]
    congr 1
    omega
  have hsn32 : sn < 2 ^ 32 := hsn.trans_le (Nat.pow_le_pow_right (by omega) (by omega))
  rw [UInt32.toNat_or, UInt32.toNat_shiftLeft, UInt32.toNat_ofNat', UInt32.toNat_ofNat',
    Nat.mod_eq_of_lt hsn32, Nat.mod_eq_of_lt (show k < 2 ^ 32 by omega), Nat.mod_eq_of_lt hk,
    Nat.shiftLeft_eq, hpow, Nat.mul_mod_mul_right, ← Nat.shiftLeft_eq,
    ← Nat.shiftLeft_add_eq_or_of_lt hsn]

theorem toNat_snMask (x : UInt32) (hk : k < 32) :
    (x &&& .ofNat (2 ^ k - 1) : UInt32).toNat = x.toNat % 2 ^ k := by
  have hlt : 2 ^ k - 1 < 2 ^ 32 := by
    have := Nat.pow_le_pow_right (show 0 < 2 by omega) hk.le
    omega
  rw [UInt32.toNat_and, UInt32.toNat_ofNat', Nat.mod_eq_of_lt hlt, Nat.and_two_pow_sub_one_eq_mod]

theorem toNat_hfn (x : UInt32) (hk : k < 32) :
    (x >>> .ofNat k : UInt32).toNat = x.toNat / 2 ^ k := by
  rw [UInt32.toNat_shiftRight, UInt32.toNat_ofNat', Nat.mod_eq_of_lt (show k < 2 ^ 32 by omega),
    Nat.mod_eq_of_lt hk, Nat.shiftRight_eq_div_pow]

theorem Config.snSize_lt (c : Config) : c.snSize < 32 := by
  rcases c.snSize_eq with h | h <;> omega

theorem Config.two_windowSize (c : Config) : 2 ^ c.snSize = 2 * c.windowSize := by
  rcases c.snSize_eq with h | h <;> simp [windowSize, h]

namespace Entity

theorem rcvdCount_mod (hsn : sn < 2 ^ c.snSize) :
    (e.rcvdCount c sn).toNat % 2 ^ c.snSize = sn := by
  rw [rcvdCount, toNat_compose _ c.snSize_lt hsn, Nat.mul_add_mod_self_right, Nat.mod_eq_of_lt hsn]

/-- The HFN taken for the received SN, without reduction. -/
def hfnOf (c : Config) (d sn : Nat) : Int :=
  if (sn : Int) < d % 2 ^ c.snSize - c.windowSize then d / 2 ^ c.snSize + 1
  else if (sn : Int) ≥ d % 2 ^ c.snSize + c.windowSize then d / 2 ^ c.snSize - 1
  else d / 2 ^ c.snSize

theorem hfnOf_eq {d n : Nat} (hle : d ≤ n) (hlt : n < d + c.windowSize) :
    hfnOf c d (n % 2 ^ c.snSize) = (n / 2 ^ c.snSize : Nat) := by
  unfold hfnOf
  unfold Config.windowSize at hlt ⊢
  rcases c.snSize_eq with h | h <;> rw [h] at hlt ⊢ <;> norm_num at hlt ⊢ <;> split_ifs <;> omega

theorem toNat_rcvdCount (hsn : sn < 2 ^ c.snSize) : ((e.rcvdCount c sn).toNat : Int) =
    hfnOf c e.rxDeliv.toNat sn % 2 ^ (32 - c.snSize) * 2 ^ c.snSize + sn := by
  rw [rcvdCount, toNat_compose _ c.snSize_lt hsn]
  unfold hfnOf
  rw [Config.snMax, toNat_snMask _ c.snSize_lt]
  have hhfn := toNat_hfn e.rxDeliv c.snSize_lt
  push_cast
  split
  · rw [UInt32.toNat_add, hhfn, UInt32.toNat_one, ← Int.emod_emod_of_dvd (_ + 1)
      (pow_dvd_pow 2 (Nat.sub_le 32 c.snSize))]
    push_cast
    rfl
  · split
    · rw [UInt32.toNat_sub, hhfn, UInt32.toNat_one]
      rcases c.snSize_eq with h | h <;> rw [h] <;> norm_num <;> omega
    · rw [hhfn]
      push_cast
      rfl

theorem rcvdCount_eq {n : UInt32} (hle : e.rxDeliv ≤ n)
    (hlt : n.toNat < e.rxDeliv.toNat + c.windowSize) :
    e.rcvdCount c (n.toNat % 2 ^ c.snSize) = n := by
  have hn := n.toNat_lt
  have hcount := toNat_rcvdCount (e := e) (c := c) (Nat.mod_lt n.toNat (Nat.two_pow_pos c.snSize))
  rw [hfnOf_eq (UInt32.le_iff_toNat_le.mp hle) hlt] at hcount
  rw [← UInt32.toNat_inj]
  rcases c.snSize_eq with h | h <;> rw [h] at hcount ⊢ <;> norm_num at hcount ⊢ <;> omega

end Entity

theorem byteAt_lt (buffer : List Byte) (i : Nat) : byteAt buffer i < 256 := BitVec.isLt _

theorem rcvdSn_eq (c : Config) (buffer : List Byte) : rcvdSn c buffer =
    if c.snSize = 12 then byteAt buffer 0 % 16 * 256 + byteAt buffer 1
    else (byteAt buffer 0 % 4 * 256 + byteAt buffer 1) * 256 + byteAt buffer 2 := by
  have h₁ := byteAt_lt buffer 1
  have h₂ := byteAt_lt buffer 2
  have hand (k) : byteAt buffer 0 &&& 2 ^ k - 1 = byteAt buffer 0 % 2 ^ k :=
    Nat.and_two_pow_sub_one_eq_mod _ k
  unfold rcvdSn
  split
  · have hor := Nat.shiftLeft_add_eq_or_of_lt (i := 8) h₁ (byteAt buffer 0 % 2 ^ 4)
    rw [show (0xf : Nat) = 2 ^ 4 - 1 from rfl, hand, ← hor, Nat.shiftLeft_eq]
    rfl
  · have hor := Nat.shiftLeft_add_eq_or_of_lt (i := 8) h₁ (byteAt buffer 0 % 2 ^ 2)
    have hor' := Nat.shiftLeft_add_eq_or_of_lt (i := 8) h₂
      ((byteAt buffer 0 % 2 ^ 2) <<< 8 + byteAt buffer 1)
    rw [show (0x3 : Nat) = 2 ^ 2 - 1 from rfl, hand, show 16 = 8 + 8 from rfl, Nat.shiftLeft_add,
      ← Nat.shiftLeft_or_distrib, ← hor, ← hor', Nat.shiftLeft_eq, Nat.shiftLeft_eq]
    rfl

theorem rcvdSn_lt (c : Config) (buffer : List Byte) : rcvdSn c buffer < 2 ^ c.snSize := by
  have h₁ := byteAt_lt buffer 1
  have h₂ := byteAt_lt buffer 2
  rw [rcvdSn_eq]
  rcases c.snSize_eq with h | h <;> rw [h]
  · rw [if_pos rfl]
    omega
  · rw [if_neg (by decide)]
    omega

def dcBit (c : Config) : Nat := if c.type = .srb then 0 else 128

theorem pduHeader_eq (hsn : sn < 2 ^ c.snSize) : pduHeader c sn =
    if c.snSize = 12 then [.ofNat 8 (dcBit c + sn / 256), .ofNat 8 (sn % 256)]
    else [.ofNat 8 (dcBit c + sn / 65536), .ofNat 8 (sn / 256 % 256), .ofNat 8 (sn % 256)] := by
  have hdc : (if c.type = .drbAm ∨ c.type = .drbUm then 0x80 else 0) = dcBit c := by
    unfold dcBit
    cases c.type <;> rfl
  have hand (x k : Nat) : x &&& 2 ^ k - 1 = x % 2 ^ k := Nat.and_two_pow_sub_one_eq_mod x k
  have hor (x : Nat) (hx : x < 128) : dcBit c ||| x = dcBit c + x := by
    unfold dcBit
    split
    · simp
    · exact (Nat.two_pow_add_eq_or_of_lt (i := 7) hx 1).symm
  unfold pduHeader
  simp only [hdc, Nat.shiftRight_eq_div_pow, show (0xff : Nat) = 2 ^ 8 - 1 from rfl,
    show (0xf : Nat) = 2 ^ 4 - 1 from rfl, show (0x3 : Nat) = 2 ^ 2 - 1 from rfl, hand]
  rcases c.snSize_eq with h | h
  · rw [h] at hsn
    rw [if_pos h, if_pos h, hor _ (by omega), Nat.mod_eq_of_lt (show sn / 2 ^ 8 < 2 ^ 4 by omega)]
    rfl
  · rw [h] at hsn
    rw [if_neg (by omega), if_neg (by omega), hor _ (by omega),
      Nat.mod_eq_of_lt (show sn / 2 ^ 16 < 2 ^ 2 by omega)]
    rfl

theorem length_pduHeader (c : Config) (sn : Nat) : (pduHeader c sn).length = c.headerSize := by
  unfold pduHeader Config.headerSize
  dsimp only
  split <;> rfl

theorem rcvdSn_pduHeader (hsn : sn < 2 ^ c.snSize) (data : List Byte) :
    rcvdSn c (pduHeader c sn ++ data) = sn := by
  have hdc : dcBit c % 128 = 0 ∧ dcBit c ≤ 128 := by
    unfold dcBit
    split <;> decide
  rw [rcvdSn_eq, pduHeader_eq hsn]
  rcases c.snSize_eq with h | h
  · rw [h] at hsn
    rw [if_pos h, if_pos h]
    simp only [List.cons_append, List.nil_append, byteAt, List.getD_cons_zero, List.getD_cons_succ,
      BitVec.toNat_ofNat]
    omega
  · rw [h] at hsn
    rw [if_neg (by omega), if_neg (by omega)]
    simp only [List.cons_append, List.nil_append, byteAt, List.getD_cons_zero, List.getD_cons_succ,
      BitVec.toNat_ofNat]
    omega

theorem and_dcBit : ∀ b : Byte, (128 ||| b) &&& 0x80 ≠ 0 := by decide

theorem setDcBit_pduHeader (c : Config) (sn : Nat) (data : List Byte) :
    setDcBit c (pduHeader c sn ++ data) = pduHeader c sn ++ data := by
  have hkeep (x : Nat) : ¬ (c.type ≠ .srb ∧ BitVec.ofNat 8
      ((if c.type = .drbAm ∨ c.type = .drbUm then 0x80 else 0) ||| x) &&& 0x80 = 0) := by
    rintro ⟨htype, hbit⟩
    rw [if_pos (by cases h : c.type <;> simp_all), BitVec.ofNat_or] at hbit
    exact and_dcBit _ hbit
  unfold pduHeader
  dsimp only
  split <;> simp only [List.cons_append, setDcBit, if_neg (hkeep _)]

end OpenAir.Pdcp

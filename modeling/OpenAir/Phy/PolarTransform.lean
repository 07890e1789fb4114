import OpenAir.Lib.BitPolynomial
import OpenAir.Lib.Memory
import OpenAir.Lib.SupersetSum

namespace OpenAir.Phy

open Function Finset

def encodePackedByte (b : Byte) : Byte :=
  let b := b ^^^ (0x55 &&& (b >>> 1))
  let b := b ^^^ (0x33 &&& (b >>> 2))
  b ^^^ (b >>> 4)

def polarEncodeBits (inOut : Memory) (n : Nat) : Memory :=
  (List.range (n >>> 3)).foldl (fun m i => update m i (encodePackedByte (m i))) inOut

/-- `floor_log2_u32`; `Nat.log2 0` is 0 as well. -/
def floorLog2U32 (x : Nat) : Nat := Nat.log2 (x % 2 ^ 32)

def polarEncodeStage (inOut : Memory) (brnchSz nBrnch : Nat) : Memory :=
  (List.range nBrnch).foldl (fun m brnch =>
    (List.range brnchSz).foldl (fun m byte =>
      let dst := 2 * brnchSz * brnch + byte
      update m dst (m dst ^^^ m (dst + brnchSz))) m) inOut

def polarEncodeStages : Nat → Memory → Nat → Nat → Memory
  | 0, m, _, _ => m
  | k + 1, m, brnchSz, nBrnch =>
    polarEncodeStages k (polarEncodeStage m brnchSz nBrnch) (brnchSz <<< 1) (nBrnch >>> 1)

def polarEncodeBytes (inOut : Memory) (n : Nat) : Memory :=
  polarEncodeStages (floorLog2U32 n - 3) inOut 1 (n >>> 4)

/-- `nr_polar_uxG`; nothing where it asserts.  `bit_reverse_table_256` of `reverse_bits_u8` lists
each byte with its bits in the opposite order. -/
def nrPolarUxG (u : Memory) (n : Nat) (d2 : Memory) : Option Memory :=
  if n > 7 then
    let tmp : Memory := fun i => u (n / 8 - 1 - i)
    let d2 := (List.range (n / 8)).foldl (fun m i => update m i (tmp i).reverse) d2
    some (polarEncodeBytes (polarEncodeBits d2 n) n)
  else none

def uBit (u : Memory) (n i : Nat) : Bool := (u (n / 8 - 1 - i / 8)).getLsbD (7 - i % 8)

def wordBytes (w : Nat → BitVec 64) : Memory := fun a => (w (a / 8) >>> (8 * (a % 8))).setWidth 8

def bitAt (m : Memory) (p : Nat) : ZMod 2 := gf2 ((m (p / 8)).getLsbD (p % 8))

/-- `[[1, 0], [1, 1]]` -/
def polarKernel : Matrix (Fin 2) (Fin 2) (ZMod 2) := !![1, 0; 1, 1]

def splitIndex (n : Nat) (i : Fin (2 ^ (n + 1))) : Fin 2 × Fin (2 ^ n) :=
  (⟨i / 2 ^ n, Nat.div_lt_of_lt_mul (Nat.pow_succ 2 n ▸ i.isLt)⟩,
    ⟨i % 2 ^ n, Nat.mod_lt _ (Nat.two_pow_pos n)⟩)

def polarMatrix : (n : Nat) → Matrix (Fin (2 ^ n)) (Fin (2 ^ n)) (ZMod 2)
  | 0 => 1
  | n + 1 => (Matrix.kronecker polarKernel (polarMatrix n)).submatrix (splitIndex n) (splitIndex n)

theorem polarMatrix_apply (n : Nat) (i j : Fin (2 ^ n)) :
    polarMatrix n i j = if BitSubset j i then 1 else 0 := by
  induction n with
  | zero =>
    obtain rfl : i = j := Fin.ext (by omega)
    simp [polarMatrix, BitSubset.refl]
  | succ n ih =>
    have hkernel : ∀ a b : Fin 2, polarKernel a b = if BitSubset b a then 1 else 0 := by
      intro a b
      fin_cases a <;> fin_cases b <;> rfl
    have hsub := bitSubset_two_pow_mul_add (h := j / 2 ^ n) (k := i / 2 ^ n)
      (Nat.mod_lt j (Nat.two_pow_pos n)) (Nat.mod_lt i (Nat.two_pow_pos n))
    rw [Nat.div_add_mod, Nat.div_add_mod] at hsub
    rw [polarMatrix, Matrix.submatrix_apply, Matrix.kronecker, Matrix.kroneckerMap_apply, hkernel,
      ih]
    change (if BitSubset (j / 2 ^ n) (i / 2 ^ n) then (1 : ZMod 2) else 0) *
      (if BitSubset (j % 2 ^ n) (i % 2 ^ n) then 1 else 0) = _
    simp only [hsub, ite_and, ite_mul, one_mul, zero_mul]

section Bytes

variable {m : Memory} {n p s nBrnch : Nat}

theorem encodePackedByte_bit (b : Byte) {j : Nat} (hj : j < 8) :
    gf2 ((encodePackedByte b).getLsbD j) =
      ∑ i ∈ range 8, if BitSubset j i then gf2 (b.getLsbD i) else 0 := by
  interval_cases j <;> simp [encodePackedByte, sum_range_succ, BitSubset, add_assoc]

theorem polarEncodeBits_apply (hp : p < n >>> 3) :
    polarEncodeBits m n p = encodePackedByte (m p) := by
  rw [polarEncodeBits, Memory.foldl_update List.nodup_range, if_pos (List.mem_range.mpr hp)]
  intro m m' a _ hsame
  rw [hsame a (.inl rfl)]

theorem bitAt_polarEncodeBits (hp : p < 8 * (n >>> 3)) :
    bitAt (polarEncodeBits m n) p = butterflies 3 (bitAt m) p := by
  have hplace : p = 2 ^ 3 * (p / 8) + p % 8 := (Nat.div_add_mod p 8).symm
  have hsum :
      butterflies 3 (bitAt m) (2 ^ 3 * (p / 8) + p % 8) = supersetSum 3 (bitAt m) (p / 8) (p % 8) :=
    butterflies_eq_supersetSum (Nat.mod_lt p (by decide))
  rw [← hplace] at hsum
  rw [hsum, bitAt, polarEncodeBits_apply (Nat.div_lt_of_lt_mul hp),
    encodePackedByte_bit _ (Nat.mod_lt p (by decide))]
  refine sum_congr rfl fun i hi => ?_
  have hi : i < 8 := mem_range.mp hi
  have hbyte : (2 ^ 3 * (p / 8) + i) / 8 = p / 8 := by omega
  have hbit : (2 ^ 3 * (p / 8) + i) % 8 = i := by omega
  rw [bitAt, hbyte, hbit]

def stageAddresses (brnchSz nBrnch : Nat) : List Nat :=
  (List.range nBrnch).flatMap fun brnch => (List.range brnchSz).map fun byte =>
    2 * brnchSz * brnch + byte

theorem mem_stageAddresses : p ∈ stageAddresses (2 ^ s) nBrnch ↔
    p / 2 ^ (s + 1) < nBrnch ∧ p.testBit s = false := by
  have hhalf : p / 2 ^ (s + 1) = p / 2 ^ s / 2 := by rw [Nat.pow_succ, Nat.div_div_eq_div_mul]
  simp only [stageAddresses, List.mem_flatMap, List.mem_range, List.mem_map]
  constructor
  · rintro ⟨brnch, hbrnch, byte, hbyte, rfl⟩
    have hform : 2 * 2 ^ s * brnch + byte = 2 ^ s * (2 * brnch) + byte := by ring
    rw [hform] at hhalf ⊢
    rw [hhalf, Nat.mul_add_div (Nat.two_pow_pos s), Nat.div_eq_of_lt hbyte,
      Nat.testBit_two_pow_mul_add _ hbyte, if_neg (lt_irrefl s), Nat.sub_self, Nat.testBit_zero]
    exact ⟨by omega, by simp⟩
  · rintro ⟨hlt, hbit⟩
    have heven : p / 2 ^ s % 2 = 0 := by
      rw [Nat.testBit_eq_decide_div_mod_eq, decide_eq_false_iff_not] at hbit
      omega
    refine ⟨p / 2 ^ (s + 1), hlt, p % 2 ^ s, Nat.mod_lt _ (Nat.two_pow_pos s), ?_⟩
    have htwice : 2 * (p / 2 ^ (s + 1)) = p / 2 ^ s := by omega
    calc 2 * 2 ^ s * (p / 2 ^ (s + 1)) + p % 2 ^ s =
      2 ^ s * (2 * (p / 2 ^ (s + 1))) + p % 2 ^ s := by ring
      _ = p := by rw [htwice, Nat.div_add_mod]

theorem nodup_stageAddresses : (stageAddresses n nBrnch).Nodup := by
  refine List.nodup_flatMap.mpr ⟨fun brnch _ => ?_, ?_⟩
  · exact List.nodup_range.map fun _ _ h => Nat.add_left_cancel h
  · refine List.nodup_range.imp fun {b b'} hne => ?_
    simp only [onFun, List.disjoint_left, List.mem_map, List.mem_range, not_exists, not_and]
    rintro _ ⟨byte, hbyte, rfl⟩ byte' hbyte' heq
    rw [Nat.mul_comm (2 * n), Nat.mul_comm (2 * n)] at heq
    exact Memory.cell_ne hne (by omega) (by omega) heq.symm

theorem polarEncodeStage_apply :
    polarEncodeStage m (2 ^ s) nBrnch p =
      if p / 2 ^ (s + 1) < nBrnch ∧ p.testBit s = false then m p ^^^ m (p + 2 ^ s) else m p := by
  have hflat : polarEncodeStage m (2 ^ s) nBrnch = (stageAddresses (2 ^ s) nBrnch).foldl
      (fun m a => update m a (m a ^^^ m (a + 2 ^ s))) m := by
    simp only [stageAddresses, List.foldl_flatMap, List.foldl_map]
    rfl
  rw [hflat, Memory.foldl_update nodup_stageAddresses]
  · simp only [mem_stageAddresses]
  · -- the bytes read have the bit of the stage, those written do not
    intro m m' a ha hsame
    have hread : a + 2 ^ s ∉ stageAddresses (2 ^ s) nBrnch := by
      rw [mem_stageAddresses] at ha ⊢
      rw [Nat.add_comm, Nat.testBit_two_pow_add_eq, ha.2]
      simp
    rw [hsame a (.inl rfl), hsame (a + 2 ^ s) (.inr hread)]

theorem bitAt_polarEncodeStage (hp : p / 8 / 2 ^ (s + 1) < nBrnch) :
    bitAt (polarEncodeStage m (2 ^ s) nBrnch) p = butterfly (s + 3) (bitAt m) p := by
  have hbit : p.testBit (s + 3) = (p / 8).testBit s := by
    rw [show 8 = 2 ^ 3 from rfl, Nat.testBit_div_two_pow, Nat.add_comm]
  have hpow : 2 ^ (s + 3) = 8 * 2 ^ s := by rw [Nat.pow_add, Nat.mul_comm]
  have hbyte : (p + 2 ^ (s + 3)) / 8 = p / 8 + 2 ^ s := by omega
  have hrest : (p + 2 ^ (s + 3)) % 8 = p % 8 := by omega
  rw [bitAt, polarEncodeStage_apply, butterfly, hbit]
  cases (p / 8).testBit s with
  | true => simp [bitAt]
  | false => simp [hp, bitAt, hbyte, hrest]

theorem bitAt_polarEncodeStages {f : Nat → ZMod 2} {k : Nat}
    (hm : ∀ p < 2 ^ (s + 3 + k), bitAt m p = butterflies (s + 3) f p) :
    ∀ p < 2 ^ (s + 3 + k),
      bitAt (polarEncodeStages k m (2 ^ s) (2 ^ k >>> 1)) p = butterflies (s + 3 + k) f p := by
  induction k generalizing m s with
  | zero => exact hm
  | succ k ih =>
    have hsize : 2 ^ s <<< 1 = 2 ^ (s + 1) := by rw [Nat.shiftLeft_eq, ← Nat.pow_succ]
    have hcount : 2 ^ (k + 1) >>> 1 = 2 ^ k := by
      rw [Nat.shiftRight_eq_div_pow, Nat.pow_succ, Nat.mul_div_cancel _ (by decide)]
    have hexp : s + 3 + (k + 1) = s + 1 + 3 + k := by omega
    rw [polarEncodeStages, hsize, hcount, hexp]
    rw [hexp] at hm
    refine ih fun p hp => ?_
    have hbranch : p / 8 / 2 ^ (s + 1) < 2 ^ k := by
      rw [Nat.div_div_eq_div_mul]
      refine Nat.div_lt_of_lt_mul ?_
      calc p < 2 ^ (s + 1 + 3 + k) := hp
        _ = 8 * 2 ^ (s + 1) * 2 ^ k := by ring
    rw [bitAt_polarEncodeStage hbranch]
    exact butterfly_congr hm (by omega) hp

theorem bitAt_polarEncode (hn : 3 ≤ n) (hn' : n < 32) (hp : p < 2 ^ n) :
    bitAt (polarEncodeBytes (polarEncodeBits m (2 ^ n)) (2 ^ n)) p =
      ∑ i ∈ range (2 ^ n), if BitSubset p i then bitAt m i else 0 := by
  obtain ⟨k, rfl⟩ := Nat.exists_eq_add_of_le hn
  have hsplit : 2 ^ (3 + k) = 8 * 2 ^ k := by rw [Nat.pow_add]
  have hlog : floorLog2U32 (2 ^ (3 + k)) = 3 + k := by
    rw [floorLog2U32, Nat.mod_eq_of_lt (Nat.pow_lt_pow_right (by decide) hn'), Nat.log2_two_pow]
  have hcount : 2 ^ (3 + k) >>> 4 = 2 ^ k >>> 1 := by
    rw [hsplit, Nat.shiftRight_eq_div_pow, Nat.shiftRight_eq_div_pow]
    omega
  have hbytes : 8 * (2 ^ (3 + k) >>> 3) = 2 ^ (3 + k) := by
    rw [hsplit, Nat.shiftRight_eq_div_pow]
    omega
  have hstages :
      ∀ p < 2 ^ (0 + 3 + k), bitAt (polarEncodeStages k (polarEncodeBits m (2 ^ (3 + k))) (2 ^ 0)
      (2 ^ k >>> 1)) p = butterflies (0 + 3 + k) (bitAt m) p := by
    refine bitAt_polarEncodeStages fun p hp => bitAt_polarEncodeBits ?_
    rwa [hbytes, ← Nat.zero_add 3]
  have hsum : butterflies (3 + k) (bitAt m) p = supersetSum (3 + k) (bitAt m) 0 p := by
    rw [← butterflies_eq_supersetSum hp, Nat.mul_zero, Nat.zero_add]
  rw [Nat.zero_add] at hstages
  rw [polarEncodeBytes, hlog, hcount, Nat.add_sub_cancel_left]
  refine (hstages p hp).trans (hsum.trans ?_)
  simp only [supersetSum, Nat.mul_zero, Nat.zero_add]

end Bytes

theorem bitAt_reversed (u d2 : Memory) {n i : Nat} (hn : 8 ∣ n) (hi : i < n) :
    bitAt ((List.range (n / 8)).foldl (fun m i => update m i (u (n / 8 - 1 - i)).reverse) d2) i =
      gf2 (uBit u n i) := by
  have hbyte : i / 8 < n / 8 := by omega
  rw [bitAt, Memory.foldl_update List.nodup_range (fun _ _ _ _ _ => rfl),
    if_pos (List.mem_range.mpr hbyte), uBit, BitVec.getLsbD_reverse, BitVec.getMsbD_eq_getLsbD]
  have hbit : i % 8 < 8 := Nat.mod_lt i (by decide)
  simp [hbit]

theorem bitAt_nrPolarUxG {n : Nat} (hn : 3 ≤ n) (hn' : n < 32) (u d2 : Memory) :
    ∃ d, nrPolarUxG u (2 ^ n) d2 = some d ∧ ∀ j < 2 ^ n, bitAt d j =
      ∑ i ∈ range (2 ^ n), if BitSubset j i then gf2 (uBit u (2 ^ n) i) else 0 := by
  have hdvd : 8 ∣ 2 ^ n := Nat.pow_dvd_pow 2 hn
  have hbig : 8 ≤ 2 ^ n := Nat.le_of_dvd (Nat.two_pow_pos n) hdvd
  refine ⟨_, if_pos hbig, fun j hj => ?_⟩
  rw [bitAt_polarEncode hn hn' hj]
  refine sum_congr rfl fun i hi => ?_
  rw [bitAt_reversed u d2 hdvd (mem_range.mp hi)]

theorem uBit_wordBytes (w : Nat → BitVec 64) {n i : Nat} (hn : 64 ∣ n) (hi : i < n) :
    uBit (wordBytes w) n i = (w (n / 64 - 1 - i / 64)).getLsbD (63 - i % 64) := by
  have hword : (n / 8 - 1 - i / 8) / 8 = n / 64 - 1 - i / 64 := by omega
  have hbit : 8 * ((n / 8 - 1 - i / 8) % 8) + (7 - i % 8) = 63 - i % 64 := by omega
  have hlt : 7 - i % 8 < 8 := by omega
  rw [uBit, wordBytes, BitVec.getLsbD_setWidth, BitVec.getLsbD_ushiftRight, hword, hbit,
    decide_eq_true hlt, Bool.true_and]

/-- The transform multiplies with the Kronecker power of the kernel, on the input as
`nr_polar_generate_u` lays it out. -/
theorem nrPolarUxG_eq_vecMul (n : Nat) (hn : 3 ≤ n) (hn' : n < 32) (u d2 : Memory) :
    (∃ d, nrPolarUxG u (2 ^ n) d2 = some d ∧
      (fun j : Fin (2 ^ n) => bitAt d j) =
        Matrix.vecMul (fun i : Fin (2 ^ n) => gf2 (uBit u (2 ^ n) i)) (polarMatrix n) ∧
      ∀ j : Fin (2 ^ n), bitAt d j =
        ∑ i : Fin (2 ^ n), if BitSubset j i then gf2 (uBit u (2 ^ n) i) else 0) ∧
    ∀ w : Nat → BitVec 64, u = wordBytes w → 6 ≤ n → ∀ i < 2 ^ n,
      uBit u (2 ^ n) i = (w (2 ^ n / 64 - 1 - i / 64)).getLsbD (63 - i % 64) := by
  constructor
  · obtain ⟨d, hd, hbits⟩ := bitAt_nrPolarUxG hn hn' u d2
    have hsum : ∀ j : Fin (2 ^ n), bitAt d j =
        ∑ i : Fin (2 ^ n), if BitSubset j i then gf2 (uBit u (2 ^ n) i) else 0 := by
      intro j
      rw [hbits j j.isLt]
      exact sum_range (fun i => if BitSubset j i then gf2 (uBit u (2 ^ n) i) else 0)
    refine ⟨d, hd, ?_, hsum⟩
    funext j
    rw [hsum j, Matrix.vecMul, dotProduct]
    refine sum_congr rfl fun i _ => ?_
    rw [polarMatrix_apply, mul_ite, mul_one, mul_zero]
  · rintro w rfl hn6 i hi
    exact uBit_wordBytes w (Nat.pow_dvd_pow 2 hn6) hi

theorem nrPolarUxG_eq_vecMul_eight :
    ∃ d, nrPolarUxG (fun _ => 1) (2 ^ 3) (fun _ => 0) = some d ∧ bitAt d 0 = 1 := by
  obtain ⟨d, hd, -, hsum⟩ :=
    (nrPolarUxG_eq_vecMul 3 (by decide) (by decide) (fun _ => 1) (fun _ => 0)).1
  refine ⟨d, hd, (hsum 0).trans ?_⟩
  decide

end OpenAir.Phy

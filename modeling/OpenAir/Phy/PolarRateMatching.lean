import OpenAir.Lib.Permutation
import OpenAir.Lib.Rounding
import OpenAir.Phy.PolarTransform

namespace OpenAir.Phy

open Function List

def nrPolarSubblockInterleaverPattern : List Nat :=
  [0, 1, 2, 4, 3, 5, 6, 7, 8, 16, 9, 17, 10, 18, 11, 19, 12, 20, 13, 21, 14, 22, 15, 23, 24, 25, 26,
   28, 27, 29, 30, 31]

def q0Nminus110 : List Nat :=
  [0, 1, 2, 4, 8, 16, 32, 3, 5, 64, 9, 6, 17, 10, 18, 128, 12, 33, 65, 20, 256, 34, 24, 36, 7, 129,
   66, 512, 11, 40, 68, 130, 19, 13, 48, 14, 72, 257, 21, 132, 35, 258, 26, 513, 80, 37, 25, 22,
   136, 260, 264, 38, 514, 96, 67, 41, 144, 28, 69, 42, 516, 49, 74, 272, 160, 520, 288, 528, 192,
   544, 70, 44, 131, 81, 50, 73, 15, 320, 133, 52, 23, 134, 384, 76, 137, 82, 56, 27, 97, 39, 259,
   84, 138, 145, 261, 29, 43, 98, 515, 88, 140, 30, 146, 71, 262, 265, 161, 576, 45, 100, 640, 51,
   148, 46, 75, 266, 273, 517, 104, 162, 53, 193, 152, 77, 164, 768, 268, 274, 518, 54, 83, 57, 521,
   112, 135, 78, 289, 194, 85, 276, 522, 58, 168, 139, 99, 86, 60, 280, 89, 290, 529, 524, 196, 141,
   101, 147, 176, 142, 530, 321, 31, 200, 90, 545, 292, 322, 532, 263, 149, 102, 105, 304, 296, 163,
   92, 47, 267, 385, 546, 324, 208, 386, 150, 153, 165, 106, 55, 328, 536, 577, 548, 113, 154, 79,
   269, 108, 578, 224, 166, 519, 552, 195, 270, 641, 523, 275, 580, 291, 59, 169, 560, 114, 277,
   156, 87, 197, 116, 170, 61, 531, 525, 642, 281, 278, 526, 177, 293, 388, 91, 584, 769, 198, 172,
   120, 201, 336, 62, 282, 143, 103, 178, 294, 93, 644, 202, 592, 323, 392, 297, 770, 107, 180, 151,
   209, 284, 648, 94, 204, 298, 400, 608, 352, 325, 533, 155, 210, 305, 547, 300, 109, 184, 534,
   537, 115, 167, 225, 326, 306, 772, 157, 656, 329, 110, 117, 212, 171, 776, 330, 226, 549, 538,
   387, 308, 216, 416, 271, 279, 158, 337, 550, 672, 118, 332, 579, 540, 389, 173, 121, 553, 199,
   784, 179, 228, 338, 312, 704, 390, 174, 554, 581, 393, 283, 122, 448, 353, 561, 203, 63, 340,
   394, 527, 582, 556, 181, 295, 285, 232, 124, 205, 182, 643, 562, 286, 585, 299, 354, 211, 401,
   185, 396, 344, 586, 645, 593, 535, 240, 206, 95, 327, 564, 800, 402, 356, 307, 301, 417, 213,
   568, 832, 588, 186, 646, 404, 227, 896, 594, 418, 302, 649, 771, 360, 539, 111, 331, 214, 309,
   188, 449, 217, 408, 609, 596, 551, 650, 229, 159, 420, 310, 541, 773, 610, 657, 333, 119, 600,
   339, 218, 368, 652, 230, 391, 313, 450, 542, 334, 233, 555, 774, 175, 123, 658, 612, 341, 777,
   220, 314, 424, 395, 673, 583, 355, 287, 183, 234, 125, 557, 660, 616, 342, 316, 241, 778, 563,
   345, 452, 397, 403, 207, 674, 558, 785, 432, 357, 187, 236, 664, 624, 587, 780, 705, 126, 242,
   565, 398, 346, 456, 358, 405, 303, 569, 244, 595, 189, 566, 676, 361, 706, 589, 215, 786, 647,
   348, 419, 406, 464, 680, 801, 362, 590, 409, 570, 788, 597, 572, 219, 311, 708, 598, 601, 651,
   421, 792, 802, 611, 602, 410, 231, 688, 653, 248, 369, 190, 364, 654, 659, 335, 480, 315, 221,
   370, 613, 422, 425, 451, 614, 543, 235, 412, 343, 372, 775, 317, 222, 426, 453, 237, 559, 833,
   804, 712, 834, 661, 808, 779, 617, 604, 433, 720, 816, 836, 347, 897, 243, 662, 454, 318, 675,
   618, 898, 781, 376, 428, 665, 736, 567, 840, 625, 238, 359, 457, 399, 787, 591, 678, 434, 677,
   349, 245, 458, 666, 620, 363, 127, 191, 782, 407, 436, 626, 571, 465, 681, 246, 707, 350, 599,
   668, 790, 460, 249, 682, 573, 411, 803, 789, 709, 365, 440, 628, 689, 374, 423, 466, 793, 250,
   371, 481, 574, 413, 603, 366, 468, 655, 900, 805, 615, 684, 710, 429, 794, 252, 373, 605, 848,
   690, 713, 632, 482, 806, 427, 904, 414, 223, 663, 692, 835, 619, 472, 455, 796, 809, 714, 721,
   837, 716, 864, 810, 606, 912, 722, 696, 377, 435, 817, 319, 621, 812, 484, 430, 838, 667, 488,
   239, 378, 459, 622, 627, 437, 380, 818, 461, 496, 669, 679, 724, 841, 629, 351, 467, 438, 737,
   251, 462, 442, 441, 469, 247, 683, 842, 738, 899, 670, 783, 849, 820, 728, 928, 791, 367, 901,
   630, 685, 844, 633, 711, 253, 691, 824, 902, 686, 740, 850, 375, 444, 470, 483, 415, 485, 905,
   795, 473, 634, 744, 852, 960, 865, 693, 797, 906, 715, 807, 474, 636, 694, 254, 717, 575, 913,
   798, 811, 379, 697, 431, 607, 489, 866, 723, 486, 908, 718, 813, 476, 856, 839, 725, 698, 914,
   752, 868, 819, 814, 439, 929, 490, 623, 671, 739, 916, 463, 843, 381, 497, 930, 821, 726, 961,
   872, 492, 631, 729, 700, 443, 741, 845, 920, 382, 822, 851, 730, 498, 880, 742, 445, 471, 635,
   932, 687, 903, 825, 500, 846, 745, 826, 732, 446, 962, 936, 475, 853, 867, 637, 907, 487, 695,
   746, 828, 753, 854, 857, 504, 799, 255, 964, 909, 719, 477, 915, 638, 748, 944, 869, 491, 699,
   754, 858, 478, 968, 383, 910, 815, 976, 870, 917, 727, 493, 873, 701, 931, 756, 860, 499, 731,
   823, 922, 874, 918, 502, 933, 743, 760, 881, 494, 702, 921, 501, 876, 847, 992, 447, 733, 827,
   934, 882, 937, 963, 747, 505, 855, 924, 734, 829, 965, 938, 884, 506, 749, 945, 966, 755, 859,
   940, 830, 911, 871, 639, 888, 479, 946, 750, 969, 508, 861, 757, 970, 919, 875, 862, 758, 948,
   977, 923, 972, 761, 877, 952, 495, 703, 935, 978, 883, 762, 503, 925, 878, 735, 993, 885, 939,
   994, 980, 926, 764, 941, 967, 886, 831, 947, 507, 889, 984, 751, 942, 996, 971, 890, 509, 949,
   973, 1000, 892, 950, 863, 759, 1008, 510, 979, 953, 763, 974, 954, 879, 981, 982, 927, 995, 765,
   956, 887, 985, 997, 986, 943, 891, 998, 766, 511, 988, 1001, 951, 1002, 893, 975, 894, 1009, 955,
   1004, 1010, 957, 983, 958, 987, 1012, 999, 1016, 767, 989, 1003, 990, 1005, 959, 1011, 1013, 895,
   1006, 1014, 1017, 1018, 991, 1020, 1007, 1015, 1019, 1021, 1022, 1023]

/-- `nr_polar_sequence_pattern`.  The tables for the shorter codes hold the entries of the longest
that are below the length, in the same order. -/
def nrPolarSequencePattern (n : Nat) : List Nat := q0Nminus110.filter (· < 2 ^ n)

/-- `J[m]` in `nr_polar_rate_matching_pattern`. -/
def interleavedIndex (n m : Nat) : Nat :=
  nrPolarSubblockInterleaverPattern.getD (32 * m / n) 0 * (n / 32) + m % (n / 32)

/-- `J` -/
def jTable (n : Nat) : List Nat := (List.range n).map (interleavedIndex n)

/-- `nr_polar_rate_matching_pattern`: the pattern and `J`.  The comparison of `K / (double)E` with
`7.0 / 16` is exact. -/
def nrPolarRateMatchingPattern (k n e : Nat) : List Nat × List Nat :=
  let y (i : Nat) := (jTable n).getD i 0
  let rmp :=
    if e ≥ n then (List.range e).map fun i => y (i % n)
    else if 16 * k ≤ 7 * e then (List.range e).map fun i => y (i + n - e)
    else (List.range e).map y
  (rmp, jTable n)

/-- `nr_polar_rate_matching`, with the `INFINITY` of the reliabilities. -/
def nrPolarRateMatching [Zero R] [Add R] (infinity : R) (input : List R) (rmp : List Nat)
    (k n e : Nat) : Nat → R :=
  let places := rmp.zip input
  if e ≥ n then places.foldl (fun output p => update output p.1 (output p.1 + p.2)) fun _ => 0
  else
    places.foldl (fun output p => update output p.1 p.2)
      fun _ => if 16 * k ≤ 7 * e then 0 else infinity

structure PolarBitSets where
  qI : List Nat
  qF : List Nat
  qPc : List Nat

def PolarBitSets.ibp (b : PolarBitSets) (i : Nat) : Bool := b.qI.contains i

def popcount (x : Nat) : Nat := (List.range 16).countP x.testBit

/-- `Q_Ftmp_N` -/
def frozenByRateMatching (j : List Nat) (k n e : Nat) : List Nat :=
  if e < n then
    if 16 * k ≤ 7 * e then
      j.take (n - e) ++
        List.range (if 4 * e ≥ 3 * n then ceilDiv (3 * n - 2 * e) 4 else ceilDiv (9 * n - 4 * e) 16)
    else j.drop e
  else []

def minRowWeight (q : List Nat) : Option Nat :=
  q.foldl (fun best x => if best.all (fun b => popcount x ≤ popcount b) then some x else best) none

/-- `Q_PC_N` -/
def parityCheckBits (qI : List Nat) (nPc nPcWm : Nat) : Option (List Nat) :=
  if nPc > 0 then do
    guard (nPcWm ≤ 1)
    let least := qI.take (nPc - nPcWm)
    if nPcWm = 1 then do
      let best ← minRowWeight (qI.drop nPc)
      pure (least ++ [best])
    else pure least
  else pure []

/-- `nr_polar_info_bit_pattern`; nothing where it asserts or leaves its arrays. -/
def nrPolarInfoBitPattern (j q : List Nat) (k n e nPc nPcWm : Nat) : Option PolarBitSets := do
  let qFtmp := frozenByRateMatching j k n e
  guard (qFtmp.length ≤ n)
  let qItmp := q.filter fun i => !qFtmp.contains i
  guard (k + nPc ≤ qItmp.length)
  let qI := qItmp.drop (qItmp.length - (k + nPc))
  let qPc ← parityCheckBits qI nPc nPcWm
  pure { qI, qF := q.filter fun i => !qI.contains i, qPc }

theorem perm_nrPolarSequencePattern {n : Nat} (hn : n ≤ 10) :
    (nrPolarSequencePattern n).Perm (List.range (2 ^ n)) := by
  have hall : q0Nminus110.Perm (List.range 1024) :=
    perm_range_of_mask (by decide +kernel) (by decide +kernel)
  have hle : 2 ^ n ≤ 1024 := Nat.pow_le_pow_right (by decide) hn
  refine (hall.filter _).trans
    ((perm_ext_iff_of_nodup (nodup_range.filter _) nodup_range).mpr fun i => ?_)
  simp only [mem_filter, mem_range, decide_eq_true_eq]
  omega

section Interleaver

variable {d m m' : Nat}

theorem pattern_lt : ∀ a < 32, nrPolarSubblockInterleaverPattern.getD a 0 < 32 := by decide

theorem le_of_bitSubset_pattern : ∀ a < 32, ∀ b < 32,
    BitSubset (nrPolarSubblockInterleaverPattern.getD a 0)
      (nrPolarSubblockInterleaverPattern.getD b 0) → a ≤ b := by
  decide

theorem interleavedIndex_two_pow (d m : Nat) :
    interleavedIndex (2 ^ (d + 5)) m =
      2 ^ d * nrPolarSubblockInterleaverPattern.getD (m / 2 ^ d) 0 + m % 2 ^ d := by
  have hsize : 2 ^ (d + 5) = 32 * 2 ^ d := by rw [Nat.pow_add, Nat.mul_comm]
  rw [interleavedIndex, hsize, Nat.mul_div_mul_left _ _ (by decide),
    Nat.mul_div_cancel_left _ (by decide), Nat.mul_comm (2 ^ d)]

theorem div_lt_of_lt_size (hm : m < 2 ^ (d + 5)) : m / 2 ^ d < 32 :=
  Nat.div_lt_of_lt_mul (by rwa [Nat.pow_add] at hm)

theorem interleavedIndex_lt (hm : m < 2 ^ (d + 5)) :
    interleavedIndex (2 ^ (d + 5)) m < 2 ^ (d + 5) := by
  have hblock := pattern_lt _ (div_lt_of_lt_size hm)
  have hoffset := Nat.mod_lt m (Nat.two_pow_pos d)
  rw [interleavedIndex_two_pow]
  calc _ < 2 ^ d * nrPolarSubblockInterleaverPattern.getD (m / 2 ^ d) 0 + 2 ^ d :=
    Nat.add_lt_add_left hoffset _
    _ = 2 ^ d * (nrPolarSubblockInterleaverPattern.getD (m / 2 ^ d) 0 + 1) := by ring
    _ ≤ 2 ^ d * 2 ^ 5 := Nat.mul_le_mul_left _ hblock
    _ = 2 ^ (d + 5) := (Nat.pow_add 2 d 5).symm

theorem le_of_bitSubset_interleavedIndex (hm : m < 2 ^ (d + 5)) (hm' : m' < 2 ^ (d + 5))
    (hsub : BitSubset (interleavedIndex (2 ^ (d + 5)) m) (interleavedIndex (2 ^ (d + 5)) m')) :
    m ≤ m' := by
  rw [interleavedIndex_two_pow, interleavedIndex_two_pow,
    bitSubset_two_pow_mul_add (Nat.mod_lt m (Nat.two_pow_pos d))
    (Nat.mod_lt m' (Nat.two_pow_pos d))] at hsub
  have hblock := le_of_bitSubset_pattern _ (div_lt_of_lt_size hm) _ (div_lt_of_lt_size hm') hsub.1
  calc m = 2 ^ d * (m / 2 ^ d) + m % 2 ^ d := (Nat.div_add_mod m (2 ^ d)).symm
    _ ≤ 2 ^ d * (m' / 2 ^ d) + m' % 2 ^ d := Nat.add_le_add (Nat.mul_le_mul_left _ hblock) hsub.2.le
    _ = m' := Nat.div_add_mod m' (2 ^ d)

theorem perm_jTable (d : Nat) :
    (jTable (2 ^ (d + 5))).Perm (List.range (2 ^ (d + 5))) := by
  refine perm_range_of_injOn (fun a ha b hb heq => ?_) fun a => interleavedIndex_lt
  have hle := le_of_bitSubset_interleavedIndex ha hb (heq ▸ BitSubset.refl _)
  have hge := le_of_bitSubset_interleavedIndex hb ha (heq ▸ BitSubset.refl _)
  exact le_antisymm hle hge

theorem mem_drop_jTable {i e : Nat} :
    i ∈ (jTable (2 ^ (d + 5))).drop e ↔
      ∃ m, e ≤ m ∧ m < 2 ^ (d + 5) ∧ interleavedIndex (2 ^ (d + 5)) m = i := by
  simp only [jTable, ← map_drop, mem_map, range_eq_range', drop_range', mem_range'_1]
  constructor
  · rintro ⟨m, hm, rfl⟩
    exact ⟨m, by omega, by omega, rfl⟩
  · rintro ⟨m, hem, hm, rfl⟩
    exact ⟨m, by omega, rfl⟩

theorem mem_drop_of_bitSubset {i j e : Nat}
    (hj : j ∈ (jTable (2 ^ (d + 5))).drop e) (hi : i < 2 ^ (d + 5))
    (hsub : BitSubset j i) : i ∈ (jTable (2 ^ (d + 5))).drop e := by
  obtain ⟨m, hem, hm, rfl⟩ := mem_drop_jTable.mp hj
  obtain ⟨m', hm', rfl⟩ := mem_map.mp ((perm_jTable d).mem_iff.mpr (mem_range.mpr hi))
  have hm' := mem_range.mp hm'
  exact mem_drop_jTable.mpr ⟨m', hem.trans (le_of_bitSubset_interleavedIndex hm hm' hsub), hm', rfl⟩

end Interleaver

section Shortening

variable {d k e nPc nPcWm : Nat}

theorem nrPolarRateMatchingPattern_of_short (he : e < 2 ^ (d + 5)) (hrate : 7 * e < 16 * k) :
    nrPolarRateMatchingPattern k (2 ^ (d + 5)) e =
      ((jTable (2 ^ (d + 5))).take e, jTable (2 ^ (d + 5))) := by
  have hlen : (jTable (2 ^ (d + 5))).length = 2 ^ (d + 5) := by simp [jTable]
  have htake : (List.range e).map (fun i => (jTable (2 ^ (d + 5))).getD i 0) =
      (jTable (2 ^ (d + 5))).take e := by
    refine ext_getElem (by simp [hlen, he.le]) fun i hi hi' => ?_
    simp only [length_map, length_range] at hi
    simp [hlen, hi.trans he]
  simp only [nrPolarRateMatchingPattern, if_neg (not_le.mpr he), if_neg (not_le.mpr hrate), htake]

theorem exists_minRowWeight {q : List Nat} (hq : q ≠ []) : ∃ best, minRowWeight q = some best := by
  have hstep : ∀ (q : List Nat) (b : Nat), ∃ best, q.foldl
      (fun best x => if best.all (fun b => popcount x ≤ popcount b) then some x else best)
      (some b) = some best := by
    intro q
    induction q with
    | nil => exact fun b => ⟨b, rfl⟩
    | cons x q ih =>
      intro b
      rw [foldl_cons]
      split
      · exact ih x
      · exact ih b
  obtain ⟨x, q, rfl⟩ := exists_cons_of_ne_nil hq
  exact hstep q x

theorem exists_parityCheckBits (qI : List Nat) (hwm : nPcWm ≤ 1) (hlen : nPc < qI.length) :
    ∃ qPc, parityCheckBits qI nPc nPcWm = some qPc := by
  have hne : qI.drop nPc ≠ [] := by simpa using hlen
  obtain ⟨best, hbest⟩ := exists_minRowWeight hne
  rw [parityCheckBits]
  split
  · by_cases hone : nPcWm = 1
    · exact ⟨_, by simp [guard, hone, hbest]; rfl⟩
    · exact ⟨_, by simp [guard, hwm, hone]; rfl⟩
  · exact ⟨[], rfl⟩

theorem exists_nrPolarInfoBitPattern {j q : List Nat} {n : Nat}
    (hlen : (frozenByRateMatching j k n e).length ≤ n)
    (hcount : k + nPc ≤ (q.filter fun i => !(frozenByRateMatching j k n e).contains i).length)
    (hk : 0 < k) (hwm : nPcWm ≤ 1) :
    ∃ sets, nrPolarInfoBitPattern j q k n e nPc nPcWm = some sets ∧
      ∀ i ∈ sets.qI, i ∉ frozenByRateMatching j k n e := by
  generalize hqI : (q.filter fun i => !(frozenByRateMatching j k n e).contains i) = qItmp at hcount
  obtain ⟨qPc, hqPc⟩ := exists_parityCheckBits (qItmp.drop (qItmp.length - (k + nPc))) hwm
    (show nPc < _ by rw [length_drop]; omega)
  refine ⟨⟨qItmp.drop (qItmp.length - (k + nPc)),
    q.filter fun i => !(qItmp.drop (qItmp.length - (k + nPc))).contains i, qPc⟩, ?_, fun i hi => ?_⟩
  · simp only [nrPolarInfoBitPattern, guard, hlen, if_true, hqI, hcount, pure, Option.bind_eq_bind,
      Option.bind_some, hqPc]
  · have hkept := mem_of_mem_drop hi
    rw [← hqI, mem_filter] at hkept
    simpa using hkept.2

theorem nrPolarInfoBitPattern_of_short (hd : d ≤ 5) (hk : k + nPc ≤ e) (he : e < 2 ^ (d + 5))
    (hrate : 7 * e < 16 * k) (hwm : nPcWm ≤ 1) :
    ∃ sets, nrPolarInfoBitPattern (jTable (2 ^ (d + 5))) (nrPolarSequencePattern (d + 5)) k
      (2 ^ (d + 5)) e nPc nPcWm =
        some sets ∧
      ∀ i ∈ (jTable (2 ^ (d + 5))).drop e, sets.ibp i = false := by
  have hfrozen : frozenByRateMatching (jTable (2 ^ (d + 5))) k (2 ^ (d + 5)) e =
      (jTable (2 ^ (d + 5))).drop e := by
    rw [frozenByRateMatching, if_pos he, if_neg (not_le.mpr hrate)]
  have hperm : (nrPolarSequencePattern (d + 5)).Perm (jTable (2 ^ (d + 5))) :=
    (perm_nrPolarSequencePattern (by omega)).trans (perm_jTable d).symm
  have hnodup : (jTable (2 ^ (d + 5))).Nodup := (perm_jTable d).nodup_iff.mpr nodup_range
  have hlen : (jTable (2 ^ (d + 5))).length = 2 ^ (d + 5) := by simp [jTable]
  obtain ⟨sets, hsets, hqI⟩ := exists_nrPolarInfoBitPattern (j := jTable (2 ^ (d + 5)))
    (q := nrPolarSequencePattern (d + 5)) (k := k) (e := e) (n := 2 ^ (d + 5))
    (by simp [hfrozen, hlen])
    (by
      rwa [hfrozen, (hperm.filter _).length_eq, filter_not_mem_drop hnodup, length_take, hlen,
        Nat.min_eq_left he.le])
    (by omega) hwm
  refine ⟨sets, hsets, fun i hi => ?_⟩
  rw [PolarBitSets.ibp, ← Bool.not_eq_true, contains_iff_mem]
  exact fun hmem => hqI i hmem (hfrozen ▸ hi)

theorem bitAt_eq_zero_of_short {ibp : Nat → Bool} {u d2 dst : Memory} (hd : d ≤ 5)
    (hibp : ∀ i ∈ (jTable (2 ^ (d + 5))).drop e, ibp i = false)
    (hu : ∀ i < 2 ^ (d + 5), ibp i = false → uBit u (2 ^ (d + 5)) i = false)
    (hdst : nrPolarUxG u (2 ^ (d + 5)) d2 = some dst) {j : Nat}
    (hj : j ∈ (jTable (2 ^ (d + 5))).drop e) : bitAt dst j = 0 := by
  obtain ⟨dst', hdst', hbits⟩ := bitAt_nrPolarUxG (n := d + 5) (by omega) (by omega) u d2
  obtain rfl : dst = dst' := Option.some.inj (hdst.symm.trans hdst')
  have hlt : j < 2 ^ (d + 5) := mem_range.mp ((perm_jTable d).mem_iff.mp (mem_of_mem_drop hj))
  rw [hbits j hlt]
  refine Finset.sum_eq_zero fun i hi => ?_
  have hi := Finset.mem_range.mp hi
  split
  · rename_i hsub
    rw [hu i hi (hibp i (mem_drop_of_bitSubset hj hi hsub)), gf2_false]
  · rfl

theorem foldl_update_of_not_mem {R : Type*} {places : List (Nat × R)} {output : Nat → R} {j : Nat}
    (hj : ∀ p ∈ places, p.1 ≠ j) :
    places.foldl (fun output p => update output p.1 p.2) output j = output j := by
  induction places generalizing output with
  | nil => rfl
  | cons p places ih =>
    rw [foldl_cons, ih fun p hp => hj p (mem_cons_of_mem _ hp),
      update_of_ne (hj p mem_cons_self).symm]

theorem nrPolarRateMatching_of_not_mem {R : Type*} [Zero R] [Add R] {infinity : R} {input : List R}
    {rmp : List Nat} {n j : Nat} (he : e < n) (hrate : 7 * e < 16 * k) (hj : j ∉ rmp) :
    nrPolarRateMatching infinity input rmp k n e j = infinity := by
  rw [nrPolarRateMatching, if_neg (not_le.mpr he), foldl_update_of_not_mem,
    if_neg (not_le.mpr hrate)]
  rintro p hp rfl
  exact hj (of_mem_zip hp).1

end Shortening

/-- With shortening, the positions that are not sent are the end of `J`; they are frozen, so every
codeword is 0 there, as the receiver takes for certain. -/
theorem shortened_bits_zero (n k e nPc nPcWm : Nat) (hn : 5 ≤ n) (hn' : n ≤ 10) (hk : k + nPc ≤ e)
    (he : e < 2 ^ n) (hrate : (7 : ℚ) / 16 < k / e) (hwm : nPcWm ≤ 1) (rmp j : List Nat)
    (hrmp : nrPolarRateMatchingPattern k (2 ^ n) e = (rmp, j)) :
    j.Perm (List.range (2 ^ n)) ∧
    (∀ i < 2 ^ n, i ∉ rmp ↔ i ∈ j.drop e) ∧
    (∀ (R : Type) [Zero R] [Add R] (infinity : R) (input : List R), ∀ i ∈ j.drop e,
      nrPolarRateMatching infinity input rmp k (2 ^ n) e i = infinity) ∧
    ∃ sets, nrPolarInfoBitPattern j (nrPolarSequencePattern n) k (2 ^ n) e nPc nPcWm = some sets ∧
      (∀ i ∈ j.drop e, sets.ibp i = false) ∧
      ∀ u d2 : Memory, (∀ i < 2 ^ n, sets.ibp i = false → uBit u (2 ^ n) i = false) →
        ∃ d, nrPolarUxG u (2 ^ n) d2 = some d ∧ ∀ i ∈ j.drop e, bitAt d i = 0 := by
  obtain ⟨d, rfl⟩ := Nat.exists_eq_add_of_le' hn
  have hrate' : 7 * e < 16 * k := by
    have hpos : (0 : ℚ) < e := by
      rcases Nat.eq_zero_or_pos e with rfl | h
      · norm_num at hrate
      · exact_mod_cast h
    rw [div_lt_div_iff₀ (by norm_num) hpos] at hrate
    have : (7 : ℚ) * e < 16 * k := by linarith
    exact_mod_cast this
  have hperm := perm_jTable d
  have hnodup : (jTable (2 ^ (d + 5))).Nodup := hperm.nodup_iff.mpr nodup_range
  have hsent : ∀ i < 2 ^ (d + 5), i ∉ (jTable (2 ^ (d + 5))).take e ↔
      i ∈ (jTable (2 ^ (d + 5))).drop e := by
    intro i hi
    have hmem : i ∈ jTable (2 ^ (d + 5)) := hperm.mem_iff.mpr (mem_range.mpr hi)
    rw [← filter_not_mem_drop hnodup e, mem_filter]
    simp [hmem]
  have hlt : ∀ i ∈ (jTable (2 ^ (d + 5))).drop e, i < 2 ^ (d + 5) :=
    fun i hi => mem_range.mp (hperm.mem_iff.mp (mem_of_mem_drop hi))
  obtain ⟨rfl, rfl⟩ := Prod.mk.inj ((nrPolarRateMatchingPattern_of_short he hrate').symm.trans hrmp)
  refine ⟨hperm, hsent, fun R _ _ infinity input i hi => ?_, ?_⟩
  · exact nrPolarRateMatching_of_not_mem he hrate' ((hsent i (hlt i hi)).mpr hi)
  · obtain ⟨sets, hsets, hibp⟩ := nrPolarInfoBitPattern_of_short (by omega) hk he hrate' hwm
    refine ⟨sets, hsets, hibp, fun u d2 hu => ?_⟩
    obtain ⟨dst, hdst, -⟩ := bitAt_nrPolarUxG (n := d + 5) (by omega) (by omega) u d2
    exact ⟨dst, hdst, fun i hi => bitAt_eq_zero_of_short (by omega) hibp hu hdst hi⟩

theorem shortened_bits_zero_sixtyFour :
    ∃ sets, nrPolarInfoBitPattern (jTable 64) (nrPolarSequencePattern 6) 20 64 40 0 0 = some sets ∧
      ∀ i ∈ (jTable 64).drop 40, sets.ibp i = false := by
  have h := shortened_bits_zero 6 20 40 0 0 (by decide) (by decide) (by decide) (by decide)
    (by norm_num) (by decide) _ _ rfl
  obtain ⟨-, -, -, sets, hsets, hibp, -⟩ := h
  exact ⟨sets, hsets, hibp⟩

end OpenAir.Phy

import OpenAir.Lib.Bits

namespace OpenAir.Mac

def shortBsrTable : List Nat :=
  [0, 10, 14, 20, 28, 38, 53, 74,
   102, 142, 198, 276, 384, 535, 745, 1038,
   1446, 2014, 2806, 3909, 5446, 7587, 10570, 14726,
   20516, 28581, 39818, 55474, 77284, 107669, 150000, 300000]

def longBsrTable : List Nat :=
  [0, 10, 11, 12, 13, 14, 15, 16, 17, 18, 19, 20, 22, 23, 25, 26, 28, 30, 32, 34, 36, 38, 40, 43,
   46, 49, 52, 55, 59, 62, 66, 71, 75, 80, 85, 91, 97, 103, 110, 117, 124, 132, 141, 150, 160, 170,
   181, 193, 205, 218, 233, 248, 264, 281, 299, 318, 339, 361, 384, 409, 436, 464, 494, 526, 560,
   597, 635, 677, 720, 767, 817, 870, 926, 987, 1051, 1119, 1191, 1269, 1351, 1439, 1532, 1631,
   1737, 1850, 1970, 2098, 2234, 2379, 2533, 2698, 2873, 3059, 3258, 3469, 3694, 3934, 4189, 4461,
   4751, 5059, 5387, 5737, 6109, 6506, 6928, 7378, 7857, 8367, 8910, 9488, 10104, 10760, 11458,
   12202, 12994, 13838, 14736, 15692, 16711, 17795, 18951, 20181, 21491, 22885, 24371, 25953, 27638,
   29431, 31342, 33376, 35543, 37850, 40307, 42923, 45709, 48676, 51836, 55200, 58784, 62599, 66663,
   70990, 75598, 80505, 85730, 91295, 97221, 103532, 110252, 117409, 125030, 133146, 141789, 150992,
   160793, 171231, 182345, 194182, 206786, 220209, 234503, 249725, 265935, 283197, 301579, 321155,
   342002, 364202, 387842, 413018, 439827, 468377, 498780, 531156, 565634, 602350, 641449, 683087,
   727427, 774645, 824928, 878475, 935498, 996222, 1060888, 1129752, 1203085, 1281179, 1364342,
   1452903, 1547213, 1647644, 1754595, 1868488, 1989774, 2118933, 2256475, 2402946, 2558924,
   2725027, 2901912, 3090279, 3290873, 3504487, 3731968, 3974215, 4232186, 4506902, 4799451,
   5110989, 5442750, 5796046, 6172275, 6572925, 6999582, 7453933, 7937777, 8453028, 9001725,
   9586039, 10208280, 10870913, 11576557, 12328006, 13128233, 13980403, 14887889, 15854280,
   16883401, 17979324, 19146385, 20389201, 21712690, 23122088, 24622972, 26221280, 27923336,
   29735875, 31666069, 33721553, 35910462, 38241455, 40723756, 43367187, 46182206, 49179951,
   52372284, 55771835, 59392055, 63247269, 67352729, 71724679, 76380419, 81338368, 162676736,
   4294967295]

def getShortBsrValue (idx : Nat) : Nat := shortBsrTable.getD idx 0

def getLongBsrValue (idx : Nat) : Nat := longBsrTable.getD idx 0

/-- A sum of machine integers, as an `int`. -/
def toInt32 (x : Int) : Int := (x + 2 ^ 31) % 2 ^ 32 - 2 ^ 31

/-- An index is raised by one to account for headers; 0 means that there is no data. -/
def overestimBsrIndex (realIndex : Nat) : Nat :=
  if realIndex > 0 then realIndex + 1 else realIndex

/-- `Buffer_size` is in the five low bits of a short BSR. -/
def estimateUlBufferShortBsr (bsr : Byte) : Int :=
  let idx := min (overestimBsrIndex (bsr.toNat % 32)) 31
  getShortBsrValue idx

/-- The groups a long BSR reports on, each with its index.  Bit `n` of the first octet announces
group `n`. -/
def lcgEntries (bsr : Nat → Byte) : List (Nat × Byte) :=
  ((List.range 8).filter fun n => (bsr 0).getLsbD n).zipIdx.map fun x => (x.1, bsr (1 + x.2))

def estimateUlBufferLongBsr (entries : List (Nat × Byte)) : Int :=
  entries.foldl (fun estimSize x =>
    toInt32 (estimSize + getLongBsrValue (min (overestimBsrIndex x.2.toNat) 255))) 0

def searchBsrIndex (table : List Nat) (value jl ju : Nat) : Nat :=
  if ju - jl > 1 then
    let jm := (ju + jl) / 2
    let ascend := decide (table.getD (table.length - 1) 0 ≥ table.getD 0 0)
    if decide (value ≥ table.getD jm 0) = ascend then searchBsrIndex table value jm ju
    else searchBsrIndex table value jl jm
  else jl
  termination_by ju - jl

def locateBsrIndexByBufferSize (table : List Nat) (value : Nat) : Nat :=
  if value = 0 then 0
  else
    let jl := searchBsrIndex table value 0 (table.length - 1)
    if value = table.getD jl 0 then jl else jl + 1

end OpenAir.Mac

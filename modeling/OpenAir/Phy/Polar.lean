import Mathlib.Algebra.Group.Int.Defs
import Mathlib.Algebra.Group.Nat.Defs
import OpenAir.Lib.Pool
import OpenAir.Lib.Run

/-! The parameters of the polar codes and their cache. -/

namespace OpenAir.Phy

structure PolarRequest where
  messageType : BitVec 8
  messageLength : BitVec 16
  aggregationLevel : BitVec 32
  deriving DecidableEq

def PolarRequest.key (q : PolarRequest) : BitVec 32 :=
  (q.messageType.signExtend 32 <<< 24) ||| (q.messageLength.setWidth 32 <<< 8) |||
    q.aggregationLevel

structure PolarParams where
  nMax : Nat
  iIl : Nat
  iSeg : Nat
  nPc : Nat
  nPcWm : Nat
  iBil : Nat
  payloadBits : Nat
  encoderLength : Nat
  crcParityBits : Nat
  crcCorrectionBits : Nat
  deriving DecidableEq

inductive PolarAssertion
  | aggregationLevel
  | messageLength
  | segmentation
  | kr
  | messageType
  | tables
  | nBits
  deriving DecidableEq

namespace PolarRequest

def pbchMessageType : BitVec 8 := 0
def dciMessageType : BitVec 8 := 1
def uciPucchMessageType : BitVec 8 := 2
def psbchMessageType : BitVec 8 := 3
def uciPuschMessageType : BitVec 8 := 4

def pbch : PolarParams :=
  { nMax := 9, iIl := 1, iSeg := 0, nPc := 0, nPcWm := 0, iBil := 0, payloadBits := 32
    encoderLength := 864, crcParityBits := 24, crcCorrectionBits := 3 }

def psbch : PolarParams := { pbch with encoderLength := 1782 + 2 }

variable (q : PolarRequest)

/-- The encoder length has 16 bits. -/
def dci : PolarParams :=
  { pbch with
    payloadBits := q.messageLength.toNat
    encoderLength := (q.aggregationLevel.toInt * 108 % 2 ^ 16).toNat }

/-- UCI; on PUSCH the aggregation level is the encoder length. -/
def uci : Except PolarAssertion PolarParams :=
  if q.aggregationLevel.toInt ≤ 2 then .error .aggregationLevel
  else if q.messageLength.toNat ≤ 11 then .error .messageLength
  else
    let messageLength := q.messageLength.toNat
    let crcParityBits := if messageLength ≤ 19 then 6 else 11
    let encoderLength :=
      (if q.messageType = uciPucchMessageType then q.aggregationLevel.toInt * 16 % 2 ^ 16
      else q.aggregationLevel.toInt % 2 ^ 16).toNat
    if (messageLength ≥ 360 ∧ encoderLength ≥ 1088) ∨ messageLength ≥ 1013 then .error .segmentation
    else
      let kr := messageLength + crcParityBits
      let p : PolarParams :=
        { nMax := 10, iIl := 0, iSeg := 0, nPc := 0, nPcWm := 0, iBil := 1
          payloadBits := messageLength, encoderLength, crcParityBits, crcCorrectionBits := 3 }
      if 18 ≤ kr ∧ kr ≤ 25 then
        .ok { p with nPc := 3, nPcWm := if (encoderLength : Int) - kr + 3 > 192 then 1 else 0 }
      else if kr > 30 then .ok p
      else .error .kr

/-- Whether the tables can be built (the assertions of `nr_polar_info_bit_pattern`,
`build_polar_tables` and the decoder tree) is `tables`. -/
def build (tables : PolarParams → Bool) : Except PolarAssertion PolarParams :=
  let params : Except PolarAssertion PolarParams :=
    if q.messageType = pbchMessageType then .ok pbch
    else if q.messageType = dciMessageType then .ok q.dci
    else if q.messageType = uciPucchMessageType ∨ q.messageType = uciPuschMessageType then q.uci
    else if q.messageType = psbchMessageType then .ok psbch
    else .error .messageType
  match params with
  | .error e => .error e
  | .ok p => if tables p then .ok p else .error .tables

end PolarRequest

/-- `PolarList`; an entry keeps what it was built for. -/
abbrev PolarList := List (Pool.Entry PolarRequest (BitVec 32) PolarParams)

section

variable (tables : PolarParams → Bool)

def nrPolarParams (l : PolarList) (q : PolarRequest) :
    Except PolarAssertion (Nat × Pool.Entry PolarRequest (BitVec 32) PolarParams × PolarList) :=
  Pool.acquire PolarRequest.key (fun q => q.build tables) l q

def polarReturn (n : Nat) (l : PolarList) : PolarList := Pool.release n l

/-- `polar_decoder_int16`, as far as the parameters it decodes with. -/
def polarDecoderInt16 (l : PolarList) (messageType : BitVec 8) (messageLength : BitVec 16)
    (aggregationLevel : BitVec 8) :
    Except PolarAssertion (Nat × Pool.Entry PolarRequest (BitVec 32) PolarParams × PolarList) :=
  nrPolarParams tables l ⟨messageType, messageLength, aggregationLevel.setWidth 32⟩

/-- `uci_on_pusch_decoded_helper`; up to 11 bits there is no polar code. -/
def uciOnPuschDecodedHelper (l : PolarList) (nBits E : BitVec 32) : Except PolarAssertion
    (Option (Nat × Pool.Entry PolarRequest (BitVec 32) PolarParams × PolarList)) :=
  if nBits.toInt > 11 then
    if nBits.toInt ≤ 64 then
      match polarDecoderInt16 tables l PolarRequest.uciPuschMessageType (nBits.setWidth 16)
          (E.setWidth 8) with
      | .error e => .error e
      | .ok x => .ok (some x)
    else .error .nBits
  else .ok none

inductive PolarOp
  | params (q : PolarRequest)
  | ret (n : Nat)

def polarStep (l : PolarList) : PolarOp → PolarList → Prop
  | .params q, l' => ∃ x, nrPolarParams tables l q = .ok x ∧ l' = x.2.2
  | .ret n, l' => l' = polarReturn n l

end

def PolarRequest.Narrow (q : PolarRequest) : Prop := q.aggregationLevel.toNat < 2 ^ 8

instance (q : PolarRequest) : Decidable q.Narrow :=
  inferInstanceAs (Decidable (q.aggregationLevel.toNat < 2 ^ 8))

def PolarOp.Narrow : PolarOp → Prop
  | .params q => q.Narrow
  | .ret _ => True

namespace PolarRequest

variable {q q' : PolarRequest}

theorem Narrow.getLsbD (h : q.Narrow) {i : Nat} (hi : 8 ≤ i) :
    q.aggregationLevel.getLsbD i = false := by
  rw [BitVec.getLsbD]
  exact Nat.testBit_lt_two_pow (Nat.lt_of_lt_of_le h (Nat.pow_le_pow_right (by decide) hi))

theorem key_bits (q : PolarRequest) (i : Nat) (hi : i < 32) : q.key.getLsbD i =
    ((decide (24 ≤ i) && q.messageType.getLsbD (i - 24)) ||
      (decide (8 ≤ i) && q.messageLength.getLsbD (i - 8)) || q.aggregationLevel.getLsbD i) := by
  unfold key
  simp only [BitVec.getLsbD_or, BitVec.getLsbD_shiftLeft, BitVec.getLsbD_signExtend,
    BitVec.getLsbD_setWidth]
  by_cases h24 : i < 24
  · by_cases h8 : i < 8
    · simp [hi, h24, h8, show ¬ 24 ≤ i by omega, show ¬ 8 ≤ i by omega]
    · simp [hi, h24, h8, show ¬ 24 ≤ i by omega, show 8 ≤ i by omega, show i - 8 < 32 by omega]
  · simp [hi, h24, show 24 ≤ i by omega, show 8 ≤ i by omega, show ¬ i < 8 by omega,
      show i - 24 < 32 by omega, show i - 24 < 8 by omega, show i - 8 < 32 by omega]

theorem key_injective (h : q.Narrow) (h' : q'.Narrow) (heq : q.key = q'.key) : q = q' := by
  have hbits : ∀ i < 32, q.key.getLsbD i = q'.key.getLsbD i := fun i _ => by rw [heq]
  have htype : q.messageType = q'.messageType := by
    refine BitVec.eq_of_getLsbD_eq fun i hi => ?_
    have hbit := hbits (24 + i) (by omega)
    rw [key_bits _ _ (by omega), key_bits _ _ (by omega), h.getLsbD (by omega),
      h'.getLsbD (by omega), BitVec.getLsbD_of_ge q.messageLength _ (by omega),
      BitVec.getLsbD_of_ge q'.messageLength _ (by omega)] at hbit
    simpa using hbit
  have hlength : q.messageLength = q'.messageLength := by
    refine BitVec.eq_of_getLsbD_eq fun i hi => ?_
    have hbit := hbits (8 + i) (by omega)
    rw [key_bits _ _ (by omega), key_bits _ _ (by omega), h.getLsbD (by omega),
      h'.getLsbD (by omega)]
      at hbit
    simpa [show ¬ 24 ≤ 8 + i by omega] using hbit
  have hlevel : q.aggregationLevel = q'.aggregationLevel := by
    refine BitVec.eq_of_getLsbD_eq fun i hi => ?_
    by_cases h8 : 8 ≤ i
    · rw [h.getLsbD h8, h'.getLsbD h8]
    · have hbit := hbits i (by omega)
      rw [key_bits _ _ (by omega), key_bits _ _ (by omega)] at hbit
      simpa [h8, show ¬ 24 ≤ i by omega] using hbit
  cases q
  cases q'
  simp_all

end PolarRequest

section

variable {tables : PolarParams → Bool} {l : PolarList}

def PolarSound (tables : PolarParams → Bool) (l : PolarList) : Prop :=
  Pool.Sound PolarRequest.key (fun q => q.build tables) PolarRequest.Narrow l

theorem PolarSound.nrPolarParams {q : PolarRequest} (h : PolarSound tables l) (hq : q.Narrow)
    {x : Nat × Pool.Entry PolarRequest (BitVec 32) PolarParams × PolarList}
    (hx : nrPolarParams tables l q = .ok x) :
    PolarSound tables x.2.2 ∧ x.2.1.request = q ∧ q.build tables = .ok x.2.1.value :=
  Pool.Sound.acquire h (fun _ _ => PolarRequest.key_injective) hq hx

theorem nrPolarParams_isOk {q : PolarRequest} {p : PolarParams} (h : q.build tables = .ok p)
    (l : PolarList) : ∃ x, nrPolarParams tables l q = .ok x :=
  @Pool.acquire_isOk _ _ _ _ _ (fun q : PolarRequest => q.build tables) _ q p h l

theorem PolarSound.step {l' : PolarList} {op : PolarOp} (h : PolarSound tables l) (hop : op.Narrow)
    (hs : polarStep tables l op l') : PolarSound tables l' := by
  cases op with
  | params q =>
    obtain ⟨x, hx, rfl⟩ := hs
    exact (h.nrPolarParams hop hx).1
  | ret n =>
    cases hs
    exact Pool.Sound.release h n

theorem polarSound_of_run {ops : List PolarOp}
    (h : Run (fun l op l' => polarStep tables l op l' ∧ op.Narrow) [] ops l) :
    PolarSound tables l :=
  h.invariant (PolarSound tables) (fun _ hq => absurd hq List.not_mem_nil)
    fun _ _ _ hsound hs => hsound.step hs.2 hs.1

theorem PolarRequest.build_uciPusch {q : PolarRequest} {p : PolarParams}
    (hq : q.messageType = uciPuschMessageType) (h : q.build tables = .ok p) :
    p.payloadBits = q.messageLength.toNat ∧
      p.encoderLength = (q.aggregationLevel.toInt % 2 ^ 16).toNat := by
  have hne : ∀ t, uciPuschMessageType ≠ t → ¬ q.messageType = t := fun t ht hqt => ht (hq ▸ hqt)
  have huci : q.uci = .ok p := by
    unfold build at h
    rw [if_neg (hne _ (by decide)), if_neg (hne _ (by decide)), if_pos (.inr hq)] at h
    dsimp only at h
    split at h
    · cases h
    · next p' hp' =>
      split at h
      · cases h
        exact hp'
      · cases h
  unfold uci at huci
  rw [if_neg (hne uciPucchMessageType (by decide))] at huci
  dsimp only at huci
  repeat' split at huci
  all_goals cases huci
  all_goals exact ⟨rfl, rfl⟩

theorem setWidth_of_lt {E : BitVec 32} (h : E.toNat < 2 ^ 8) : (E.setWidth 8).setWidth 32 = E := by
  apply BitVec.eq_of_toNat_eq
  simp only [BitVec.toNat_setWidth]
  omega

theorem narrow_uci (messageType : BitVec 8) (messageLength : BitVec 16) (E : BitVec 32) :
    PolarRequest.Narrow ⟨messageType, messageLength, (E.setWidth 8).setWidth 32⟩ := by
  simp only [PolarRequest.Narrow, BitVec.toNat_setWidth]
  omega

/-- With aggregation levels of eight bits a call of `nr_polar_params` gets what was built for it,
and the decoding of UCI on PUSCH gets the parameters of its rate-matching length exactly when the
length has eight bits. -/
theorem polar_params_iff (tables : PolarParams → Bool) {ops : List PolarOp} {l : PolarList}
    (hrun : Run (fun l op l' => polarStep tables l op l' ∧ op.Narrow) [] ops l) :
    (∀ q x, q.Narrow → nrPolarParams tables l q = .ok x → x.2.1.request = q) ∧
    ∀ nBits E : BitVec 32, 12 ≤ nBits.toInt → nBits.toInt ≤ 64 → 2 < E.toInt →
      (∃ p, PolarRequest.build ⟨PolarRequest.uciPuschMessageType, nBits.setWidth 16, E⟩ tables =
        .ok p) →
      ((∃ x, uciOnPuschDecodedHelper tables l nBits E = .ok (some x) ∧
        (x.2.1.value.payloadBits : Int) = nBits.toInt ∧
        (x.2.1.value.encoderLength : Int) = E.toInt) ↔ E.toInt < 256) := by
  have hsound := polarSound_of_run hrun
  refine ⟨fun q x hq hx => (hsound.nrPolarParams hq hx).2.1, fun nBits E hmin hmax hE hbuild => ?_⟩
  have hhelper : uciOnPuschDecodedHelper tables l nBits E =
      match polarDecoderInt16 tables l PolarRequest.uciPuschMessageType (nBits.setWidth 16)
        (E.setWidth 8) with
      | .error e => .error e
      | .ok x => .ok (some x) := by
    rw [uciOnPuschDecodedHelper, if_pos (by omega), if_pos hmax]
  have hnarrow := narrow_uci PolarRequest.uciPuschMessageType (nBits.setWidth 16) E
  -- what a call that returns decodes with
  have hvalue : ∀ x, polarDecoderInt16 tables l PolarRequest.uciPuschMessageType (nBits.setWidth 16)
      (E.setWidth 8) = .ok x → (x.2.1.value.payloadBits : Int) = nBits.toInt ∧
        x.2.1.value.encoderLength = E.toNat % 256 := by
    intro x hx
    obtain ⟨-, -, hb⟩ := hsound.nrPolarParams hnarrow hx
    obtain ⟨hpayload, hlength⟩ := PolarRequest.build_uciPusch rfl hb
    rw [hpayload, hlength]
    simp only [BitVec.toNat_setWidth, BitVec.toInt_eq_toNat_cond] at hmin hmax ⊢
    omega
  constructor
  · rintro ⟨x, hx, -, hlength⟩
    rw [hhelper] at hx
    split at hx
    · cases hx
    · next y hy =>
      cases hx
      have h := (hvalue x hy).2
      omega
  · intro hlt
    have hEnat : E.toInt = (E.toNat : Int) := by
      rw [BitVec.toInt_eq_toNat_cond] at hE ⊢
      split at hE <;> simp_all
      omega
    obtain ⟨p, hp⟩ := hbuild
    rw [← setWidth_of_lt (E := E) (by omega)] at hp
    obtain ⟨x, hx⟩ : ∃ x, polarDecoderInt16 tables l PolarRequest.uciPuschMessageType
        (nBits.setWidth 16) (E.setWidth 8) = .ok x := nrPolarParams_isOk hp l
    obtain ⟨hpayload, hlength⟩ := hvalue x hx
    refine ⟨x, by rw [hhelper, hx], hpayload, ?_⟩
    rw [hlength, hEnat]
    omega

theorem polar_params_iff_again :
    ∃ x, uciOnPuschDecodedHelper (fun _ => true)
        [⟨false, 0x4000C64, ⟨4, 12, 100⟩, ⟨10, 0, 0, 3, 0, 1, 12, 100, 6, 3⟩⟩] 12 100 =
          .ok (some x) ∧
      (x.2.1.value.payloadBits : Int) = (12 : BitVec 32).toInt ∧
      (x.2.1.value.encoderLength : Int) = (100 : BitVec 32).toInt :=
  ((polar_params_iff (fun _ => true) (.cons
      (show polarStep (fun _ => true) [] (.params ⟨4, 12, 100⟩) _ ∧
        PolarOp.Narrow (.params ⟨4, 12, 100⟩)
        from ⟨⟨_, rfl, rfl⟩, show PolarRequest.Narrow ⟨4, 12, 100⟩ from by decide⟩)
      (.cons (show polarStep (fun _ => true) _ (.ret 0) _ ∧
        PolarOp.Narrow (.ret 0) from ⟨rfl, trivial⟩)
        .nil))).2 12 100 (by decide) (by decide) (by decide) ⟨_, rfl⟩).mpr (by decide)

/-- A rate-matching length of 300 is decoded as 44, and an aggregation level of 261 changes the
message length in the key. -/
theorem not_forall_polar_params :
    (¬ ∀ (tables : PolarParams → Bool) (ops : List PolarOp) (l : PolarList),
      Run (polarStep tables) [] ops l →
      ∀ nBits E : BitVec 32, 12 ≤ nBits.toInt → nBits.toInt ≤ 64 → 2 < E.toInt →
        (∃ p, PolarRequest.build ⟨PolarRequest.uciPuschMessageType, nBits.setWidth 16, E⟩ tables =
          .ok p) →
        ∃ x, uciOnPuschDecodedHelper tables l nBits E = .ok (some x) ∧
          (x.2.1.value.payloadBits : Int) = nBits.toInt ∧
          (x.2.1.value.encoderLength : Int) = E.toInt) ∧
    ¬ ∀ (tables : PolarParams → Bool) (ops : List PolarOp) (l : PolarList),
      Run (polarStep tables) [] ops l →
        ∀ q x, nrPolarParams tables l q = .ok x → x.2.1.request = q := by
  constructor
  · intro hall
    obtain ⟨x, hx, -, hlength⟩ := hall (fun _ => true) [] [] .nil 12 300 (by decide) (by decide)
      (by decide) ⟨_, rfl⟩
    cases hx
    exact absurd hlength (by decide)
  · intro hall
    have hrun : Run (polarStep fun _ => true) [] [.params ⟨2, 12, 261⟩, .ret 0] _ :=
      .cons ⟨_, rfl, rfl⟩ (.cons rfl .nil)
    have hreq := hall _ _ _ hrun ⟨2, 13, 5⟩ _ rfl
    exact absurd hreq (by decide)

end

end OpenAir.Phy

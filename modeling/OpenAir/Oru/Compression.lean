import OpenAir.Lib.BitReader
import OpenAir.Lib.Loop

namespace OpenAir.Oru

inductive Abort
  | outOfBounds
  | assertFatal
  deriving DecidableEq

abbrev Exec (α : Type) := Except (Fault Abort) α

def assertFatal (p : Prop) [Decidable p] : Exec Unit :=
  if p then .ok () else .error (.assertion .assertFatal)

theorem assertFatal_eq_ok {p : Prop} [Decidable p] (h : p) : assertFatal p = .ok () := if_pos h

def readByte (data : List Byte) (pos : Nat) : Exec Byte :=
  readAt (.assertion .outOfBounds) data pos

/-- `fh_comp_method_t`, and the numbers the wire has that are none of its values. -/
inductive FhCompMethod
  | none
  | bfp
  | blkscale
  | ulaw
  | other (n : Nat)
  deriving DecidableEq

namespace FhCompMethod

def ofNat : Nat → FhCompMethod
  | 0 => none
  | 1 => bfp
  | 2 => blkscale
  | 3 => ulaw
  | n + 4 => other (n + 4)

def paramLen (m : FhCompMethod) : Nat := if m ≠ none then 1 else 0

def Supported (m : FhCompMethod) : Prop := m = bfp ∨ m = blkscale ∨ m = ulaw

instance (m : FhCompMethod) : Decidable m.Supported := inferInstanceAs (Decidable (_ ∨ _ ∨ _))

theorem ofNat_ne_none {n : Nat} (h : n ≠ 0) : ofNat n ≠ none := by
  unfold ofNat
  split
  · exact absurd rfl h
  all_goals simp

theorem supported_ofNat {n : Nat} (hn : ofNat n ≠ none) (hle : n ≤ 3) : (ofNat n).Supported := by
  have h : n = 0 ∨ n = 1 ∨ n = 2 ∨ n = 3 := by omega
  rcases h with rfl | rfl | rfl | rfl
  · exact absurd rfl hn
  · exact .inl rfl
  · exact .inr (.inl rfl)
  · exact .inr (.inr rfl)

end FhCompMethod

def int16 (v : Int) : Int := (BitVec.ofInt 16 v).toInt

def unpackBits (data : List Byte) (stream offset width : Nat) : Exec Int := do
  let bits ← (List.range width).foldlM
    (fun bits i => do
      let b ← readByte data (stream + (offset + i) / 8)
      return 2 * bits + (b.getMsbD ((offset + i) % 8)).toNat) 0
  return if bits.testBit (width - 1) then (bits : Int) - 2 ^ width else bits

theorem unpackBits_eq {data : List Byte} {stream offset width : Nat} (hw : 0 < width)
    (h : 8 * stream + offset + width ≤ 8 * data.length) :
    unpackBits data stream offset width =
      .ok (Bits.signedField data (8 * stream + offset) width) := by
  have hstep : ∀ i < width, (do
      let b ← readByte data (stream + (offset + i) / 8)
      return 2 * Bits.field data (8 * stream + offset) i + (b.getMsbD ((offset + i) % 8)).toNat) =
      (.ok (Bits.field data (8 * stream + offset) (i + 1)) : Exec Nat) := by
    intro i hi
    have hdiv : (8 * stream + offset + i) / 8 = stream + (offset + i) / 8 := by omega
    have hmod : (8 * stream + offset + i) % 8 = (offset + i) % 8 := by omega
    obtain ⟨b, hb, hread⟩ := exists_readAt (Fault.assertion Abort.outOfBounds)
      (show stream + (offset + i) / 8 < data.length by omega)
    rw [readByte, hread, ok_bind, Bits.field_succ (hdiv ▸ hb), hmod]
    rfl
  rw [unpackBits, show (0 : Nat) = Bits.field data (8 * stream + offset) 0 from
    Bits.field_zero.symm, foldlM_range_eq_ok hstep, ok_bind, Bits.signedField_eq hw]
  rfl

def ulawDecode (s : Int) (iqBits : Nat) : Int :=
  let sign : Int := if s < 0 then -1 else 1
  let peak := 2 ^ (iqBits - 1) - 1
  if peak = 0 then 0
  else
    let code := (s.natAbs * 127 / peak) ^^^ 0x7F
    let seg := (code >>> 4) &&& 0x07
    let decoded : Int := (((((code &&& 0x0F) <<< 1) ||| 1) <<< (seg + 2) : Nat) : Int) - 33
    int16 (sign * if decoded < 0 then 0 else decoded)

/-- What a method makes of a value, with the parameter in front of the values.  A shift by 32 or
more, which C leaves undefined, is one of the whole number here. -/
def FhCompMethod.expand (method : FhCompMethod) (iqBits param : Nat) (v : Int) : Int :=
  if method = .ulaw then ulawDecode (int16 v) iqBits else int16 (v * 2 ^ param)

def fhDecompressBlock (method : FhCompMethod) (iqBits nVals : Nat) (data : List Byte) (src : Nat) :
    Exec (List Int) := do
  assertFatal (method ≠ .none)
  assertFatal (1 ≤ iqBits ∧ iqBits ≤ 16)
  assertFatal method.Supported
  let param ← readByte data src
  (List.range nVals).mapM fun i => do
    let v ← unpackBits data (src + 1) (i * iqBits) iqBits
    return method.expand iqBits param.toNat v

theorem fhDecompressBlock_eq {method : FhCompMethod} {iqBits nVals src : Nat} {data : List Byte}
    {param : Byte} (hm : method.Supported) (hw : 1 ≤ iqBits ∧ iqBits ≤ 16)
    (hparam : data[src]? = some param)
    (h : 8 * (src + 1) + nVals * iqBits ≤ 8 * data.length) :
    fhDecompressBlock method iqBits nVals data src = .ok ((List.range nVals).map fun i =>
      method.expand iqBits param.toNat
        (Bits.signedField data (8 * (src + 1) + i * iqBits) iqBits)) := by
  have hne : method ≠ .none := by
    rintro rfl
    simp [FhCompMethod.Supported] at hm
  rw [fhDecompressBlock, assertFatal_eq_ok hne, ok_bind, assertFatal_eq_ok hw, ok_bind,
    assertFatal_eq_ok hm, ok_bind, readByte, readAt_eq_ok hparam, ok_bind]
  refine mapM_eq_ok fun i hi => ?_
  have hi' : (i + 1) * iqBits ≤ nVals * iqBits :=
    Nat.mul_le_mul_right _ (List.mem_range.mp hi)
  rw [Nat.succ_mul] at hi'
  rw [unpackBits_eq (by omega) (by omega), ok_bind]
  rfl

end OpenAir.Oru

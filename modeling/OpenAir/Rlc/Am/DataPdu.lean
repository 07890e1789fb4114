import OpenAir.Rlc.Am.Transmit
import OpenAir.Rlc.PduLaws

namespace OpenAir.Rlc.Am

open Decoder

variable (c : Config)

/-- D/C, P, SI, and reserved bits for 18 bit SNs. -/
def dataHeader (p isFirst isLast : Bool) (sn so : Nat) : List Bool :=
  Bits.ofNat 1 1 ++
    (Bits.ofNat 1 p.toNat ++ (Bits.ofNat 2 (2 * (!isFirst).toNat + (!isLast).toNat) ++
    segmentFields (c.snFieldLength = 18) c.snFieldLength isFirst sn so))

def dataPdu (p isFirst isLast : Bool) (sn so : Nat) (data : List Byte) : List Byte :=
  Bits.pack (dataHeader c p isFirst isLast sn so) ++ data

variable {c} {p isFirst isLast : Bool} {sn so : Nat}

theorem length_dataHeader : (dataHeader c p isFirst isLast sn so).length =
    8 * (2 + (if c.snFieldLength = 18 then 1 else 0) + (if isFirst then 0 else 2)) := by
  rcases c.snFieldLength_eq with h | h <;> cases isFirst <;> simp [dataHeader, segmentFields, h]

theorem decode_dataPdu (p isLast : Bool) (hsn : sn < c.snModulus) (hso : so < 2 ^ 16)
    (hfirst : isFirst ↔ so = 0) (data : List Byte) :
    ∃ d₁ d₂, (Decoder.init (dataPdu c p isFirst isLast sn so data)).getBits 1 = some (1, d₁) ∧
      d₁.getBits 1 = some (p.toNat, d₂) ∧
      decodeDataPdu c d₂ = some (newPdu sn so isFirst isLast data) := by
  have h₀ : (Decoder.init (dataPdu c p isFirst isLast sn so data)).rest =
      dataHeader c p isFirst isLast sn so ++ Bits.unpack data := by
    rw [rest_init, dataPdu, Bits.unpack_append, Bits.unpack_pack _ _ length_dataHeader]
  simp only [dataHeader, List.append_assoc] at h₀
  obtain ⟨d₁, hg₁, h₁, hbit₁⟩ :=
    getBits_of_rest (d := Decoder.init _) (Nat.zero_lt_succ 7) (by decide) h₀
  obtain ⟨d₂, hg₂, h₂, hbit₂⟩ := getBits_of_rest hbit₁ (by cases p <;> decide) h₁
  obtain ⟨d₃, hg₃, h₃, hbit₃⟩ :=
    getBits_of_rest hbit₂ (by cases isFirst <;> cases isLast <;> decide) h₂
  refine ⟨d₁, d₂, hg₁, hg₂, ?_⟩
  unfold decodeDataPdu
  simp only [Option.bind_eq_bind, hg₃, Option.bind_some, si_isFirst, si_isLast,
    decodeSegment_of_rest hbit₃ hsn hso hfirst h₃]

end OpenAir.Rlc.Am

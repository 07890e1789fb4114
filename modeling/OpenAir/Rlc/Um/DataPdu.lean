import OpenAir.Rlc.PduLaws
import OpenAir.Rlc.Um.Receive
import OpenAir.Rlc.Um.Transmit

namespace OpenAir.Rlc.Um

open Decoder Encoder

variable (c : Config)

/-- SI, and reserved bits for 12 bit SNs. -/
def segmentHeader (isFirst isLast : Bool) (sn so : Nat) : List Bool :=
  Bits.ofNat 2 (2 * (!isFirst).toNat + (!isLast).toNat) ++
    segmentFields (c.snFieldLength = 12) c.snFieldLength isFirst sn so

def segmentPdu (isFirst isLast : Bool) (sn so : Nat) (data : List Byte) : List Byte :=
  Bits.pack (segmentHeader c isFirst isLast sn so) ++ data

/-- A PDU with a whole SDU has no SN. -/
def wholePdu (data : List Byte) : List Byte := Bits.pack (Bits.ofNat 2 0 ++ Bits.ofNat 6 0) ++ data

variable {c} {isFirst isLast : Bool} {sn so fuel : Nat} {now : UInt64} {e : Rx} {data : List Byte}

theorem length_segmentHeader : (segmentHeader c isFirst isLast sn so).length =
    8 * (1 + (if c.snFieldLength = 12 then 1 else 0) + (if isFirst then 0 else 2)) := by
  rcases c.snFieldLength_eq with h | h <;> cases isFirst <;> simp [segmentHeader, segmentFields, h]

theorem segmentPdu_ne_nil : segmentPdu c isFirst isLast sn so data ≠ [] := by
  intro h
  have := congrArg List.length h
  rw [segmentPdu, List.length_append, Bits.length_pack _ _ length_segmentHeader] at this
  simp only [List.length_nil] at this
  omega

theorem wholePdu_eq (data : List Byte) : wholePdu data = 0 :: data := rfl

theorem recvPdu_wholePdu (hdata : data ≠ []) :
    e.recvPdu c fuel now (wholePdu data) = some (e, [{ sn := none, sdu := data }]) := by
  have h₀ : (Decoder.init (wholePdu data)).rest =
      Bits.ofNat 2 0 ++ (Bits.ofNat 6 0 ++ Bits.unpack data) := by
    rw [rest_init, wholePdu, Bits.unpack_append, Bits.unpack_pack 1 _ (by simp),
      List.append_assoc]
  obtain ⟨d, hsi, -⟩ :=
    getBits_of_rest (d := Decoder.init _) (Nat.zero_lt_succ 7) (by decide) h₀
  have hlen : ¬ (wholePdu data).length < 2 := by
    have := List.length_pos_iff.mpr hdata
    rw [wholePdu_eq, List.length_cons]
    omega
  unfold Rx.recvPdu
  rw [hsi]
  dsimp only
  rw [if_neg hlen]
  rfl

theorem recvPdu_segmentPdu (hsn : sn < c.snModulus) (hso : so < 2 ^ 16)
    (hfirst : isFirst ↔ so = 0) (hpart : (isFirst && isLast) = false) :
    e.recvPdu c fuel now (segmentPdu c isFirst isLast sn so data) =
      if e.accepts c (newPdu sn so isFirst isLast data) then
        e.store c fuel now (newPdu sn so isFirst isLast data)
      else some (e, []) := by
  have h₀ : (Decoder.init (segmentPdu c isFirst isLast sn so data)).rest =
      segmentHeader c isFirst isLast sn so ++ Bits.unpack data := by
    rw [rest_init, segmentPdu, Bits.unpack_append, Bits.unpack_pack _ _ length_segmentHeader]
  rw [segmentHeader, List.append_assoc] at h₀
  obtain ⟨d, hg, h, hbit⟩ := getBits_of_rest (d := Decoder.init _) (Nat.zero_lt_succ 7)
    (by cases isFirst <;> cases isLast <;> decide) h₀
  unfold Rx.recvPdu
  rw [hg]
  simp only [si_isFirst, si_isLast, hpart, Bool.false_eq_true, if_false,
    decodeSegment_of_rest hbit hsn hso hfirst h]

namespace Tx

theorem serializeHeader_whole (e : Tx) (s : Segment) {size : Nat} (hf : s.isFirst)
    (hl : s.isLast) (hsize : computePduHeaderSize c s ≤ size) :
    e.serializeHeader c s size =
      some { bits := Bits.ofNat 2 0 ++ Bits.ofNat 6 0, size := size } := by
  have hsize : 1 ≤ size := by simp [computePduHeaderSize, hf, hl] at hsize; exact hsize
  unfold serializeHeader
  have h₁ : (Encoder.init size).putBits 0 1 = _ :=
    putBits_eq 0 1 (by simp [Encoder.init]; omega)
  simp only [hf, hl, Option.bind_eq_bind, Bool.toNat_true, Nat.sub_self, h₁, Option.bind_some,
    Bool.and_self, if_true]
  rw [putBits_eq _ 1 (by simp [Encoder.init]; omega), Option.bind_some,
    putBits_eq _ 6 (by simp [Encoder.init]; omega), Option.bind_some]
  rfl

theorem serializeHeader_segment (e : Tx) (s : Segment) {size : Nat}
    (hpart : (s.isFirst && s.isLast) = false) (hsize : computePduHeaderSize c s ≤ size) :
    e.serializeHeader c s size =
      some { bits := segmentHeader c s.isFirst s.isLast (e.snOf s) s.so, size := size } := by
  unfold computePduHeaderSize at hsize
  rw [hpart] at hsize
  unfold serializeHeader segmentHeader segmentFields
  have h₁ : (Encoder.init size).putBits (1 - s.isFirst.toNat) 1 = _ :=
    putBits_eq _ 1 (by simp [Encoder.init]; omega)
  simp only [Option.bind_eq_bind, h₁, Option.bind_some, hpart, Bool.false_eq_true, if_false]
  rw [putBits_eq _ 1 (by simp [Encoder.init]; omega), Option.bind_some, si_bits]
  rcases c.snFieldLength_eq with h | h
  · rw [if_neg (by omega), Option.bind_some,
      putBits_eq _ _ (by simp [Encoder.init, h] at hsize ⊢; omega), Option.bind_some]
    cases hf : s.isFirst
    · rw [if_neg (by simp), putBits_eq _ _ (by simp [Encoder.init, h, hf] at hsize ⊢; omega)]
      simp [h, Encoder.init]
    · simp [h, Encoder.init]
  · rw [if_pos h, putBits_eq _ _ (by simp [Encoder.init, h] at hsize ⊢; omega),
      Option.bind_some, putBits_eq _ _ (by simp [Encoder.init, h] at hsize ⊢; omega),
      Option.bind_some]
    cases hf : s.isFirst
    · rw [if_neg (by simp), putBits_eq _ _ (by simp [Encoder.init, h, hf] at hsize ⊢; omega)]
      simp [h, Encoder.init]
    · simp [h, Encoder.init]

def dataOf (e : Tx) (s : Segment) : List Byte := ((e.heap.sdu s.sdu).data.drop s.so).take s.size

theorem serializeSdu_eq (e : Tx) (s : Segment) {size : Nat}
    (hsize : computePduHeaderSize c s ≤ size) :
    e.serializeSdu c s size = some (if s.isFirst && s.isLast then wholePdu (e.dataOf s)
      else segmentPdu c s.isFirst s.isLast (e.snOf s) s.so (e.dataOf s)) := by
  unfold serializeSdu
  cases hwhole : s.isFirst && s.isLast with
  | true =>
    obtain ⟨hf, hl⟩ := Bool.and_eq_true_iff.mp hwhole
    rw [serializeHeader_whole e s hf hl hsize]
    rfl
  | false =>
    rw [serializeHeader_segment e s hwhole hsize]
    rfl

end Tx

end OpenAir.Rlc.Um

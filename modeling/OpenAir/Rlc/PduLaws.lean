import OpenAir.Rlc.Pdu

namespace OpenAir.Rlc

open List

namespace Decoder

def rest (d : Decoder) : List Bool := (Bits.unpack d.buffer).drop (8 * d.byte + d.bit)

theorem rest_init (buffer : List Byte) : (init buffer).rest = Bits.unpack buffer := rfl

variable {d d' : Decoder}

theorem rest_cons_of_getBit {b : Bool} (hbit : d.bit < 8) (h : d.getBit = some (b, d')) :
    d.rest = b :: d'.rest ∧ d'.bit < 8 := by
  unfold getBit at h
  split at h
  · cases h
  · next x hx =>
    have hget := Bits.getElem?_unpack hx hbit
    obtain ⟨hlt, hval⟩ := List.getElem?_eq_some_iff.mp hget
    simp only [Option.some.injEq, Prod.mk.injEq] at h
    obtain ⟨rfl, rfl⟩ := h
    have hpos : ∀ n, 8 * d.byte + d.bit + 1 = n →
        d.rest = x.getMsbD d.bit :: (Bits.unpack d.buffer).drop n := by
      rintro n rfl
      rw [rest, drop_eq_getElem_cons hlt, hval]
    split
    · exact ⟨hpos _ (by simp; omega), by simp⟩
    · exact ⟨hpos _ (by simp; omega), by simp; omega⟩

theorem getBit_of_rest {b : Bool} {bs : List Bool} (hbit : d.bit < 8) (h : d.rest = b :: bs) :
    ∃ d', d.getBit = some (b, d') := by
  cases hg : d.getBit with
  | some r =>
    obtain ⟨b', d'⟩ := r
    have := (rest_cons_of_getBit hbit hg).1
    rw [h] at this
    cases this
    exact ⟨d', rfl⟩
  | none =>
    unfold getBit at hg
    split at hg
    · next hx =>
      have hlen : d.buffer.length ≤ d.byte := by simpa using hx
      have : d.rest.length = 0 := by rw [rest, length_drop, Bits.length_unpack]; omega
      rw [h] at this
      simp at this
    · cases hg

theorem getBitsFrom_of_rest (bs tail : List Bool) (ret : Nat) (hbit : d.bit < 8)
    (h : d.rest = bs ++ tail) :
    ∃ d', d.getBitsFrom ret bs.length = some (ret * 2 ^ bs.length + Bits.toNat bs, d') ∧
      d'.rest = tail ∧ d'.bit < 8 := by
  induction bs generalizing d ret with
  | nil => exact ⟨d, by simp [getBitsFrom], by simpa using h, hbit⟩
  | cons b bs ih =>
    obtain ⟨d₁, hd₁⟩ := getBit_of_rest hbit h
    obtain ⟨hr, hbit₁⟩ := rest_cons_of_getBit hbit hd₁
    have hr₁ : d₁.rest = bs ++ tail := by
      rw [h, cons_append] at hr
      exact (List.cons.inj hr).2.symm
    obtain ⟨d', he, hrest, hbit'⟩ := ih (2 * ret + b.toNat) hbit₁ hr₁
    refine ⟨d', ?_, hrest, hbit'⟩
    rw [length_cons, getBitsFrom, hd₁]
    simp only [he, Bits.toNat_cons, Option.some.injEq, Prod.mk.injEq, and_true]
    ring

variable {n v : Nat}

theorem getBits_of_rest {tail : List Bool} (hbit : d.bit < 8) (hv : v < 2 ^ n)
    (h : d.rest = Bits.ofNat n v ++ tail) :
    ∃ d', d.getBits n = some (v, d') ∧ d'.rest = tail ∧ d'.bit < 8 := by
  obtain ⟨d', he, h'⟩ := getBitsFrom_of_rest (Bits.ofNat n v) tail 0 hbit h
  rw [Bits.length_ofNat] at he
  rw [Bits.toNat_ofNat_of_lt hv, Nat.zero_mul, Nat.zero_add] at he
  exact ⟨d', he, h'⟩

theorem getBitsFrom_lt {ret : Nat} (h : d.getBitsFrom ret n = some (v, d')) :
    v < (ret + 1) * 2 ^ n := by
  induction n generalizing d ret with
  | zero =>
    simp only [getBitsFrom, Option.some.injEq, Prod.mk.injEq] at h
    omega
  | succ n ih =>
    rw [getBitsFrom] at h
    split at h
    · cases h
    · next b d₁ _ =>
      have := ih h
      have hb : 2 * ret + b.toNat + 1 ≤ 2 * (ret + 1) := by
        have := b.toNat_le
        omega
      calc v < (2 * ret + b.toNat + 1) * 2 ^ n := this
        _ ≤ 2 * (ret + 1) * 2 ^ n := Nat.mul_le_mul_right _ hb
        _ = (ret + 1) * 2 ^ (n + 1) := by ring

theorem getBits_lt (h : d.getBits n = some (v, d')) : v < 2 ^ n := by
  simpa using getBitsFrom_lt h

theorem rest_of_getBitsFrom {ret : Nat} (hbit : d.bit < 8)
    (h : d.getBitsFrom ret n = some (v, d')) :
    ∃ bs : List Bool, bs.length = n ∧ v = ret * 2 ^ n + Bits.toNat bs ∧ d.rest = bs ++ d'.rest ∧
      d'.bit < 8 := by
  induction n generalizing d ret with
  | zero =>
    simp only [getBitsFrom, Option.some.injEq, Prod.mk.injEq] at h
    obtain ⟨rfl, rfl⟩ := h
    exact ⟨[], rfl, by simp, rfl, hbit⟩
  | succ n ih =>
    rw [getBitsFrom] at h
    split at h
    · cases h
    · next b d₁ hd₁ =>
      obtain ⟨hr, hbit₁⟩ := rest_cons_of_getBit hbit hd₁
      obtain ⟨bs, hlen, hv, hrest, hbit'⟩ := ih hbit₁ h
      refine ⟨b :: bs, by simp [hlen], ?_, by rw [hr, hrest, cons_append], hbit'⟩
      rw [hv, Bits.toNat_cons, hlen]
      ring

theorem rest_of_getBits (hbit : d.bit < 8) (h : d.getBits n = some (v, d')) :
    v < 2 ^ n ∧ d.rest = Bits.ofNat n v ++ d'.rest ∧ d'.bit < 8 := by
  obtain ⟨bs, hlen, hv, hrest, hbit'⟩ := rest_of_getBitsFrom hbit h
  rw [Nat.zero_mul, Nat.zero_add] at hv
  have hbs : Bits.ofNat n v = bs := by rw [hv, ← hlen, Bits.ofNat_toNat]
  exact ⟨getBits_lt h, by rw [hbs, hrest], hbit'⟩

theorem drop_of_rest {data : List Byte} (hbit : d.bit < 8) (h : d.rest = Bits.unpack data) :
    d.buffer.drop d.byte = data := by
  have hlen := congrArg List.length h
  rw [rest, length_drop, Bits.length_unpack, Bits.length_unpack] at hlen
  by_cases hend : d.buffer.length ≤ d.byte
  · rw [drop_eq_nil_of_le hend, length_eq_zero_iff.mp (by omega : data.length = 0)]
  · have hzero : d.bit = 0 := by omega
    rw [rest, hzero, Nat.add_zero, ← Bits.unpack_drop] at h
    exact Bits.unpack_injective h

end Decoder

namespace Encoder

theorem putBitList_eq {e : Encoder} (bs : List Bool) (h : e.bits.length + bs.length ≤ 8 * e.size) :
    e.putBitList bs = some { e with bits := e.bits ++ bs } := by
  induction bs generalizing e with
  | nil => simp [putBitList]
  | cons b bs ih =>
    rw [length_cons] at h
    have hb : e.byte ≠ e.size := by unfold byte; omega
    rw [putBitList, putBit, if_neg hb, Option.bind_some, ih (by simp; omega)]
    simp

theorem putBits_eq {e : Encoder} (value count : Nat) (h : e.bits.length + count ≤ 8 * e.size) :
    e.putBits value count = some { e with bits := e.bits ++ Bits.ofNat count value } :=
  putBitList_eq _ (by simpa using h)

end Encoder

section

variable {isFirst isLast : Bool}

theorem si_isFirst : decide ((2 * (!isFirst).toNat + (!isLast).toNat) &&& 2 = 0) = isFirst := by
  cases isFirst <;> cases isLast <;> rfl

theorem si_isLast : decide ((2 * (!isFirst).toNat + (!isLast).toNat) &&& 1 = 0) = isLast := by
  cases isFirst <;> cases isLast <;> rfl

theorem si_bits (isFirst isLast : Bool) :
    Bits.ofNat 2 (2 * (!isFirst).toNat + (!isLast).toNat) =
      Bits.ofNat 1 (1 - isFirst.toNat) ++ Bits.ofNat 1 (1 - isLast.toNat) := by
  cases isFirst <;> cases isLast <;> rfl

/-- Two reserved bits, SN, and SO except in a first segment. -/
def segmentFields (reserved : Bool) (snFieldLength : Nat) (isFirst : Bool) (sn so : Nat) :
    List Bool :=
  (if reserved then Bits.ofNat 2 0 else []) ++
    (Bits.ofNat snFieldLength sn ++ if isFirst then [] else Bits.ofNat 16 so)

variable {d : Decoder} {reserved : Bool} {snFieldLength : Nat}

theorem decodeSegment_of_rest {sn so : Nat} {data : List Byte} (hbit : d.bit < 8)
    (hsn : sn < 2 ^ snFieldLength) (hso : so < 2 ^ 16) (hfirst : isFirst ↔ so = 0)
    (h : d.rest = segmentFields reserved snFieldLength isFirst sn so ++ Bits.unpack data) :
    decodeSegment reserved snFieldLength isFirst isLast d =
      some (newPdu sn so isFirst isLast data) := by
  rw [segmentFields, append_assoc, append_assoc] at h
  obtain ⟨d₁, hg₁, h₁, hbit₁⟩ : ∃ d₁,
      (if reserved then d.getBits 2 else some (0, d)) = some (0, d₁) ∧
        d₁.rest = Bits.ofNat snFieldLength sn ++
          ((if isFirst then [] else Bits.ofNat 16 so) ++ Bits.unpack data) ∧ d₁.bit < 8 := by
    cases reserved with
    | true => exact Decoder.getBits_of_rest hbit (by decide) h
    | false => exact ⟨d, rfl, h, hbit⟩
  obtain ⟨d₂, hg₂, h₂, hbit₂⟩ := Decoder.getBits_of_rest hbit₁ hsn h₁
  unfold decodeSegment
  cases isFirst with
  | true =>
    obtain rfl := hfirst.mp rfl
    simp [hg₁, hg₂, Decoder.drop_of_rest hbit₂ h₂]
  | false =>
    have hne : so ≠ 0 := fun h0 => by simpa using hfirst.mpr h0
    obtain ⟨d₃, hg₃, h₃, hbit₃⟩ := Decoder.getBits_of_rest hbit₂ hso h₂
    simp [hg₁, hg₂, hg₃, hne, Decoder.drop_of_rest hbit₃ h₃]

theorem of_decodeSegment {pdu : Pdu}
    (h : decodeSegment reserved snFieldLength isFirst isLast d = some pdu) :
    ∃ sn so data, pdu = newPdu sn so isFirst isLast data ∧ sn < 2 ^ snFieldLength ∧ so < 2 ^ 16 ∧
      (isFirst ↔ so = 0) := by
  unfold decodeSegment at h
  obtain ⟨⟨_, d₁⟩, -, h⟩ := Option.bind_eq_some_iff.mp h
  obtain ⟨⟨sn, d₂⟩, hsn, h⟩ := Option.bind_eq_some_iff.mp h
  obtain ⟨⟨so, d₃⟩, hso, h⟩ := Option.bind_eq_some_iff.mp h
  dsimp only at h
  split at h
  · cases h
  · next hbad =>
    cases h
    cases isFirst with
    | true =>
      cases hso
      exact ⟨sn, 0, _, rfl, Decoder.getBits_lt hsn, by decide, by simp⟩
    | false =>
      exact ⟨sn, so, _, rfl, Decoder.getBits_lt hsn, Decoder.getBits_lt hso, by simpa using hbad⟩

end

end OpenAir.Rlc

import Mathlib.Data.List.ModifyLast
import OpenAir.Rlc.Am.Control
import OpenAir.Rlc.Am.Status
import OpenAir.Rlc.PduLaws

namespace OpenAir

open List

namespace Bits

theorem ofNat_mod (n v : Nat) : ofNat n (v % 2 ^ n) = ofNat n v := by
  have h : ∀ k ≤ n, ofNat k (v % 2 ^ n) = ofNat k v := by
    intro k hk
    induction k with
    | zero => rfl
    | succ k ih =>
      rw [ofNat, ofNat, ih (by omega), Nat.testBit_mod_two_pow, decide_eq_true (by omega),
        Bool.true_and]
  exact h n le_rfl

theorem ofNat_add (m n v : Nat) : ofNat (m + n) v = ofNat m (v / 2 ^ n) ++ ofNat n v := by
  induction m with
  | zero => simp [ofNat]
  | succ m ih =>
    rw [show m + 1 + n = m + n + 1 by omega, ofNat, ofNat, ih, Nat.testBit_div_two_pow,
      cons_append, Nat.add_comm m n]

end Bits

namespace Rlc

namespace Encoder

variable {e : Encoder} {p b q : List Bool} {i : Nat}

theorem setByte_eq (h : e.bits = p ++ (b ++ q)) (hpre : p.length = 8 * i)
    (hb : b.length = 8) (v : Nat) :
    e.setByte i v = { e with bits := p ++ (Bits.ofNat 8 v ++ q) } := by
  rw [setByte, h, ← hpre, ← hb, drop_append, drop_append, take_left' rfl]
  simp

theorem orByte_eq (h : e.bits = p ++ (b ++ q)) (hpre : p.length = 8 * i)
    (hb : b.length = 8) (v : Nat) :
    e.orByte i v =
      { e with bits := p ++ (List.zipWith (· || ·) b (Bits.ofNat 8 v) ++ q) } := by
  rw [orByte, h, ← hpre, drop_append, take_left' rfl]
  simp [← hb]

end Encoder

namespace Am

open Decoder Encoder

namespace Config

def nackReserved (c : Config) : Nat := if c.snFieldLength = 18 then 3 else 1

def ackReserved (c : Config) : Nat := if c.snFieldLength = 18 then 1 else 7

end Config

variable (c : Config)

structure NackField where
  sn : Nat
  so : Option (Nat × Nat)
  range : Option Nat

namespace NackField

def bits (e1 : Bool) (n : NackField) : List Bool :=
  Bits.ofNat c.snFieldLength n.sn ++ (Bits.ofNat 1 e1.toNat ++ (Bits.ofNat 1 n.so.isSome.toNat ++
    (Bits.ofNat 1 n.range.isSome.toNat ++ (Bits.ofNat (if c.snFieldLength = 18 then 3 else 1) 0 ++
      (n.so.elim [] (fun s => Bits.ofNat 16 s.1 ++ Bits.ofNat 16 s.2) ++
        n.range.elim [] (Bits.ofNat 8))))))

def spelled (n : NackField) (e1 : Bool) (reserved : Nat) : List Bool :=
  Bits.ofNat c.snFieldLength n.sn ++ (Bits.ofNat 1 e1.toNat ++ (Bits.ofNat 1 n.so.isSome.toNat ++
    (Bits.ofNat 1 n.range.isSome.toNat ++ (Bits.ofNat c.nackReserved reserved ++
      (n.so.elim [] (fun s => Bits.ofNat 16 s.1 ++ Bits.ofNat 16 s.2) ++
        n.range.elim [] (Bits.ofNat 8))))))

def size (n : NackField) : Nat :=
  2 + (if c.snFieldLength = 18 then 1 else 0) + (if n.so.isSome then 4 else 0) +
    (if n.range.isSome then 1 else 0)

structure Wf (n : NackField) : Prop where
  sn : n.sn < c.snModulus
  so : ∀ s t, n.so = some (s, t) → s < 2 ^ 16 ∧ t < 2 ^ 16
  range : ∀ r, n.range = some r → r < 2 ^ 8

def toNack (n : NackField) : Nack :=
  { nackSn := n.sn
    soStart := n.so.elim 0 (·.1)
    soEnd := n.so.elim none (soEndOf ·.2)
    range := n.range.getD 1 }

end NackField

def statusHeader (ackSn : Nat) (e1 : Bool) : List Bool :=
  Bits.ofNat 1 0 ++ (Bits.ofNat 3 0 ++ (Bits.ofNat c.snFieldLength ackSn ++
    (Bits.ofNat 1 e1.toNat ++ Bits.ofNat (if c.snFieldLength = 18 then 1 else 7) 0)))

def nackBits : List NackField → List Bool
  | [] => []
  | n :: ns => n.bits c (!ns.isEmpty) ++ nackBits ns

def statusBits (ackSn : Nat) (ns : List NackField) : List Bool :=
  statusHeader c ackSn (!ns.isEmpty) ++ nackBits c ns

def statusPdu (ackSn : Nat) (ns : List NackField) : List Byte := Bits.pack (statusBits c ackSn ns)

variable {c} {n : NackField} {ns : List NackField} {d : Decoder} {tail : List Bool}

theorem NackField.length_bits (e1 : Bool) : (n.bits c e1).length = 8 * n.size c := by
  obtain ⟨sn, so, range⟩ := n
  rcases c.snFieldLength_eq with h | h <;> rcases so with _ | ⟨s, t⟩ <;> cases range <;>
    simp [bits, size, h]

theorem length_nackBits : (nackBits c ns).length = 8 * (ns.map (·.size c)).sum := by
  induction ns with
  | nil => rfl
  | cons n ns ih =>
    rw [nackBits, length_append, ih, NackField.length_bits, map_cons, sum_cons,
      Nat.mul_add]

theorem length_le_sum_size (ns : List NackField) : ns.length ≤ (ns.map (·.size c)).sum := by
  induction ns with
  | nil => simp
  | cons n ns ih =>
    rw [length_cons, map_cons, sum_cons, NackField.size]
    omega

theorem length_statusHeader (ackSn : Nat) (e1 : Bool) : (statusHeader c ackSn e1).length = 24 := by
  rcases c.snFieldLength_eq with h | h <;> simp [statusHeader, h]

theorem length_statusBits (ackSn : Nat) :
    (statusBits c ackSn ns).length = 8 * (3 + (ns.map (·.size c)).sum) := by
  rw [statusBits, length_append, length_statusHeader, length_nackBits]
  omega

theorem toNat_lt_two (b : Bool) : b.toNat < 2 ^ 1 := by cases b <;> decide

theorem decodeNack_of_spelled {e1 : Bool} {reserved : Nat} (hn : n.Wf c)
    (hr : reserved < 2 ^ c.nackReserved) (hbit : d.bit < 8)
    (h : d.rest = n.spelled c e1 reserved ++ tail) :
    ∃ d', decodeNack c d = some (n.toNack, e1, d') ∧ d'.rest = tail ∧ d'.bit < 8 := by
  obtain ⟨sn, so, range⟩ := n
  simp only [NackField.spelled, append_assoc] at h
  obtain ⟨d₁, hg₁, h₁, hb₁⟩ := getBits_of_rest hbit hn.sn h
  obtain ⟨d₂, hg₂, h₂, hb₂⟩ := getBits_of_rest hb₁ (toNat_lt_two e1) h₁
  obtain ⟨d₃, hg₃, h₃, hb₃⟩ := getBits_of_rest hb₂ (toNat_lt_two so.isSome) h₂
  obtain ⟨d₄, hg₄, h₄, hb₄⟩ := getBits_of_rest hb₃ (toNat_lt_two range.isSome) h₃
  obtain ⟨d₅, hg₅, h₅, hb₅⟩ := getBits_of_rest hb₄ hr h₄
  unfold Config.nackReserved at hg₅
  -- the SO fields, then the range
  rcases so with _ | ⟨soStart, soEnd⟩
  · cases range with
    | none =>
      refine ⟨d₅, ?_, h₅, hb₅⟩
      simp [decodeNack, hg₁, hg₂, hg₃, hg₄, hg₅, NackField.toNack, soEndOf]
    | some r =>
      obtain ⟨d₆, hg₆, h₆, hb₆⟩ := getBits_of_rest hb₅ (hn.range r rfl) h₅
      refine ⟨d₆, ?_, h₆, hb₆⟩
      simp [decodeNack, hg₁, hg₂, hg₃, hg₄, hg₅, hg₆, NackField.toNack, soEndOf]
  · obtain ⟨hs, he⟩ := hn.so soStart soEnd rfl
    simp only [Option.elim_some, append_assoc] at h₅
    obtain ⟨d₆, hg₆, h₆, hb₆⟩ := getBits_of_rest hb₅ hs h₅
    obtain ⟨d₇, hg₇, h₇, hb₇⟩ := getBits_of_rest hb₆ he h₆
    cases range with
    | none =>
      refine ⟨d₇, ?_, h₇, hb₇⟩
      simp [decodeNack, hg₁, hg₂, hg₃, hg₄, hg₅, hg₆, hg₇, NackField.toNack]
    | some r =>
      obtain ⟨d₈, hg₈, h₈, hb₈⟩ := getBits_of_rest hb₇ (hn.range r rfl) h₇
      refine ⟨d₈, ?_, h₈, hb₈⟩
      simp [decodeNack, hg₁, hg₂, hg₃, hg₄, hg₅, hg₆, hg₇, hg₈, NackField.toNack]

theorem decodeNack_of_rest {e1 : Bool} (hn : n.Wf c) (hbit : d.bit < 8)
    (h : d.rest = n.bits c e1 ++ tail) :
    ∃ d', decodeNack c d = some (n.toNack, e1, d') ∧ d'.rest = tail ∧ d'.bit < 8 :=
  decodeNack_of_spelled hn (Nat.two_pow_pos _) hbit h

theorem decodeNacks_of_rest {fuel : Nat} (hns : ∀ n ∈ ns, n.Wf c) (hfuel : ns.length ≤ fuel)
    (hbit : d.bit < 8) (h : d.rest = nackBits c ns) :
    decodeNacks c fuel (!ns.isEmpty) d = some (ns.map NackField.toNack) := by
  induction ns generalizing fuel d with
  | nil => cases fuel <;> rfl
  | cons n ns ih =>
    cases fuel with
    | zero => simp at hfuel
    | succ fuel =>
      obtain ⟨d', hg, h', hb'⟩ := decodeNack_of_rest (hns n (by simp)) hbit h
      have hrec := ih (fun m hm => hns m (by simp [hm])) (by simpa using hfuel) hb' h'
      change decodeNacks c (fuel + 1) true d = _
      simp [decodeNacks, hg, hrec]

theorem decodeControl_statusPdu {ackSn : Nat} (hack : ackSn < c.snModulus)
    (hns : ∀ n ∈ ns, n.Wf c) :
    decodeControl c (statusPdu c ackSn ns) = some (ackSn, ns.map NackField.toNack) := by
  have h₀ : (Decoder.init (statusPdu c ackSn ns)).rest = statusBits c ackSn ns := by
    rw [rest_init, statusPdu, Bits.unpack_pack _ _ (length_statusBits ackSn)]
  simp only [statusBits, statusHeader, append_assoc] at h₀
  have hbool : ∀ b : Bool, b.toNat < 2 ^ 1 := by decide
  obtain ⟨d₁, hg₁, h₁, hb₁⟩ :=
    getBits_of_rest (d := Decoder.init _) (Nat.zero_lt_succ 7) (by decide) h₀
  obtain ⟨d₂, hg₂, h₂, hb₂⟩ := getBits_of_rest hb₁ (by decide) h₁
  obtain ⟨d₃, hg₃, h₃, hb₃⟩ := getBits_of_rest hb₂ hack h₂
  obtain ⟨d₄, hg₄, h₄, hb₄⟩ := getBits_of_rest hb₃ (hbool (!ns.isEmpty)) h₃
  obtain ⟨d₅, hg₅, h₅, hb₅⟩ := getBits_of_rest hb₄ (Nat.two_pow_pos _) h₄
  have hlen : ns.length ≤ 8 * (statusPdu c ackSn ns).length := by
    rw [statusPdu, Bits.length_pack _ _ (length_statusBits ackSn)]
    have := length_le_sum_size (c := c) ns
    omega
  have he1 : decide ((!ns.isEmpty).toNat = 1) = !ns.isEmpty := by cases ns.isEmpty <;> rfl
  unfold decodeControl
  simp only [Option.bind_eq_bind, hg₁, hg₂, Option.bind_some, ne_eq, not_true_eq_false, if_false,
    hg₃, hg₄, hg₅, he1, decodeNacks_of_rest hns hlen hb₅ h₅]
  rfl

def NackField.patch (n : NackField) : NackField := { n with so := n.so.map fun s => (s.1, 0xffff) }

variable (c) in
def statusOpen (ackSn : Nat) (ns : List NackField) : List Bool :=
  statusHeader c ackSn true ++ ns.flatMap (·.bits c true)

theorem isEmpty_append_singleton : (ns ++ [n]).isEmpty = false := by cases ns <;> rfl

theorem nackBits_append_singleton :
    nackBits c (ns ++ [n]) = ns.flatMap (·.bits c true) ++ n.bits c false := by
  induction ns with
  | nil => simp [nackBits]
  | cons m ns ih => simp [nackBits, ih, isEmpty_append_singleton]

theorem statusBits_append_singleton (ackSn : Nat) :
    statusBits c ackSn (ns ++ [n]) = statusOpen c ackSn ns ++ n.bits c false := by
  rw [statusBits, nackBits_append_singleton, statusOpen, append_assoc,
    isEmpty_append_singleton]
  rfl

theorem length_statusOpen (ackSn : Nat) :
    (statusOpen c ackSn ns).length = 8 * (3 + (ns.map (·.size c)).sum) := by
  have h : (statusBits c ackSn (ns ++ [⟨0, none, none⟩])).length = _ := length_statusBits ackSn
  rw [statusBits_append_singleton, length_append, NackField.length_bits, map_append,
    sum_append, map_singleton, sum_singleton] at h
  omega

theorem ofNat_toNat_bool (b : Bool) : Bits.ofNat 1 b.toNat = [b] := by cases b <;> rfl

theorem NackField.bits_e1 (n : NackField) : ∃ pre b post, n.bits c false = pre ++ (b ++ post) ∧
    pre.length = 8 * (if c.snFieldLength = 18 then 2 else 1) ∧ b.length = 8 ∧
    n.bits c true = pre ++ (List.zipWith (· || ·) b
      (Bits.ofNat 8 (1 <<< if c.snFieldLength = 18 then 5 else 3)) ++ post) := by
  simp only [bits, ofNat_toNat_bool]
  rcases c.snFieldLength_eq with h | h
  · have h₃ : Bits.ofNat 8 (1 <<< 3) = [false, false, false, false, true, false, false, false] := by
      decide
    simp only [h, Nat.reduceEqDiff, if_false, h₃]
    exact ⟨[_, _, _, _, _, _, _, _], [_, _, _, _, false, n.so.isSome, n.range.isSome, false], _,
      rfl, rfl, rfl, by simp [Bits.ofNat]⟩
  · have h₅ : Bits.ofNat 8 (1 <<< 5) = [false, false, true, false, false, false, false, false] := by
      decide
    simp only [h, if_true, h₅]
    exact ⟨[_, _, _, _, _, _, _, _, _, _, _, _, _, _, _, _],
      [_, _, false, n.so.isSome, n.range.isSome, false, false, false], _, rfl, rfl, rfl,
      by simp [Bits.ofNat]⟩

theorem NackField.bits_soEnd (n : NackField) (hso : n.so.isSome) (e1 : Bool) :
    ∃ pre b b' post, n.bits c e1 = pre ++ (b ++ (b' ++ post)) ∧
      pre.length = 8 * (if c.snFieldLength = 18 then 5 else 4) ∧ b.length = 8 ∧ b'.length = 8 ∧
      n.patch.bits c e1 = pre ++ (Bits.ofNat 8 0xff ++ (Bits.ofNat 8 0xff ++ post)) := by
  obtain ⟨sn, so, range⟩ := n
  obtain ⟨⟨soStart, soEnd⟩, rfl⟩ := Option.isSome_iff_exists.mp hso
  refine ⟨Bits.ofNat c.snFieldLength sn ++ (Bits.ofNat 1 e1.toNat ++ (Bits.ofNat 1 1 ++
    (Bits.ofNat 1 range.isSome.toNat ++ (Bits.ofNat (if c.snFieldLength = 18 then 3 else 1) 0 ++
      Bits.ofNat 16 soStart)))), Bits.ofNat 8 (soEnd / 2 ^ 8), Bits.ofNat 8 soEnd,
    range.elim [] (Bits.ofNat 8), ?_, ?_, by simp, by simp, ?_⟩
  · have hend : Bits.ofNat 16 soEnd = Bits.ofNat 8 (soEnd / 2 ^ 8) ++ Bits.ofNat 8 soEnd :=
      Bits.ofNat_add 8 8 soEnd
    simp [bits, hend]
  · rcases c.snFieldLength_eq with h | h <;> simp [h]
  · have hend : Bits.ofNat 16 0xffff = Bits.ofNat 8 0xff ++ Bits.ofNat 8 0xff := by decide
    simp [bits, patch, hend]

structure StatusEncoder.Writes (c : Config) (w : StatusEncoder) (ns : List NackField) : Prop where
  bits : w.encoder.bits = statusBits c 0 ns
  opens : (w.encoder.orByte w.e1Byte (1 <<< w.e1Bit)).bits = statusOpen c 0 ns
  unpatched : w.soEndAddress = none → ns.modifyLast NackField.patch = ns
  patched : ∀ a, w.soEndAddress = some a →
    ((w.encoder.setByte a 0xff).setByte (a + 1) 0xff).bits =
      statusBits c 0 (ns.modifyLast NackField.patch)

def NackBlock.field (n : NackBlock) (count : Nat) : NackField :=
  { sn := n.snStart
    so := if n.hasSo then some (n.soStart % 2 ^ 16, n.soEnd % 2 ^ 16) else none
    range := if n.hasRange then some count else none }

theorem NackBlock.size_field (n : NackBlock) (count : Nat) : (n.field count).size c = n.size c := by
  unfold NackField.size NackBlock.size field
  cases n.hasSo <;> cases n.hasRange <;> rfl

theorem NackBlock.bits_field (n : NackBlock) (count : Nat) (e1 : Bool) :
    (n.field count).bits c e1 = Bits.ofNat c.snFieldLength n.snStart ++ (Bits.ofNat 1 e1.toNat ++
      (Bits.ofNat 1 n.hasSo.toNat ++ (Bits.ofNat 1 n.hasRange.toNat ++
        (Bits.ofNat (if c.snFieldLength = 18 then 3 else 1) 0 ++
          ((if n.hasSo then Bits.ofNat 16 n.soStart ++ Bits.ofNat 16 n.soEnd else []) ++
            if n.hasRange then Bits.ofNat 8 count else []))))) := by
  have h₁ := Bits.ofNat_mod 16 n.soStart
  have h₂ := Bits.ofNat_mod 16 n.soEnd
  unfold NackField.bits field
  cases n.hasSo <;> cases n.hasRange <;> simp_all

namespace StatusEncoder

variable {w w' : StatusEncoder}

theorem Writes.byte (h : w.Writes c ns) : w.encoder.byte = 3 + (ns.map (·.size c)).sum := by
  rw [Encoder.byte, h.bits, length_statusBits]
  omega

theorem writes_of_bits (h : w.encoder.bits = statusBits c 0 (ns ++ [n]))
    (he₁ : w.e1Byte = 3 + (ns.map (·.size c)).sum + if c.snFieldLength = 18 then 2 else 1)
    (he₂ : w.e1Bit = if c.snFieldLength = 18 then 5 else 3)
    (hso : w.soEndAddress = if n.so.isSome then some (3 + (ns.map (·.size c)).sum +
      if c.snFieldLength = 18 then 5 else 4) else none) : w.Writes c (ns ++ [n]) := by
  have hlen : (statusOpen c 0 ns).length = _ := length_statusOpen 0
  rw [statusBits_append_singleton] at h
  refine ⟨h.trans (statusBits_append_singleton 0).symm, ?_, fun hnone => ?_, fun a ha => ?_⟩
  · obtain ⟨pre, b, post, hb, hpre, hb8, hb'⟩ := n.bits_e1 (c := c)
    rw [hb, ← append_assoc] at h
    rw [orByte_eq h (by rw [length_append, hlen, hpre, he₁]; omega) hb8, he₂]
    simp only [statusOpen, flatMap_append, flatMap_singleton, hb', append_assoc]
  · have : n.so = none := by
      rw [hso] at hnone
      cases hs : n.so with
      | none => rfl
      | some x => simp [hs] at hnone
    rw [modifyLast_concat, NackField.patch, this, Option.map_none]
    rw [← this]
  · have hsome : n.so.isSome := by
      rw [hso] at ha
      split at ha
      · assumption
      · cases ha
    rw [hso, if_pos hsome] at ha
    cases ha
    obtain ⟨pre, b, b', post, hb, hpre, hb8, hb8', hpatch⟩ := n.bits_soEnd (c := c) hsome false
    rw [hb, ← append_assoc] at h
    have hset := setByte_eq h (i := 3 + (ns.map (·.size c)).sum +
      if c.snFieldLength = 18 then 5 else 4) (by rw [length_append, hlen, hpre]; omega) hb8 0xff
    rw [hset, setByte_eq (p := statusOpen c 0 ns ++ pre ++ Bits.ofNat 8 0xff) (b := b')
      (q := post) (by simp) (by simp only [length_append, hlen, hpre, Bits.length_ofNat]; omega)
      hb8', modifyLast_concat, statusBits_append_singleton, hpatch]
    simp

theorem putNack_eq {m : NackBlock} {count : Nat} {enc : Encoder}
    (henc : w.encoder.orByte w.e1Byte (1 <<< w.e1Bit) = enc)
    (hfit : enc.bits.length + 8 * m.size c ≤ 8 * enc.size) :
    w.putNack c m count = some
      { encoder := { enc with bits := enc.bits ++ (m.field count).bits c false }
        e1Byte := enc.byte + if c.snFieldLength = 18 then 2 else 1
        e1Bit := if c.snFieldLength = 18 then 5 else 3
        soEndAddress := if m.hasSo then
            some ((enc.bits.length + 8 * if c.snFieldLength = 18 then 5 else 4) / 8)
          else none } := by
  have hsize : 8 * m.size c = c.snFieldLength + 1 + 1 + 1 +
      (if c.snFieldLength = 18 then 3 else 1) + (if m.hasSo then 16 + 16 else 0) +
      (if m.hasRange then 8 else 0) := by
    unfold NackBlock.size
    rcases c.snFieldLength_eq with h | h <;> simp only [h] <;> cases m.hasSo <;>
      cases m.hasRange <;> rfl
  have haddr : 8 * (if c.snFieldLength = 18 then 5 else 4) =
      c.snFieldLength + 1 + 1 + 1 + (if c.snFieldLength = 18 then 3 else 1) + 16 := by
    rcases c.snFieldLength_eq with h | h <;> simp [h]
  rw [hsize] at hfit
  unfold putNack
  rw [henc, NackBlock.bits_field]
  simp only [Option.bind_eq_bind]
  rw [putBits_eq _ _ (by omega), Option.bind_some,
    putBits_eq _ _ (by simp only [length_append, Bits.length_ofNat]; omega),
    Option.bind_some,
    putBits_eq _ _ (by simp only [length_append, Bits.length_ofNat]; omega),
    Option.bind_some,
    putBits_eq _ _ (by simp only [length_append, Bits.length_ofNat]; omega),
    Option.bind_some,
    putBits_eq _ _ (by simp only [length_append, Bits.length_ofNat]; omega),
    Option.bind_some]
  cases hso : m.hasSo with
  | false =>
    simp only [Bool.false_eq_true, if_false, Option.bind_some]
    cases hr : m.hasRange with
    | false => simp
    | true =>
      simp only [hso, hr, if_true] at hfit ⊢
      rw [putBits_eq _ _ (by simp only [length_append, Bits.length_ofNat]; omega)]
      simp
  | true =>
    simp only [hso, if_true] at hfit ⊢
    rw [putBits_eq _ _ (by simp only [length_append, Bits.length_ofNat]; omega),
      Option.bind_some,
      putBits_eq _ _ (by simp only [length_append, Bits.length_ofNat]; omega),
      Option.bind_some]
    cases hr : m.hasRange with
    | false =>
      simp [Encoder.byte, haddr, Nat.add_assoc]
      omega
    | true =>
      simp only [hr, if_true] at hfit ⊢
      simp only [Option.pure_def, Option.bind_some]
      rw [putBits_eq _ _ (by simp only [length_append, Bits.length_ofNat]; omega)]
      simp [Encoder.byte, haddr, Nat.add_assoc]
      omega

theorem Writes.putNack {m : NackBlock} (h : w.Writes c ns) (count : Nat)
    (hfit : w.encoder.byte + m.size c ≤ w.encoder.size) :
    ∃ w', w.putNack c m count = some w' ∧ w'.Writes c (ns ++ [m.field count]) ∧
      w'.encoder.size = w.encoder.size := by
  have hopen := h.opens
  have hlen : (w.encoder.orByte w.e1Byte (1 <<< w.e1Bit)).bits.length =
      8 * (3 + (ns.map (·.size c)).sum) := by rw [hopen, length_statusOpen]
  have hbyte := h.byte
  refine ⟨_, putNack_eq rfl ?_, writes_of_bits ?_ ?_ rfl ?_, rfl⟩
  · change _ ≤ 8 * w.encoder.size
    omega
  · rw [statusBits_append_singleton, ← hopen]
  · rw [Encoder.byte, hlen]
    simp
  · rw [hlen, NackBlock.field]
    cases m.hasSo with
    | false => rfl
    | true =>
      simp only [if_true, Option.isSome_some, Option.some.injEq]
      omega

theorem writes_nil (size : Nat) :
    (⟨⟨Bits.ofNat (8 * 3) 0, size⟩, 2, if c.snFieldLength = 18 then 1 else 7, none⟩ :
      StatusEncoder).Writes c [] := by
  refine ⟨?_, ?_, fun _ => rfl, fun a ha => by cases ha⟩
  · rcases c.snFieldLength_eq with h | h <;> simp only [statusBits, statusHeader, h] <;> rfl
  · rcases c.snFieldLength_eq with h | h <;> simp only [statusOpen, statusHeader, h] <;> rfl

end StatusEncoder

theorem ofNat_eight_of_lt {v : Nat} (hv : v < 2 ^ 4) :
    Bits.ofNat 8 v = Bits.ofNat 1 0 ++ (Bits.ofNat 3 0 ++ Bits.ofNat 4 v) := by
  rw [Bits.ofNat_add 4 4 v, Nat.div_eq_of_lt hv]
  rfl

theorem putAck_bits {enc : Encoder} {ackSn : Nat} (h : enc.bits = statusBits c 0 ns)
    (hack : ackSn < c.snModulus) : (Rx.putAck c ackSn enc).bits = statusBits c ackSn ns := by
  unfold Rx.putAck
  rw [Config.snModulus] at hack
  rcases c.snFieldLength_eq with hc | hc
  · rw [hc] at hack
    obtain ⟨post, hpost⟩ : ∃ post, ∀ a, statusBits c a ns =
        Bits.ofNat 1 0 ++ (Bits.ofNat 3 0 ++ (Bits.ofNat 12 a ++ post)) :=
      ⟨_, fun a => by simp only [statusBits, statusHeader, hc, append_assoc]; rfl⟩
    have hbits : enc.bits = [] ++ (Bits.ofNat 8 0 ++ (Bits.ofNat 8 0 ++ post)) := by
      rw [h, hpost]
      rfl
    rw [if_pos hc, setByte_eq hbits rfl rfl,
      setByte_eq (p := Bits.ofNat 8 (ackSn / 256)) (b := Bits.ofNat 8 0) rfl rfl rfl, hpost,
      Bits.ofNat_add 4 8 ackSn]
    have hmod := Bits.ofNat_mod 8 ackSn
    simp only [Nat.reducePow] at hmod ⊢
    rw [hmod, ofNat_eight_of_lt (by omega)]
    simp
  · rw [hc] at hack
    obtain ⟨e1, post, hpost⟩ : ∃ e1 post, ∀ a, statusBits c a ns =
        Bits.ofNat 1 0 ++ (Bits.ofNat 3 0 ++ (Bits.ofNat 18 a ++ (e1 :: false :: post))) := by
      refine ⟨!ns.isEmpty, nackBits c ns, fun a => ?_⟩
      simp only [statusBits, statusHeader, hc, append_assoc, ofNat_toNat_bool]
      rfl
    have hbits : enc.bits = [] ++ (Bits.ofNat 8 0 ++ (Bits.ofNat 8 0 ++
        ([false, false, false, false, false, false, e1, false] ++ post))) := by
      rw [h, hpost]
      rfl
    rw [if_neg (by omega), setByte_eq hbits rfl rfl,
      setByte_eq (p := Bits.ofNat 8 (ackSn / 2 ^ 14)) (b := Bits.ofNat 8 0) rfl rfl rfl,
      orByte_eq (p := Bits.ofNat 8 (ackSn / 2 ^ 14) ++ Bits.ofNat 8 (ackSn / 2 ^ 6 % 256))
        (b := [false, false, false, false, false, false, e1, false]) (q := post)
        (by simp only [append_assoc]) rfl rfl, hpost,
      Bits.ofNat_add 4 14 ackSn, Bits.ofNat_add 8 6 ackSn, Bits.ofNat_add 6 2 (ackSn % 64 * 4)]
    have hmod := Bits.ofNat_mod 8 (ackSn / 2 ^ 6)
    have hlow := Bits.ofNat_mod 6 ackSn
    have hzero : Bits.ofNat 2 (ackSn % 64 * 4) = [false, false] := by
      rw [← Bits.ofNat_mod, show ackSn % 64 * 4 % 2 ^ 2 = 0 by omega]
      rfl
    simp only [Nat.reducePow] at hmod hlow hzero ⊢
    rw [hmod, hzero, ofNat_eight_of_lt (by omega), Nat.mul_div_cancel _ (by decide), hlow]
    simp [Bits.ofNat]

end Am

end Rlc

end OpenAir

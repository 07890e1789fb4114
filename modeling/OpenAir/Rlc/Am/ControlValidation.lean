import Mathlib.Data.List.Chain
import OpenAir.Rlc.Am.StatusPdu
import OpenAir.Rlc.Am.Step

namespace OpenAir.Rlc.Am

open Decoder

variable {c : Config} {n : NackField} {ns : List NackField} {d : Decoder} {tail : List Bool}
  {e1 : Bool} {reserved : Nat}

inductive Spells (c : Config) : Bool → List NackField → List Bool → Prop
  | done (tail : List Bool) : Spells c false [] tail
  | nack {n : NackField} {ns : List NackField} {e1 : Bool} {tail : List Bool} {reserved : Nat}
      (hn : n.Wf c) (hr : reserved < 2 ^ c.nackReserved) (h : Spells c e1 ns tail) :
      Spells c true (n :: ns) (n.spelled c e1 reserved ++ tail)

def Carries (c : Config) (buffer : List Byte) (ackSn : Nat) (ns : List NackField) : Prop :=
  ∃ (dc e1 : Bool) (reserved : Nat) (tail : List Bool),
    ackSn < c.snModulus ∧ reserved < 2 ^ c.ackReserved ∧ Spells c e1 ns tail ∧
    Bits.unpack buffer = Bits.ofNat 1 dc.toNat ++ (Bits.ofNat 3 0 ++
      (Bits.ofNat c.snFieldLength ackSn ++ (Bits.ofNat 1 e1.toNat ++
        (Bits.ofNat c.ackReserved reserved ++ tail))))

theorem toNat_eq_one (b : Bool) : decide (b.toNat = 1) = b := by cases b <;> rfl

theorem exists_bool_of_lt {v : Nat} (hv : v < 2 ^ 1) : ∃ b : Bool, v = b.toNat :=
  ⟨decide (v = 1), by rcases (show v = 0 ∨ v = 1 by omega) with rfl | rfl <;> rfl⟩

variable {d' : Decoder}

theorem so_of_getBits {b : Bool} {s t : Nat} (hbit : d.bit < 8)
    (h : (if b.toNat = 1 then (d.getBits 16).bind fun x => (x.2.getBits 16).bind fun y => pure
      (x.1, y.1, y.2) else some (0, 65535, d)) = some (s, t, d')) :
    ∃ so : Option (Nat × Nat), so.isSome = b ∧ (∀ s t, so = some (s, t) → s < 2 ^ 16 ∧ t < 2 ^ 16) ∧
      s = so.elim 0 (·.1) ∧ soEndOf t = so.elim none (soEndOf ·.2) ∧ d'.bit < 8 ∧
      d.rest = so.elim [] (fun s => Bits.ofNat 16 s.1 ++ Bits.ofNat 16 s.2) ++ d'.rest := by
  cases b with
  | false =>
    rw [if_neg (by decide)] at h
    cases h
    exact ⟨none, rfl, by simp, rfl, rfl, hbit, rfl⟩
  | true =>
    rw [if_pos (by decide)] at h
    simp only [Option.bind_eq_some_iff, Prod.exists] at h
    obtain ⟨u, d₁, hu, v, d₂, hv, h⟩ := h
    cases h
    obtain ⟨hlt, h₁, hb₁⟩ := rest_of_getBits hbit hu
    obtain ⟨hlt', h₂, hb₂⟩ := rest_of_getBits hb₁ hv
    refine ⟨some (s, t), rfl, ?_, rfl, rfl, hb₂, ?_⟩
    · intro s' t' heq
      cases heq
      exact ⟨hlt, hlt'⟩
    · rw [h₁, h₂, Option.elim_some, List.append_assoc]

theorem range_of_getBits {b : Bool} {k : Nat} (hbit : d.bit < 8)
    (h : (if b.toNat = 1 then d.getBits 8 else some (1, d)) = some (k, d')) :
    ∃ range : Option Nat, range.isSome = b ∧ (∀ r, range = some r → r < 2 ^ 8) ∧
      k = range.getD 1 ∧ d'.bit < 8 ∧ d.rest = range.elim [] (Bits.ofNat 8) ++ d'.rest := by
  cases b with
  | false =>
    rw [if_neg (by decide)] at h
    cases h
    exact ⟨none, rfl, by simp, rfl, hbit, rfl⟩
  | true =>
    rw [if_pos (by decide)] at h
    obtain ⟨hlt, h₁, hb₁⟩ := rest_of_getBits hbit h
    refine ⟨some k, rfl, ?_, rfl, hb₁, h₁⟩
    intro r heq
    cases heq
    exact hlt

theorem spelled_of_decodeNack {m : Nack} (hbit : d.bit < 8)
    (h : decodeNack c d = some (m, e1, d')) :
    ∃ (n : NackField) (reserved : Nat), n.Wf c ∧ reserved < 2 ^ c.nackReserved ∧ n.toNack = m ∧
      d.rest = n.spelled c e1 reserved ++ d'.rest ∧ d'.bit < 8 := by
  simp only [decodeNack, Option.bind_eq_bind, Option.bind_eq_some_iff, Prod.exists] at h
  obtain ⟨sn, d₁, hg₁, v₁, d₂, hg₂, v₂, d₃, hg₃, v₃, d₄, hg₄, r, d₅, hg₅, s, t, d₆, hso, k, d₇, hk,
    h⟩ := h
  obtain ⟨hsn, h₁, hb₁⟩ := rest_of_getBits hbit hg₁
  obtain ⟨hv₁, h₂, hb₂⟩ := rest_of_getBits hb₁ hg₂
  obtain ⟨hv₂, h₃, hb₃⟩ := rest_of_getBits hb₂ hg₃
  obtain ⟨hv₃, h₄, hb₄⟩ := rest_of_getBits hb₃ hg₄
  obtain ⟨hr, h₅, hb₅⟩ := rest_of_getBits hb₄ hg₅
  obtain ⟨b₁, rfl⟩ := exists_bool_of_lt hv₁
  obtain ⟨b₂, rfl⟩ := exists_bool_of_lt hv₂
  obtain ⟨b₃, rfl⟩ := exists_bool_of_lt hv₃
  obtain ⟨so, hsome, hsolt, hs, ht, hb₆, h₆⟩ := so_of_getBits hb₅ hso
  obtain ⟨range, hsome', hrange, hcount, hb₇, h₇⟩ := range_of_getBits hb₆ hk
  rw [toNat_eq_one] at h
  cases h
  refine ⟨⟨sn, so, range⟩, r, ⟨hsn, hsolt, hrange⟩, hr, ?_, ?_, hb₇⟩
  · simp only [NackField.toNack, hs, ht, hcount]
  · rw [h₁, h₂, h₃, h₄, h₅, h₆, h₇, NackField.spelled, Config.nackReserved, hsome, hsome']
    simp only [List.append_assoc]

theorem Spells.decodeNacks {fuel : Nat} (h : Spells c e1 ns tail) (hfuel : ns.length ≤ fuel)
    (hbit : d.bit < 8) (hrest : d.rest = tail) :
    decodeNacks c fuel e1 d = some (ns.map NackField.toNack) := by
  induction h generalizing fuel d with
  | done tail => cases fuel <;> rfl
  | nack hn hr h ih =>
    cases fuel with
    | zero => simp at hfuel
    | succ fuel =>
      obtain ⟨d', hg, h', hb'⟩ := decodeNack_of_spelled hn hr hbit hrest
      have hrec := ih (by simpa using hfuel) hb' h'
      simp [Am.decodeNacks, hg, hrec]

theorem spells_of_decodeNacks {fuel : Nat} {ms : List Nack} (hbit : d.bit < 8)
    (h : decodeNacks c fuel e1 d = some ms) :
    ∃ ns, Spells c e1 ns d.rest ∧ ns.map NackField.toNack = ms := by
  induction fuel generalizing d e1 ms with
  | zero =>
    cases e1 with
    | false =>
      cases h
      exact ⟨[], .done _, rfl⟩
    | true => cases h
  | succ fuel ih =>
    cases e1 with
    | false =>
      cases h
      exact ⟨[], .done _, rfl⟩
    | true =>
      simp only [decodeNacks, Option.bind_eq_bind, Option.bind_eq_some_iff, Prod.exists] at h
      obtain ⟨m, e1, d', hg, ms, hrec, h⟩ := h
      cases h
      obtain ⟨n, reserved, hn, hr, rfl, hrest, hbit'⟩ := spelled_of_decodeNack hbit hg
      obtain ⟨ns, hns, rfl⟩ := ih hbit' hrec
      exact ⟨n :: ns, hrest ▸ .nack hn hr hns, rfl⟩

theorem Spells.length_le (h : Spells c e1 ns tail) : ns.length ≤ tail.length := by
  induction h with
  | done tail => simp
  | nack hn hr h ih =>
    simp only [NackField.spelled, List.length_append, List.length_cons, Bits.length_ofNat]
    omega

theorem decodeControl_eq_some_iff {buffer : List Byte} {ackSn : Nat} {ms : List Nack} :
    decodeControl c buffer = some (ackSn, ms) ↔
      ∃ ns, Carries c buffer ackSn ns ∧ ns.map NackField.toNack = ms := by
  have hb₀ : (Decoder.init buffer).bit < 8 := Nat.zero_lt_succ 7
  constructor
  · intro h
    simp only [decodeControl, Option.bind_eq_bind, Option.bind_eq_some_iff, Prod.exists] at h
    obtain ⟨v₁, d₁, hg₁, cpt, d₂, hg₂, a, d₃, hg₃, v₂, d₄, hg₄, r, d₅, hg₅, ms, hrec, h⟩ := h
    cases h
    split at hg₃
    · cases hg₃
    · next hcpt =>
      obtain rfl := not_not.mp hcpt
      obtain ⟨hv₁, h₁, hb₁⟩ := rest_of_getBits hb₀ hg₁
      obtain ⟨-, h₂, hb₂⟩ := rest_of_getBits hb₁ hg₂
      obtain ⟨hack, h₃, hb₃⟩ := rest_of_getBits hb₂ hg₃
      obtain ⟨hv₂, h₄, hb₄⟩ := rest_of_getBits hb₃ hg₄
      obtain ⟨hr, h₅, hb₅⟩ := rest_of_getBits hb₄ hg₅
      obtain ⟨dc, rfl⟩ := exists_bool_of_lt hv₁
      obtain ⟨e1, rfl⟩ := exists_bool_of_lt hv₂
      rw [toNat_eq_one] at hrec
      obtain ⟨ns, hns, rfl⟩ := spells_of_decodeNacks hb₅ hrec
      refine ⟨ns, ⟨dc, e1, r, d₅.rest, hack, hr, hns, ?_⟩, rfl⟩
      rw [← rest_init, h₁, h₂, h₃, h₄, h₅, Config.ackReserved]
  · rintro ⟨ns, ⟨dc, e1, r, tail, hack, hr, hns, hbits⟩, rfl⟩
    rw [← rest_init] at hbits
    obtain ⟨d₁, hg₁, h₁, hb₁⟩ := getBits_of_rest hb₀ (toNat_lt_two dc) hbits
    obtain ⟨d₂, hg₂, h₂, hb₂⟩ := getBits_of_rest hb₁ (by decide) h₁
    obtain ⟨d₃, hg₃, h₃, hb₃⟩ := getBits_of_rest hb₂ hack h₂
    obtain ⟨d₄, hg₄, h₄, hb₄⟩ := getBits_of_rest hb₃ (toNat_lt_two e1) h₃
    obtain ⟨d₅, hg₅, h₅, hb₅⟩ := getBits_of_rest hb₄ hr h₄
    have hlen : ns.length ≤ 8 * buffer.length := by
      have htail := congrArg List.length hbits
      rw [rest_init, Bits.length_unpack] at htail
      simp only [List.length_append] at htail
      have := hns.length_le
      omega
    unfold Config.ackReserved at hg₅
    unfold decodeControl
    simp only [Option.bind_eq_bind, hg₁, hg₂, Option.bind_some, ne_eq, not_true_eq_false, if_false,
      hg₃, hg₄, hg₅, toNat_eq_one, hns.decodeNacks hlen hb₅ h₅]
    rfl

namespace Tx

variable {e : Tx} {buffer : List Byte} {ackSn : Nat}

def nackAfter (c : Config) (e : Tx) (p n : SnNack) : Prop :=
  e.modulusTx c p.sn < e.modulusTx c n.sn ∨
    (e.modulusTx c p.sn = e.modulusTx c n.sn ∧ p.soEnd.any (· < n.soStart) = true)

instance : DecidableRel (e.nackAfter c) := fun _ _ => inferInstanceAs (Decidable (_ ∨ _))

def nacksOf (c : Config) (ns : List NackField) : List SnNack :=
  (ns.map NackField.toNack).flatMap (Nack.sns c)

structure Bounded (c : Config) (e : Tx) (buffer : List Byte) (ackSn : Nat) (ns : List NackField) :
    Prop where
  carries : Carries c buffer ackSn ns
  ack : e.modulusTx c ackSn ≤ e.modulusTx c e.txNext
  before : ∀ n ∈ nacksOf c ns, e.modulusTx c n.sn ≤ e.modulusTx c ackSn

structure Valid (c : Config) (e : Tx) (buffer : List Byte) (ackSn : Nat) (ns : List NackField) :
    Prop extends e.Bounded c buffer ackSn ns where
  ordered : (nacksOf c ns).IsChain (e.nackAfter c)

structure Validates (c : Config) (e : Tx) (buffer : List Byte) : Prop where
  rejected : (¬ ∃ ackSn ns, e.Valid c buffer ackSn ns) →
    e.validateControl c buffer = none ∧ e.processControlPdu c buffer = (e, [])
  processed : ∀ ackSn ns, e.Valid c buffer ackSn ns →
    e.validateControl c buffer = some (ackSn, ns.map NackField.toNack) ∧
      e.processControlPdu c buffer =
        (finishControl c (e.merge c ackSn (ns.map NackField.toNack)) ackSn,
          (e.merge c ackSn (ns.map NackField.toNack)).events)

variable {ms : List Nack}

theorem validateControl_eq_some_iff :
    e.validateControl c buffer = some (ackSn, ms) ↔
      ∃ ns, e.Bounded c buffer ackSn ns ∧ ns.map NackField.toNack = ms := by
  have hbad (n : SnNack) :
      e.badNack c ackSn none n = false ↔ e.modulusTx c n.sn ≤ e.modulusTx c ackSn := by
    have hle : ¬ e.snCompareTx c n.sn ackSn > 0 ↔ e.modulusTx c n.sn ≤ e.modulusTx c ackSn := by
      unfold snCompareTx
      omega
    rw [badNack, Bool.false_or, decide_eq_false_iff_not, hle]
  have hnacks (ms : List Nack) : (ms.flatMap (Nack.sns c)).any (e.badNack c ackSn none) = false ↔
      ∀ n ∈ ms.flatMap (Nack.sns c), e.modulusTx c n.sn ≤ e.modulusTx c ackSn := by
    simp only [List.any_eq_false, Bool.not_eq_true, hbad]
  constructor
  · intro h
    unfold validateControl at h
    split at h
    · cases h
    · next a ms' hd =>
      split at h
      · cases h
      · next hack =>
        split at h
        · cases h
        · next hany =>
          cases h
          obtain ⟨ns, hcarries, rfl⟩ := decodeControl_eq_some_iff.mp hd
          refine ⟨ns, ⟨hcarries, ?_, (hnacks _).mp (Bool.eq_false_iff.mpr hany)⟩, rfl⟩
          unfold snCompareTx at hack
          omega
  · rintro ⟨ns, h, rfl⟩
    have hd := decodeControl_eq_some_iff.mpr ⟨ns, h.carries, rfl⟩
    have hack : ¬ e.snCompareTx c ackSn e.txNext > 0 := by
      have := h.ack
      unfold snCompareTx
      omega
    simp only [validateControl, hd, if_neg hack, (hnacks _).mpr h.before, Bool.false_eq_true,
      if_false]

theorem Validates.ordered (h : e.Validates c buffer)
    (hv : e.validateControl c buffer = some (ackSn, ms)) :
    (ms.flatMap (Nack.sns c)).IsChain (e.nackAfter c) := by
  by_contra hbad
  have hnone : ¬ ∃ ackSn ns, e.Valid c buffer ackSn ns := by
    rintro ⟨a, ns, hvalid⟩
    have hv' := validateControl_eq_some_iff.mpr ⟨ns, hvalid.toBounded, rfl⟩
    rw [hv] at hv'
    cases hv'
    exact hbad hvalid.ordered
  rw [(h.rejected hnone).1] at hv
  cases hv

theorem processControlPdu_of_none (h : e.validateControl c buffer = none) :
    e.processControlPdu c buffer = (e, []) := by
  rw [processControlPdu, h]

theorem processControlPdu_of_some (h : e.validateControl c buffer = some (ackSn, ms)) :
    e.processControlPdu c buffer =
      (finishControl c (e.merge c ackSn ms) ackSn, (e.merge c ackSn ms).events) := by
  rw [processControlPdu, h]

/-- The validation pass is right about a PDU exactly if its NACKs are in order or something else is
wrong with it. -/
theorem validates_iff (c : Config) (e : Tx) (buffer : List Byte) : e.Validates c buffer ↔
    ∀ ackSn ns, e.Bounded c buffer ackSn ns → (nacksOf c ns).IsChain (e.nackAfter c) := by
  constructor
  · intro h ackSn ns hb
    exact h.ordered (validateControl_eq_some_iff.mpr ⟨ns, hb, rfl⟩)
  · intro h
    refine ⟨fun hnone => ?_, fun ackSn ns hvalid => ?_⟩
    · have hreject : e.validateControl c buffer = none := by
        rw [Option.eq_none_iff_forall_ne_some]
        rintro ⟨ackSn, ms⟩ hv
        obtain ⟨ns, hb, -⟩ := validateControl_eq_some_iff.mp hv
        exact hnone ⟨ackSn, ns, hb, h ackSn ns hb⟩
      exact ⟨hreject, processControlPdu_of_none hreject⟩
    · have hv := validateControl_eq_some_iff.mpr ⟨ns, hvalid.toBounded, rfl⟩
      exact ⟨hv, processControlPdu_of_some hv⟩

end Tx

/-- Two SDUs are sent, and a control PDU comes with a NACK of the second one and then a NACK of the
first one. -/
theorem not_forall_validates : ¬ ∀ (c : Config) (e : Entity), Reachable c e →
    ∀ buffer : List Byte, e.tx.Validates c buffer := by
  intro hall
  have hobs : (execAll .unitTest 5 (fun _ _ => true) (Entity.new .unitTest)
      [.recvSdu [7] 0, .recvSdu [8] 1, .generatePdu 10, .generatePdu 10]).map (fun r =>
        (r.1.tx.validateControl .unitTest [0x00, 0x02, 0x80, 0x00, 0x18, 0x00, 0x00],
          decide ([⟨1, 0, none⟩, ⟨0, 0, none⟩].IsChain (r.1.tx.nackAfter .unitTest)))) =
      some (some (2, [⟨1, 0, none, 1⟩, ⟨0, 0, none, 1⟩]), false) := by decide
  obtain ⟨e, ls, hreach, heq⟩ := exists_reachable hobs
  obtain ⟨hv, horder⟩ := Prod.mk.inj heq
  exact of_decide_eq_false horder ((hall .unitTest e hreach _).ordered hv)

end OpenAir.Rlc.Am

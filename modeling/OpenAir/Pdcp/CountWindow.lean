import OpenAir.Lib.Cyclic
import OpenAir.Pdcp.Count
import OpenAir.Pdcp.ReceiveLaws

namespace OpenAir.Pdcp

variable {c : Config} {e : Entity} {sn : Nat}

namespace Entity

def SnBehind (c : Config) (e : Entity) (sn : Nat) : Prop :=
  c.windowSize ≤ Cyclic.dist (2 ^ c.snSize) (e.rxDeliv.toNat % 2 ^ c.snSize) sn

structure Reconstructs (c : Config) (e : Entity) (sn : Nat) : Prop where
  mod : (e.rcvdCount c sn).toNat % 2 ^ c.snSize = sn
  ge : (e.rxDeliv.toNat : Int) - c.windowSize ≤ (e.rcvdCount c sn).toNat
  lt : (e.rcvdCount c sn).toNat < e.rxDeliv.toNat + c.windowSize
  old : e.SnBehind c sn → ∀ (sec : Security) (pdu : List Byte),
    rcvdSn c (setDcBit c pdu) = sn → e.recvPdu sec c pdu = (e, [])

/-- The HFN before that of `rx_deliv` is taken only if there is one, and the one after it only if it
does not leave the 32 bits of a COUNT. -/
def HfnFits (c : Config) (e : Entity) (sn : Nat) : Prop :=
  (e.rxDeliv.toNat % 2 ^ c.snSize + c.windowSize ≤ sn → 0 < e.rxDeliv.toNat / 2 ^ c.snSize) ∧
    (sn + c.windowSize < e.rxDeliv.toNat % 2 ^ c.snSize →
      e.rxDeliv.toNat / 2 ^ c.snSize + 1 < 2 ^ (32 - c.snSize))

theorem hfnOf_near (d : Nat) (hsn : sn < 2 ^ c.snSize) :
    (d : Int) - c.windowSize ≤ hfnOf c d sn * 2 ^ c.snSize + sn ∧
      hfnOf c d sn * 2 ^ c.snSize + sn < d + c.windowSize := by
  unfold hfnOf
  unfold Config.windowSize
  rcases c.snSize_eq with h | h <;> rw [h] at hsn ⊢ <;> norm_num at hsn ⊢ <;> split_ifs <;> omega

theorem hfnFits_iff : e.HfnFits c sn ↔
    0 ≤ hfnOf c e.rxDeliv.toNat sn ∧ hfnOf c e.rxDeliv.toNat sn < 2 ^ (32 - c.snSize) := by
  have hlt := e.rxDeliv.toNat_lt
  unfold HfnFits hfnOf
  unfold Config.windowSize
  rcases c.snSize_eq with h | h <;> rw [h] <;> norm_num <;> split_ifs <;> omega

theorem near_iff_hfnFits (hsn : sn < 2 ^ c.snSize) :
    (e.rxDeliv.toNat : Int) - c.windowSize ≤ (e.rcvdCount c sn).toNat ∧
      (e.rcvdCount c sn).toNat < e.rxDeliv.toNat + c.windowSize ↔ e.HfnFits c sn := by
  have hnear := hfnOf_near (c := c) e.rxDeliv.toNat hsn
  have hcount := toNat_rcvdCount (e := e) hsn
  have hlt := e.rxDeliv.toNat_lt
  rw [hfnFits_iff]
  unfold Config.windowSize at hnear ⊢
  rcases c.snSize_eq with h | h <;> rw [h] at hsn hnear hcount ⊢ <;>
    norm_num at hsn hnear hcount ⊢ <;>
    omega

theorem lt_rxDeliv_of_snBehind (hold : e.SnBehind c sn)
    (hmod : (e.rcvdCount c sn).toNat % 2 ^ c.snSize = sn)
    (hlt : (e.rcvdCount c sn).toNat < e.rxDeliv.toNat + c.windowSize) :
    e.rcvdCount c sn < e.rxDeliv := by
  rw [UInt32.lt_iff_toNat_lt]
  by_contra hge
  have htwo := c.two_windowSize
  have hdist := Cyclic.dist_mod (M := 2 ^ c.snSize) (show e.rxDeliv.toNat ≤ _ from by omega)
    (show (e.rcvdCount c sn).toNat < e.rxDeliv.toNat + 2 ^ c.snSize by omega)
  rw [hmod] at hdist
  unfold SnBehind at hold
  omega

theorem decode_count {sec : Security} {pdu : List Byte} {s : Sdu}
    (h : e.decode sec c pdu = some s) : s.count = e.rcvdCount c (rcvdSn c (setDcBit c pdu)) := by
  unfold decode at h
  dsimp only at h
  split_ifs at h
  cases h
  rfl

theorem recvPdu_of_lt {sec : Security} {pdu : List Byte}
    (h : e.rcvdCount c (rcvdSn c (setDcBit c pdu)) < e.rxDeliv) :
    e.recvPdu sec c pdu = (e, []) := by
  have hnone : e.accepted sec c pdu = none := by
    rw [Option.eq_none_iff_forall_ne_some]
    intro s hs
    obtain ⟨hdecode, hle, -⟩ := accepted_eq_some.mp hs
    rw [decode_count hdecode] at hle
    exact UInt32.not_lt.mpr hle h
  rw [recvPdu, hnone]

/-- The COUNT of a received SN lies within the window around `rx_deliv`, and SNs behind `rx_deliv`
are dropped, exactly if the HFN taken neither falls below 0 nor leaves the 32 bits. -/
theorem reconstructs_iff (c : Config) (e : Entity) (sn : Fin (2 ^ c.snSize)) :
    e.Reconstructs c sn ↔ e.HfnFits c sn := by
  constructor
  · intro h
    exact (near_iff_hfnFits sn.isLt).mp ⟨h.ge, h.lt⟩
  · intro h
    obtain ⟨hge, hlt⟩ := (near_iff_hfnFits sn.isLt).mpr h
    have hmod := rcvdCount_mod (e := e) sn.isLt
    refine ⟨hmod, hge, hlt, fun hold sec pdu hsn => recvPdu_of_lt ?_⟩
    rw [hsn]
    exact lt_rxDeliv_of_snBehind hold hmod hlt

/-- In a new entity the SN 3000 is behind `rx_deliv`, its COUNT is 2³² - 1096. -/
theorem not_forall_reconstructs : ¬ ∀ (sec : Security) (c : Config)
    (parameters : SecurityKeysAndAlgos) (e₀ e : Entity) (labels : List (Op × Output)),
    Entity.new parameters = some e₀ → Run (Step sec c) e₀ labels e →
    ∀ sn : Fin (2 ^ c.snSize), e.Reconstructs c sn := by
  intro h
  have hnew : Entity.new .small = some .small := by decide
  have hright := h .small (.small true) .small .small .small [] hnew .nil
    ⟨3000, by decide⟩
  have hlt := hright.lt
  revert hlt
  decide

end Entity

end OpenAir.Pdcp

import Mathlib
import OpenAir.Sdap.Mapping

namespace OpenAir.Sdap.Entity

open List

/-- The end markers of a flow that goes to a DRB: on the default DRB if there is no rule for it, on
the DRB of its rule if that is another one with a header in the uplink. -/
def endMarkers (e : Entity) (drbId : Int) (qfi : Nat) : List CtrlPdu :=
  let row := e.qfi2drbTable qfi
  if row.drbId = 0 then
    if e.defaultDrb.drbId ≠ 0 then [{ drbId := e.defaultDrb.drbId, qfi }] else []
  else if row.drbId ≠ drbId ∧ row.entityRole.ulTx then [{ drbId := row.drbId, qfi }] else []

def RowClean (e : Entity) (drbId : Int) (qfi : Nat) : Prop :=
  (e.qfi2drbTable qfi).drbId = 0 → e.defaultDrb.drbId ≠ 0 → drbId ≠ 0 →
    (e.qfi2drbTable qfi).entityRole.ulTx = false

instance (e : Entity) (drbId : Int) (qfi : Nat) : Decidable (e.RowClean drbId qfi) :=
  inferInstanceAs (Decidable (_ → _))

def ReflectsCleanly (e : Entity) (drbId : Int) (qfi : Nat) : Prop :=
  ((e.qfi2drbTable qfi).drbId = 0 → e.defaultDrb.drbId ≠ 0 → drbId = 0) ∧
    ((e.qfi2drbTable qfi).drbId ≠ 0 → (e.qfi2drbTable qfi).drbId ≠ drbId →
      (e.qfi2drbTable qfi).entityRole.ulTx = true)

variable {e e' : Entity} {drbId : Int} {qfi : Nat}

theorem endMarkers_congr (htable : e'.qfi2drbTable = e.qfi2drbTable)
    (hdefault : e'.defaultDrb = e.defaultDrb) :
    e'.endMarkers drbId qfi = e.endMarkers drbId qfi := by
  unfold endMarkers
  rw [htable, hdefault]

theorem qfi_of_mem_endMarkers {m : CtrlPdu} (h : m ∈ e.endMarkers drbId qfi) : m.qfi = qfi := by
  unfold endMarkers at h
  dsimp only at h
  split at h
  · split at h
    · rw [mem_singleton.mp h]
    · cases h
  · split at h
    · rw [mem_singleton.mp h]
    · cases h

theorem length_endMarkers_le : (e.endMarkers drbId qfi).length ≤ 1 := by
  unfold endMarkers
  dsimp only
  split
  · split <;> simp
  · split <;> simp

theorem submitCtrlPdu_submitted (d : Int) :
    (e.submitCtrlPdu d qfi).submitted = e.submitted ++ if d ≠ 0 then
      [{ drbId := d, qfi }] else [] := by
  unfold submitCtrlPdu
  split <;> simp

theorem ruleDrb_eq (hqfi : qfi < maxQfi) : e.ruleDrb qfi =
    if (e.qfi2drbTable qfi).drbId ≠ 0 then (e.qfi2drbTable qfi).drbId else e.defaultDrb.drbId := by
  unfold ruleDrb qfi2drb
  by_cases hrow : (e.qfi2drbTable qfi).drbId ≠ 0
  · rw [if_pos ⟨hqfi, hrow⟩, if_pos hrow]
    rfl
  · rw [if_neg fun h => hrow h.2, if_neg hrow]
    split
    · rfl
    · next h => exact (not_not.mp h).symm

theorem submit_default {c : Prop} [Decidable c] (e : Entity) (qfi : Nat)
    (hc : c ↔ (e.qfi2drbTable qfi).drbId = 0 ∧ e.defaultDrb.drbId ≠ 0) :
    ∃ e₁, (if c then e.submitCtrlPdu e.defaultDrb.drbId qfi else e) = e₁ ∧
      e₁.qfi2drbTable = e.qfi2drbTable ∧ e₁.defaultDrb = e.defaultDrb ∧
      e₁.submitted = e.submitted ++
        if (e.qfi2drbTable qfi).drbId = 0 ∧ e.defaultDrb.drbId ≠ 0 then
          [{ drbId := e.defaultDrb.drbId, qfi }]
        else [] := by
  refine ⟨_, rfl, ?_⟩
  by_cases h : c
  · rw [if_pos h, if_pos (hc.mp h), submitCtrlPdu_submitted, if_pos (hc.mp h).2]
    exact ⟨(submitCtrlPdu_same _ _).1, (submitCtrlPdu_same _ _).2, rfl⟩
  · rw [if_neg h, if_neg fun h' => h (hc.mpr h'), append_nil]
    exact ⟨rfl, rfl, rfl⟩

section Config

/-- What the two conditions of `nr_sdap_ue_control_pdu_config` make of a flow: one marker too many
when its row has kept a header. -/
def configMarkers (e : Entity) (drbId : Int) (qfi : Nat) : List CtrlPdu :=
  e.endMarkers drbId qfi ++
    if e.RowClean drbId qfi then [] else [{ drbId := e.defaultDrb.drbId, qfi }]

theorem ueControlPduStep_submitted {v : Int} (h : ueControlPduStep drbId e v = .ok e') :
    e'.submitted = e.submitted ++ e.configMarkers drbId (uint8 v) := by
  obtain ⟨_, hreq, h⟩ := bind_eq_ok.mp h
  have hqfi : uint8 v < maxQfi := by
    by_contra hge
    rw [require, if_neg hge] at hreq
    cases hreq
  generalize uint8 v = qfi at h hqfi ⊢
  dsimp only at h
  obtain ⟨e₁, he₁, htable, hdefault, hsub⟩ :=
    submit_default e qfi (and_comm (a := e.defaultDrb.drbId ≠ 0))
  rw [he₁, ruleDrb_eq hqfi, htable, hdefault] at h
  unfold configMarkers endMarkers RowClean
  by_cases hsecond : (e.qfi2drbTable qfi).drbId ≠ drbId ∧ (e.qfi2drbTable qfi).entityRole.ulTx
  · rw [if_pos hsecond] at h
    cases h
    rw [submitCtrlPdu_submitted, hsub]
    by_cases hrow : (e.qfi2drbTable qfi).drbId = 0
    · have hd : drbId ≠ 0 := fun hd => hsecond.1 (hrow.trans hd.symm)
      by_cases hdef : e.defaultDrb.drbId = 0 <;> simp [hrow, hdef, hd, hsecond.2]
    · simp [hrow, hsecond.1, hsecond.2]
  · rw [if_neg hsecond] at h
    cases h
    rw [hsub]
    by_cases hrow : (e.qfi2drbTable qfi).drbId = 0
    · have hclean : drbId ≠ 0 → (e.qfi2drbTable qfi).entityRole.ulTx = false := by
        intro hd
        simpa [hrow, Ne.symm hd] using hsecond
      by_cases hdef : e.defaultDrb.drbId = 0
      · simp [hrow, hdef]
      · simpa [hrow, hdef] using hclean
    · simp [hrow, hsecond]

theorem ueControlPduConfig_submitted {l : List Int}
    (h : l.foldlM (ueControlPduStep drbId) e = .ok e') :
    e'.submitted = e.submitted ++ l.flatMap fun v => e.configMarkers drbId (uint8 v) := by
  induction l generalizing e with
  | nil =>
    cases h
    simp
  | cons v l ih =>
    rw [foldlM_cons] at h
    obtain ⟨e₁, hstep, hrest⟩ := bind_eq_ok.mp h
    obtain ⟨htable, hdefault⟩ := ueControlPduStep_same hstep
    have hsame (q : Nat) : e₁.configMarkers drbId q = e.configMarkers drbId q := by
      have hclean : e₁.RowClean drbId q ↔ e.RowClean drbId q := by
        unfold RowClean
        rw [htable, hdefault]
      simp only [configMarkers, endMarkers_congr htable hdefault, hdefault, hclean]
    rw [ih hrest, ueControlPduStep_submitted hstep]
    simp [hsame, append_assoc]

theorem filter_flatMap_configMarkers (l : List Int) :
    (l.flatMap fun v => e.configMarkers drbId (uint8 v)).filter (fun m => m.qfi = qfi) =
      (l.filter fun v => uint8 v = qfi).flatMap fun _ => e.configMarkers drbId qfi := by
  have hqfi (q : Nat) : ∀ m ∈ e.configMarkers drbId q, m.qfi = q := by
    intro m hm
    rcases mem_append.mp hm with hm | hm
    · exact qfi_of_mem_endMarkers hm
    · split at hm
      · cases hm
      · rw [mem_singleton.mp hm]
  induction l with
  | nil => rfl
  | cons v l ih =>
    rw [flatMap_cons, filter_append, ih]
    by_cases hv : uint8 v = qfi
    · rw [filter_cons_of_pos (by simpa using hv), flatMap_cons, hv,
        filter_eq_self.mpr (by simpa using hqfi qfi)]
    · rw [filter_cons_of_neg (by simpa using hv), filter_eq_nil_iff.mpr, nil_append]
      intro m hm
      simpa [hqfi _ m hm] using hv

theorem filter_configMarkers_iff {l : List Int} (hl : ∃ v ∈ l, uint8 v = qfi) :
    (l.flatMap fun v => e.configMarkers drbId (uint8 v)).filter (fun m => m.qfi = qfi) =
        e.endMarkers drbId qfi ↔
      e.endMarkers drbId qfi = [] ∨ (l.countP fun v => uint8 v = qfi) = 1 ∧
      e.RowClean drbId qfi := by
  rw [filter_flatMap_configMarkers, countP_eq_length_filter]
  generalize hocc : (l.filter fun v => uint8 v = qfi) = occ
  have hne : occ ≠ [] := by
    obtain ⟨v, hv, hq⟩ := hl
    exact ne_nil_of_mem (hocc ▸ mem_filter.mpr ⟨hv, by simpa using hq⟩)
  by_cases hclean : e.RowClean drbId qfi
  · have hmarkers : e.configMarkers drbId qfi = e.endMarkers drbId qfi := by
      rw [configMarkers, if_pos hclean, append_nil]
    rw [hmarkers]
    constructor
    · intro heq
      by_cases hnil : e.endMarkers drbId qfi = []
      · exact .inl hnil
      · have hlen := congrArg List.length heq
        rw [length_flatMap, map_const', sum_replicate, smul_eq_mul] at hlen
        have hone : (e.endMarkers drbId qfi).length = 1 :=
          Nat.le_antisymm length_endMarkers_le (length_pos_iff.mpr hnil)
        rw [hone, Nat.mul_one] at hlen
        exact .inr ⟨hlen, hclean⟩
    · rintro (hnil | ⟨hlen, -⟩)
      · simp [hnil]
      · obtain ⟨v, rfl⟩ := length_eq_one_iff.mp hlen
        simp
  · -- a marker too many each time, and one is due
    have hdue : (e.qfi2drbTable qfi).drbId = 0 ∧ e.defaultDrb.drbId ≠ 0 := by
      unfold RowClean at hclean
      push Not at hclean
      exact ⟨hclean.1, hclean.2.1⟩
    have hspec : e.endMarkers drbId qfi = [{ drbId := e.defaultDrb.drbId, qfi }] := by
      unfold endMarkers
      rw [if_pos hdue.1, if_pos hdue.2]
    refine iff_of_false (fun heq => ?_) (by simp [hspec, hclean])
    have hlen := congrArg List.length heq
    rw [length_flatMap, map_const', sum_replicate, smul_eq_mul, configMarkers,
      if_neg hclean, hspec] at hlen
    simp only [length_append, length_singleton] at hlen
    omega

theorem addQosFlowsToDrb_submitted (sdap : SdapConfig) :
    (e.addQosFlowsToDrb sdap).submitted = e.submitted := by
  unfold addQosFlowsToDrb
  generalize sdap.mappedQfis2Add = l
  induction l generalizing e with
  | nil => rfl
  | cons v l ih =>
    rw [foldl_cons, ih]
    unfold addQosFlow
    split <;> rfl

theorem qfi2drbMapUpdate_submitted {sdap : SdapConfig} (h : e.qfi2drbMapUpdate sdap = .ok e') :
    e'.submitted = e.submitted := by
  obtain ⟨e₁, hrm, h⟩ := bind_eq_ok.mp h
  have h₁ : e₁.submitted = (e.addQosFlowsToDrb sdap).submitted := by
    refine foldlM_invariant (fun e₂ : Entity => e₂.submitted = (e.addQosFlowsToDrb sdap).submitted)
      (fun e₂ v e₃ h₂ hstep => ?_) rfl hrm
    obtain ⟨_, -, hstep⟩ := bind_eq_ok.mp hstep
    cases hstep
    exact h₂
  have h₂ : e'.submitted = e₁.submitted := by
    split at h
    · obtain ⟨_, -, h⟩ := bind_eq_ok.mp h
      cases h
      rfl
    · cases h
      rfl
  rw [h₂, h₁, addQosFlowsToDrb_submitted]

end Config

theorem rxEntity_eq {map : Qfi2Drb} {hdr : Byte} (hmap : e.drbLookup drbId = some map)
    (hrefl : (map.entityRole.dlRx && reflective hdr)) :
    ∃ e₁ : Entity, e.rxEntity drbId hdr =
        e₁.setRow (qfiOf hdr) { drbId, entityRole := map.entityRole } ∧
      e₁.qfi2drbTable = e.qfi2drbTable ∧
      ∃ new, e₁.submitted = e.submitted ++ new ∧
        (new = e.endMarkers drbId (qfiOf hdr) ↔ e.ReflectsCleanly drbId (qfiOf hdr)) := by
  have hqfi : qfiOf hdr < maxQfi := Nat.mod_lt _ (by decide)
  unfold rxEntity
  rw [hmap]
  dsimp only
  rw [if_pos hrefl]
  generalize qfiOf hdr = qfi at hqfi ⊢
  obtain ⟨e₁, he₁, htable, hdefault, hsub⟩ := submit_default e qfi Iff.rfl
  rw [he₁, ruleDrb_eq hqfi, htable, hdefault]
  unfold endMarkers ReflectsCleanly
  by_cases hd : drbId = (e.qfi2drbTable qfi).drbId
  · rw [if_neg (not_not.mpr hd)]
    refine ⟨e₁, rfl, htable, _, hsub, ?_⟩
    by_cases hrow : (e.qfi2drbTable qfi).drbId = 0
    · by_cases hdef : e.defaultDrb.drbId = 0 <;> simp [hrow, hdef, hd]
    · simp [hrow, hd]
  · rw [if_pos hd]
    refine ⟨_, rfl, (submitCtrlPdu_same _ _).1.trans htable, _,
      by rw [submitCtrlPdu_submitted, hsub, append_assoc], ?_⟩
    by_cases hrow : (e.qfi2drbTable qfi).drbId = 0
    · rw [hrow] at hd
      by_cases hdef : e.defaultDrb.drbId = 0 <;> simp [hrow, hdef, hd]
    · simp [hrow, Ne.symm hd]

/-- The end markers of a flow in a configuration are the right ones iff none is due, or the flow is
listed once and its row is clean; those of a reflective PDU, iff the flow reflects cleanly. -/
theorem endMarkers_iff (e : Entity) (hue : e.isGnb = false) :
    (∀ (sdap : SdapConfig) (e' : Entity), e.mapUpdate sdap = .ok e' →
      ∃ e₁ new, e.ueControlPduConfig sdap = .ok e₁ ∧ e₁.qfi2drbTable = e.qfi2drbTable ∧
        e₁.qfi2drbMapUpdate sdap = .ok e' ∧ e'.submitted = e.submitted ++ new ∧
        e₁.submitted = e.submitted ++ new ∧
        ∀ v ∈ sdap.mappedQfis2Add,
          (new.filter (fun m => m.qfi = uint8 v) = e.endMarkers sdap.drbId (uint8 v) ↔
            e.endMarkers sdap.drbId (uint8 v) = [] ∨
              (sdap.mappedQfis2Add.countP fun v' => uint8 v' = uint8 v) = 1 ∧
                e.RowClean sdap.drbId (uint8 v))) ∧
    ∀ (drbId : Int) (hdr : Byte) (map : Qfi2Drb), e.drbLookup drbId = some map →
      (map.entityRole.dlRx && reflective hdr) = true →
      ∃ e₁ : Entity, e.rxEntity drbId hdr =
          e₁.setRow (qfiOf hdr) { drbId, entityRole := map.entityRole } ∧
        e₁.qfi2drbTable = e.qfi2drbTable ∧
        ∃ new, e₁.submitted = e.submitted ++ new ∧
          (new = e.endMarkers drbId (qfiOf hdr) ↔ e.ReflectsCleanly drbId (qfiOf hdr)) := by
  refine ⟨fun sdap e' h => ?_, fun drbId hdr map hmap hrefl => rxEntity_eq hmap hrefl⟩
  rw [mapUpdate, hue] at h
  obtain ⟨e₁, hconf, hupd⟩ := bind_eq_ok.mp h
  have hsub := ueControlPduConfig_submitted hconf
  refine ⟨e₁, _, hconf, (ueControlPduConfig_same hconf).1, hupd, ?_, hsub, fun v hv => ?_⟩
  · rw [qfi2drbMapUpdate_submitted hupd, hsub]
  · exact filter_configMarkers_iff ⟨v, hv, rfl⟩

def onDrb1 : Entity where
  isGnb := false
  defaultDrb := { drbId := 1, entityRole := { ulTx := true, dlRx := true } }

def reflectFlow5 : Byte := 0x85

theorem endMarkers_iff_onDrb1 : ∃ e₁ : Entity, onDrb1.rxEntity 1 reflectFlow5 =
      e₁.setRow 5 { drbId := 1, entityRole := { ulTx := true, dlRx := true } } ∧
    e₁.qfi2drbTable = onDrb1.qfi2drbTable ∧
    ∃ new, e₁.submitted = onDrb1.submitted ++ new ∧
      (new = onDrb1.endMarkers 1 5 ↔ onDrb1.ReflectsCleanly 1 5) :=
  (endMarkers_iff onDrb1 rfl).2 1 reflectFlow5
    { drbId := 1, entityRole := { ulTx := true, dlRx := true } } (by decide) (by decide)

/-- It is announced twice on the default DRB. -/
theorem not_forall_endMarkers : ¬ ∀ (e : Entity), e.isGnb = false →
    ∀ (drbId : Int) (hdr : Byte) (map : Qfi2Drb), e.drbLookup drbId = some map →
      (map.entityRole.dlRx && reflective hdr) = true →
      (e.rxEntity drbId hdr).submitted = e.submitted ++ e.endMarkers drbId (qfiOf hdr) := by
  intro h
  have := h onDrb1 rfl 1 reflectFlow5 { drbId := 1, entityRole := { ulTx := true, dlRx := true } }
    (by decide) (by decide)
  exact absurd this (by decide)

end OpenAir.Sdap.Entity

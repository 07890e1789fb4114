import OpenAir.Lib.BitReader
import OpenAir.Lib.Run
import OpenAir.Sdap.Entity

namespace OpenAir.Sdap

open Function List

structure FlowMap where
  rule : Nat → Option Int
  defaultDrb : Option Int
  role : Int → Option Role

namespace FlowMap

def empty : FlowMap where
  rule := fun _ => none
  defaultDrb := none
  role := fun _ => none

variable (a : FlowMap)

def configure (drbId : Int) (role : Role) (isDefault : Bool) (adds releases : List Int) :
    FlowMap where
  rule qfi :=
    if (qfi : Int) ∈ adds then some drbId
    else if (qfi : Int) ∈ releases ∧ a.rule qfi = some drbId then none
    else a.rule qfi
  defaultDrb := if isDefault then some drbId else a.defaultDrb
  role := update a.role drbId (some role)

def replace (drbId : Int) (flows : List Int) : FlowMap :=
  if a.role drbId = none then a
  else { a with
    rule := fun qfi =>
      if (qfi : Int) ∈ flows then some drbId
      else if a.rule qfi = some drbId then none
      else a.rule qfi }

def release (drbId : Int) : FlowMap where
  rule qfi := if a.rule qfi = some drbId then none else a.rule qfi
  defaultDrb := if a.defaultDrb = some drbId then none else a.defaultDrb
  role := update a.role drbId none

def reflect (drbId : Int) (hdr : Byte) : FlowMap :=
  if (a.role drbId).any Role.dlRx && Entity.reflective hdr then
    { a with rule := update a.rule (Entity.qfiOf hdr) (some drbId) }
  else a

theorem empty_release (drbId : Int) : empty.release drbId = empty := by
  simp only [release, empty, reduceCtorEq, if_false]
  exact congrArg (FlowMap.mk _ _) (update_eq_self drbId _)

def apply : Op → FlowMap
  | .addmodEntity _ sdap =>
    a.configure sdap.drbId sdap.role sdap.defaultDrb sdap.mappedQfis2Add sdap.mappedQfis2Release
  | .reconfigureSdapEntity ie drbId =>
    a.configure drbId (getSdapRole false ie) ie.defaultDrb ie.mappedQosFlowsToAdd
      ie.mappedQosFlowsToRelease
  | .entityUpdateQosFlows sdap => a.replace sdap.drbId sdap.mappedQfis2Add
  | .releaseDrb drbId => a.release drbId
  | .dlPdu drbId hdr => a.reflect drbId hdr

/-- The headers of a DRB do not change while it is established. -/
def RoleFixed : Op → Prop
  | .addmodEntity _ sdap => a.role sdap.drbId = none ∨ a.role sdap.drbId = some sdap.role
  | .reconfigureSdapEntity ie drbId =>
    a.role drbId = none ∨ a.role drbId = some (getSdapRole false ie)
  | _ => True

end FlowMap

structure Mapping (e : Entity) (a : FlowMap) : Prop where
  flow : ∀ qfi, (e.qfi2drb qfi).map Qfi2Drb.drbId = (a.rule qfi).orElse fun _ => a.defaultDrb
  established : ∀ qfi row, e.qfi2drb qfi = some row → a.role row.drbId ≠ none
  tableRole : ∀ qfi < maxQfi, (e.qfi2drbTable qfi).drbId ≠ 0 →
    a.role (e.qfi2drbTable qfi).drbId = some (e.qfi2drbTable qfi).entityRole
  defaultRole : e.defaultDrb.drbId ≠ 0 → a.role e.defaultDrb.drbId = some e.defaultDrb.entityRole
  agree : ∀ qfi row row', e.qfi2drb qfi = some row → e.drbLookup row.drbId = some row' →
    row'.entityRole = row.entityRole

structure ListsOk (adds releases : List Int) : Prop where
  adds_qfi : ∀ v ∈ adds, 0 ≤ v ∧ v < maxQfi
  releases_qfi : ∀ v ∈ releases, 0 ≤ v ∧ v < maxQfi
  disjoint : ∀ v ∈ adds, v ∉ releases

def DrbOk (drbId : Int) : Prop := 0 < drbId ∧ drbId ≤ maxDrbsPerUe

def ReleasesOwn (e : Entity) (drbId : Int) (releases : List Int) : Prop :=
  ∀ qfi : Nat, (qfi : Int) ∈ releases →
    (e.qfi2drbTable qfi).drbId = 0 ∨ (e.qfi2drbTable qfi).drbId = drbId

structure ConfigOk (e : Entity) (drbId : Int) (isDefault : Bool) (adds releases : List Int) :
    Prop where
  lists : ListsOk adds releases
  drb : DrbOk drbId
  own : ReleasesOwn e drbId releases
  default : isDefault = true → e.defaultDrb.drbId = drbId

def Meets (s : Option Entity) (a : FlowMap) : Op → Prop
  | .addmodEntity _ sdap =>
    match s with
    | none => ListsOk sdap.mappedQfis2Add sdap.mappedQfis2Release ∧ DrbOk sdap.drbId
    | some e => ConfigOk e sdap.drbId sdap.defaultDrb sdap.mappedQfis2Add sdap.mappedQfis2Release
  | .reconfigureSdapEntity ie drbId => ∃ e, s = some e ∧
      ConfigOk e drbId ie.defaultDrb ie.mappedQosFlowsToAdd ie.mappedQosFlowsToRelease ∧
      ie.mappedQosFlowsToAdd.length ≤ maxQfi ∧ ie.mappedQosFlowsToRelease.length ≤ maxQfi
  | .entityUpdateQosFlows sdap => DrbOk sdap.drbId ∧ (a.role sdap.drbId = none ∨
      ∃ e, s = some e ∧ ListsOk sdap.mappedQfis2Add sdap.mappedQfis2Release ∧
        ReleasesOwn e sdap.drbId sdap.mappedQfis2Release ∧ (e.drbLookup sdap.drbId).isSome)
  | .releaseDrb drbId => DrbOk drbId ∧ ∀ e, s = some e → e.defaultDrb.drbId ≠ drbId
  | .dlPdu drbId _ => DrbOk drbId ∧
      (a.role drbId = none ∨ ∃ e, s = some e ∧ (e.drbLookup drbId).isSome)

def Step (x : Option Entity × FlowMap) (op : Op) (y : Option Entity × FlowMap) : Prop :=
  exec x.1 op = .ok y.1 ∧ y.2 = x.2.apply op ∧ x.2.RoleFixed op

def GoodStep (x : Option Entity × FlowMap) (op : Op) (y : Option Entity × FlowMap) : Prop :=
  Step x op y ∧ Meets x.1 x.2 op

def RowOk (role : Int → Option Role) (d : Option Int) (row : Qfi2Drb) : Prop :=
  match d with
  | none => row.drbId = 0
  | some drbId => drbId ≠ 0 ∧ row.drbId = drbId ∧ role drbId = some row.entityRole

structure Represents (e : Entity) (a : FlowMap) : Prop where
  rows : ∀ qfi < maxQfi, RowOk a.role (a.rule qfi) (e.qfi2drbTable qfi)
  beyond : ∀ qfi, maxQfi ≤ qfi → a.rule qfi = none
  default : RowOk a.role a.defaultDrb e.defaultDrb

namespace RowOk

variable {role : Int → Option Role} {d : Option Int} {row : Qfi2Drb} {drbId : Int} {r : Role}

theorem drbId_eq_iff (h : RowOk role d row) (hd : drbId ≠ 0) :
    row.drbId = drbId ↔ d = some drbId := by
  cases d with
  | none =>
    rw [show row.drbId = 0 from h]
    exact ⟨fun h => absurd h.symm hd, fun h => by cases h⟩
  | some drbId' =>
    obtain ⟨-, hrow, -⟩ := h
    rw [hrow, Option.some_inj]

theorem drbId_eq_zero_iff (h : RowOk role d row) : row.drbId = 0 ↔ d = none := by
  cases d with
  | none => exact ⟨fun _ => rfl, fun _ => h⟩
  | some drbId =>
    obtain ⟨hd, hrow, -⟩ := h
    rw [hrow]
    exact ⟨fun h => absurd h hd, fun h => by cases h⟩

theorem role_eq (h : RowOk role d row) (hd : row.drbId ≠ 0) :
    role row.drbId = some row.entityRole := by
  cases d with
  | none => exact absurd h hd
  | some drbId =>
    obtain ⟨-, hrow, hrole⟩ := h
    rw [hrow, hrole]

theorem update_some (h : RowOk role d row) (hr : role drbId = none ∨ role drbId = some r) :
    RowOk (update role drbId (some r)) d row := by
  cases d with
  | none => exact h
  | some d =>
    obtain ⟨hd, hrow, hrole⟩ := h
    refine ⟨hd, hrow, ?_⟩
    by_cases heq : d = drbId
    · subst heq
      rw [update_self]
      rcases hr with hr | hr
      · rw [hr] at hrole
        cases hrole
      · rw [← hr, hrole]
    · rw [update_of_ne heq, hrole]

theorem update_none (h : RowOk role d row) (hne : d ≠ some drbId) :
    RowOk (update role drbId none) d row := by
  cases d with
  | none => exact h
  | some d =>
    obtain ⟨hd, hrow, hrole⟩ := h
    refine ⟨hd, hrow, ?_⟩
    rw [update_of_ne fun heq => hne (congrArg some heq), hrole]

theorem mk_self (hd : drbId ≠ 0) (hr : role drbId = some r) :
    RowOk role (some drbId) { drbId, entityRole := r } := ⟨hd, rfl, hr⟩

end RowOk

namespace Represents

variable {e : Entity} {a : FlowMap}

variable {qfi : Nat} {drbId : Int}

variable (h : Represents e a)

include h

theorem qfi2drb_of_rule (hr : a.rule qfi = some drbId) :
    e.qfi2drb qfi = some (e.qfi2drbTable qfi) ∧ (e.qfi2drbTable qfi).drbId = drbId := by
  have hq : qfi < maxQfi := by
    by_contra hle
    rw [h.beyond qfi (by omega)] at hr
    cases hr
  have hrow := h.rows qfi hq
  rw [hr] at hrow
  obtain ⟨hd, hrow, -⟩ := hrow
  exact ⟨if_pos ⟨hq, hrow ▸ hd⟩, hrow⟩

theorem qfi2drb_of_no_rule (hr : a.rule qfi = none) :
    e.qfi2drb qfi = if e.defaultDrb.drbId ≠ 0 then some e.defaultDrb else none := by
  refine if_neg fun hq => hq.2 ?_
  exact (h.rows qfi hq.1).drbId_eq_zero_iff.mpr hr

theorem role_of_qfi2drb {row : Qfi2Drb} (hrow : e.qfi2drb qfi = some row) :
    a.role row.drbId = some row.entityRole := by
  unfold Entity.qfi2drb at hrow
  split at hrow
  · next hq =>
    cases hrow
    exact (h.rows qfi hq.1).role_eq hq.2
  split at hrow
  · next hd =>
    cases hrow
    exact h.default.role_eq hd
  · cases hrow

theorem role_of_drbLookup {row : Qfi2Drb} (hrow : e.drbLookup drbId = some row)
    (hd : drbId ≠ 0) :
    row.drbId = drbId ∧ a.role drbId = some row.entityRole := by
  unfold Entity.drbLookup at hrow
  split at hrow
  · next qfi hfind =>
    cases hrow
    have hq : qfi < maxQfi := mem_range.mp (mem_of_find?_eq_some hfind)
    have heq : (e.qfi2drbTable qfi).drbId = drbId := by simpa using List.find?_some hfind
    exact ⟨heq, heq ▸ (h.rows qfi hq).role_eq (heq ▸ hd)⟩
  split at hrow
  · next heq =>
    cases hrow
    exact ⟨heq, heq ▸ h.default.role_eq (heq ▸ hd)⟩
  · cases hrow

theorem mapping : Mapping e a := by
  have hrow_ne : ∀ qfi row, e.qfi2drb qfi = some row → row.drbId ≠ 0 := by
    intro qfi row hrow
    unfold Entity.qfi2drb at hrow
    split at hrow
    · next hq =>
      cases hrow
      exact hq.2
    split at hrow
    · next hd =>
      cases hrow
      exact hd
    · cases hrow
  constructor
  · intro qfi
    cases hr : a.rule qfi with
    | some drbId =>
      obtain ⟨hrow, hdrb⟩ := h.qfi2drb_of_rule hr
      rw [hrow, Option.map_some, hdrb]
      rfl
    | none =>
      rw [h.qfi2drb_of_no_rule hr]
      cases hd : a.defaultDrb with
      | none =>
        rw [if_neg (not_not_intro (h.default.drbId_eq_zero_iff.mpr hd))]
        rfl
      | some drbId =>
        have hdefault := h.default
        rw [hd] at hdefault
        obtain ⟨hne, heq, -⟩ := hdefault
        rw [if_pos (heq ▸ hne), Option.map_some, heq]
        rfl
  · intro qfi row hrow
    rw [h.role_of_qfi2drb hrow]
    exact Option.some_ne_none _
  · exact fun qfi hq => (h.rows qfi hq).role_eq
  · exact h.default.role_eq
  · intro qfi row row' hrow hlook
    have hrole := h.role_of_qfi2drb hrow
    have hrole' := (h.role_of_drbLookup hlook (hrow_ne qfi row hrow)).2
    exact Option.some.inj (hrole'.symm.trans hrole)

theorem drbLookup_eq_none (hr : a.role drbId = none) (hd : drbId ≠ 0) :
    e.drbLookup drbId = none := by
  cases hlook : e.drbLookup drbId with
  | none => rfl
  | some row =>
    rw [(h.role_of_drbLookup hlook hd).2] at hr
    cases hr

end Represents

theorem uint8_of_qfi {v : Int} (h : 0 ≤ v ∧ v < maxQfi) : (uint8 v : Int) = v := by
  unfold uint8 maxQfi at *
  omega

namespace Entity

variable {e e' : Entity} {sdap : SdapConfig}

theorem submitCtrlPdu_same (drbId : Int) (qfi : Nat) :
    (e.submitCtrlPdu drbId qfi).qfi2drbTable = e.qfi2drbTable ∧
      (e.submitCtrlPdu drbId qfi).defaultDrb = e.defaultDrb := by
  unfold submitCtrlPdu
  split <;> exact ⟨rfl, rfl⟩

theorem ueControlPduStep_same {drbId v : Int} (h : ueControlPduStep drbId e v = .ok e') :
    e'.qfi2drbTable = e.qfi2drbTable ∧ e'.defaultDrb = e.defaultDrb := by
  obtain ⟨_, -, h⟩ := bind_eq_ok.mp h
  dsimp only at h
  generalize hmark : (if e.defaultDrb.drbId ≠ 0 ∧ (e.qfi2drbTable (uint8 v)).drbId = 0 then
    e.submitCtrlPdu e.defaultDrb.drbId (uint8 v) else e) = e₁ at h
  have h₁ : e₁.qfi2drbTable = e.qfi2drbTable ∧ e₁.defaultDrb = e.defaultDrb := by
    subst hmark
    split
    · exact submitCtrlPdu_same ..
    · exact ⟨rfl, rfl⟩
  split at h
  · cases h
    have h₂ := submitCtrlPdu_same (e := e₁) (e₁.ruleDrb (uint8 v)) (uint8 v)
    exact ⟨h₂.1.trans h₁.1, h₂.2.trans h₁.2⟩
  · cases h
    exact h₁

theorem ueControlPduConfig_same (h : e.ueControlPduConfig sdap = .ok e') :
    e'.qfi2drbTable = e.qfi2drbTable ∧ e'.defaultDrb = e.defaultDrb := by
  refine foldlM_invariant (fun e' : Entity => e'.qfi2drbTable = e.qfi2drbTable ∧
    e'.defaultDrb = e.defaultDrb) (fun e₁ v e₂ h₁ hstep => ?_) ⟨rfl, rfl⟩ h
  have h₂ := ueControlPduStep_same hstep
  exact ⟨h₂.1.trans h₁.1, h₂.2.trans h₁.2⟩

theorem addQosFlowsToDrb_table (hadds : ∀ v ∈ sdap.mappedQfis2Add, 0 ≤ v ∧ v < maxQfi)
    (hdrb : DrbOk sdap.drbId) (qfi : Nat) :
    (e.addQosFlowsToDrb sdap).qfi2drbTable qfi =
      if (qfi : Int) ∈ sdap.mappedQfis2Add then { drbId := sdap.drbId, entityRole := sdap.role }
      else e.qfi2drbTable qfi := by
  unfold addQosFlowsToDrb
  generalize sdap.mappedQfis2Add = adds at hadds ⊢
  induction adds generalizing e with
  | nil => simp
  | cons v adds ih =>
    have hv := hadds v mem_cons_self
    have hstep : addQosFlow sdap e v =
        e.setRow (uint8 v) { drbId := sdap.drbId, entityRole := sdap.role } := by
      have hlt : uint8 v < maxQfi := by
        have := uint8_of_qfi hv
        omega
      exact if_pos ⟨hlt, hdrb⟩
    rw [foldl_cons, hstep, ih fun w hw => hadds w (mem_cons_of_mem v hw)]
    by_cases hmem : (qfi : Int) ∈ adds
    · rw [if_pos hmem, if_pos (mem_cons_of_mem v hmem)]
    rw [if_neg hmem]
    by_cases heq : (qfi : Int) = v
    · have hq : uint8 v = qfi := by
        have := uint8_of_qfi hv
        omega
      rw [if_pos (mem_cons.mpr (.inl heq)), hq]
      exact update_self ..
    · have hq : qfi ≠ uint8 v := by
        have := uint8_of_qfi hv
        omega
      rw [if_neg fun h => (mem_cons.mp h).elim heq hmem]
      exact update_of_ne hq ..

theorem addQosFlowsToDrb_default : (e.addQosFlowsToDrb sdap).defaultDrb = e.defaultDrb := by
  unfold addQosFlowsToDrb
  generalize sdap.mappedQfis2Add = adds
  induction adds generalizing e with
  | nil => rfl
  | cons v adds ih =>
    rw [foldl_cons, ih]
    unfold addQosFlow
    split <;> rfl

theorem rmQosFlowsFromDrb_eq (hreleases : ∀ v ∈ sdap.mappedQfis2Release, 0 ≤ v ∧ v < maxQfi) :
    ∃ e', e.rmQosFlowsFromDrb sdap = .ok e' ∧ e'.defaultDrb = e.defaultDrb ∧
      ∀ qfi : Nat, e'.qfi2drbTable qfi =
        if (qfi : Int) ∈ sdap.mappedQfis2Release then {} else e.qfi2drbTable qfi := by
  unfold rmQosFlowsFromDrb
  generalize sdap.mappedQfis2Release = releases at hreleases ⊢
  induction releases generalizing e with
  | nil => exact ⟨e, rfl, rfl, fun _ => by simp⟩
  | cons v releases ih =>
    have hv := hreleases v mem_cons_self
    have hu := uint8_of_qfi hv
    have hstep : qfi2drbMapDel e v = .ok (e.setRow (uint8 v) {}) := by
      unfold qfi2drbMapDel require
      rw [if_pos (by omega)]
      rfl
    obtain ⟨e', he', hdefault, htable⟩ := ih (e := e.setRow (uint8 v) {})
      fun w hw => hreleases w (mem_cons_of_mem v hw)
    refine ⟨e', by rw [foldlM_cons, hstep, ok_bind, he'], hdefault, fun qfi => ?_⟩
    rw [htable]
    by_cases hmem : (qfi : Int) ∈ releases
    · rw [if_pos hmem, if_pos (mem_cons_of_mem v hmem)]
    rw [if_neg hmem]
    by_cases heq : (qfi : Int) = v
    · rw [if_pos (mem_cons.mpr (.inl heq)), show uint8 v = qfi by omega]
      exact update_self ..
    · rw [if_neg fun h => (mem_cons.mp h).elim heq hmem]
      exact update_of_ne (by omega) ..

theorem mapUpdate_table (hlists : ListsOk sdap.mappedQfis2Add sdap.mappedQfis2Release)
    (hdrb : DrbOk sdap.drbId) (h : e.mapUpdate sdap = .ok e') :
    e'.defaultDrb = e.defaultDrb ∧ ∀ qfi < maxQfi, e'.qfi2drbTable qfi =
      if (qfi : Int) ∈ sdap.mappedQfis2Release then {}
      else if (qfi : Int) ∈ sdap.mappedQfis2Add ∨ (e.qfi2drbTable qfi).drbId = sdap.drbId then
        { drbId := sdap.drbId, entityRole := sdap.role }
      else e.qfi2drbTable qfi := by
  -- the end markers do not change the table
  obtain ⟨e₁, hsame, h⟩ : ∃ e₁ : Entity, (e₁.qfi2drbTable = e.qfi2drbTable ∧
      e₁.defaultDrb = e.defaultDrb) ∧ e₁.qfi2drbMapUpdate sdap = .ok e' := by
    unfold mapUpdate at h
    split at h
    · exact ⟨e, ⟨rfl, rfl⟩, h⟩
    · obtain ⟨e₁, h₁, h⟩ := bind_eq_ok.mp h
      exact ⟨e₁, ueControlPduConfig_same h₁, h⟩
  unfold qfi2drbMapUpdate at h
  obtain ⟨e₂, h₂, hdefault, htable⟩ :=
    rmQosFlowsFromDrb_eq (e := e₁.addQosFlowsToDrb sdap) hlists.releases_qfi
  rw [h₂, ok_bind] at h
  have he' : e' = e₂.setRole sdap.drbId sdap.role := by
    dsimp only at h
    split at h
    · obtain ⟨_, -, h⟩ := bind_eq_ok.mp h
      cases h
      rfl
    · cases h
      rfl
  subst he'
  refine ⟨hdefault.trans (addQosFlowsToDrb_default.trans hsame.2), fun qfi hq => ?_⟩
  have hrow := htable qfi
  rw [addQosFlowsToDrb_table hlists.adds_qfi hdrb, hsame.1] at hrow
  show (if qfi < maxQfi ∧ (e₂.qfi2drbTable qfi).drbId = sdap.drbId then _ else _) = _
  rw [hrow]
  have hd : sdap.drbId ≠ 0 := by
    have := hdrb.1
    omega
  by_cases hrel : (qfi : Int) ∈ sdap.mappedQfis2Release
  · rw [if_pos hrel, if_pos hrel, if_neg fun h => hd h.2.symm]
  rw [if_neg hrel, if_neg hrel]
  by_cases hadd : (qfi : Int) ∈ sdap.mappedQfis2Add
  · rw [if_pos hadd, if_pos ⟨hq, rfl⟩, if_pos (.inl hadd)]
  rw [if_neg hadd]
  by_cases hon : (e.qfi2drbTable qfi).drbId = sdap.drbId
  · rw [if_pos ⟨hq, hon⟩, if_pos (.inr hon)]
  · rw [if_neg fun h => hon h.2, if_neg fun h => h.elim hadd hon]

theorem mem_flowsToRelease {qfi : Nat} : (qfi : Int) ∈ e.flowsToRelease sdap ↔
    (qfi < maxQfi ∧ (e.qfi2drbTable qfi).drbId = sdap.drbId) ∧
    (qfi : Int) ∉ sdap.mappedQfis2Add := by
  have hcast : ∀ l : List Nat, (qfi : Int) ∈ l.map Int.ofNat ↔ qfi ∈ l := by
    intro l
    rw [mem_map]
    constructor
    · rintro ⟨n, hn, heq⟩
      exact Int.ofNat.inj heq ▸ hn
    · exact fun h => ⟨qfi, h, rfl⟩
  rw [flowsToRelease, hcast, mem_filter, flowsOn, mem_filter, mem_range]
  simp

end Entity

namespace Represents

variable {e e' : Entity} {a : FlowMap} {sdap : SdapConfig} {drbId : Int}

theorem drbOk_ne_zero (h : DrbOk drbId) : drbId ≠ 0 := by
  have := h.1
  omega

theorem configure (h : Represents e a)
    (hcfg : ConfigOk e sdap.drbId sdap.defaultDrb sdap.mappedQfis2Add sdap.mappedQfis2Release)
    (hrole : a.role sdap.drbId = none ∨ a.role sdap.drbId = some sdap.role)
    (hupd : e.mapUpdate sdap = .ok e') :
    Represents e' (a.configure sdap.drbId sdap.role sdap.defaultDrb sdap.mappedQfis2Add
      sdap.mappedQfis2Release) := by
  have hd := drbOk_ne_zero hcfg.drb
  obtain ⟨hdefault, htable⟩ := Entity.mapUpdate_table hcfg.lists hcfg.drb hupd
  refine ⟨fun qfi hq => ?_, fun qfi hq => ?_, ?_⟩
  · have hrow := h.rows qfi hq
    rw [htable qfi hq]
    by_cases hrel : (qfi : Int) ∈ sdap.mappedQfis2Release
    · have hadd : ¬ (qfi : Int) ∈ sdap.mappedQfis2Add := fun hadd => hcfg.lists.disjoint _ hadd hrel
      have hnone :
          (if (qfi : Int) ∈ sdap.mappedQfis2Release ∧ a.rule qfi = some sdap.drbId then none
          else a.rule qfi) = none := by
        split
        · rfl
        · next hnot =>
          rcases hcfg.own qfi hrel with h0 | hown
          · exact hrow.drbId_eq_zero_iff.mp h0
          · exact absurd ⟨hrel, (hrow.drbId_eq_iff hd).mp hown⟩ hnot
      simp only [FlowMap.configure, if_neg hadd, hnone, if_pos hrel]
      exact rfl
    rw [if_neg hrel]
    by_cases hadd : (qfi : Int) ∈ sdap.mappedQfis2Add
    · simp only [FlowMap.configure, if_pos hadd]
      rw [if_pos (.inl hadd)]
      exact .mk_self hd (update_self ..)
    have hrule : (a.configure sdap.drbId sdap.role sdap.defaultDrb sdap.mappedQfis2Add
        sdap.mappedQfis2Release).rule qfi = a.rule qfi := by
      simp only [FlowMap.configure, if_neg hadd, if_neg fun h : _ ∧ _ => hrel h.1]
    rw [hrule]
    by_cases hon : (e.qfi2drbTable qfi).drbId = sdap.drbId
    · rw [if_pos (.inr hon), (hrow.drbId_eq_iff hd).mp hon]
      exact .mk_self hd (update_self ..)
    · rw [if_neg fun h => h.elim hadd hon]
      exact hrow.update_some hrole
  · have hadd : ¬ (qfi : Int) ∈ sdap.mappedQfis2Add := fun hadd => by
      have := hcfg.lists.adds_qfi _ hadd
      omega
    have hrel : ¬ (qfi : Int) ∈ sdap.mappedQfis2Release := fun hrel => by
      have := hcfg.lists.releases_qfi _ hrel
      omega
    simp only [FlowMap.configure, if_neg hadd, if_neg fun h : _ ∧ _ => hrel h.1]
    exact h.beyond qfi hq
  · have hset : (a.configure sdap.drbId sdap.role sdap.defaultDrb sdap.mappedQfis2Add
        sdap.mappedQfis2Release).defaultDrb = a.defaultDrb := by
      simp only [FlowMap.configure]
      split
      · next hdef => exact ((h.default.drbId_eq_iff hd).mp (hcfg.default hdef)).symm
      · rfl
    rw [hset, hdefault]
    exact h.default.update_some hrole

theorem create {isGnb : Bool} (hlists : ListsOk sdap.mappedQfis2Add sdap.mappedQfis2Release)
    (hdrb : DrbOk sdap.drbId) (hadd : addEntity isGnb sdap = .ok e') :
    Represents e' (FlowMap.empty.configure sdap.drbId sdap.role sdap.defaultDrb sdap.mappedQfis2Add
      sdap.mappedQfis2Release) := by
  have hd := drbOk_ne_zero hdrb
  have he' : e' = Entity.addQosFlowsToDrb
      (if sdap.defaultDrb then
        { isGnb, defaultDrb := { drbId := sdap.drbId, entityRole := sdap.role } } else { isGnb })
      sdap := by
    unfold addEntity at hadd
    dsimp only at hadd
    split at hadd
    · obtain ⟨_, -, h⟩ := bind_eq_ok.mp hadd
      cases h
      rfl
    · cases hadd
      rfl
  subst he'
  refine ⟨fun qfi _ => ?_, fun qfi hq => ?_, ?_⟩
  · rw [Entity.addQosFlowsToDrb_table hlists.adds_qfi hdrb]
    by_cases hmem : (qfi : Int) ∈ sdap.mappedQfis2Add
    · simp only [FlowMap.configure, if_pos hmem]
      exact .mk_self hd (update_self ..)
    · simp only [FlowMap.configure, if_neg hmem, FlowMap.empty]
      cases sdap.defaultDrb <;> simp [RowOk]
  · have hadd : ¬ (qfi : Int) ∈ sdap.mappedQfis2Add := fun hadd => by
      have := hlists.adds_qfi _ hadd
      omega
    simp [FlowMap.configure, hadd, FlowMap.empty]
  · rw [Entity.addQosFlowsToDrb_default]
    cases hdef : sdap.defaultDrb with
    | true =>
      simp only [FlowMap.configure, if_true]
      exact .mk_self hd (update_self ..)
    | false => exact rfl

theorem replace (h : Represents e a) (hdrb : DrbOk sdap.drbId)
    (hlists : ListsOk sdap.mappedQfis2Add sdap.mappedQfis2Release)
    (hown : ReleasesOwn e sdap.drbId sdap.mappedQfis2Release)
    (hlook : (e.drbLookup sdap.drbId).isSome) (hupd : e.updateQosFlows sdap = .ok e') :
    Represents e' (a.replace sdap.drbId sdap.mappedQfis2Add) := by
  have hd := drbOk_ne_zero hdrb
  obtain ⟨row, hrow⟩ := Option.isSome_iff_exists.mp hlook
  have hrole := (h.role_of_drbLookup hrow hd).2
  unfold Entity.updateQosFlows at hupd
  rw [hrow] at hupd
  dsimp only at hupd
  split at hupd
  case isFalse => cases hupd
  have hlists' :
      ListsOk sdap.mappedQfis2Add (sdap.mappedQfis2Release ++ e.flowsToRelease sdap) := by
    refine ⟨hlists.adds_qfi, fun v hv => ?_, fun v hadd hv => ?_⟩
    · rcases mem_append.mp hv with hv | hv
      · exact hlists.releases_qfi v hv
      · obtain ⟨qfi, hqfi, rfl⟩ := mem_map.mp hv
        have := (Entity.mem_flowsToRelease.mp hv).1.1
        exact ⟨Int.natCast_nonneg qfi, Int.ofNat_lt.mpr this⟩
    · rcases mem_append.mp hv with hv | hv
      · exact hlists.disjoint v hadd hv
      · obtain ⟨qfi, hqfi, rfl⟩ := mem_map.mp hv
        exact (Entity.mem_flowsToRelease.mp hv).2 hadd
  obtain ⟨hdefault, htable⟩ := Entity.mapUpdate_table (by exact hlists') (by exact hdrb) hupd
  have hreplace : a.replace sdap.drbId sdap.mappedQfis2Add = { a with
      rule := fun qfi => if (qfi : Int) ∈ sdap.mappedQfis2Add then some sdap.drbId
        else if a.rule qfi = some sdap.drbId then none else a.rule qfi } :=
    if_neg (by rw [hrole]; exact Option.some_ne_none _)
  rw [hreplace]
  refine ⟨fun qfi hq => ?_, fun qfi hq => ?_, hdefault ▸ h.default⟩
  · have hrow := h.rows qfi hq
    dsimp only
    rw [htable qfi hq]
    by_cases hadd : (qfi : Int) ∈ sdap.mappedQfis2Add
    · rw [if_pos hadd, if_neg (hlists'.disjoint _ hadd), if_pos (.inl hadd)]
      exact .mk_self hd hrole
    rw [if_neg hadd]
    by_cases hon : (e.qfi2drbTable qfi).drbId = sdap.drbId
    · have hrel : (qfi : Int) ∈ sdap.mappedQfis2Release ++ e.flowsToRelease sdap :=
        mem_append_right _ (Entity.mem_flowsToRelease.mpr ⟨⟨hq, hon⟩, hadd⟩)
      rw [if_pos ((hrow.drbId_eq_iff hd).mp hon), if_pos hrel]
      exact rfl
    rw [if_neg fun h => hon ((hrow.drbId_eq_iff hd).mpr h)]
    by_cases hrel : (qfi : Int) ∈ sdap.mappedQfis2Release ++ e.flowsToRelease sdap
    · -- a flow that is released without being mapped
      have h0 : (e.qfi2drbTable qfi).drbId = 0 := by
        rcases mem_append.mp hrel with hrel | hrel
        · exact (hown qfi hrel).resolve_right hon
        · exact absurd (Entity.mem_flowsToRelease.mp hrel).1.2 hon
      rw [if_pos hrel, hrow.drbId_eq_zero_iff.mp h0]
      exact rfl
    · rw [if_neg hrel, if_neg fun h => h.elim hadd hon]
      exact hrow
  · have hadd : ¬ (qfi : Int) ∈ sdap.mappedQfis2Add := fun hadd => by
      have := hlists.adds_qfi _ hadd
      omega
    simp [hadd, h.beyond qfi hq]

theorem release (h : Represents e a) (hdrb : DrbOk drbId) (hdefault : e.defaultDrb.drbId ≠ drbId) :
    Represents (e.release drbId) (a.release drbId) := by
  have hd := drbOk_ne_zero hdrb
  refine ⟨fun qfi hq => ?_, fun qfi hq => ?_, ?_⟩
  · have hrow := h.rows qfi hq
    simp only [Entity.release, FlowMap.release]
    by_cases hon : (e.qfi2drbTable qfi).drbId = drbId
    · rw [if_pos ((hrow.drbId_eq_iff hd).mp hon), if_pos ⟨hq, hon⟩]
      exact rfl
    · have hne : a.rule qfi ≠ some drbId := fun h => hon ((hrow.drbId_eq_iff hd).mpr h)
      rw [if_neg hne, if_neg fun h => hon h.2]
      exact hrow.update_none hne
  · simp [FlowMap.release, h.beyond qfi hq]
  · have hne : a.defaultDrb ≠ some drbId :=
      fun heq => hdefault ((h.default.drbId_eq_iff hd).mpr heq)
    simp only [FlowMap.release, if_neg hne]
    exact h.default.update_none hne

theorem of_same (h : Represents e a) (hsame : e'.qfi2drbTable = e.qfi2drbTable ∧
    e'.defaultDrb = e.defaultDrb) : Represents e' a :=
  ⟨hsame.1 ▸ h.rows, h.beyond, hsame.2 ▸ h.default⟩

theorem setRow (h : Represents e a) {qfi : Nat} {r : Role} (hq : qfi < maxQfi) (hd : drbId ≠ 0)
    (hrole : a.role drbId = some r) : Represents (e.setRow qfi { drbId, entityRole := r })
      { a with rule := update a.rule qfi (some drbId) } := by
  refine ⟨fun q hq => ?_, fun q hq' => ?_, h.default⟩
  · simp only [Entity.setRow]
    by_cases heq : q = qfi
    · subst heq
      rw [update_self, update_self]
      exact .mk_self hd hrole
    · rw [update_of_ne heq, update_of_ne heq]
      exact h.rows q hq
  · exact (update_of_ne (by omega) ..).trans (h.beyond q hq')

theorem reflect (h : Represents e a) (hdrb : DrbOk drbId) {hdr : Byte}
    (hlook : a.role drbId = none ∨ (e.drbLookup drbId).isSome) :
    Represents (e.rxEntity drbId hdr) (a.reflect drbId hdr) := by
  have hd := drbOk_ne_zero hdrb
  have hq : Entity.qfiOf hdr < maxQfi := Nat.mod_lt _ (by decide)
  unfold Entity.rxEntity FlowMap.reflect
  cases hmap : e.drbLookup drbId with
  | none =>
    have hrole : a.role drbId = none := hlook.resolve_right (by simp [hmap])
    rw [hrole]
    exact h
  | some map =>
    have hrole := (h.role_of_drbLookup hmap hd).2
    rw [hrole, Option.any_some]
    dsimp only
    by_cases hrefl : (map.entityRole.dlRx && Entity.reflective hdr)
    · rw [if_pos hrefl, if_pos hrefl]
      refine setRow ?_ hq hd hrole
      generalize hmark :
        (if (e.qfi2drbTable (Entity.qfiOf hdr)).drbId = 0 ∧ e.defaultDrb.drbId ≠ 0 then
        e.submitCtrlPdu e.defaultDrb.drbId (Entity.qfiOf hdr) else e) = e₁
      have h₁ : Represents e₁ a := by
        subst hmark
        split
        · exact h.of_same (Entity.submitCtrlPdu_same ..)
        · exact h
      split
      · exact h₁.of_same (Entity.submitCtrlPdu_same ..)
      · exact h₁
    · rw [if_neg hrefl, if_neg hrefl]
      exact h

end Represents

theorem getConfig_eq {isGnb : Bool} {ie : SdapConfigIe} {drbId : Int} {sdap : SdapConfig}
    (hadds : ie.mappedQosFlowsToAdd.length ≤ maxQfi)
    (hreleases : ie.mappedQosFlowsToRelease.length ≤ maxQfi)
    (h : getConfig isGnb ie drbId = .ok sdap) :
    sdap.drbId = drbId ∧ sdap.role = getSdapRole isGnb ie ∧ sdap.defaultDrb = ie.defaultDrb ∧
      sdap.mappedQfis2Add = ie.mappedQosFlowsToAdd ∧
      sdap.mappedQfis2Release = ie.mappedQosFlowsToRelease := by
  have htake : ∀ l : List Int, l.length ≤ maxQfi → l.take (l.length % 2 ^ 8) = l := by
    intro l hl
    rw [Nat.mod_eq_of_lt (by rw [maxQfi] at hl; omega), take_length]
  unfold getConfig at h
  dsimp only at h
  split at h
  · cases h
    exact ⟨rfl, rfl, rfl, htake _ hadds, htake _ hreleases⟩
  · cases h

def Stands (x : Option Entity × FlowMap) : Prop :=
  match x.1 with
  | none => x.2 = .empty
  | some e => Represents e x.2

theorem Stands.step {x y : Option Entity × FlowMap} {op : Op} (h : Stands x)
    (hstep : GoodStep x op y) : Stands y := by
  obtain ⟨⟨hexec, hmap, hrole⟩, hmeets⟩ := hstep
  obtain ⟨s, a⟩ := x
  obtain ⟨t, b⟩ := y
  dsimp only at hexec hmap hrole hmeets
  subst hmap
  cases op with
  | addmodEntity isGnb sdap =>
    cases s with
    | none =>
      cases (show a = .empty from h)
      obtain ⟨e', he', rfl⟩ := map_eq_ok.mp hexec
      exact Represents.create hmeets.1 hmeets.2 he'
    | some e =>
      obtain ⟨e', he', rfl⟩ := map_eq_ok.mp hexec
      exact Represents.configure h hmeets hrole he'
  | reconfigureSdapEntity ie drbId =>
    obtain ⟨e, rfl, hcfg, hadds, hreleases⟩ := hmeets
    obtain ⟨sdap, hsdap, hexec⟩ := bind_eq_ok.mp hexec
    obtain ⟨e', he', rfl⟩ := map_eq_ok.mp hexec
    obtain ⟨rfl, hr, hdef, hadd, hrel⟩ := getConfig_eq hadds hreleases hsdap
    simp only [FlowMap.RoleFixed, FlowMap.apply, ← hr, ← hdef, ← hadd, ← hrel] at hrole hcfg ⊢
    exact Represents.configure h hcfg hrole he'
  | entityUpdateQosFlows sdap =>
    obtain ⟨hdrb, hnone | ⟨e, rfl, hlists, hown, hlook⟩⟩ := hmeets
    · -- the DRB is not there, and nothing happens
      have hsame : a.apply (.entityUpdateQosFlows sdap) = a := if_pos hnone
      rw [hsame]
      cases s with
      | none =>
        cases hexec
        exact h
      | some e =>
        have hlook := Represents.drbLookup_eq_none h hnone (Represents.drbOk_ne_zero hdrb)
        obtain ⟨e', he', rfl⟩ := map_eq_ok.mp hexec
        rw [Entity.updateQosFlows, hlook] at he'
        cases he'
        exact h
    · obtain ⟨e', he', rfl⟩ := map_eq_ok.mp hexec
      exact Represents.replace h hdrb hlists hown hlook he'
  | releaseDrb drbId =>
    obtain ⟨hdrb, hdefault⟩ := hmeets
    cases hexec
    cases s with
    | none =>
      cases (show a = .empty from h)
      exact FlowMap.empty_release drbId
    | some e => exact Represents.release h hdrb (hdefault e rfl)
  | dlPdu drbId hdr =>
    obtain ⟨hdrb, hlook⟩ := hmeets
    cases hexec
    cases s with
    | none =>
      cases (show a = .empty from h)
      rfl
    | some e =>
      refine Represents.reflect h hdrb (hlook.imp id fun hsome => ?_)
      obtain ⟨e', heq, hsome⟩ := hsome
      cases heq
      exact hsome

/-- In every run whose operations do what they are for, the table does what the map of the
operations says. -/
theorem mapping_of_run (ops : List Op) (e : Entity) (a : FlowMap)
    (hrun : Run GoodStep (none, .empty) ops (some e, a)) : Mapping e a := by
  have hstands : Stands (some e, a) :=
    hrun.invariant Stands (show Stands (none, .empty) from rfl) fun _ _ _ => Stands.step
  exact Represents.mapping hstands

def configOf (drbId : Int) (isDefault : Bool) (adds releases : List Int) (ha : adds.length ≤ maxQfi)
    (hr : releases.length ≤ maxQfi) : SdapConfig where
  drbId := drbId
  role := { ulTx := true, dlRx := true }
  defaultDrb := isDefault
  mappedQfis2Add := adds
  mappedQfis2Release := releases
  add_length_le := ha
  release_length_le := hr

theorem length_le_maxQfi : [(5 : Int)].length ≤ maxQfi := by decide

theorem length_nil_le_maxQfi : ([] : List Int).length ≤ maxQfi := Nat.zero_le _

def setUpDrb1 : Op :=
  .addmodEntity false (configOf 1 true [5] [] length_le_maxQfi length_nil_le_maxQfi)

def addFlowToDrb2 : Op :=
  .addmodEntity false (configOf 2 false [5] [] length_le_maxQfi length_nil_le_maxQfi)

def addOtherFlowToDrb2 : Op :=
  .addmodEntity false (configOf 2 false [6] [] (by decide) length_nil_le_maxQfi)

def releaseFlowFromDrb1 : Op :=
  .addmodEntity false (configOf 1 false [] [5] length_nil_le_maxQfi length_le_maxQfi)

def after (ops : List Op) : Option Entity × FlowMap :=
  ops.foldl (fun x op => ((exec x.1 op).toOption.getD none, x.2.apply op)) (none, .empty)

def entityAfter (ops : List Op) : Entity := (after ops).1.getD { isGnb := false }

/-- Flow 5 is released from its own DRB, flow 6 stays on DRB 2. -/
theorem mapping_of_run_two_drbs :
    let e := entityAfter [setUpDrb1, addOtherFlowToDrb2, releaseFlowFromDrb1]
    (e.qfi2drb 5).map Qfi2Drb.drbId = some 1 ∧ (e.qfi2drb 6).map Qfi2Drb.drbId = some 2 := by
  have h₁ : GoodStep (none, .empty) setUpDrb1 (after [setUpDrb1]) :=
    ⟨⟨rfl, rfl, .inl rfl⟩, ⟨by decide, by decide, by decide⟩, by decide, by decide⟩
  have h₂ :
      GoodStep (after [setUpDrb1]) addOtherFlowToDrb2 (after [setUpDrb1, addOtherFlowToDrb2]) :=
    ⟨⟨rfl, rfl, .inl rfl⟩, ⟨by decide, by decide, by decide⟩, ⟨by decide, by decide⟩, nofun, nofun⟩
  have hown : ReleasesOwn (entityAfter [setUpDrb1, addOtherFlowToDrb2]) 1 [5] := by
    intro qfi hqfi
    obtain rfl : qfi = 5 := Int.ofNat_inj.mp (mem_singleton.mp hqfi)
    exact .inr rfl
  have h₃ : GoodStep (after [setUpDrb1, addOtherFlowToDrb2]) releaseFlowFromDrb1
      (some (entityAfter [setUpDrb1, addOtherFlowToDrb2, releaseFlowFromDrb1]),
        (after [setUpDrb1, addOtherFlowToDrb2, releaseFlowFromDrb1]).2) :=
    ⟨⟨rfl, rfl, .inr rfl⟩, ⟨by decide, by decide, by decide⟩, ⟨by decide, by decide⟩, hown, nofun⟩
  have h := mapping_of_run _ _ _ (.cons h₁ (.cons h₂ (.cons h₃ .nil)))
  exact ⟨h.flow 5, h.flow 6⟩

/-- The release takes the flow away from DRB 2. -/
theorem not_forall_mapping : ¬ ∀ (ops : List Op) (e : Entity) (a : FlowMap),
    Run Step (none, .empty) ops (some e, a) → Mapping e a := by
  intro hclaim
  have h₁ : Step (none, .empty) setUpDrb1 (after [setUpDrb1]) := ⟨rfl, rfl, .inl rfl⟩
  have h₂ : Step (after [setUpDrb1]) addFlowToDrb2 (after [setUpDrb1, addFlowToDrb2]) :=
    ⟨rfl, rfl, .inl rfl⟩
  have h₃ : Step (after [setUpDrb1, addFlowToDrb2]) releaseFlowFromDrb1
      (some (entityAfter [setUpDrb1, addFlowToDrb2, releaseFlowFromDrb1]),
        (after [setUpDrb1, addFlowToDrb2, releaseFlowFromDrb1]).2) := ⟨rfl, rfl, .inr rfl⟩
  have hflow := (hclaim _ _ _ (.cons h₁ (.cons h₂ (.cons h₃ .nil)))).flow 5
  exact absurd hflow (by decide)

end OpenAir.Sdap

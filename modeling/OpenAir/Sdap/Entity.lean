import Mathlib.Logic.Function.Basic
import OpenAir.Lib.Bits

/-! The SDAP entity of a PDU session: the table of QoS flows and the operations that change it. -/

namespace OpenAir.Sdap

def maxQfi : Nat := 64

def maxDrbsPerUe : Int := 32

/-- The bits of `sdap_role_t`: where there is a header, in the uplink and the downlink. -/
structure Role where
  ulTx : Bool := false
  ulRx : Bool := false
  dlTx : Bool := false
  dlRx : Bool := false
  deriving DecidableEq

/-- `NO_SDAP_HEADER` -/
def Role.noHeader : Role := {}

/-- `qfi2drb_t` -/
structure Qfi2Drb where
  drbId : Int := 0
  entityRole : Role := {}
  deriving DecidableEq

/-- `sdap_config_t` without the session; the two arrays have room for 64 flows. -/
structure SdapConfig where
  drbId : Int
  role : Role
  defaultDrb : Bool
  mappedQfis2Add : List Int
  mappedQfis2Release : List Int
  add_length_le : mappedQfis2Add.length ≤ maxQfi
  release_length_le : mappedQfis2Release.length ≤ maxQfi

def uint8 (v : Int) : Nat := (v % 2 ^ 8).toNat

inductive Abort
  | outOfBounds
  | assertion
  deriving DecidableEq

abbrev Exec (α : Type) := Except Abort α

def require (p : Prop) [Decidable p] (e : Abort) : Exec Unit := if p then .ok () else .error e

structure CtrlPdu where
  drbId : Int
  qfi : Nat
  deriving DecidableEq

/-- `nr_sdap_entity_t` -/
structure Entity where
  isGnb : Bool
  defaultDrb : Qfi2Drb := {}
  qfi2drbTable : Nat → Qfi2Drb := fun _ => {}
  submitted : List CtrlPdu := []

namespace Entity

variable (e : Entity)

def setRow (qfi : Nat) (row : Qfi2Drb) : Entity :=
  { e with qfi2drbTable := Function.update e.qfi2drbTable qfi row }

def drbLookup (drbId : Int) : Option Qfi2Drb :=
  match (List.range maxQfi).find? fun qfi => (e.qfi2drbTable qfi).drbId = drbId with
  | some qfi => some (e.qfi2drbTable qfi)
  | none => if e.defaultDrb.drbId = drbId then some e.defaultDrb else none

def qfi2drb (qfi : Nat) : Option Qfi2Drb :=
  if qfi < maxQfi ∧ (e.qfi2drbTable qfi).drbId ≠ 0 then some (e.qfi2drbTable qfi)
  else if e.defaultDrb.drbId ≠ 0 then some e.defaultDrb
  else none

/-- `nr_sdap_submit_ctrl_pdu`; there is no DRB 0. -/
def submitCtrlPdu (drbId : Int) (qfi : Nat) : Entity :=
  if drbId ≠ 0 then { e with submitted := e.submitted ++ [{ drbId, qfi }] } else e

/-- `nr_sdap_map_ctrl_pdu` according to the stored rule. -/
def ruleDrb (qfi : Nat) : Int := ((e.qfi2drb qfi).map Qfi2Drb.drbId).getD 0

def ueControlPduStep (drbId : Int) (e : Entity) (v : Int) : Exec Entity := do
  let qfi := uint8 v
  require (qfi < maxQfi) .outOfBounds
  let e :=
    if e.defaultDrb.drbId ≠ 0 ∧ (e.qfi2drbTable qfi).drbId = 0 then
      e.submitCtrlPdu e.defaultDrb.drbId qfi
    else e
  if (e.qfi2drbTable qfi).drbId ≠ drbId ∧ (e.qfi2drbTable qfi).entityRole.ulTx then
    return e.submitCtrlPdu (e.ruleDrb qfi) qfi
  else return e

def ueControlPduConfig (sdap : SdapConfig) : Exec Entity :=
  sdap.mappedQfis2Add.foldlM (ueControlPduStep sdap.drbId) e

def addQosFlow (sdap : SdapConfig) (e : Entity) (v : Int) : Entity :=
  if uint8 v < maxQfi ∧ 0 < sdap.drbId ∧ sdap.drbId ≤ maxDrbsPerUe then
    e.setRow (uint8 v) { drbId := sdap.drbId, entityRole := sdap.role }
  else e

def addQosFlowsToDrb (sdap : SdapConfig) : Entity := sdap.mappedQfis2Add.foldl (addQosFlow sdap) e

/-- `nr_sdap_qfi2drb_map_del`; the row is not checked. -/
def qfi2drbMapDel (e : Entity) (v : Int) : Exec Entity := do
  require (uint8 v < maxQfi) .outOfBounds
  return e.setRow (uint8 v) {}

def rmQosFlowsFromDrb (sdap : SdapConfig) : Exec Entity :=
  sdap.mappedQfis2Release.foldlM qfi2drbMapDel e

def setRole (drbId : Int) (role : Role) : Entity :=
  { e with
    qfi2drbTable := fun qfi =>
      if qfi < maxQfi ∧ (e.qfi2drbTable qfi).drbId = drbId then { drbId, entityRole := role }
      else e.qfi2drbTable qfi }

def flowsOn (drbId : Int) : List Nat :=
  (List.range maxQfi).filter fun qfi => (e.qfi2drbTable qfi).drbId = drbId

def qfi2drbMapUpdate (sdap : SdapConfig) : Exec Entity := do
  let e ← (e.addQosFlowsToDrb sdap).rmQosFlowsFromDrb sdap
  let e := e.setRole sdap.drbId sdap.role
  if sdap.role = .noHeader then require ((e.flowsOn sdap.drbId).length ≤ 1) .assertion
  return e

/-- `qfi2drb_map_update` of the entity: the UE sends its end markers before. -/
def mapUpdate (sdap : SdapConfig) : Exec Entity :=
  if e.isGnb then e.qfi2drbMapUpdate sdap
  else do
    let e ← e.ueControlPduConfig sdap
    e.qfi2drbMapUpdate sdap

end Entity

def addEntity (isGnb : Bool) (sdap : SdapConfig) : Exec Entity := do
  let e : Entity := { isGnb }
  let e :=
    if sdap.defaultDrb then
      { e with defaultDrb := { drbId := sdap.drbId, entityRole := sdap.role } }
    else e
  if sdap.role = .noHeader then require (sdap.mappedQfis2Add.length ≤ 1) .assertion
  return e.addQosFlowsToDrb sdap

/-- `NR_SDAP_Config_t` without the session. -/
structure SdapConfigIe where
  sdapHeaderUl : Bool
  sdapHeaderDl : Bool
  defaultDrb : Bool
  mappedQosFlowsToAdd : List Int
  mappedQosFlowsToRelease : List Int

def getSdapRole (isGnb : Bool) (ie : SdapConfigIe) : Role where
  ulTx := ie.sdapHeaderUl && !isGnb
  ulRx := ie.sdapHeaderUl && isGnb
  dlTx := ie.sdapHeaderDl && isGnb
  dlRx := ie.sdapHeaderDl && !isGnb

/-- `nr_sdap_get_config`.  The counts are kept in 8 bits. -/
def getConfig (isGnb : Bool) (ie : SdapConfigIe) (drbId : Int) : Exec SdapConfig :=
  let adds := ie.mappedQosFlowsToAdd.take (ie.mappedQosFlowsToAdd.length % 2 ^ 8)
  let releases := ie.mappedQosFlowsToRelease.take (ie.mappedQosFlowsToRelease.length % 2 ^ 8)
  if h : adds.length ≤ maxQfi ∧ releases.length ≤ maxQfi then
    .ok
      { drbId
        role := getSdapRole isGnb ie
        defaultDrb := ie.defaultDrb
        mappedQfis2Add := adds
        mappedQfis2Release := releases
        add_length_le := h.1
        release_length_le := h.2 }
  else .error .assertion

inductive Op
  | addmodEntity (isGnb : Bool) (sdap : SdapConfig)
  | reconfigureSdapEntity (ie : SdapConfigIe) (drbId : Int)
  | entityUpdateQosFlows (sdap : SdapConfig)
  | releaseDrb (drbId : Int)
  | dlPdu (drbId : Int) (hdr : Byte)

namespace Entity

variable (e : Entity)

/-- What `nr_sdap_entity_update_qos_flows` releases: the flows of the DRB that are not in the
list. -/
def flowsToRelease (sdap : SdapConfig) : List Int :=
  ((e.flowsOn sdap.drbId).filter fun qfi : Nat => !sdap.mappedQfis2Add.contains qfi).map Int.ofNat

def updateQosFlows (sdap : SdapConfig) : Exec Entity :=
  match e.drbLookup sdap.drbId with
  | none => return e
  | some row =>
    if h : (sdap.mappedQfis2Release ++ e.flowsToRelease sdap).length ≤ maxQfi then
      e.mapUpdate
        { drbId := sdap.drbId
          role := row.entityRole
          defaultDrb := e.defaultDrb.drbId = sdap.drbId
          mappedQfis2Add := sdap.mappedQfis2Add
          mappedQfis2Release := sdap.mappedQfis2Release ++ e.flowsToRelease sdap
          add_length_le := sdap.add_length_le
          release_length_le := h }
    else .error .assertion

/-- `nr_sdap_release_drb`: the role stays in the row. -/
def release (drbId : Int) : Entity :=
  { e with
    qfi2drbTable := fun qfi =>
      if qfi < maxQfi ∧ (e.qfi2drbTable qfi).drbId = drbId then
        { e.qfi2drbTable qfi with drbId := 0 }
      else e.qfi2drbTable qfi }

def qfiOf (hdr : Byte) : Nat := hdr.toNat % 2 ^ 6

def reflective (hdr : Byte) : Bool := hdr.toNat / 2 ^ 7 = 1

def rxEntity (drbId : Int) (hdr : Byte) : Entity :=
  match e.drbLookup drbId with
  | none => e
  | some map =>
    if map.entityRole.dlRx && reflective hdr then
      let qfi := qfiOf hdr
      let e :=
        if (e.qfi2drbTable qfi).drbId = 0 ∧ e.defaultDrb.drbId ≠ 0 then
          e.submitCtrlPdu e.defaultDrb.drbId qfi
        else e
      let e :=
        if drbId ≠ (e.qfi2drbTable qfi).drbId then e.submitCtrlPdu (e.ruleDrb qfi) qfi else e
      e.setRow qfi { drbId, entityRole := map.entityRole }
    else e

end Entity

def exec (s : Option Entity) : Op → Exec (Option Entity)
  | .addmodEntity isGnb sdap =>
    match s with
    | some e => some <$> e.mapUpdate sdap
    | none => some <$> addEntity isGnb sdap
  | .reconfigureSdapEntity ie drbId =>
    match s with
    | some e => do
      let sdap ← getConfig false ie drbId
      some <$> e.mapUpdate sdap
    | none => return none
  | .entityUpdateQosFlows sdap =>
    match s with
    | some e => some <$> e.updateQosFlows sdap
    | none => return none
  | .releaseDrb drbId => return s.map (·.release drbId)
  | .dlPdu drbId hdr => return s.map (·.rxEntity drbId hdr)

end OpenAir.Sdap

import OpenAir.Lib.Bits

/-! The state of a PDCP entity, its configuration and the security algorithms it calls. -/

namespace OpenAir.Pdcp

/-- `NR_PDCP_DRB_AM`, `NR_PDCP_DRB_UM`, `NR_PDCP_SRB` -/
inductive EntityType
  | drbAm
  | drbUm
  | srb
  deriving DecidableEq

/-- `NR_K_KEY_SIZE` bytes. -/
abbrev Key := Vector Byte 16

structure SecurityKeysAndAlgos where
  integrityAlgorithm : Int := 0
  cipheringAlgorithm : Int := 0
  integrityKey : Key := .replicate 16 0
  cipheringKey : Key := .replicate 16 0
  deriving DecidableEq

structure Context where
  algorithm : Int := 0
  key : Key := .replicate 16 0
  deriving DecidableEq

/-- The algorithms.  Ciphering works on a buffer in place; the last arguments are bearer, COUNT and
direction. -/
structure Security where
  cipher : Context → List Byte → Int → UInt32 → Nat → List Byte
  decipher : Context → List Byte → Int → UInt32 → Nat → List Byte
  integrity : Context → List Byte → Int → UInt32 → Nat → List Byte
  length_cipher : ∀ ctx buffer bearer count direction,
    (cipher ctx buffer bearer count direction).length = buffer.length
  length_decipher : ∀ ctx buffer bearer count direction,
    (decipher ctx buffer bearer count direction).length = buffer.length
  length_integrity : ∀ ctx buffer bearer count direction,
    (integrity ctx buffer bearer count direction).length = 4

/-- The parameters of `new_nr_pdcp_entity`; `t_reordering` is -1 for infinity. -/
structure Config where
  type : EntityType
  isGnb : Bool
  rbId : Int
  hasSdapRx : Bool
  hasSdapTx : Bool
  snSize : Nat
  tReordering : Int
  snSize_eq : snSize = 12 ∨ snSize = 18

namespace Config

variable (c : Config)

def snMax : Nat := 2 ^ c.snSize - 1

def windowSize : Nat := 2 ^ (c.snSize - 1)

def headerSize : Nat := if c.snSize = 12 then 2 else 3

def rxDirection : Nat := if c.isGnb then 0 else 1

def txDirection : Nat := if c.isGnb then 1 else 0

end Config

structure IntegrityData where
  count : UInt32 := 0
  mac : List Byte := List.replicate 4 0
  headerSize : Nat := 0
  header : List Byte := List.replicate 3 0
  deriving DecidableEq

structure Sdu where
  count : UInt32
  buffer : List Byte
  msgIntegrity : IntegrityData
  deriving DecidableEq

/-- The timer holds the time of its start, 0 when it does not run. -/
structure Entity where
  txNext : UInt32 := 0
  rxNext : UInt32 := 0
  rxDeliv : UInt32 := 0
  rxReord : UInt32 := 0
  tCurrent : UInt64 := 0
  tReorderingStart : UInt64 := 0
  hasCiphering : Bool := false
  hasIntegrity : Bool := false
  securityKeysAndAlgos : SecurityKeysAndAlgos := {}
  securityContext : Context := {}
  integrityContext : Context := {}
  rxList : List Sdu := []
  entitySuspended : Bool := false
  deriving DecidableEq

namespace Entity

/-- SRBs always have MAC-I, even if integrity is not active. -/
def integritySize (c : Config) (e : Entity) : Nat :=
  if e.hasIntegrity || c.type = .srb then 4 else 0

/-- -1 keeps the current algorithm and key. -/
def storeKeys (e : Entity) (parameters : SecurityKeysAndAlgos) : Entity :=
  { e with securityKeysAndAlgos :=
    { integrityAlgorithm :=
        if parameters.integrityAlgorithm ≠ -1 then parameters.integrityAlgorithm
        else e.securityKeysAndAlgos.integrityAlgorithm
      integrityKey :=
        if parameters.integrityAlgorithm ≠ -1 then parameters.integrityKey
        else e.securityKeysAndAlgos.integrityKey
      cipheringAlgorithm :=
        if parameters.cipheringAlgorithm ≠ -1 then parameters.cipheringAlgorithm
        else e.securityKeysAndAlgos.cipheringAlgorithm
      cipheringKey :=
        if parameters.cipheringAlgorithm ≠ -1 then parameters.cipheringKey
        else e.securityKeysAndAlgos.cipheringKey } }

def setIntegrity (e : Entity) (algorithm : Int) : Option Entity :=
  if algorithm = 0 then some { e with hasIntegrity := false }
  else if algorithm = -1 then some e
  else if algorithm = 2 ∨ algorithm = 1 then
    some { e with
      hasIntegrity := true
      integrityContext := ⟨algorithm, e.securityKeysAndAlgos.integrityKey⟩ }
  else none

def setCiphering (e : Entity) (algorithm : Int) : Option Entity :=
  if algorithm = 0 then some { e with hasCiphering := false }
  else if algorithm = -1 then some e
  else if algorithm = 2 ∨ algorithm = 1 then
    some { e with
      hasCiphering := true
      securityContext := ⟨algorithm, e.securityKeysAndAlgos.cipheringKey⟩ }
  else none

/-- `nr_pdcp_entity_set_security`; `none` is the exit on an unknown algorithm. -/
def setSecurity (e : Entity) (parameters : SecurityKeysAndAlgos) : Option Entity :=
  ((e.storeKeys parameters).setIntegrity parameters.integrityAlgorithm).bind fun e =>
    e.setCiphering parameters.cipheringAlgorithm

/-- `new_nr_pdcp_entity` -/
def new (parameters : SecurityKeysAndAlgos) : Option Entity := setSecurity {} parameters

theorem setIntegrity_eq {e e' : Entity} {algorithm : Int}
    (h : e.setIntegrity algorithm = some e') :
    ∃ hasIntegrity integrityContext, e' = { e with hasIntegrity, integrityContext } := by
  unfold setIntegrity at h
  split at h
  · cases h
    exact ⟨_, _, rfl⟩
  · split at h
    · cases h
      exact ⟨_, _, rfl⟩
    · split at h
      · cases h
        exact ⟨_, _, rfl⟩
      · cases h

theorem setCiphering_eq {e e' : Entity} {algorithm : Int}
    (h : e.setCiphering algorithm = some e') : e' = { e with
      hasCiphering := if algorithm = -1 then e.hasCiphering else decide (algorithm ≠ 0)
      securityContext := if algorithm = -1 ∨ algorithm = 0 then e.securityContext
        else ⟨algorithm, e.securityKeysAndAlgos.cipheringKey⟩ } := by
  unfold setCiphering at h
  split at h
  · next h₀ =>
    cases h
    simp [h₀]
  · next h₀ =>
    split at h
    · next h₁ =>
      cases h
      simp [h₁]
    · next h₁ =>
      split at h
      · cases h
        simp [h₀, h₁]
      · cases h

theorem setSecurity_eq {e e' : Entity} {parameters : SecurityKeysAndAlgos}
    (h : e.setSecurity parameters = some e') :
    ∃ hasIntegrity integrityContext securityKeysAndAlgos, e' = { e with
      hasIntegrity, integrityContext, securityKeysAndAlgos
      hasCiphering := if parameters.cipheringAlgorithm = -1 then e.hasCiphering
        else decide (parameters.cipheringAlgorithm ≠ 0)
      securityContext :=
        if parameters.cipheringAlgorithm = -1 ∨ parameters.cipheringAlgorithm = 0 then
          e.securityContext
        else ⟨parameters.cipheringAlgorithm, parameters.cipheringKey⟩ } := by
  obtain ⟨e₁, h₁, h₂⟩ := Option.bind_eq_some_iff.mp h
  obtain ⟨hasIntegrity, integrityContext, rfl⟩ := setIntegrity_eq h₁
  refine ⟨hasIntegrity, integrityContext, (e.storeKeys parameters).securityKeysAndAlgos, ?_⟩
  rw [setCiphering_eq h₂]
  by_cases hkeep : parameters.cipheringAlgorithm = -1 <;> simp [storeKeys, hkeep]

end Entity

end OpenAir.Pdcp

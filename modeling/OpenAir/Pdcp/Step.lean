import OpenAir.Lib.Run
import OpenAir.Pdcp.Transmit

namespace OpenAir.Pdcp

inductive Op
  | recvPdu (pdu : List Byte)
  | setTime (now : UInt64)
  | processSdu (sdu : List Byte) (pduMaxSize : Nat)
  | setSecurity (parameters : SecurityKeysAndAlgos)
  | suspend
  | reestablish (parameters : SecurityKeysAndAlgos)
  | setCountUl (count : Count) (snSize : Nat)
  | setCountDl (count : Count) (snSize : Nat)
  | release

structure Output where
  delivered : List Sdu := []
  accepted : Option Sdu := none
  pdu : Option (List Byte) := none
  keystream : Option Keystream := none

variable (sec : Security) (c : Config)

/-- `none` for an exit of the program. -/
def exec (e : Entity) : Op → Option (Entity × Output)
  | .recvPdu pdu =>
    let r := e.recvPdu sec c pdu
    some (r.1, { delivered := r.2, accepted := e.accepted sec c pdu })
  | .setTime now =>
    let r := e.setTime c now
    some (r.1, { delivered := r.2 })
  | .processSdu sdu pduMaxSize => (e.processSdu sec c sdu pduMaxSize).map fun r =>
      (r.1, { pdu := r.2, keystream := if r.2.isSome then e.keystream c else none })
  | .setSecurity parameters => (e.setSecurity parameters).map fun e => (e, {})
  | .suspend =>
    let r := e.suspend
    some (r.1, { delivered := r.2 })
  | .reestablish parameters => (e.reestablish c parameters).map fun r => (r.1, { delivered := r.2 })
  | .setCountUl count snSize => some (e.setCountUl count snSize, {})
  | .setCountDl count snSize => some (e.setCountDl count snSize, {})
  | .release =>
    let r := e.deliverAllSdus
    some (r.1, { delivered := r.2 })

def Step (e : Entity) (l : Op × Output) (e' : Entity) : Prop := exec sec c e l.1 = some (e', l.2)

def Security.small : Security where
  cipher ctx buffer _ count _ :=
    buffer.map fun b => b ^^^ ctx.key.get ⟨0, Nat.zero_lt_succ 15⟩ ^^^ .ofNat 8 count.toNat
  decipher ctx buffer _ count _ :=
    buffer.map fun b => b ^^^ ctx.key.get ⟨0, Nat.zero_lt_succ 15⟩ ^^^ .ofNat 8 count.toNat
  integrity _ buffer _ count _ := List.replicate 4 (buffer.foldl (· + ·) (.ofNat 8 count.toNat))
  length_cipher := by simp
  length_decipher := by simp
  length_integrity := by simp

def Config.small (isGnb : Bool) : Config where
  type := .drbAm
  isGnb := isGnb
  rbId := 1
  hasSdapRx := true
  hasSdapTx := true
  snSize := 12
  tReordering := 100
  snSize_eq := .inl rfl

def SecurityKeysAndAlgos.small : SecurityKeysAndAlgos :=
  { integrityAlgorithm := 2, cipheringAlgorithm := 2, cipheringKey := .replicate 16 0x5a }

def Entity.small : Entity :=
  { hasCiphering := true
    hasIntegrity := true
    securityKeysAndAlgos := .small
    securityContext := ⟨2, .replicate 16 0x5a⟩
    integrityContext := ⟨2, .replicate 16 0⟩ }

example : Entity.new .small = some .small := by decide

end OpenAir.Pdcp

import OpenAir.Nas.Context

namespace OpenAir.Nas

structure Protection where
  container : Container
  mac : StreamCipher
  ciphers : List StreamCipher
  deriving DecidableEq

structure Uplink where
  message : Plain
  header : SecurityHeader := .plain5gsMsg
  data : List Byte
  protection : Option Protection := none
  deriving DecidableEq

def fgsMobilityManagementMessage : Byte := 0x7e

def Container.encrypt (env : Env) (c : Container) (cipher : StreamCipher) : List Byte :=
  env.computeEncrypt c.cipheringAlgorithm c.cipheringKey cipher

def Container.mac (env : Env) (c : Container) (cipher : StreamCipher) : Vector Byte 4 :=
  env.computeIntegrity c.integrityAlgorithm c.integrityKey cipher

def uplinkCipher (count : BitVec 32) (message : List Byte) : StreamCipher where
  count
  bearer := 1
  direction := 0
  message

namespace NrUeNas

variable (env : Env) (nas : NrUeNas)

def securityContext : Option Container :=
  nas.securityContainer.filter fun c => c.integrityAlgorithm ≠ .eia0

def countUp : NrUeNas :=
  { nas with security := { nas.security with nasCountUl := nas.security.nasCountUl + 1 } }

def setKgnb (kgnb : Key32) : NrUeNas :=
  { nas with security := { nas.security with keys := { nas.security.keys with kgnb } } }

def sealed (c : Container) (header : SecurityHeader) (message : Plain) (body : List Byte)
    (ciphers : List StreamCipher) : Uplink :=
  let count := nas.security.nasCountUl
  let mac := uplinkCipher count (count.setWidth 8 :: body)
  { message, header
    data := [fgsMobilityManagementMessage, header.octet] ++ (c.mac env mac).toList ++
      count.setWidth 8 :: body
    protection := some { container := c, mac, ciphers } }

def cipherAndProtect (c : Container) (header : SecurityHeader) (message : Plain) :
    Call (NrUeNas × Uplink) :=
  if nas.security.nasCountUl > 0xffffff then .error .assertion
  else
    let cipher := uplinkCipher nas.security.nasCountUl (env.mmMsgEncode message)
    .ok (nas.countUp, nas.sealed env c header message (c.encrypt env cipher) [cipher])

def protectWithContainer (header : SecurityHeader) (message : Plain) : Call (NrUeNas × Uplink) :=
  match nas.securityContainer with
  | none => .error .nullPointer
  | some c => nas.cipherAndProtect env c header message

/-- `set_fgs_ksi`; 7 stands for none. -/
def setFgsKsi : BitVec 3 :=
  match nas.securityContext, nas.ksi with
  | some _, some ksi => ksi
  | _, _ => 7

def setFgsRegistrationType : RegistrationType :=
  if nas.fiveGMMState = .registered ∧ nas.fiveGMMMode = .idle ∧ nas.t3512 ≠ 0 then .reserved
  else if nas.fiveGMMState = .registered then .mobilityRegistrationUpdating
  else if nas.fiveGMMMode = .connected ∧ nas.isRrcInactive then .reserved
  else .initialRegistration

def registrationRequest (capability : Bool) (container : Option (List Byte)) : Plain :=
  .registrationRequest nas.setFgsRegistrationType nas.setFgsKsi nas.guti capability container

def plainUplink (message : Plain) : Uplink := { message, data := env.mmMsgEncode message }

def generateRegistrationRequest : Call (NrUeNas × List Uplink) :=
  if nas.setFgsRegistrationType = .reserved then .ok (nas, [])
  else
    match nas.securityContext with
    | none => .ok (nas, [plainUplink env (nas.registrationRequest false none)])
    | some c =>
      -- the value of the container is not ciphered
      let message :=
        nas.registrationRequest false (some (env.mmMsgEncode (nas.registrationRequest true none)))
      let count := nas.security.nasCountUl
      let nas := nas.setKgnb (deriveKgnb env nas.security.keys.kamf count)
      if count > 0xffffff then .error .assertion
      else .ok (nas.countUp,
        [nas.sealed env c .integrityProtected message (env.mmMsgEncode message) []])

def registrationRequestContainer : Call (List Byte) :=
  if nas.setFgsRegistrationType = .reserved then .error .uninitialized
  else .ok (env.mmMsgEncode (nas.registrationRequest true none))

/-- The PDU sessions that a Service Request tells of, if there are any; number 0 is spare. -/
def pduSessionStatus : Option (Vector Bool maxNumPsi) :=
  let active := Vector.ofFn fun i : Fin maxNumPsi => i.val ≠ 0 && nas.psiStatus[i]
  if active.any id then some active else none

def generateServiceRequest (moUlData : Bool) : Call (NrUeNas × Uplink) :=
  match nas.guti with
  | none => .error .assertion
  | some guti =>
    let status := nas.pduSessionStatus
    let uplinkStatus := if moUlData then status else none
    match nas.securityContext with
    | none => .ok (nas, plainUplink env (.serviceRequest nas.setFgsKsi guti none none none))
    | some c =>
      let count := nas.security.nasCountUl
      let sealWith := fun message ciphers =>
        (nas.countUp.setKgnb (deriveKgnb env nas.security.keys.kamf count),
          nas.sealed env c .integrityProtected message (env.mmMsgEncode message) ciphers)
      match status with
      | none => .ok (sealWith (.serviceRequest nas.setFgsKsi guti none none none) [])
      | some status =>
        if count > 0xffffff then .error .assertion
        else
          -- only the value of the container is ciphered
          let full :=
            env.mmMsgEncode (.serviceRequest nas.setFgsKsi guti uplinkStatus (some status) none)
          let cipher := uplinkCipher count full
          .ok (sealWith (.serviceRequest nas.setFgsKsi guti none none (some (c.encrypt env cipher)))
            [cipher])

def generateSecurityModeComplete : Call (NrUeNas × Uplink) := do
  let container ← nas.registrationRequestContainer env
  nas.protectWithContainer env .integrityProtectedAndCipheredWithNewSecuCtx
    (.securityModeComplete container)

def securityModeRejectedUnspecified : Byte := 0x18

/-- `generateSecurityModeReject`, which has no buffer for a protected message. -/
def generateSecurityModeReject (cause : Byte) : Call (NrUeNas × Uplink) :=
  match nas.securityContext with
  | some _ => .error .nullPointer
  | none => .ok (nas, plainUplink env (.securityModeReject cause))

def generateRegistrationComplete : Call (NrUeNas × Uplink) := do
  let (nas, uplink) ←
    nas.protectWithContainer env .integrityProtectedAndCiphered .registrationComplete
  return ({ nas with fiveGMMState := .registered }, uplink)

def generatePduSessionModificationComplete (pduSessionId pti : Byte) : Call (NrUeNas × Uplink) :=
  nas.protectWithContainer env .integrityProtectedAndCiphered
    (.pduSessionModificationComplete pduSessionId pti)

def generatePduSessionEstablishRequest (req : PduSessionReq) : Call (NrUeNas × Uplink) :=
  nas.protectWithContainer env .integrityProtectedAndCiphered (.pduSessionEstablishmentRequest req)

def generateDeregistrationRequest (guti : Guti) : Call (NrUeNas × Uplink) := do
  let (nas, uplink) ←
    nas.protectWithContainer env .integrityProtectedAndCiphered (.deregistrationRequest guti)
  return ({ nas with fiveGMMState := .deregisteredInitiated }, uplink)

end NrUeNas

end OpenAir.Nas

import OpenAir.Nas.Uplink

namespace OpenAir.Nas

def fgsRegistrationAccept : Byte := 0x42

def fgsRegistrationReject : Byte := 0x44

def fgsDeregistrationAcceptUeOriginating : Byte := 0x46

def fgsServiceReject : Byte := 0x4d

def fgsServiceAccept : Byte := 0x4e

def fgsAuthenticationRequest : Byte := 0x56

def fgsAuthenticationReject : Byte := 0x58

def fgsAuthenticationResult : Byte := 0x5a

def fgsIdentityRequest : Byte := 0x5b

def fgsSecurityModeCommand : Byte := 0x5d

def fgsDownlinkNasTransport : Byte := 0x68

def fgsPduSessionEstablishmentAcc : Byte := 0xc2

def fgsPduSessionEstablishmentRej : Byte := 0xc3

def fgsPduSessionModificationCommand : Byte := 0xcb

/-- `Not_authorized_for_this_CAG_or_authorized_for_CAG_cells_only` -/
def notAuthorizedForThisCag : Byte := 0x4c

def ngKsiAlreadyInUse : Byte := 0x47

/-- `sizeof(fgmm_msg_header_t)` -/
def mmHeaderOctets : Nat := 3

/-- `SECURITY_PROTECTED_5GS_NAS_MESSAGE_HEADER_LENGTH` -/
def securityHeaderOctets : Nat := 7

section Checks

variable (b : Buffer)

/-- `get_msg_type`; 0 stands for an invalid message. -/
def getMsgType : Byte :=
  if b.len < 2 then 0
  else if b.octet 1 = 0 then if b.len < 3 then 0 else b.octet 2
  else if b.len < 10 then 0
  else if b.octet 9 = fgsDownlinkNasTransport then if b.len < 17 then 0 else b.octet 16
  else b.octet 9

def unprotectedAllowed (msgType : Byte) : Bool :=
  if msgType = fgsIdentityRequest ∨ msgType = fgsAuthenticationRequest ∨
      msgType = fgsAuthenticationResult ∨ msgType = fgsAuthenticationReject ∨
      msgType = fgsDeregistrationAcceptUeOriginating then true
  else if msgType = fgsRegistrationReject then
    mmHeaderOctets + 1 ≤ b.len && b.octet 3 ≠ notAuthorizedForThisCag
  else if msgType = fgsServiceReject then b.octet 4 ≠ notAuthorizedForThisCag
  else false

def nasSecurityGetSecHdr : Option (BitVec 4) :=
  if b.len < 3 then none
  else if ((b.octet 1).setWidth 4).toNat > 4 then none
  else some ((b.octet 1).setWidth 4)

def nasSecurityGetMac : Option (List Byte) :=
  if b.len < 8 then none
  else if b.octet 1 = 0 then none
  else some (slice b.octet 2 4)

end Checks

/-- `security_state_t` -/
inductive SecurityState
  | noSecurityContext
  | unprotected
  | integrityPassed
  | newSecurityContext
  | integrityFailed
  | badInput
  deriving DecidableEq

def SecurityState.discards : SecurityState → Bool
  | .noSecurityContext | .unprotected | .integrityPassed => false
  | .newSecurityContext | .integrityFailed | .badInput => true

def downlinkCipher (count : BitVec 32) (message : List Byte) : StreamCipher where
  count
  bearer := 1
  direction := 1
  message

/-- `nas_security_compute_mac` for the downlink. -/
def nasSecurityComputeMac (env : Env) (c : Container) (count : BitVec 32) (b : Buffer) :
    Vector Byte 4 :=
  c.mac env (downlinkCipher count (b.data.drop (securityHeaderOctets - 1)))

def nasSecurityDecryptPayload (env : Env) (c : Container) (count : BitVec 32) (b : Buffer) :
    Buffer :=
  match nasSecurityGetSecHdr b with
  | none => b
  | some secHdr =>
    if secHdr = 0 ∨ secHdr = 1 then b
    else
      let decrypted := c.encrypt env (downlinkCipher count (b.data.drop securityHeaderOctets))
      { b with data := b.data.take securityHeaderOctets ++ decrypted }

def estimatedCount (count : BitVec 32) (sqn : Byte) : BitVec 32 :=
  if sqn ≠ count.setWidth 8 then
    ((if sqn < count.setWidth 8 then count + 256 else count) &&& ~~~255) ||| sqn.setWidth 32
  else count

namespace NrUeNas

variable (env : Env) (nas : NrUeNas) (b : Buffer)

def setCountDl (count : BitVec 32) : NrUeNas :=
  { nas with security := { nas.security with nasCountDl := count } }

def deleteContainer : NrUeNas := { nas with securityContainer := none }

def rxProtected (c : Container) : Call (SecurityState × NrUeNas × Buffer) :=
  let count := estimatedCount nas.security.nasCountDl (b.octet 6)
  if count > 0xffffff then .error .exit
  else if slice b.octet 2 4 ≠ (nasSecurityComputeMac env c count b).toList then
    .ok (.integrityFailed, nas.setCountDl count, b)
  else .ok (.integrityPassed, nas.setCountDl (count + 1), nasSecurityDecryptPayload env c count b)

def nasSecurityRxProcess : Call (SecurityState × NrUeNas × Buffer) :=
  match nas.securityContainer with
  | none => .ok (.noSecurityContext, nas, b)
  | some c =>
    if b.len < mmHeaderOctets then .ok (.badInput, nas, b)
    else if b.octet 1 = 0 then
      .ok (if unprotectedAllowed b (getMsgType b) then .unprotected else .badInput, nas, b)
    else if b.octet 1 = 3 then
      .ok (.noSecurityContext, (nas.setCountDl 0).deleteContainer, b)
    else if b.octet 1 = 1 ∨ b.octet 1 = 4 then .ok (.badInput, nas, b)
    else if b.len < 8 then .ok (.badInput, nas, b)
    else nas.rxProtected env b c

def deriveUeKeys : NrUeNas :=
  let rand : Key16 := .ofFn fun i => b.octet (8 + i.val)
  let sqn : Vector Byte 6 := .ofFn fun i => b.octet (26 + i.val)
  let aka := env.f2345 rand
  let kausf := deriveKausf env aka.ck aka.ik sqn
  let kseaf := deriveKseaf env kausf
  let kamf := deriveKamf env kseaf 0
  let kgnb := deriveKgnb env kamf nas.security.nasCountUl
  { nas with security := { nas.security with
      keys := { nas.security.keys with kausf, kseaf, kamf, kgnb }
      rand
      res := transferRES env aka.ck aka.ik aka.res rand } }

def generateAuthenticationResp : NrUeNas × List Uplink :=
  let nas := nas.deriveUeKeys env b
  (nas, [plainUplink env (.authenticationResponse nas.security.res)])

/-- `handle_fgmm_authentication_request`; the AUTN of the network is not checked. -/
def handleFgmmAuthenticationRequest : NrUeNas × List Uplink :=
  -- the header's decoder says 255 when it fails
  let decoded := if b.len < mmHeaderOctets then 255 else mmHeaderOctets
  let ngKsi := (b.octet decoded).setWidth 3
  match nas.ksi with
  | none => { nas with ksi := some ngKsi }.generateAuthenticationResp env b
  | some ksi =>
    if ksi = ngKsi then (nas, [plainUplink env (.authenticationFailure ngKsiAlreadyInUse)])
    else nas.generateAuthenticationResp env b

/-- The identities that `nas_fill_5gs_mobile_identity` can give: SUCI and IMEISV always, 5G-GUTI and
5G-S-TMSI with a GUTI. -/
def hasIdentity (identityType : BitVec 3) : Bool :=
  identityType = 1 || identityType = 5 ||
    ((identityType = 2 || identityType = 4) && nas.guti.isSome)

def handleIdentityRequest : List Uplink :=
  if b.len < mmHeaderOctets + 1 then []
  else
    let identityType := (b.octet 3).setWidth 3
    if b.octet 1 = 0 ∧ identityType ≠ 1 then []
    else if nas.hasIdentity identityType then
      [plainUplink env (.identityResponse identityType nas.guti)]
    else []

def ieiEapMsg : Byte := 0x78

/-- `handle_authentication_reject`: what is wrong in an EAP message is not noticed. -/
def handleAuthenticationReject : NrUeNas :=
  if b.len < mmHeaderOctets then nas
  else if b.len - mmHeaderOctets < 3 ∨ b.octet 3 = ieiEapMsg then
    { nas with fiveGMMState := .deregistered }
  else nas

def streamSecurityContainerInit (ciphering integrity : Nat) (knasEnc knasInt : Key16) :
    Call Container :=
  match IntegrityAlg.ofId integrity, CipheringAlg.ofId ciphering with
  | some integrityAlgorithm, some cipheringAlgorithm =>
    .ok { integrityAlgorithm, cipheringAlgorithm, integrityKey := knasInt, cipheringKey := knasEnc }
  | _, _ => .error .assertion

def rejectSecurityMode : Call (NrUeNas × List Uplink) := do
  let (nas, uplink) ← nas.generateSecurityModeReject env securityModeRejectedUnspecified
  return (nas, [uplink])

def setKnas (ciphering integrity : Byte) : NrUeNas :=
  let kamf := nas.security.keys.kamf
  { nas with security := { nas.security with
      keys := { nas.security.keys with
        knasEnc := deriveKnas env 1 ciphering kamf, knasInt := deriveKnas env 2 integrity kamf } } }

/-- `handle_security_mode_command`; a message with less than 10 octets has no type. -/
def handleSecurityModeCommand : Call (NrUeNas × List Uplink) :=
  if nasSecurityGetSecHdr b ≠ some 3 then nas.rejectSecurityMode env
  else
    match nasSecurityGetMac b with
    | none => nas.rejectSecurityMode env
    | some mac => do
      let ciphering := b.octet 10 >>> 4
      let integrity := b.octet 10 &&& 0x0f
      let nas := nas.setKnas env ciphering integrity
      if integrity = 0 then nas.deleteContainer.rejectSecurityMode env
      else
        let c ← streamSecurityContainerInit ciphering.toNat integrity.toNat
          nas.security.keys.knasEnc nas.security.keys.knasInt
        if (nasSecurityComputeMac env c nas.security.nasCountDl b).toList ≠ mac then
          nas.deleteContainer.rejectSecurityMode env
        else
          let nas := { nas with securityContainer := some c }
          let (nas, uplink) ← nas.generateSecurityModeComplete env
          return (nas, [uplink])

def handleRegistrationAccept : Call (NrUeNas × List Uplink) := do
  match ← env.registrationAccept b with
  | none => return (nas, [])
  | some guti =>
    let nas := { nas with guti := guti.or nas.guti }
    let (nas, uplink) ← nas.generateRegistrationComplete env
    return (nas, [uplink])

def handlePduSessionAccept : Call (NrUeNas × List Uplink) := do
  match ← env.pduSessionAccept nas b with
  | none => return (nas, [])
  | some psi => return ({ nas with psiStatus := nas.psiStatus.set psi.val true psi.isLt }, [])

def handlePduSessionModificationCommand : Call (NrUeNas × List Uplink) := do
  match ← env.pduSessionModification nas b with
  | none => return (nas, [])
  | some (pduSessionId, pti) =>
    let (nas, uplink) ← nas.generatePduSessionModificationComplete env pduSessionId pti
    return (nas, [uplink])

def handleDownlinkNasTransport : Call (NrUeNas × List Uplink) :=
  if b.len < 17 then .ok (nas, [])
  else if b.octet 16 = fgsPduSessionEstablishmentAcc then nas.handlePduSessionAccept env b
  else if b.octet 16 = fgsPduSessionModificationCommand then
    nas.handlePduSessionModificationCommand env b
  else .ok (nas, [])

def protectionOctets : Nat := if b.octet 1 = 0 then 0 else securityHeaderOctets

def handleRegistrationReject : NrUeNas :=
  if nas.terminationProcedure ∨ b.len < protectionOctets b + mmHeaderOctets + 1 ∨
      b.octet (protectionOctets b + 2) ≠ fgsRegistrationReject then nas
  else { nas with fiveGMMState := .deregistered, terminationProcedure := true }

def handleServiceAccept : NrUeNas := { nas with fiveGMMState := .registered }

def abortServiceRequest : NrUeNas :=
  if nas.fiveGMMState = .serviceRequestInitiated then { nas with fiveGMMState := .registered }
  else nas

/-- The optional elements of a Service Reject: whether they are decoded.  There is no place for an
EAP message. -/
def decodeServiceRejectIes : Nat → List Byte → Call Bool
  | fuel + 1, iei :: rest =>
    if iei = 0x50 then
      if rest.length < 4 ∨ (rest.headD 0).toNat > 32 then .ok false
      else decodeServiceRejectIes fuel (rest.drop 3)
    else if iei = 0x6b ∨ iei = 0x5f then decodeServiceRejectIes fuel (rest.drop 2)
    else if iei = ieiEapMsg then if rest.length < 6 then .ok false else .error .nullPointer
    else if iei = 0x75 then
      let cagListLen := (rest.headD 0).toNat * 256 + ((rest.drop 1).headD 0).toNat
      decodeServiceRejectIes fuel (rest.drop (2 + cagListLen))
    else .ok false
  | _, _ => .ok true

def decodeFgsServiceReject (body : List Byte) : Call Bool :=
  match body with
  | [] => .ok false
  | _ :: ies => decodeServiceRejectIes ies.length ies

def handleServiceReject : Call NrUeNas := do
  let nas := nas.abortServiceRequest
  if ← decodeFgsServiceReject (b.data.drop (protectionOctets b + mmHeaderOctets)) then
    return { nas with fiveGMMState := .deregistered, terminationProcedure := true }
  else return nas

end NrUeNas

inductive Handler
  | identityRequest
  | authenticationRequest
  | authenticationReject
  | securityModeCommand
  | downlinkNasTransport
  | registrationAccept
  | deregistrationAccept
  | pduSessionEstablishmentAcc
  | pduSessionEstablishmentRej
  | pduSessionModificationCommand
  | registrationReject
  | serviceAccept
  | serviceReject
  deriving DecidableEq

def Handler.ofMsgType (t : Byte) : Option Handler :=
  if t = fgsIdentityRequest then some .identityRequest
  else if t = fgsAuthenticationRequest then some .authenticationRequest
  else if t = fgsAuthenticationReject then some .authenticationReject
  else if t = fgsSecurityModeCommand then some .securityModeCommand
  else if t = fgsDownlinkNasTransport then some .downlinkNasTransport
  else if t = fgsRegistrationAccept then some .registrationAccept
  else if t = fgsDeregistrationAcceptUeOriginating then some .deregistrationAccept
  else if t = fgsPduSessionEstablishmentAcc then some .pduSessionEstablishmentAcc
  else if t = fgsPduSessionEstablishmentRej then some .pduSessionEstablishmentRej
  else if t = fgsPduSessionModificationCommand then some .pduSessionModificationCommand
  else if t = fgsRegistrationReject then some .registrationReject
  else if t = fgsServiceAccept then some .serviceAccept
  else if t = fgsServiceReject then some .serviceReject
  else none

def Handler.ofConnEstabliCnf (t : Byte) : Option Handler :=
  if t = fgsRegistrationAccept then some .registrationAccept
  else if t = fgsPduSessionEstablishmentAcc then some .pduSessionEstablishmentAcc
  else if t = fgsServiceAccept then some .serviceAccept
  else if t = fgsPduSessionModificationCommand then some .pduSessionModificationCommand
  else none

def Handler.run (env : Env) (nas : NrUeNas) (b : Buffer) : Handler → Call (NrUeNas × List Uplink)
  | .identityRequest => .ok (nas, nas.handleIdentityRequest env b)
  | .authenticationRequest => .ok (nas.handleFgmmAuthenticationRequest env b)
  | .authenticationReject => .ok (nas.handleAuthenticationReject b, [])
  | .securityModeCommand => nas.handleSecurityModeCommand env b
  | .downlinkNasTransport => nas.handleDownlinkNasTransport env b
  | .registrationAccept => nas.handleRegistrationAccept env b
  | .deregistrationAccept => .ok ({ nas with fiveGMMState := .deregistered }, [])
  | .pduSessionEstablishmentAcc => nas.handlePduSessionAccept env b
  | .pduSessionEstablishmentRej => .ok (nas, [])
  | .pduSessionModificationCommand => nas.handlePduSessionModificationCommand env b
  | .registrationReject => .ok (nas.handleRegistrationReject b, [])
  | .serviceAccept => .ok (nas.handleServiceAccept, [])
  | .serviceReject => do return (← nas.handleServiceReject b, [])

structure Handled where
  handler : Option Handler
  nas : NrUeNas
  sent : List Uplink

namespace NrUeNas

variable (env : Env) (nas : NrUeNas)

def receive (handlers : Byte → Option Handler) (b : Buffer) : Call Handled := do
  let (state, nas, b) ← nas.nasSecurityRxProcess env b
  if state.discards then return { handler := none, nas, sent := [] }
  else
    match handlers (getMsgType b) with
    | none => return { handler := none, nas, sent := [] }
    | some h =>
      let (nas, sent) ← h.run env nas b
      return { handler := some h, nas, sent }

def downlinkDataInd (b : Buffer) : Call Handled := nas.receive env Handler.ofMsgType b

def connEstabliCnf (b : Buffer) : Call Handled := nas.receive env Handler.ofConnEstabliCnf b

def initiateServiceRequest (moUlData : Bool) : Call (NrUeNas × List Uplink) :=
  if nas.guti.isNone ∨ nas.fiveGMMState ≠ .registered ∨ nas.fiveGMMMode ≠ .idle then .ok (nas, [])
  else do
    let (nas, uplink) ← nas.generateServiceRequest env moUlData
    return ({ nas with fiveGMMState := .serviceRequestInitiated }, [uplink])

def deregistrationReq (detach : Bool) : Call (NrUeNas × List Uplink) :=
  match nas.guti with
  | none => .ok (nas, [])
  | some guti => do
    let nas := if detach then { nas with terminationProcedure := true } else nas
    let (nas, uplink) ← nas.generateDeregistrationRequest env guti
    return (nas, [uplink])

end NrUeNas

inductive Event
  | registrationRequest
  | pagingInd (connectionEstablish : Bool)
  | moUlDataInd
  | pduSessionReq (req : PduSessionReq)
  | connEstablishInd
  | connEstabliCnf (b : Buffer)
  | connReleaseInd
  | deregistrationReq (detach : Bool)
  | downlinkDataInd (b : Buffer)

def NrUeNas.exec (env : Env) (nas : NrUeNas) : Event → Call (NrUeNas × List Uplink)
  | .registrationRequest => nas.generateRegistrationRequest env
  | .pagingInd connectionEstablish =>
    if connectionEstablish then nas.initiateServiceRequest env false else .ok (nas, [])
  | .moUlDataInd => nas.initiateServiceRequest env true
  | .pduSessionReq req => do
    let (nas, uplink) ← nas.generatePduSessionEstablishRequest env req
    return (nas, [uplink])
  | .connEstablishInd => .ok ({ nas with fiveGMMMode := .connected }, [])
  | .connEstabliCnf b => do
    let handled ← nas.connEstabliCnf env b
    return (handled.nas, handled.sent)
  | .connReleaseInd => .ok ({ nas.abortServiceRequest with fiveGMMMode := .idle }, [])
  | .deregistrationReq detach => nas.deregistrationReq env detach
  | .downlinkDataInd b => do
    let handled ← nas.downlinkDataInd env b
    return (handled.nas, handled.sent)

end OpenAir.Nas

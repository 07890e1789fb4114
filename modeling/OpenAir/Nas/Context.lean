import OpenAir.Lib.BitReader
import OpenAir.Lib.Slice

/-! The NAS context of a UE: its keys and COUNTs, the security container, and what surrounds it. -/

namespace OpenAir.Nas

inductive Abort
  | assertion
  | nullPointer
  | exit
  | uninitialized
  deriving DecidableEq

abbrev Call (α : Type) := Except Abort α

abbrev Key16 := Vector Byte 16

abbrev Key32 := Vector Byte 32

/-- `fgs_mm_state_t` -/
inductive MmState
  | deregistered
  | deregisteredInitiated
  | registeredInitiated
  | registered
  | serviceRequestInitiated
  deriving DecidableEq

/-- `fgs_mm_mode_t` -/
inductive MmMode
  | notConnected
  | idle
  | connected
  deriving DecidableEq

structure Keys where
  kausf : Key32 := .replicate 32 0
  kseaf : Key32 := .replicate 32 0
  kamf : Key32 := .replicate 32 0
  knasInt : Key16 := .replicate 16 0
  knasEnc : Key16 := .replicate 16 0
  kgnb : Key32 := .replicate 32 0
  deriving DecidableEq

/-- `ue_sa_security_key_t` -/
structure Security where
  keys : Keys := {}
  res : Key16 := .replicate 16 0
  rand : Key16 := .replicate 16 0
  nasCountUl : BitVec 32 := 0
  nasCountDl : BitVec 32 := 0
  deriving DecidableEq

/-- `eia_alg_id_e` -/
inductive IntegrityAlg
  | eia0
  | eia1
  | eia2
  deriving DecidableEq

/-- `eea_alg_id_e` -/
inductive CipheringAlg
  | eea0
  | eea1
  | eea2
  deriving DecidableEq

/-- The numbers that `stream_integrity_init` knows. -/
def IntegrityAlg.ofId : Nat → Option IntegrityAlg
  | 0 => some .eia0
  | 1 => some .eia1
  | 2 => some .eia2
  | _ => none

def CipheringAlg.ofId : Nat → Option CipheringAlg
  | 0 => some .eea0
  | 1 => some .eea1
  | 2 => some .eea2
  | _ => none

/-- `stream_security_container_t` -/
structure Container where
  integrityAlgorithm : IntegrityAlg
  cipheringAlgorithm : CipheringAlg
  integrityKey : Key16
  cipheringKey : Key16
  deriving DecidableEq

/-- `Guti5GSMobileIdentity_t` -/
structure Guti where
  spare : BitVec 4
  oddeven : BitVec 1
  typeofidentity : BitVec 3
  mccdigit2 : BitVec 4
  mccdigit1 : BitVec 4
  mncdigit3 : BitVec 4
  mccdigit3 : BitVec 4
  mncdigit2 : BitVec 4
  mncdigit1 : BitVec 4
  amfregionid : Byte
  amfsetid : BitVec 10
  amfpointer : BitVec 6
  tmsi : BitVec 32
  deriving DecidableEq

abbrev maxNumPsi : Nat := 16

/-- `nr_ue_nas_t` -/
structure NrUeNas where
  fiveGMMState : MmState := .deregistered
  fiveGMMMode : MmMode := .notConnected
  security : Security := {}
  securityContainer : Option Container := none
  guti : Option Guti := none
  terminationProcedure : Bool := false
  isRrcInactive : Bool := false
  t3512 : Int := 0
  ksi : Option (BitVec 3) := none
  psiStatus : Vector Bool maxNumPsi := .replicate maxNumPsi false
  deriving DecidableEq

/-- `Security_header_t` -/
inductive SecurityHeader
  | plain5gsMsg
  | integrityProtected
  | integrityProtectedAndCiphered
  | integrityProtectedWithNewSecuCtx
  | integrityProtectedAndCipheredWithNewSecuCtx
  deriving DecidableEq

def SecurityHeader.octet : SecurityHeader → Byte
  | .plain5gsMsg => 0
  | .integrityProtected => 1
  | .integrityProtectedAndCiphered => 2
  | .integrityProtectedWithNewSecuCtx => 3
  | .integrityProtectedAndCipheredWithNewSecuCtx => 4

def SecurityHeader.ciphered : SecurityHeader → Bool
  | .integrityProtectedAndCiphered | .integrityProtectedAndCipheredWithNewSecuCtx => true
  | _ => false

/-- `nas_stream_cipher_t` but for the context. -/
structure StreamCipher where
  count : BitVec 32
  bearer : Byte
  direction : Byte
  message : List Byte
  deriving DecidableEq

inductive RegistrationType
  | initialRegistration
  | mobilityRegistrationUpdating
  | reserved
  deriving DecidableEq

/-- `nas_pdu_session_req_t` -/
structure PduSessionReq where
  pdusessionId : Byte
  pdusessionType : Byte
  sst : Byte
  sd : BitVec 32
  dnn : List Byte
  deriving DecidableEq

/-- `fgmm_nas_message_plain_t` -/
inductive Plain
  | registrationRequest (type : RegistrationType) (ksi : BitVec 3) (guti : Option Guti)
      (capability : Bool) (container : Option (List Byte))
  | serviceRequest (ksi : BitVec 3) (guti : Guti)
      (uplinkDataStatus pduSessionStatus : Option (Vector Bool maxNumPsi))
      (container : Option (List Byte))
  | identityResponse (identityType : BitVec 3) (guti : Option Guti)
  | authenticationResponse (res : Key16)
  | authenticationFailure (cause : Byte)
  | securityModeComplete (container : List Byte)
  | securityModeReject (cause : Byte)
  | registrationComplete
  | pduSessionEstablishmentRequest (req : PduSessionReq)
  | pduSessionModificationComplete (pduSessionId pti : Byte)
  | deregistrationRequest (guti : Guti)
  deriving DecidableEq

/-- What `f2345` makes of a challenge. -/
structure AkaVector where
  res : Vector Byte 8
  ck : Key16
  ik : Key16

structure Buffer where
  data : List Byte
  behind : Nat → Byte

namespace Buffer

variable (b : Buffer)

def len : Nat := b.data.length

def octet (i : Nat) : Byte := b.data[i]?.getD (b.behind i)

end Buffer

/-- The algorithms, the SIM card, the encoders of plain messages and the decoders of the messages
that have no part in security. -/
structure Env where
  computeIntegrity : IntegrityAlg → Key16 → StreamCipher → Vector Byte 4
  computeEncrypt : CipheringAlg → Key16 → StreamCipher → List Byte
  length_computeEncrypt :
    ∀ alg key cipher, (computeEncrypt alg key cipher).length = cipher.message.length
  kdf : List Byte → List Byte → Key32
  f2345 : Key16 → AkaVector
  mnc : Nat
  mcc : Nat
  imsi : List Byte
  mmMsgEncode : Plain → List Byte
  /-- the GUTI of a Registration Accept, if it is decoded -/
  registrationAccept : Buffer → Call (Option (Option Guti))
  pduSessionAccept : NrUeNas → Buffer → Call (Option (Fin maxNumPsi))
  pduSessionModification : NrUeNas → Buffer → Call (Option (Byte × Byte))

def Env.simple (mac : Key16 → StreamCipher → Vector Byte 4) (kdf : List Byte → List Byte → Key32) :
    Env where
  computeIntegrity _ := mac
  computeEncrypt _ _ cipher := cipher.message
  length_computeEncrypt _ _ _ := rfl
  kdf
  f2345 _ := { res := .replicate 8 0, ck := .replicate 16 0, ik := .replicate 16 0 }
  mnc := 1
  mcc := 1
  imsi := []
  mmMsgEncode _ := []
  registrationAccept _ := .ok none
  pduSessionAccept _ _ := .ok none
  pduSessionModification _ _ := .ok none

section Derivation

variable (env : Env)

def octets (s : String) : List Byte := s.toList.map fun c => .ofNat 8 c.toNat

/-- `%03d` -/
def threeDigits (n : Nat) : String :=
  if n < 10 then "00" ++ toString n else if n < 100 then "0" ++ toString n else toString n

def servingNetworkName : List Byte :=
  octets ("5G:mnc" ++ threeDigits env.mnc ++ ".mcc" ++ threeDigits env.mcc ++ ".3gppnetwork.org")

def lengthOctets (n : Nat) : List Byte := [.ofNat 8 (n / 256), .ofNat 8 n]

def kdfParam (p : List Byte) : List Byte := p ++ lengthOctets p.length

def transferRES (ck ik : Key16) (input : Vector Byte 8) (rand : Key16) : Key16 :=
  let out := env.kdf (ck.toList ++ ik.toList)
    (0x6b :: kdfParam (servingNetworkName env) ++ kdfParam rand.toList ++ kdfParam input.toList)
  .ofFn fun i => out[i.val + 16]

def deriveKausf (ck ik : Key16) (sqn : Vector Byte 6) : Key32 :=
  env.kdf (ck.toList ++ ik.toList)
    (0x6a :: kdfParam (servingNetworkName env) ++ kdfParam sqn.toList)

def deriveKseaf (kausf : Key32) : Key32 :=
  env.kdf kausf.toList (0x6c :: kdfParam (servingNetworkName env))

def deriveKamf (kseaf : Key32) (abba : BitVec 16) : Key32 :=
  env.kdf kseaf.toList (0x6d :: kdfParam env.imsi ++
    kdfParam [abba.extractLsb' 0 8, abba.extractLsb' 8 8])

def deriveKnas (algType algId : Byte) (kamf : Key32) : Key16 :=
  let out := env.kdf kamf.toList (0x69 :: kdfParam [algType] ++ kdfParam [algId])
  .ofFn fun i => out[i.val + 16]

def deriveKgnb (kamf : Key32) (count : BitVec 32) : Key32 :=
  env.kdf kamf.toList (0x6e ::
    kdfParam [count.extractLsb' 24 8, count.extractLsb' 16 8, count.extractLsb' 8 8,
      count.extractLsb' 0 8] ++
    kdfParam [1])

end Derivation

end OpenAir.Nas

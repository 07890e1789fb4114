import OpenAir.Pdcp.Receive

namespace OpenAir.Pdcp

def maxPdcpPduSize (sduSize : Nat) : Nat := sduSize + 3 + 4

/-- The arguments of a call of `cipher` that decide about the keystream. -/
structure Keystream where
  key : Key
  bearer : Int
  count : UInt32
  direction : Nat
  deriving DecidableEq

structure Count where
  sn : UInt32
  hfn : UInt32

def pduHeader (c : Config) (sn : Nat) : List Byte :=
  let dcBit := if c.type = .drbAm ∨ c.type = .drbUm then 0x80 else 0
  if c.snSize = 12 then [.ofNat 8 (dcBit ||| (sn >>> 8 &&& 0xf)), .ofNat 8 (sn &&& 0xff)]
  else [.ofNat 8 (dcBit ||| (sn >>> 16 &&& 0x3)), .ofNat 8 (sn >>> 8 &&& 0xff),
    .ofNat 8 (sn &&& 0xff)]

namespace Entity

variable (sec : Security) (c : Config)

def sdapHeaderSizeTx : Nat := if c.hasSdapTx then 1 else 0

/-- The MAC-I behind the data, zero for SRBs with integrity not active. -/
def macI (e : Entity) (buffer : List Byte) : List Byte :=
  if e.hasIntegrity then sec.integrity e.integrityContext buffer c.rbId e.txNext c.txDirection
  else List.replicate (e.integritySize c) 0

def keystream (e : Entity) : Option Keystream :=
  if e.hasCiphering then some ⟨e.securityContext.key, c.rbId, e.txNext, c.txDirection⟩ else none

def ciphered (e : Entity) (buffer : List Byte) : List Byte :=
  if e.hasCiphering then
    let n := c.headerSize + sdapHeaderSizeTx c
    buffer.take n ++ sec.cipher e.securityContext (buffer.drop n) c.rbId e.txNext c.txDirection
  else buffer

def encode (e : Entity) (buffer : List Byte) : List Byte :=
  let buf := pduHeader c (e.txNext &&& .ofNat c.snMax).toNat ++ buffer
  e.ciphered sec c (buf ++ e.macI sec c buf)

/-- `nr_pdcp_entity_process_sdu`; `none` is the assertion on the size of the PDU buffer, no PDU is
returned by a suspended entity. -/
def processSdu (e : Entity) (buffer : List Byte) (pduMaxSize : Nat) :
    Option (Entity × Option (List Byte)) :=
  if ¬ maxPdcpPduSize buffer.length ≤ pduMaxSize then none
  else if e.entitySuspended then some (e, none)
  else some ({ e with txNext := e.txNext + 1 }, some (e.encode sec c buffer))

def suspend (e : Entity) : Entity × List Sdu :=
  let e := { e with txNext := 0 }
  let r := if e.tReorderingStart ≠ 0 then deliverAllSdus { e with tReorderingStart := 0 }
    else (e, [])
  ({ r.1 with rxNext := 0, rxDeliv := 0, entitySuspended := true }, r.2)

/-- `set_security` -/
def reestablished (e : Entity) (parameters : SecurityKeysAndAlgos) : Option Entity :=
  (e.setSecurity parameters).map fun e => { e with entitySuspended := false }

def reestablishDrbAm (e : Entity) (parameters : SecurityKeysAndAlgos) :
    Option (Entity × List Sdu) :=
  (e.reestablished parameters).map fun e => (e, [])

def reestablishDrbUm (e : Entity) (parameters : SecurityKeysAndAlgos) :
    Option (Entity × List Sdu) :=
  let e := { e with txNext := 0 }
  let r := if e.tReorderingStart ≠ 0 then e.deliverAllSdus else (e, [])
  (reestablished { r.1 with tReorderingStart := 0, rxNext := 0, rxDeliv := 0 } parameters).map
    fun e => (e, r.2)

/-- `free_rx_list` drops the stored SDUs. -/
def reestablishSrb (e : Entity) (parameters : SecurityKeysAndAlgos) :
    Option (Entity × List Sdu) :=
  (reestablished { e with
    txNext := 0
    rxList := []
    tReorderingStart := 0
    rxNext := 0
    rxDeliv := 0 } parameters).map fun e => (e, [])

def reestablish (e : Entity) (parameters : SecurityKeysAndAlgos) : Option (Entity × List Sdu) :=
  match c.type with
  | .drbAm => e.reestablishDrbAm parameters
  | .drbUm => e.reestablishDrbUm parameters
  | .srb => e.reestablishSrb parameters

def composeCount (count : Count) (snSize : Nat) : UInt32 :=
  count.hfn <<< .ofNat snSize ||| (count.sn &&& .ofNat (2 ^ snSize - 1))

/-- `nr_pdcp_entity_set_count_ul`, with an SN size of its own. -/
def setCountUl (e : Entity) (count : Count) (snSize : Nat) : Entity :=
  { e with txNext := composeCount count snSize }

def setCountDl (e : Entity) (count : Count) (snSize : Nat) : Entity :=
  { e with rxNext := composeCount count snSize + 1, rxDeliv := composeCount count snSize }

end Entity

end OpenAir.Pdcp

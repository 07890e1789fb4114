import OpenAir.Lib.Bits
import OpenAir.Lib.Loop
import OpenAir.Lib.StdMap

/-! The tunnel tables of a GTP-U instance and the operations that change them. -/

namespace OpenAir.Gtpu

abbrev UeId := BitVec 64

abbrev Teid := BitVec 32

/-- Bearers are found by numbers of 64 bits, whatever the type of the number that is given. -/
abbrev BearerKey := BitVec 64

/-- `in_addr_t`, in network byte order. -/
abbrev InAddr := Vector Byte 4

inductive Family
  | unspec
  | inet
  | inet6
  deriving DecidableEq

/-- `sockaddr_storage` as far as IPv4 goes. -/
structure SockAddr where
  family : Family := .unspec
  addr : InAddr := .replicate 4 0
  port : BitVec 16 := 0
  deriving DecidableEq

/-- `transport_layer_addr_t`; the length is in bits. -/
structure TransportLayerAddr where
  length : BitVec 8
  buffer : Vector Byte 20
  deriving DecidableEq

def TransportLayerAddr.inAddr (a : TransportLayerAddr) : InAddr := .ofFn fun i => a.buffer[i.val]

structure Callbacks where
  callBack : Option Nat := none
  callBackSDAP : Option Nat := none
  errorIndicationCallBack : Option Nat := none
  deriving DecidableEq

/-- `gtpv1u_bearer_t`; what is not given is zero. -/
structure Bearer where
  sockFd : Int := 0
  ip : SockAddr := {}
  teidIncoming : Teid := 0
  teidOutgoing : Teid := 0
  seqNum : BitVec 16 := 0
  npduNum : BitVec 8 := 0
  nruSequenceNumber : BitVec 32 := 0
  deriving DecidableEq

/-- `ueidData_t` -/
structure UeidData extends Callbacks where
  ueId : UeId := 0
  incomingRbId : BitVec 16 := 0
  outgoingTeid : Teid := 0
  pdusessionId : BitVec 16 := 0
  deriving DecidableEq

structure EndPoint where
  handle : Int
  dstPort : BitVec 16
  ipVersion : Nat
  foundAddr : Vector Byte 20

/-- `ue2te_mapping` -/
structure Tables where
  ue2te : StdMap UeId (StdMap BearerKey Bearer) := ∅
  te2ue : StdMap Teid UeidData := ∅

inductive Assertion
  | ipv6NotSupported
  | dualNotSupported
  | addressSize
  deriving DecidableEq

abbrev Exec (α : Type) := Except (Fault Assertion) α

inductive Result
  | teid (t : Teid)
  | ok
  | nok
  deriving DecidableEq

structure Draw where
  first : Fin (2 ^ 31)
  second : Fin (2 ^ 31)
  deriving DecidableEq

def gtpv1uNewTeid (r : Draw) : Teid := .ofNat 32 (r.first + r.second % (2 ^ 31 - 1 - 1) + 1)

namespace Tables

variable (s : Tables)

def bearer (ueId : UeId) (id : BearerKey) : Option Bearer :=
  (s.ue2te.lookup ueId).bind (·.lookup id)

def freshTeid (draws : List Draw) : Exec Teid :=
  match (draws.map gtpv1uNewTeid).find? fun teid => (s.te2ue.lookup teid).isNone with
  | some teid => .ok teid
  | none => .error .outOfFuel

def remoteSockAddr (inst : EndPoint) (remoteAddr : TransportLayerAddr) : Exec SockAddr :=
  match remoteAddr.length.toNat / 8 with
  | 4 => .ok { family := .inet, addr := remoteAddr.inAddr, port := inst.dstPort }
  | 16 => .error (.assertion .ipv6NotSupported)
  | 20 => .error (.assertion .dualNotSupported)
  | _ => .error (.assertion .addressSize)

def setBearer (ueId : UeId) (id : BearerKey) (b : Bearer) : Tables :=
  { s with ue2te := s.ue2te.modify ueId ∅ (·.insert id b) }

def newGtpuCreateTunnel (inst : EndPoint) (ueId : UeId)
    (incomingBearerId outgoingBearerId : BitVec 32)
    (outgoingTeid : Teid) (remoteAddr : TransportLayerAddr) (callbacks : Callbacks)
    (draws : List Draw) : Exec (Result × Tables) := do
  let id := outgoingBearerId.signExtend 64
  -- the whole UE goes, not only the bearer
  let s := if (s.bearer ueId id).isSome then { s with ue2te := s.ue2te.erase ueId } else s
  let incomingTeid ← s.freshTeid draws
  let s := { s with
    te2ue := s.te2ue.insert incomingTeid
      { toCallbacks := callbacks
        ueId
        incomingRbId := incomingBearerId.setWidth 16
        outgoingTeid
        pdusessionId := (outgoingBearerId.setWidth 8).setWidth 16 } }
  let ip ← remoteSockAddr inst remoteAddr
  let b : Bearer :=
    { sockFd := inst.handle, ip, teidIncoming := incomingTeid, teidOutgoing := outgoingTeid }
  return (.teid incomingTeid, s.setBearer ueId id b)

def updateTunnelOutgoingAddressAndTeid (ueId : UeId) (bearerId : BitVec 8) (addr : InAddr)
    (teid : Teid) : Result × Tables :=
  match s.bearer ueId (bearerId.setWidth 64) with
  | none => (.ok, s)
  | some b =>
    (.ok, s.setBearer ueId (bearerId.setWidth 64)
      { b with ip := { b.ip with family := .inet, addr }, teidOutgoing := teid })

/-- A round of the loop of `gtpv1u_update_ue_id`: both subscripts create what they do not find. -/
def updateUeIdRound (oldUeId newUeId : UeId) (x : BitVec 32 × Tables) : BitVec 32 × Tables :=
  let (b, bearers) := ((x.2.ue2te.lookup oldUeId).getD ∅).subscript (x.1.setWidth 64) {}
  let (data, te2ue) := x.2.te2ue.subscript b.teidIncoming {}
  (x.1 + 1,
    { ue2te := x.2.ue2te.insert oldUeId bearers
      te2ue := if data.ueId = oldUeId then te2ue.insert b.teidIncoming { data with ueId := newUeId }
        else te2ue })

def moreBearers (oldUeId : UeId) (x : BitVec 32 × Tables) : Bool :=
  x.1.toNat < StdMap.size ((x.2.ue2te.lookup oldUeId).getD ∅)

def gtpv1uUpdateUeId (fuel : Nat) (oldUeId newUeId : UeId) : Exec (Result × Tables) :=
  match s.ue2te.lookup oldUeId with
  | none => .ok (.nok, s)
  | some _ =>
    match whileLoop (moreBearers oldUeId) (updateUeIdRound oldUeId newUeId) fuel (0, s) with
    | none => .error .outOfFuel
    | some (_, s) =>
      .ok (.ok, { s with
        ue2te := (s.ue2te.insert newUeId ((s.ue2te.lookup oldUeId).getD ∅)).erase oldUeId })

def newGtpuDeleteOneTunnel (ueId : UeId) (rbId : BitVec 32) : Result × Tables :=
  match s.ue2te.lookup ueId with
  | none => (.ok, s)
  | some bearers =>
    match bearers.lookup (rbId.signExtend 64) with
    | none => (.ok, s)
    | some b =>
      (.ok, { ue2te := s.ue2te.insert ueId (bearers.erase (rbId.signExtend 64))
              te2ue := s.te2ue.erase b.teidIncoming })

def newGtpuDeleteAllTunnels (ueId : UeId) : Result × Tables :=
  match s.ue2te.lookup ueId with
  | none => (.nok, s)
  | some bearers =>
    (.ok, { ue2te := s.ue2te.erase ueId
            te2ue := StdMap.eraseAll s.te2ue (bearers.entries.map fun e => e.2.teidIncoming) })

def listed (bearers : StdMap BearerKey Bearer) (ids : List (BitVec 8)) : List Bearer :=
  ids.filterMap fun id => bearers.lookup (id.setWidth 64)

/-- `gtpv1u_delete_s1u_tunnel`: the bearers themselves stay. -/
def gtpv1uDeleteS1uTunnel (rnti : BitVec 16) (epsBearerIds : List (BitVec 8)) : Result × Tables :=
  match s.ue2te.lookup (rnti.setWidth 64) with
  | none => (.nok, s)
  | some bearers =>
    (.ok, { ue2te := if StdMap.size bearers = 0 then s.ue2te.erase (rnti.setWidth 64) else s.ue2te
            te2ue :=
              StdMap.eraseAll s.te2ue ((listed bearers epsBearerIds).map Bearer.teidIncoming) })

end Tables

inductive Op
  | createTunnel (ueId : UeId) (incomingBearerId outgoingBearerId : BitVec 32) (outgoingTeid : Teid)
      (remoteAddr : TransportLayerAddr) (callbacks : Callbacks) (draws : List Draw)
  | updateTunnel (ueId : UeId) (bearerId : BitVec 8) (addr : InAddr) (teid : Teid)
  | updateUeId (oldUeId newUeId : UeId)
  | deleteOneTunnel (ueId : UeId) (rbId : BitVec 32)
  | deleteAllTunnels (ueId : UeId)
  | deleteS1uTunnel (rnti : BitVec 16) (epsBearerIds : List (BitVec 8))
  deriving DecidableEq

def Tables.exec (inst : EndPoint) (fuel : Nat) (s : Tables) : Op → Exec (Result × Tables)
  | .createTunnel ueId incomingBearerId outgoingBearerId outgoingTeid remoteAddr callbacks draws =>
    s.newGtpuCreateTunnel inst ueId incomingBearerId outgoingBearerId outgoingTeid remoteAddr
      callbacks draws
  | .updateTunnel ueId bearerId addr teid =>
    .ok (s.updateTunnelOutgoingAddressAndTeid ueId bearerId addr teid)
  | .updateUeId oldUeId newUeId => s.gtpv1uUpdateUeId fuel oldUeId newUeId
  | .deleteOneTunnel ueId rbId => .ok (s.newGtpuDeleteOneTunnel ueId rbId)
  | .deleteAllTunnels ueId => .ok (s.newGtpuDeleteAllTunnels ueId)
  | .deleteS1uTunnel rnti epsBearerIds => .ok (s.gtpv1uDeleteS1uTunnel rnti epsBearerIds)

end OpenAir.Gtpu

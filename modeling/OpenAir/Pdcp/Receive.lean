import OpenAir.Pdcp.Entity

namespace OpenAir.Pdcp

def sduListAdd (sdu : Sdu) : List Sdu → List Sdu
  | [] => [sdu]
  | cur :: l => if sdu.count < cur.count then sdu :: cur :: l else cur :: sduListAdd sdu l

def sduInList (l : List Sdu) (count : UInt32) : Bool := l.any (·.count = count)

def deliverFrom (count : UInt32) : List Sdu → List Sdu × List Sdu × UInt32
  | [] => ([], [], count)
  | cur :: l =>
    if count = cur.count then
      let r := deliverFrom (count + 1) l
      (cur :: r.1, r.2)
    else ([], cur :: l, count)

def byteAt (buffer : List Byte) (i : Nat) : Nat := (buffer.getD i 0).toNat

/-- Data PDUs of DRBs are taken as such also without the D/C bit. -/
def setDcBit (c : Config) : List Byte → List Byte
  | [] => []
  | b :: buffer => (if c.type ≠ .srb ∧ b &&& 0x80 = 0 then b ||| 128 else b) :: buffer

def rcvdSn (c : Config) (buffer : List Byte) : Nat :=
  if c.snSize = 12 then (byteAt buffer 0 &&& 0xf) <<< 8 ||| byteAt buffer 1
  else (byteAt buffer 0 &&& 0x3) <<< 16 ||| byteAt buffer 1 <<< 8 ||| byteAt buffer 2

namespace Entity

variable (sec : Security) (c : Config)

def rcvdCount (e : Entity) (rcvdSn : Nat) : UInt32 :=
  let rxDelivSn : Int := (e.rxDeliv &&& .ofNat c.snMax).toNat
  let rxDelivHfn := e.rxDeliv >>> .ofNat c.snSize
  let rcvdHfn :=
    if rcvdSn < rxDelivSn - c.windowSize then rxDelivHfn + 1
    else if rcvdSn ≥ rxDelivSn + c.windowSize then rxDelivHfn - 1
    else rxDelivHfn
  rcvdHfn <<< .ofNat c.snSize ||| .ofNat rcvdSn

def sdapHeaderSizeRx : Nat := if c.hasSdapRx then 1 else 0

def deciphered (e : Entity) (count : UInt32) (buffer : List Byte) : List Byte :=
  if e.hasCiphering then
    let n := c.headerSize + sdapHeaderSizeRx c
    buffer.take n ++ sec.decipher e.securityContext (buffer.drop n) c.rbId count c.rxDirection
  else buffer

def macPasses (e : Entity) (count : UInt32) (buffer : List Byte) : Bool :=
  !e.hasIntegrity ||
    decide
      (sec.integrity e.integrityContext (buffer.take (buffer.length - e.integritySize c)) c.rbId
      count c.rxDirection = buffer.drop (buffer.length - e.integritySize c))

/-- The MAC-I is kept as it was received, before deciphering. -/
def msgIntegrity (e : Entity) (count : UInt32) (buffer : List Byte) : IntegrityData :=
  if e.hasIntegrity || c.type = .srb then
    { count
      mac := buffer.drop (buffer.length - 4)
      headerSize := c.headerSize
      header := buffer.take c.headerSize ++ List.replicate (3 - c.headerSize) 0 }
  else {}

def decode (e : Entity) (buffer : List Byte) : Option Sdu :=
  if e.entitySuspended then none
  else if buffer.length < 1 then none
  else
    let buffer := setDcBit c buffer
    if buffer.length < c.headerSize + sdapHeaderSizeRx c + e.integritySize c + 1 then none
    else
      let count := e.rcvdCount c (rcvdSn c buffer)
      let plain := e.deciphered sec c count buffer
      if e.macPasses sec c count plain then
        some { count
               buffer := (plain.take (plain.length - e.integritySize c)).drop c.headerSize
               msgIntegrity := e.msgIntegrity c count buffer }
      else none

/-- The SDU `recv_pdu` puts into `rx_list`: not before `rx_deliv` and not there already. -/
def accepted (e : Entity) (buffer : List Byte) : Option Sdu :=
  (e.decode sec c buffer).filter fun sdu =>
    !(decide (sdu.count < e.rxDeliv) || sduInList e.rxList sdu.count)

def store (e : Entity) (sdu : Sdu) : Entity :=
  { e with
    rxList := sduListAdd sdu e.rxList
    rxNext := if sdu.count ≥ e.rxNext then sdu.count + 1 else e.rxNext }

def deliver (e : Entity) (count : UInt32) : Entity × List Sdu :=
  let r := deliverFrom count e.rxList
  ({ e with rxList := r.2.1, rxDeliv := r.2.2 }, r.1)

def stopTReordering (e : Entity) : Entity :=
  if e.tReorderingStart ≠ 0 ∧ e.rxDeliv ≥ e.rxReord then { e with tReorderingStart := 0 } else e

def startTReordering (e : Entity) : Entity :=
  if e.tReorderingStart = 0 ∧ e.rxDeliv < e.rxNext then
    { e with rxReord := e.rxNext, tReorderingStart := e.tCurrent }
  else e

def recvPdu (e : Entity) (buffer : List Byte) : Entity × List Sdu :=
  match e.accepted sec c buffer with
  | none => (e, [])
  | some sdu =>
    let e := e.store sdu
    let r := if sdu.count = e.rxDeliv then e.deliver e.rxDeliv else (e, [])
    (r.1.stopTReordering.startTReordering, r.2)

/-- `check_t_reordering`: deliver all SDUs before `rx_reord`, then those from `rx_reord` on. -/
def checkTReordering (e : Entity) : Entity × List Sdu :=
  if c.tReordering = -1 then (e, [])
  else if e.tReorderingStart = 0 ∨ e.tCurrent ≤ e.tReorderingStart + .ofInt c.tReordering then
    (e, [])
  else
    let out := e.rxList.takeWhile fun s => decide (s.count < e.rxReord)
    let e := { e with
      tReorderingStart := 0
      rxList := e.rxList.dropWhile fun s => decide (s.count < e.rxReord) }
    let r := e.deliver e.rxReord
    (r.1.startTReordering, out ++ r.2)

def setTime (e : Entity) (now : UInt64) : Entity × List Sdu :=
  checkTReordering c { e with tCurrent := now }

def deliverAllSdus (e : Entity) : Entity × List Sdu := ({ e with rxList := [] }, e.rxList)

end Entity

end OpenAir.Pdcp

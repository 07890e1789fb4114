import OpenAir.Lib.Wire

/-! The NR-U codecs: DL USER DATA and DL DATA DELIVERY STATUS.  A field of a message that has a
`_present` flag, or a flag in its place, is an `Option`. -/

namespace OpenAir.Nrup

inductive Element
  | desiredDataRate
  | snRangeCount
  | snRanges
  | highestDeliveredNrPdcpSn
  | highestTransmittedNrPdcpSn
  | causeValue
  | deliveredRetransmittedNrPdcpSn
  | retransmittedNrPdcpSn
  | dlDiscardNrPdcpPduSn
  | dlDiscardNumberOfBlocks
  | dlDiscardBlocks
  | dlReportNrPdcpPduSn
  deriving DecidableEq

inductive DecodeError
  | tooShort (minLen : Nat) (pduLen : Int)
  | invalidPduType (pduType : BitVec 4)
  | truncated (ie : Element) (need : Nat) (pduLen : Int)
  | tooMany (n max : Nat)
  | consumed (pos : Nat) (pduLen : Int)
  deriving DecidableEq

abbrev Decode := Parser DecodeError

def u32Be (v : BitVec 32) : List Byte :=
  [(v >>> 24).setWidth 8, (v >>> 16).setWidth 8, (v >>> 8).setWidth 8, v.setWidth 8]

def u24Be (v : BitVec 32) : List Byte :=
  [(v >>> 16).setWidth 8, (v >>> 8).setWidth 8, v.setWidth 8]

/-- `ntoh_int32_buf` -/
def ntoh (bs : List Byte) : BitVec 32 := bs.foldl (fun v b => v <<< 8 ||| b.setWidth 32) 0

def typeOctet (pduType : BitVec 4) (b3 b2 b1 b0 : Bool) : Byte :=
  pduType ++ BitVec.ofBool b3 ++ BitVec.ofBool b2 ++ BitVec.ofBool b1 ++ BitVec.ofBool b0

def flagOctet (b4 b3 b2 b1 b0 : Bool) : Byte :=
  (0 : BitVec 3) ++ BitVec.ofBool b4 ++ BitVec.ofBool b3 ++ BitVec.ofBool b2 ++ BitVec.ofBool b1 ++
    BitVec.ofBool b0

def pduType (o : Byte) : BitVec 4 := o.extractLsb' 4 4

/-- `nrup_put_padding`: up to a length that is 2 modulo 4 -/
def putPadding (p : Producer) : Option Producer := p.padTo 2

def putOptional {α : Type} (put : α → Producer → Option Producer) :
    Option α → Producer → Option Producer
  | none => some
  | some a => put a

def field (ie : Element) (n : Nat) : Decode (List Byte) := do
  Parser.need (.truncated ie) n
  Parser.grab n

def u24Field (ie : Element) : Decode (BitVec 32) := do
  return ntoh (← field ie 3)

def u8Field (ie : Element) : Decode Byte := do
  return (← field ie 1).headD 0

def fixedPart (t : BitVec 4) (minLen n : Nat) : Decode (List Byte × BitVec 32) := do
  Parser.need .tooShort minLen
  let hdr ← Parser.grab 2
  if pduType (hdr.getD 0 0) ≠ t then Parser.reject (.invalidPduType (pduType (hdr.getD 0 0)))
  else
    let v ← Parser.grab n
    return (hdr, ntoh v)

def putCounted {α : Type} (max : Nat) (bytes : α → List Byte) (l : List α) (p : Producer) :
    Option Producer :=
  if l.length > max then none
  else do
    let p ← p.putByte (BitVec.ofNat 8 l.length)
    l.foldlM (fun p a => Producer.put (bytes a) p) p

def counted {α : Type} (count body : Element) (max size : Nat) (item : Decode α) :
    Decode (List α) := do
  let n := (← u8Field count).toNat
  if n > max then Parser.reject (.tooMany n max)
  else do
    Parser.need (.truncated body) (size * n)
    Parser.times item n

/-- The length `r.pos` is checked once more at the end. -/
def checkConsumed : Decode Unit := fun _ len pos =>
  if (pos : Int) > len then .error (.rejected (.consumed pos len)) else .ok ((), pos)

/-- `nrup_sn_range_t` -/
structure SnRange where
  start : BitVec 32
  stop : BitVec 32
  deriving DecidableEq

def SnRange.bytes (r : SnRange) : List Byte := u24Be r.start ++ u24Be r.stop

def maxLostNruSnRanges : Nat := 161

def maxDeliveredOosSnRanges : Nat := 255

def encodeSnRanges (max : Nat) : List SnRange → Producer → Option Producer :=
  putCounted max SnRange.bytes

def decodeSnRange : Decode SnRange := do
  let start ← Parser.grab 3
  let stop ← Parser.grab 3
  return ⟨ntoh start, ntoh stop⟩

def decodeSnRanges (max : Nat) : Decode (List SnRange) :=
  counted .snRangeCount .snRanges max 6 decodeSnRange

/-- `nrup_dl_data_delivery_status_t` -/
structure DlDataDeliveryStatus where
  finalFrameInd : Bool
  desiredBufferSize : BitVec 32
  desiredDataRate : Option (BitVec 32)
  lostNruRanges : Option (List SnRange)
  highestDeliveredNrPdcpSn : Option (BitVec 32)
  highestTransmittedNrPdcpSn : Option (BitVec 32)
  causeValue : Option Byte
  deliveredRetransmittedNrPdcpSn : Option (BitVec 32)
  retransmittedNrPdcpSn : Option (BitVec 32)
  deliveredOosRanges : Option (List SnRange)
  deriving DecidableEq

namespace DlDataDeliveryStatus

def minLen : Nat := 6

/-- `NRUP_PDU_DL_DATA_DELIVERY_STATUS` -/
def pduType : BitVec 4 := 1

/-- The octets of `nrup_ddds_hdr_t`. -/
def header (m : DlDataDeliveryStatus) : List Byte :=
  [typeOctet pduType m.highestTransmittedNrPdcpSn.isSome m.highestDeliveredNrPdcpSn.isSome
      m.finalFrameInd m.lostNruRanges.isSome,
    flagOctet m.deliveredOosRanges.isSome m.desiredDataRate.isSome m.retransmittedNrPdcpSn.isSome
      m.deliveredRetransmittedNrPdcpSn.isSome m.causeValue.isSome]

/-- `encode_nrup_dl_data_delivery_status` -/
def encode (p : Producer) (m : DlDataDeliveryStatus) : Option Producer := do
  let p ← p.put m.header
  let p ← p.put (u32Be m.desiredBufferSize)
  let p ← putOptional (fun v => Producer.put (u32Be v)) m.desiredDataRate p
  let p ← putOptional (encodeSnRanges maxLostNruSnRanges) m.lostNruRanges p
  let p ← putOptional (fun v => Producer.put (u24Be v)) m.highestDeliveredNrPdcpSn p
  let p ← putOptional (fun v => Producer.put (u24Be v)) m.highestTransmittedNrPdcpSn p
  let p ← putOptional (fun v => Producer.put [v]) m.causeValue p
  let p ← putOptional (fun v => Producer.put (u24Be v)) m.deliveredRetransmittedNrPdcpSn p
  let p ← putOptional (fun v => Producer.put (u24Be v)) m.retransmittedNrPdcpSn p
  let p ← putOptional (encodeSnRanges maxDeliveredOosSnRanges) m.deliveredOosRanges p
  putPadding p

/-- `decode_nrup_dl_data_delivery_status` -/
def decode : Decode DlDataDeliveryStatus := do
  let (hdr, desiredBufferSize) ← fixedPart pduType minLen 4
  let o₁ := hdr.getD 0 0
  let o₂ := hdr.getD 1 0
  let desiredDataRate ← Parser.optional (o₂.getLsbD 3) do return ntoh (← field .desiredDataRate 4)
  let lostNruRanges ← Parser.optional (o₁.getLsbD 0) (decodeSnRanges maxLostNruSnRanges)
  let highestDeliveredNrPdcpSn ←
    Parser.optional (o₁.getLsbD 2) (u24Field .highestDeliveredNrPdcpSn)
  let highestTransmittedNrPdcpSn ←
    Parser.optional (o₁.getLsbD 3) (u24Field .highestTransmittedNrPdcpSn)
  let causeValue ← Parser.optional (o₂.getLsbD 0) (u8Field .causeValue)
  let deliveredRetransmittedNrPdcpSn ←
    Parser.optional (o₂.getLsbD 1) (u24Field .deliveredRetransmittedNrPdcpSn)
  let retransmittedNrPdcpSn ← Parser.optional (o₂.getLsbD 2) (u24Field .retransmittedNrPdcpSn)
  let deliveredOosRanges ← Parser.optional (o₂.getLsbD 4) (decodeSnRanges maxDeliveredOosSnRanges)
  checkConsumed
  return {
    finalFrameInd := o₁.getLsbD 1
    desiredBufferSize
    desiredDataRate
    lostNruRanges
    highestDeliveredNrPdcpSn
    highestTransmittedNrPdcpSn
    causeValue
    deliveredRetransmittedNrPdcpSn
    retransmittedNrPdcpSn
    deliveredOosRanges }

end DlDataDeliveryStatus

/-- `nrup_dl_discard_block_t` -/
structure DlDiscardBlock where
  dlDiscardNrPdcpPduSnStart : BitVec 32
  discardedBlockSize : Byte
  deriving DecidableEq

def DlDiscardBlock.bytes (b : DlDiscardBlock) : List Byte :=
  u24Be b.dlDiscardNrPdcpPduSnStart ++ [b.discardedBlockSize]

/-- `nrup_dl_user_data_t`; `dl_flush` and `report_delivered` signal the numbers that go with
them. -/
structure DlUserData where
  reportPolling : Bool
  retransmission : Bool
  assistanceInfoReportPolling : Bool
  userDataExistence : Bool
  requestOutOfSeqReport : Bool
  nruSequenceNumber : BitVec 32
  dlDiscardNrPdcpPduSn : Option (BitVec 32)
  dlDiscardBlocks : Option (List DlDiscardBlock)
  nrPdcpPduSn : Option (BitVec 32)
  deriving DecidableEq

namespace DlUserData

def minLen : Nat := 5

def maxDlDiscardBlocks : Nat := 244

/-- `NRUP_PDU_DL_USER_DATA` -/
def pduType : BitVec 4 := 0

def header (m : DlUserData) : List Byte :=
  [typeOctet pduType false m.dlDiscardBlocks.isSome m.dlDiscardNrPdcpPduSn.isSome m.reportPolling,
    flagOctet m.requestOutOfSeqReport m.nrPdcpPduSn.isSome m.userDataExistence
      m.assistanceInfoReportPolling m.retransmission]

def encodeDlDiscardBlocks : List DlDiscardBlock → Producer → Option Producer :=
  putCounted maxDlDiscardBlocks DlDiscardBlock.bytes

/-- `encode_nrup_dl_user_data` -/
def encode (p : Producer) (m : DlUserData) : Option Producer := do
  let p ← p.put m.header
  let p ← p.put (u24Be m.nruSequenceNumber)
  let p ← putOptional (fun v => Producer.put (u24Be v)) m.dlDiscardNrPdcpPduSn p
  let p ← putOptional encodeDlDiscardBlocks m.dlDiscardBlocks p
  let p ← putOptional (fun v => Producer.put (u24Be v)) m.nrPdcpPduSn p
  putPadding p

def decodeDlDiscardBlock : Decode DlDiscardBlock := do
  let start ← Parser.grab 3
  let size ← Parser.grab 1
  return ⟨ntoh start, size.headD 0⟩

def decodeDlDiscardBlocks : Decode (List DlDiscardBlock) :=
  counted .dlDiscardNumberOfBlocks .dlDiscardBlocks maxDlDiscardBlocks 4 decodeDlDiscardBlock

/-- `decode_nrup_dl_user_data` -/
def decode : Decode DlUserData := do
  let (hdr, nruSequenceNumber) ← fixedPart pduType minLen 3
  let o₁ := hdr.getD 0 0
  let o₂ := hdr.getD 1 0
  let dlDiscardNrPdcpPduSn ← Parser.optional (o₁.getLsbD 1) (u24Field .dlDiscardNrPdcpPduSn)
  let dlDiscardBlocks ← Parser.optional (o₁.getLsbD 2) decodeDlDiscardBlocks
  let nrPdcpPduSn ← Parser.optional (o₂.getLsbD 3) (u24Field .dlReportNrPdcpPduSn)
  checkConsumed
  return {
    reportPolling := o₁.getLsbD 0
    retransmission := o₂.getLsbD 0
    assistanceInfoReportPolling := o₂.getLsbD 1
    userDataExistence := o₂.getLsbD 2
    requestOutOfSeqReport := o₂.getLsbD 4
    nruSequenceNumber
    dlDiscardNrPdcpPduSn
    dlDiscardBlocks
    nrPdcpPduSn }

end DlUserData

end OpenAir.Nrup

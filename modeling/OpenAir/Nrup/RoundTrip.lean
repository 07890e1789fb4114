import OpenAir.Nrup.Codec

namespace OpenAir.Nrup

open OpenAir.Parser List

def Fits24 (v : BitVec 32) : Prop := v.toNat < 2 ^ 24

theorem ntoh_u32Be (v : BitVec 32) : ntoh (u32Be v) = v := by
  simp only [ntoh, u32Be, foldl_cons, foldl_nil]
  refine BitVec.eq_of_getLsbD_eq fun i hi => ?_
  -- the byte that bit `i` lies in
  obtain h | h | h | h : i < 8 ∨ (8 ≤ i ∧ i - 8 < 8) ∨ (8 ≤ i ∧ 8 ≤ i - 8 ∧ i - 8 - 8 < 8) ∨
      (8 ≤ i ∧ 8 ≤ i - 8 ∧ 8 ≤ i - 8 - 8 ∧ i - 8 - 8 - 8 < 8) := by omega
  · simp [h, hi]
  · have hpos : 8 + (i - 8) = i := by omega
    simp [h, hi, Nat.not_lt.mpr h.1, hpos]
  · have hpos : 16 + (i - 8 - 8) = i := by omega
    simp [h, hi, Nat.not_lt.mpr h.1, Nat.not_lt.mpr h.2.1, hpos]
  · have hpos : 24 + (i - 8 - 8 - 8) = i := by omega
    simp [h, hi, Nat.not_lt.mpr h.1, Nat.not_lt.mpr h.2.1, Nat.not_lt.mpr h.2.2.1, hpos]

theorem ntoh_u24Be {v : BitVec 32} (h : Fits24 v) : ntoh (u24Be v) = v := by
  -- the fourth byte, which is not sent, is zero
  have hzero : (v >>> 24).setWidth 8 = 0#8 := by
    apply BitVec.eq_of_toNat_eq
    rw [BitVec.toNat_setWidth, BitVec.toNat_ushiftRight, Nat.shiftRight_eq_div_pow,
      Nat.div_eq_of_lt h]
    rfl
  have hcons : ntoh (u32Be v) = ntoh (u24Be v) := by
    simp only [ntoh, u32Be, u24Be, foldl_cons, hzero]
    rfl
  rw [← hcons, ntoh_u32Be]

theorem typeOctet_spec : ∀ (t : BitVec 4) (b3 b2 b1 b0 : Bool),
    pduType (typeOctet t b3 b2 b1 b0) = t ∧ (typeOctet t b3 b2 b1 b0).getLsbD 3 = b3 ∧
      (typeOctet t b3 b2 b1 b0).getLsbD 2 = b2 ∧ (typeOctet t b3 b2 b1 b0).getLsbD 1 = b1 ∧
      (typeOctet t b3 b2 b1 b0).getLsbD 0 = b0 := by
  decide

theorem flagOctet_spec : ∀ b4 b3 b2 b1 b0 : Bool,
    (flagOctet b4 b3 b2 b1 b0).getLsbD 4 = b4 ∧ (flagOctet b4 b3 b2 b1 b0).getLsbD 3 = b3 ∧
      (flagOctet b4 b3 b2 b1 b0).getLsbD 2 = b2 ∧ (flagOctet b4 b3 b2 b1 b0).getLsbD 1 = b1 ∧
      (flagOctet b4 b3 b2 b1 b0).getLsbD 0 = b0 := by
  decide

section

variable {α : Type} {bytes : α → List Byte} {l : List α} {max size : Nat}

def countedBytes (bytes : α → List Byte) (l : List α) : List Byte :=
  BitVec.ofNat 8 l.length :: l.flatMap bytes

theorem writes_foldlM (bytes : α → List Byte) (l : List α) :
    Producer.Writes (fun p => l.foldlM (fun p a => Producer.put (bytes a) p) p)
      (l.flatMap bytes) := by
  induction l with
  | nil => exact .nil
  | cons a l ih =>
    simp only [foldlM_cons, flatMap_cons]
    exact (Producer.Writes.put (bytes a)).bind ih

theorem writes_putCounted (hl : l.length ≤ max) :
    Producer.Writes (putCounted max bytes l) (countedBytes bytes l) := by
  have hput : Producer.Writes (fun p => p.putByte (BitVec.ofNat 8 l.length) >>= fun p =>
      l.foldlM (fun p a => Producer.put (bytes a) p) p)
      ([BitVec.ofNat 8 l.length] ++ l.flatMap bytes) := by
    refine Producer.Writes.bind (fun p hp => ?_) (writes_foldlM bytes l)
    simpa [Producer.put] using Producer.Writes.put [BitVec.ofNat 8 l.length] p hp
  intro p hp
  rw [putCounted, if_neg (by omega)]
  exact hput p hp

theorem writes_putOptional {put : α → Producer → Option Producer} {x : Option α}
    (h : ∀ a ∈ x, Producer.Writes (put a) (bytes a)) :
    Producer.Writes (putOptional put x) (x.elim [] bytes) := by
  cases x with
  | none => exact .nil
  | some a => exact h a rfl

theorem length_zerosTo_two (n : Nat) : (n + (Producer.zerosTo 2 n).length) % 4 = 2 := by
  rw [Producer.zerosTo, length_replicate]
  omega

theorem accepts_field (ie : Element) (b : List Byte) : Accepts (field ie b.length) b b :=
  Accepts.need (.grab b) _ rfl

theorem accepts_u24Field (ie : Element) {v : BitVec 32} (h : Fits24 v) :
    Accepts (u24Field ie) (u24Be v) v :=
  (accepts_field ie (u24Be v)).map (ntoh_u24Be h)

theorem accepts_u8Field (ie : Element) (v : Byte) : Accepts (u8Field ie) [v] v :=
  (accepts_field ie [v]).map rfl

theorem accepts_counted {item : Decode α} (count body : Element) (hmax : max ≤ 255)
    (hl : l.length ≤ max) (hitem : ∀ a ∈ l, Reads item (bytes a) a)
    (hsize : ∀ a ∈ l, (bytes a).length = size) :
    Accepts (counted count body max size item) (countedBytes bytes l) l := by
  have hcount : (BitVec.ofNat 8 l.length).toNat = l.length := by
    rw [BitVec.toNat_ofNat, Nat.mod_eq_of_lt (by omega)]
  have hlen : size * l.length = (l.flatMap bytes).length := by
    rw [length_flatMap, map_congr_left hsize]
    simp [Nat.mul_comm]
  refine Accepts.bind (b := [_]) (accepts_u8Field count _) ?_
  dsimp only
  rw [hcount, if_neg (by omega)]
  exact Accepts.need (.times hitem) _ hlen

theorem accepts_checkConsumed : Accepts checkConsumed [] () := by
  intro mem len pos hpos _
  rw [if_pos (by simpa using hpos)]
  exact if_neg (by omega)

theorem accepts_fixedPart {t : BitVec 4} {minLen n : Nat} {o₁ o₂ : Byte} {b : List Byte}
    (ht : pduType o₁ = t) (hn : n = b.length) (hmin : minLen = 2 + n) :
    Accepts (fixedPart t minLen n) ([o₁, o₂] ++ b) ([o₁, o₂], ntoh b) := by
  subst hn
  refine Accepts.need (Reads.bind (.grab [o₁, o₂]) ?_) _ (by simp [hmin]; omega)
  simp only [getD_cons_zero, ht, ne_eq, not_true_eq_false, if_false]
  exact (Reads.grab b).map rfl

theorem safe_field (ie : Element) (n : Nat) : Safe (field ie n) := .need (.grab n) _

theorem safe_u24Field (ie : Element) : Safe (u24Field ie) := (safe_field ie 3).bind fun _ => .pure _

theorem safe_u8Field (ie : Element) : Safe (u8Field ie) := (safe_field ie 1).bind fun _ => .pure _

theorem safe_counted {item : Decode α} (count body : Element) (max : Nat)
    (hitem : Within item size) : Safe (counted count body max size item) := by
  refine (safe_u8Field count).bind fun n => ?_
  dsimp only
  split
  · exact .reject _
  · exact .need (hitem.times n.toNat) _

theorem safe_checkConsumed : Safe checkConsumed := by
  intro mem len pos
  unfold checkConsumed
  split <;> simp

theorem safe_fixedPart {t : BitVec 4} {minLen n : Nat} (hmin : minLen = 2 + n) :
    Safe (fixedPart t minLen n) := by
  subst hmin
  refine .need ((Within.grab 2).bind fun hdr => ?_) _
  split
  · exact fun _ _ _ _ => .inr ⟨_, rfl⟩
  · exact (Within.grab n).bind fun v => .pure _

end

structure Codec (μ : Type) where
  encode : Producer → μ → Option Producer
  decode : Decode μ
  Wf : μ → Prop
  body : μ → List Byte

/-- Every message is encoded, padded to a length that is 2 modulo 4, by each buffer that has room;
the encoding is decoded and its prefixes that end before the padding are rejected, whatever follows
them; and the decoder reads within its PDU. -/
structure Codec.Correct {μ : Type} (c : Codec μ) : Prop where
  roundTrip : ∀ m, c.Wf m → ∃ bs pad : List Byte,
    bs = c.body m ++ pad ∧ pad.length < 4 ∧ bs.length % 4 = 2 ∧
    (∀ cap, bs.length ≤ cap → c.encode { cap } m = some { cap, out := bs }) ∧
    (∀ mem (len : Int), Holds mem 0 bs → bs.length ≤ len →
      ∃ pos, c.decode mem len 0 = .ok (m, pos)) ∧
    ∀ mem (k : Nat), k < (c.body m).length → Begins mem k 0 bs →
      ∃ e, c.decode mem k 0 = .error (.rejected e)
  inBounds : ∀ mem len, c.decode mem len 0 ≠ .error .outOfBounds

theorem Codec.correct {μ : Type} {c : Codec μ} (hsafe : Safe c.decode)
    (haccepts : ∀ m, c.Wf m → Accepts c.decode (c.body m) m)
    (hwrites : ∀ m, c.Wf m → ∃ f, Producer.Writes f (c.body m) ∧
      ∀ p, c.encode p m = f p >>= putPadding) : c.Correct where
  roundTrip m hm := by
    obtain ⟨f, hf, hencode⟩ := hwrites m hm
    refine ⟨_, Producer.zerosTo 2 (c.body m).length, rfl, Producer.length_zerosTo_lt _ _, ?_,
      fun cap hcap => ?_, fun mem len hmem hlen => ?_, fun mem k hk hmem => ?_⟩
    · rw [length_append]
      exact length_zerosTo_two _
    · rw [length_append] at hcap
      rw [hencode, hf { cap } (by simp; omega)]
      exact Producer.padTo_eq (by decide) (by simpa using hcap)
    · rw [length_append] at hlen
      have hbegin : Begins mem len 0 (c.body m) := .of_holds (Holds.append_iff.mp hmem).1
      have hdec := haccepts m hm mem len 0 (by omega) hbegin
      rw [if_pos (by omega)] at hdec
      exact ⟨_, hdec⟩
    · have hdec := haccepts m hm mem k 0 (by omega) hmem.append.1
      rwa [if_neg (by omega)] at hdec
  inBounds mem len := hsafe mem len 0

def SnRange.Wf (r : SnRange) : Prop := Fits24 r.start ∧ Fits24 r.stop

theorem reads_decodeSnRange {r : SnRange} (h : r.Wf) : Reads decodeSnRange r.bytes r := by
  refine (Reads.grab (u24Be r.start)).bind ((Reads.grab (u24Be r.stop)).map ?_)
  rw [ntoh_u24Be h.1, ntoh_u24Be h.2]

theorem accepts_decodeSnRanges {max : Nat} {l : List SnRange} (hmax : max ≤ 255)
    (hl : l.length ≤ max) (hwf : ∀ r ∈ l, r.Wf) :
    Accepts (decodeSnRanges max) (countedBytes SnRange.bytes l) l :=
  accepts_counted _ _ hmax hl (fun r hr => reads_decodeSnRange (hwf r hr)) fun _ _ => rfl

theorem safe_decodeSnRanges (max : Nat) : Safe (decodeSnRanges max) :=
  safe_counted _ _ max ((Within.grab 3).bind fun _ => (Within.grab 3).bind fun _ => .pure _)

namespace DlDataDeliveryStatus

structure Wf (m : DlDataDeliveryStatus) : Prop where
  lostNruRanges : ∀ l ∈ m.lostNruRanges, l.length ≤ maxLostNruSnRanges ∧ ∀ r ∈ l, r.Wf
  highestDelivered : ∀ v ∈ m.highestDeliveredNrPdcpSn, Fits24 v
  highestTransmitted : ∀ v ∈ m.highestTransmittedNrPdcpSn, Fits24 v
  deliveredRetransmitted : ∀ v ∈ m.deliveredRetransmittedNrPdcpSn, Fits24 v
  retransmitted : ∀ v ∈ m.retransmittedNrPdcpSn, Fits24 v
  deliveredOosRanges : ∀ l ∈ m.deliveredOosRanges,
    l.length ≤ maxDeliveredOosSnRanges ∧ ∀ r ∈ l, r.Wf

def body (m : DlDataDeliveryStatus) : List Byte :=
  m.header ++ u32Be m.desiredBufferSize ++
    (m.desiredDataRate.elim [] u32Be ++
    (m.lostNruRanges.elim [] (countedBytes SnRange.bytes) ++
    (m.highestDeliveredNrPdcpSn.elim [] u24Be ++
    (m.highestTransmittedNrPdcpSn.elim [] u24Be ++
    (m.causeValue.elim [] (fun v => [v]) ++
    (m.deliveredRetransmittedNrPdcpSn.elim [] u24Be ++
    (m.retransmittedNrPdcpSn.elim [] u24Be ++
    m.deliveredOosRanges.elim [] (countedBytes SnRange.bytes))))))))

def codec : Codec DlDataDeliveryStatus where
  encode := encode
  decode := decode
  Wf := Wf
  body := body

theorem accepts_decode {m : DlDataDeliveryStatus} (h : m.Wf) : Accepts decode m.body m := by
  obtain ⟨ht, hb3, hb2, hb1, hb0⟩ := typeOctet_spec pduType m.highestTransmittedNrPdcpSn.isSome
    m.highestDeliveredNrPdcpSn.isSome m.finalFrameInd m.lostNruRanges.isSome
  obtain ⟨hc4, hc3, hc2, hc1, hc0⟩ := flagOctet_spec m.deliveredOosRanges.isSome
    m.desiredDataRate.isSome m.retransmittedNrPdcpSn.isSome m.deliveredRetransmittedNrPdcpSn.isSome
    m.causeValue.isSome
  refine Accepts.bind (accepts_fixedPart ht rfl rfl) ?_
  simp only [getD_cons_zero, getD_cons_succ, hb3, hb2, hb1, hb0, hc4, hc3, hc2, hc1, hc0,
    ntoh_u32Be]
  refine Accepts.bind (.optional fun v _ => (accepts_field _ (u32Be v)).map (ntoh_u32Be v)) ?_
  refine Accepts.bind (.optional fun l hl => accepts_decodeSnRanges (by decide)
    (h.lostNruRanges l hl).1 (h.lostNruRanges l hl).2) ?_
  refine Accepts.bind (.optional fun v hv => accepts_u24Field _ (h.highestDelivered v hv)) ?_
  refine Accepts.bind (.optional fun v hv => accepts_u24Field _ (h.highestTransmitted v hv)) ?_
  refine Accepts.bind (.optional fun v _ => accepts_u8Field _ v) ?_
  refine Accepts.bind (.optional fun v hv => accepts_u24Field _ (h.deliveredRetransmitted v hv)) ?_
  refine Accepts.bind (.optional fun v hv => accepts_u24Field _ (h.retransmitted v hv)) ?_
  rw [← append_nil (m.deliveredOosRanges.elim [] _)]
  refine Accepts.bind (.optional fun l hl => accepts_decodeSnRanges (by decide)
    (h.deliveredOosRanges l hl).1 (h.deliveredOosRanges l hl).2) ?_
  exact accepts_checkConsumed.map rfl

theorem safe_decode : Safe decode := by
  refine (safe_fixedPart (show minLen = 2 + 4 from rfl)).bind fun fixed => ?_
  refine (((safe_field _ 4).bind fun _ => .pure _).optional _).bind fun _ => ?_
  refine ((safe_decodeSnRanges _).optional _).bind fun _ => ?_
  refine ((safe_u24Field _).optional _).bind fun _ => ?_
  refine ((safe_u24Field _).optional _).bind fun _ => ?_
  refine ((safe_u8Field _).optional _).bind fun _ => ?_
  refine ((safe_u24Field _).optional _).bind fun _ => ?_
  refine ((safe_u24Field _).optional _).bind fun _ => ?_
  refine ((safe_decodeSnRanges _).optional _).bind fun _ => ?_
  exact safe_checkConsumed.bind fun _ => .pure _

theorem writes_encode {m : DlDataDeliveryStatus}
    (hlost : ∀ l ∈ m.lostNruRanges, l.length ≤ maxLostNruSnRanges)
    (hoos : ∀ l ∈ m.deliveredOosRanges, l.length ≤ maxDeliveredOosSnRanges) :
    ∃ f, Producer.Writes f m.body ∧ ∀ p, encode p m = f p >>= putPadding := by
  refine ⟨_, .bind (.bind (.put _) (.put _)) <|
    .bind (writes_putOptional fun v _ => .put (u32Be v)) <|
    .bind (writes_putOptional fun l hl => writes_putCounted (hlost l hl)) <|
    .bind (writes_putOptional fun v _ => .put (u24Be v)) <|
    .bind (writes_putOptional fun v _ => .put (u24Be v)) <|
    .bind (writes_putOptional fun v _ => .put [v]) <|
    .bind (writes_putOptional fun v _ => .put (u24Be v)) <|
    .bind (writes_putOptional fun v _ => .put (u24Be v)) <|
    writes_putOptional fun l hl => writes_putCounted (hoos l hl), fun p => ?_⟩
  simp only [encode, bind_assoc]
  rfl

end DlDataDeliveryStatus

namespace DlUserData

structure Wf (m : DlUserData) : Prop where
  nruSequenceNumber : Fits24 m.nruSequenceNumber
  dlDiscardNrPdcpPduSn : ∀ v ∈ m.dlDiscardNrPdcpPduSn, Fits24 v
  dlDiscardBlocks : ∀ l ∈ m.dlDiscardBlocks,
    l.length ≤ maxDlDiscardBlocks ∧ ∀ b ∈ l, Fits24 b.dlDiscardNrPdcpPduSnStart
  nrPdcpPduSn : ∀ v ∈ m.nrPdcpPduSn, Fits24 v

def body (m : DlUserData) : List Byte :=
  m.header ++ u24Be m.nruSequenceNumber ++
    (m.dlDiscardNrPdcpPduSn.elim [] u24Be ++
    (m.dlDiscardBlocks.elim [] (countedBytes DlDiscardBlock.bytes) ++
    m.nrPdcpPduSn.elim [] u24Be))

def codec : Codec DlUserData where
  encode := encode
  decode := decode
  Wf := Wf
  body := body

theorem reads_decodeDlDiscardBlock {b : DlDiscardBlock} (h : Fits24 b.dlDiscardNrPdcpPduSnStart) :
    Reads decodeDlDiscardBlock b.bytes b := by
  refine (Reads.grab (u24Be b.dlDiscardNrPdcpPduSnStart)).bind
    ((Reads.grab [b.discardedBlockSize]).map ?_)
  rw [ntoh_u24Be h]
  rfl

theorem accepts_decode {m : DlUserData} (h : m.Wf) : Accepts decode m.body m := by
  obtain ⟨ht, -, hb2, hb1, hb0⟩ := typeOctet_spec pduType false m.dlDiscardBlocks.isSome
    m.dlDiscardNrPdcpPduSn.isSome m.reportPolling
  obtain ⟨hc4, hc3, hc2, hc1, hc0⟩ := flagOctet_spec m.requestOutOfSeqReport m.nrPdcpPduSn.isSome
    m.userDataExistence m.assistanceInfoReportPolling m.retransmission
  refine Accepts.bind (accepts_fixedPart ht rfl rfl) ?_
  simp only [getD_cons_zero, getD_cons_succ, hb2, hb1, hb0, hc4, hc3, hc2, hc1, hc0,
    ntoh_u24Be h.nruSequenceNumber]
  refine Accepts.bind (.optional fun v hv => accepts_u24Field _ (h.dlDiscardNrPdcpPduSn v hv)) ?_
  refine Accepts.bind (.optional fun l hl => accepts_counted _ _ (by decide)
    (h.dlDiscardBlocks l hl).1 (fun b hb => reads_decodeDlDiscardBlock
      ((h.dlDiscardBlocks l hl).2 b hb)) fun _ _ => rfl) ?_
  rw [← append_nil (m.nrPdcpPduSn.elim [] _)]
  refine Accepts.bind (.optional fun v hv => accepts_u24Field _ (h.nrPdcpPduSn v hv)) ?_
  exact accepts_checkConsumed.map rfl

theorem safe_decode : Safe decode := by
  refine (safe_fixedPart (show minLen = 2 + 3 from rfl)).bind fun fixed => ?_
  refine ((safe_u24Field _).optional _).bind fun _ => ?_
  refine ((safe_counted _ _ _ ((Within.grab 3).bind fun _ =>
    (Within.grab 1).bind fun _ => .pure _)).optional _).bind fun _ => ?_
  refine ((safe_u24Field _).optional _).bind fun _ => ?_
  exact safe_checkConsumed.bind fun _ => .pure _

theorem writes_encode {m : DlUserData}
    (hblocks : ∀ l ∈ m.dlDiscardBlocks, l.length ≤ maxDlDiscardBlocks) :
    ∃ f, Producer.Writes f m.body ∧ ∀ p, encode p m = f p >>= putPadding := by
  refine ⟨_, .bind (.bind (.put _) (.put _)) <|
    .bind (writes_putOptional fun v _ => .put (u24Be v)) <|
    .bind (writes_putOptional fun l hl => writes_putCounted (hblocks l hl)) <|
    writes_putOptional fun v _ => .put (u24Be v), fun p => ?_⟩
  simp only [encode, bind_assoc]
  rfl

end DlUserData

theorem codecs_correct : DlUserData.codec.Correct ∧ DlDataDeliveryStatus.codec.Correct :=
  ⟨Codec.correct DlUserData.safe_decode (fun _ => DlUserData.accepts_decode)
    fun _ h => DlUserData.writes_encode fun l hl => (h.dlDiscardBlocks l hl).1,
  Codec.correct DlDataDeliveryStatus.safe_decode (fun _ => DlDataDeliveryStatus.accepts_decode)
    fun _ h => DlDataDeliveryStatus.writes_encode (fun l hl => (h.lostNruRanges l hl).1)
      fun l hl => (h.deliveredOosRanges l hl).1⟩

end OpenAir.Nrup

import OpenAir.Rlc.Um.DataPdu
import OpenAir.Rlc.Um.ReceiverSize

/-! A stream of PDUs without loss: the SDUs in turn, each in one PDU or in segments that follow each
other, and a receiver that reads it. -/

namespace OpenAir.Rlc.Um

open RxManager List

variable {c : Config}

structure Stream where
  next : Nat
  sent : List Byte

def Stream.pdu (st : Stream) (isFirst isLast : Bool) (data : List Byte) : Pdu :=
  newPdu st.next st.sent.length isFirst isLast data

inductive Stream.Sends (c : Config) : Stream → List Byte → List (List Byte) → Stream → Prop
  | whole {n : Nat} {data : List Byte} (hdata : data ≠ []) :
      Sends c ⟨n, []⟩ (wholePdu data) [data] ⟨n, []⟩
  | segment {n : Nat} {sent data : List Byte} (hdata : data ≠ [])
      (hsize : sent.length + data.length < sduMax) :
      Sends c ⟨n, sent⟩ (segmentPdu c (decide (sent = [])) false n sent.length data) []
        ⟨n, sent ++ data⟩
  | last {n : Nat} {sent data : List Byte} (hsent : sent ≠ []) (hdata : data ≠ [])
      (hsize : sent.length + data.length ≤ sduMax) :
      Sends c ⟨n, sent⟩ (segmentPdu c false true n sent.length data) [sent ++ data]
        ⟨(n + 1) % c.snModulus, []⟩

def chunkPdus (n : Nat) : Nat → List (List Byte) → List Pdu
  | _, [] => []
  | so, d :: ds => newPdu n so (decide (so = 0)) false d :: chunkPdus n (so + d.length) ds

section

variable {n so : Nat} {ds : List (List Byte)} {q : Pdu}

theorem chunkPdus_append (d : List Byte) : chunkPdus n so (ds ++ [d]) =
    chunkPdus n so ds ++
      [newPdu n (so + ds.flatten.length) (decide (so + ds.flatten.length = 0)) false d] := by
  induction ds generalizing so with
  | nil => simp [chunkPdus]
  | cons d' ds ih => simp [chunkPdus, ih, Nat.add_assoc]

theorem insertPdu_chunkPdus (hq : so + ds.flatten.length ≤ q.so) :
    insertPdu q (chunkPdus n so ds) = chunkPdus n so ds ++ [q] := by
  induction ds generalizing so with
  | nil => rfl
  | cons d ds ih =>
    rw [flatten_cons, length_append] at hq
    rw [chunkPdus, insertPdu, if_neg (by simp only [newPdu]; omega), ih (by omega)]
    rfl

variable {b : Int}

theorem fullFrom_chunkPdus : fullFrom (chunkPdus n so ds) b = false := by
  induction ds generalizing so b with
  | nil => rfl
  | cons d ds ih =>
    rw [chunkPdus, fullFrom]
    split
    · rfl
    · simp [newPdu, ih]

theorem fullFrom_chunkPdus_last (hb : (so : Int) ≤ b + 1) (hq : q.so = so + ds.flatten.length)
    (hlast : q.isLast) :
    fullFrom (chunkPdus n so ds ++ [q]) b := by
  induction ds generalizing so b with
  | nil =>
    simp only [flatten_nil, length_nil] at hq
    rw [chunkPdus, nil_append, fullFrom, if_neg (by omega), if_pos hlast]
  | cons d ds ih =>
    rw [flatten_cons, length_append] at hq
    rw [chunkPdus, cons_append, fullFrom, if_neg (by simp only [newPdu]; omega),
      if_neg (by simp [newPdu])]
    exact ih (by simp only [newPdu]; omega) (by omega)

theorem missingFrom_chunkPdus (hb : (so : Int) ≤ b + 1) :
    missingFrom (chunkPdus n so ds) b = false := by
  induction ds generalizing so b with
  | nil => rfl
  | cons d ds ih =>
    rw [chunkPdus, missingFrom, if_neg (by simp only [newPdu]; omega)]
    exact ih (by simp only [newPdu]; omega)

theorem reassemble_append {l : List Pdu} {acc : List Byte} {data : List Byte}
    (hdata : q.data = some data)
    (hsize : q.size = data.length) (hpos : data ≠ []) (hso : q.so = acc.length)
    (hmax : acc.length + data.length ≤ sduMax) :
    reassemble (q :: l) acc false = reassemble l (acc ++ data) false := by
  have hlen := length_pos_iff.mpr hpos
  rw [reassemble]
  simp only [hso, gt_iff_lt, lt_self_iff_false, decide_false, Bool.or_false, Bool.false_or, hsize,
    sub_self, sub_zero, hdata, Option.getD_some, drop_zero, Int.toNat_natCast, Nat.sub_self,
    take_length]
  rw [decide_eq_false (by omega), decide_eq_true (by omega)]
  simp

theorem reassemble_chunkPdus {l : List Pdu} (acc : List Byte) (hso : so = acc.length)
    (hpos : ∀ d ∈ ds, d ≠ []) (hmax : acc.length + ds.flatten.length ≤ sduMax) :
    reassemble (chunkPdus n so ds ++ l) acc false = reassemble l (acc ++ ds.flatten) false := by
  induction ds generalizing so acc with
  | nil => simp [chunkPdus]
  | cons d ds ih =>
    rw [flatten_cons, length_append] at hmax
    rw [chunkPdus, cons_append,
      reassemble_append rfl rfl (hpos d (by simp)) hso (by omega),
      ih _ (by simp [hso]) (fun d hd => hpos d (by simp [hd]))
        (by rw [length_append]; omega)]
    simp

theorem byteSum_chunkPdus : byteSum (chunkPdus n so ds) = ds.flatten.length := by
  induction ds generalizing so with
  | nil => rfl
  | cons d ds ih =>
    rw [chunkPdus, byteSum_cons, ih, flatten_cons, length_append]
    simp [newPdu]

end

/-! The receiver. -/

theorem rank_pred {n : Nat} (hn : n < c.snModulus) :
    rank c ((n + 1) % c.snModulus) n + 1 = c.windowSize := by
  have hw := c.windowSize_ge
  have hmove := rank_move hn hn hn (rank_highest hn).ge
  rw [rank_highest hn, if_neg (by omega)] at hmove
  omega

namespace Rx

variable {e e' e₂ : Rx} {st st' : Stream} {fuel : Nat} {now : UInt64} {out : List Delivery}
  {sdus : List (List Byte)} {pdu data : List Byte}

theorem timer_idle (h : e.Stores c) (hstop : e.tReassemblyStart = 0) (hgap : ¬ e.Gap c) :
    startTReassembly c now (stopTReassembly c e) = e := by
  have hkeep : stopTReassembly c e = e := by
    unfold stopTReassembly
    rw [if_neg (fun hc => hc.1 hstop)]
  rw [hkeep]
  unfold startTReassembly
  rw [if_neg]
  rintro ⟨-, hc⟩
  exact hgap (hc.imp h.snCompareRx_succ.mp id)

structure Follows (c : Config) (e : Rx) (st : Stream) : Prop extends e.Receiving c where
  counted : e.Counted
  maxsize : (sduMax : Int) ≤ e.rxMaxsize
  stopped : e.tReassemblyStart = 0
  reassembly : e.rxNextReassembly = st.next
  highest : e.rxNextHighest = if st.sent = [] then st.next else (st.next + 1) % c.snModulus
  others : ∀ p ∈ e.rxList, p.sn ≠ st.next → p.size = 0
  chunks : ∃ ds, (∀ d ∈ ds, d ≠ []) ∧ ds.flatten = st.sent ∧ e.slot st.next = chunkPdus st.next 0 ds

namespace Follows

theorem new (rxMaxsize : Int) (hmax : (sduMax : Int) ≤ rxMaxsize) :
    ({ rxMaxsize } : Rx).Follows c ⟨0, []⟩ where
  toReceiving := .new _
  counted := rfl
  maxsize := hmax
  stopped := rfl
  reassembly := rfl
  highest := rfl
  others := by simp
  chunks := ⟨[], by simp, rfl, rfl⟩

variable (h : e.Follows c st)
include h

theorem next_lt : st.next < c.snModulus := h.reassembly ▸ h.reassembly_lt

theorem rxSize_eq : e.rxSize = st.sent.length := by
  obtain ⟨ds, -, hflat, hslot⟩ := h.chunks
  have hsum := (byteSum_filter e.rxList (·.sn = st.next)).mpr fun p hp hsn =>
    h.others p hp (by simpa using hsn)
  have hbytes : byteSum (e.slot st.next) = ds.flatten.length := hslot ▸ byteSum_chunkPdus
  rw [h.counted, ← hsum, ← hflat, ← hbytes]
  rfl

theorem accepts (isFirst isLast : Bool) (hdata : data ≠ [])
    (hsize : st.sent.length + data.length ≤ sduMax) :
    e.accepts c (st.pdu isFirst isLast data) := by
  have hpos := length_pos_iff.mpr hdata
  have hmax := h.maxsize
  have hrx := h.rxSize_eq
  have hcmp : e.snCompareRx c st.next e.rxNextReassembly = 0 := by
    rw [h.reassembly, snCompareRx, sub_self]
  refine Bool.and_eq_true_iff.mpr ⟨Bool.and_eq_true_iff.mpr ⟨decide_eq_true hpos,
    decide_eq_true ?_⟩, decide_eq_true hcmp.ge⟩
  change e.rxSize + data.length ≤ e.rxMaxsize
  omega

variable {isFirst isLast : Bool}

theorem isSegment (data : List Byte) (hfirst : isFirst ↔ st.sent = [])
    (hpart : ¬ (isFirst ∧ isLast)) :
    IsSegment c (st.pdu isFirst isLast data) where
  sn_lt := h.next_lt
  data := ⟨data, rfl, rfl⟩
  first := hfirst.trans length_eq_zero_iff.symm
  not_whole := hpart

theorem recvPdu_eq (hfirst : isFirst ↔ st.sent = [])
    (hpart : ¬ (isFirst ∧ isLast)) (hdata : data ≠ [])
    (hsize : st.sent.length + data.length ≤ sduMax) :
    e.recvPdu c fuel now (segmentPdu c isFirst isLast st.next st.sent.length data) =
      ((e.add c (st.pdu isFirst isLast data)).actions c fuel st.next).map
        fun r => (startTReassembly c now (stopTReassembly c r.1), r.2) := by
  have hso : st.sent.length < 2 ^ 16 := by
    unfold sduMax at hsize
    omega
  rw [recvPdu_segmentPdu h.next_lt hso (hfirst.trans length_eq_zero_iff.symm)
    (by simpa using hpart)]
  exact if_pos (h.accepts _ _ hdata hsize)

theorem slot_add_segment {ds : List (List Byte)}
    (hq : IsSegment c (st.pdu isFirst isLast data))
    (hflat : ds.flatten = st.sent) (hslot : e.slot st.next = chunkPdus st.next 0 ds) :
    (e.add c (st.pdu isFirst isLast data)).slot st.next =
      chunkPdus st.next 0 ds ++ [st.pdu isFirst isLast data] := by
  have hadd := slot_add h.toOrdered hq.sn_lt st.next
  rw [if_pos (show (st.pdu isFirst isLast data).sn = st.next from rfl), hslot,
    insertPdu_chunkPdus (by simp [Stream.pdu, newPdu, hflat])] at hadd
  exact hadd

theorem of_segment {ds : List (List Byte)} (hrec : e₂.Receiving c) (hcount : e₂.Counted)
    (hmax : e₂.rxMaxsize = e.rxMaxsize) (hstop : e₂.tReassemblyStart = 0)
    (hN : e₂.rxNextReassembly = st.next) (hH : e₂.rxNextHighest = (st.next + 1) % c.snModulus)
    (hothers : ∀ p ∈ e₂.rxList, p.sn ≠ st.next → p.size = 0) (hpos : ∀ d ∈ ds, d ≠ [])
    (hslot : e₂.slot st.next = chunkPdus st.next 0 ds) (hne : ds ≠ []) :
    e₂.Follows c ⟨st.next, ds.flatten⟩ where
  toReceiving := hrec
  counted := hcount
  maxsize := hmax ▸ h.maxsize
  stopped := hstop
  reassembly := hN
  highest := by
    obtain ⟨d, ds, rfl⟩ := exists_cons_of_ne_nil hne
    have hd := hpos d (by simp)
    rw [hH, if_neg (by simp [hd])]
  others := hothers
  chunks := ⟨ds, hpos, rfl, hslot⟩

theorem segment (hdata : data ≠ []) (hsize : st.sent.length + data.length < sduMax)
    (hr : e.recvPdu c fuel now
      (segmentPdu c (decide (st.sent = [])) false st.next st.sent.length data) = some (e', out)) :
    e'.Follows c ⟨st.next, st.sent ++ data⟩ ∧ out = [] := by
  have hq : IsSegment c (st.pdu (decide (st.sent = [])) false data) :=
    h.isSegment data (by simp) (by simp)
  have hreceives := h.recvPdu_receives hr
  rw [h.recvPdu_eq (by simp) (by simp) hdata hsize.le] at hr
  obtain ⟨⟨e₂, out₂⟩, ha, heq⟩ := Option.map_eq_some_iff.mp hr
  cases heq
  obtain ⟨ds, hpos, hflat, hslot⟩ := h.chunks
  have hslot' := h.slot_add_segment hq hflat hslot
  have hacts : Acts c (e.add c (st.pdu (decide (st.sent = [])) false data)) st.next e₂ out₂ :=
    h.acts hq ha
  have hst := (h.acts_receives hq hacts).1
  have hnext : rank c ((st.next + 1) % c.snModulus) st.next < c.windowSize := by
    have := rank_pred h.next_lt
    omega
  have hchunks : (e.add c (st.pdu (decide (st.sent = [])) false data)).slot st.next =
      chunkPdus st.next 0 (ds ++ [data]) := by
    rw [hslot', chunkPdus_append, Nat.zero_add, hflat]
    simp only [length_eq_zero_iff]
    rfl
  have hfull : (e.add c (st.pdu (decide (st.sent = [])) false data)).sduFull st.next = false := by
    rw [(h.toStores.add hq).sduFull_eq h.next_lt, hchunks, fullFrom_chunkPdus, Bool.and_false]
  have hmem (p) (hp : p ∈ (e.add c (st.pdu (decide (st.sent = [])) false data)).rxList)
      (hne : p.sn ≠ st.next) : p.size = 0 := by
    rcases mem_add.mp hp with rfl | hp
    · exact absurd rfl hne
    · exact h.others p hp hne
  have hkey : out₂ = [] ∧ e₂.rxMaxsize = e.rxMaxsize ∧ e₂.tReassemblyStart = 0 ∧
      e₂.rxNextReassembly = st.next ∧ e₂.rxNextHighest = (st.next + 1) % c.snModulus ∧
      (∀ p ∈ e₂.rxList, p.sn ≠ st.next → p.size = 0) ∧
      e₂.slot st.next = chunkPdus st.next 0 (ds ++ [data]) := by
    cases hacts with
    | delivers hf => exact absurd hf (by simp [hfull])
    | passes hf => exact absurd hf (by simp [hfull])
    | waits _ hin =>
      refine ⟨rfl, rfl, h.stopped, h.reassembly, ?_, hmem, hchunks⟩
      -- the window has moved with the first segment
      have hne : st.sent ≠ [] := fun hnil => by
        change rank c e.rxNextHighest st.next < c.windowSize at hin
        rw [h.highest, if_pos hnil, rank_highest h.next_lt] at hin
        omega
      exact h.highest.trans (if_neg hne)
    | moves _ hout hin =>
      have hle := h.add_inWindowBut.rank_le hout
      refine ⟨rfl, rfl, h.stopped, h.reassembly, rfl, fun p hp => hmem p ?_, ?_⟩
      · rw [move_rxList (h.toOrdered.add hq.sn_lt) h.next_lt hout hle] at hp
        exact (mem_filter.mp hp).1
      · have hslot₂ := slot_move (h.toOrdered.add hq.sn_lt) h.next_lt hout hle st.next
        rwa [if_pos hnext, hchunks] at hslot₂
    | jumps _ hout hN hnext' =>
      change c.windowSize ≤ rank c ((st.next + 1) % c.snModulus) e.rxNextReassembly at hN
      rw [h.reassembly] at hN
      omega
  obtain ⟨rfl, hmax, hstop, hN, hH, hothers, hslot₂⟩ := hkey
  have hgap : ¬ e₂.Gap c := by
    have := rank_pred h.next_lt
    rintro (hlt | ⟨-, hmiss⟩)
    · rw [hN, hH] at hlt
      omega
    · rw [hN, sduHasMissingBytes, hst.segments_eq h.next_lt, hslot₂,
        missingFrom_chunkPdus (by omega), Bool.and_false] at hmiss
      cases hmiss
  dsimp only at hreceives ⊢
  rw [timer_idle hst hstop hgap] at hreceives ⊢
  have hpos' : ∀ d ∈ ds ++ [data], d ≠ [] := fun d hd => by
    rcases mem_append.mp hd with hd | hd
    · exact hpos d hd
    · exact mem_singleton.mp hd ▸ hdata
  have hfollows :=
    h.of_segment (h.receives hreceives) (h.counted.receives hreceives) hmax hstop hN hH
    hothers hpos' hslot₂ (by simp)
  rw [flatten_append, hflat, flatten_singleton] at hfollows
  exact ⟨hfollows, rfl⟩

theorem last (hsent : st.sent ≠ []) (hdata : data ≠ [])
    (hsize : st.sent.length + data.length ≤ sduMax)
    (hr : e.recvPdu c fuel now (segmentPdu c false true st.next st.sent.length data) =
      some (e', out)) :
    e'.Follows c ⟨(st.next + 1) % c.snModulus, []⟩ ∧
      out = [⟨some st.next, st.sent ++ data⟩] := by
  have hM := c.snModulus_eq
  have hw := c.windowSize_ge
  have hq : IsSegment c (st.pdu false true data) := h.isSegment data (by simp [hsent]) (by simp)
  have hreceives := h.recvPdu_receives hr
  rw [h.recvPdu_eq (by simp [hsent]) (by simp) hdata hsize] at hr
  obtain ⟨⟨e₂, out₂⟩, ha, heq⟩ := Option.map_eq_some_iff.mp hr
  cases heq
  obtain ⟨ds, hpos, hflat, hslot⟩ := h.chunks
  have hslot' := h.slot_add_segment hq hflat hslot
  have hacts : Acts c (e.add c (st.pdu false true data)) st.next e₂ out₂ :=
    h.acts hq ha
  obtain ⟨hst, hin, -⟩ := h.acts_receives hq hacts
  have hord := h.toOrdered.add hq.sn_lt
  have hH : e.rxNextHighest = (st.next + 1) % c.snModulus := h.highest.trans (if_neg hsent)
  have hfull : (e.add c (st.pdu false true data)).sduFull st.next := by
    rw [hord.sduFull_eq h.next_lt, hslot',
      fullFrom_chunkPdus_last (by omega) (by simp [Stream.pdu, newPdu, hflat]) rfl]
    cases ds with
    | nil => exact absurd hflat.symm hsent
    | cons d ds => rfl
  have hout : ((e.add c (st.pdu false true data)).reassembleAndDeliver st.next).2 =
      [⟨some st.next, st.sent ++ data⟩] := by
    have hre : reassemble (chunkPdus st.next 0 ds ++ [st.pdu false true data]) [] false =
        (st.sent ++ data, false) := by
      rw [reassemble_chunkPdus [] (show 0 = ([] : List Byte).length from rfl) hpos
        (by rw [hflat, length_nil]; omega),
        nil_append, hflat, reassemble_append rfl rfl hdata rfl hsize]
      rfl
    rw [reassembleAndDeliver]
    dsimp only
    rw [hord.segments_eq h.next_lt, hslot', hre]
    rfl
  cases hacts with
  | delivers _ hne => exact absurd h.reassembly.symm hne
  | waits hf => exact absurd hf (by simp [hfull])
  | moves hf => exact absurd hf (by simp [hfull])
  | jumps hf => exact absurd hf (by simp [hfull])
  | @passes sn _ _ hnext =>
    -- the SN after the delivered one is the end of the window
    have hsn : sn = e.rxNextHighest := by
      have hle : rank c e.rxNextHighest st.next ≤ rank c e.rxNextHighest sn := hnext.le
      have hrank : rank c e.rxNextHighest sn ≤ c.windowSize := hnext.rank_le
      have hpred := rank_pred h.next_lt
      rw [← hH] at hpred
      have hne : rank c e.rxNextHighest st.next ≠ rank c e.rxNextHighest sn := by
        intro heq
        have hstop := hnext.stop
        rw [← (rank_inj h.highest_lt h.next_lt hnext.lt).mp heq,
          sduDelivered_reassembleAndDeliver hord h.next_lt hfull h.next_lt] at hstop
        simp at hstop
      rw [← rank_inj h.highest_lt hnext.lt h.highest_lt, rank_highest h.highest_lt]
      omega
    subst hsn
    have hgap : ¬ Rx.Gap c
        { (Rx.reassembleAndDeliver (e.add c (st.pdu false true data)) st.next).1 with
          rxNextReassembly := e.rxNextHighest } := by
      have hlt := h.highest_lt
      rintro (hlt' | ⟨heq, -⟩)
      · change rank c e.rxNextHighest e.rxNextHighest + 1 < c.windowSize at hlt'
        rw [rank_highest hlt] at hlt'
        omega
      · change e.rxNextHighest = (e.rxNextHighest + 1) % c.snModulus at heq
        rw [Cyclic.add_mod_of_lt hlt (by omega)] at heq
        split at heq <;> omega
    dsimp only at hreceives ⊢
    rw [timer_idle hst h.stopped hgap] at hreceives ⊢
    refine ⟨⟨h.receives hreceives, h.counted.receives hreceives, h.maxsize, h.stopped, hH, hH,
      fun p hp _ => ?_, ⟨[], by simp, rfl, ?_⟩⟩, hout⟩
    · change p ∈ (Rx.reassembleAndDeliver _ st.next).1.rxList at hp
      rw [hord.reassembleAndDeliver_rxList h.next_lt] at hp
      obtain ⟨r, hr, rfl⟩ := mem_map.mp hp
      split
      · rfl
      · next hne =>
        rcases mem_add.mp hr with rfl | hr
        · exact absurd rfl hne
        · exact h.others r hr hne
    · refine slot_eq_nil hin ?_
      rw [← hH]
      exact (rank_highest h.highest_lt).ge

theorem sends (hs : st.Sends c pdu sdus st')
    (hr : e.recvPdu c fuel now pdu = some (e', out)) :
    e'.Follows c st' ∧ out.map (·.sdu) = sdus := by
  cases hs with
  | whole hdata =>
    rw [recvPdu_wholePdu hdata] at hr
    cases hr
    exact ⟨h, rfl⟩
  | segment hdata hsize =>
    obtain ⟨hf, rfl⟩ := h.segment hdata hsize hr
    exact ⟨hf, rfl⟩
  | last hsent hdata hsize =>
    obtain ⟨hf, rfl⟩ := h.last hsent hdata hsize hr
    exact ⟨hf, rfl⟩

end Follows

end Rx

end OpenAir.Rlc.Um

import OpenAir.Mac.Ulsch

namespace OpenAir.Mac

section Header

variable (pdu : Nat → Byte)

theorem subheaderLen_pos : 1 ≤ (decodeUlMacSubPduHeader pdu).subheaderLen := by
  unfold decodeUlMacSubPduHeader
  dsimp only
  split <;> (try split) <;> simp

@[simp] theorem decode_lcid :
    (decodeUlMacSubPduHeader pdu).lcid = Lcid.ofNat ((pdu 0).toNat % 64) := by
  unfold decodeUlMacSubPduHeader
  dsimp only
  split <;> (try split) <;> rfl

variable {pdu}

theorem macLen_singleEntryPhr (h : (decodeUlMacSubPduHeader pdu).lcid = .singleEntryPhr) :
    (decodeUlMacSubPduHeader pdu).macLen = 2 := by
  rw [decode_lcid] at h
  simp [decodeUlMacSubPduHeader, h]

theorem macLen_cRnti (h : (decodeUlMacSubPduHeader pdu).lcid = .cRnti) :
    (decodeUlMacSubPduHeader pdu).subheaderLen = 1 ∧ (decodeUlMacSubPduHeader pdu).macLen = 2 := by
  rw [decode_lcid] at h
  simp [decodeUlMacSubPduHeader, h]

theorem macLen_shortBsr (h : (decodeUlMacSubPduHeader pdu).lcid = .sBsr ∨
    (decodeUlMacSubPduHeader pdu).lcid = .sTruncatedBsr) :
    (decodeUlMacSubPduHeader pdu).macLen = 1 := by
  simp only [decode_lcid] at h
  rcases h with h | h <;> simp [decodeUlMacSubPduHeader, h]

theorem decode_congr {pdu' : Nat → Byte} {len : Nat} (hlen : 0 < len)
    (h : ∀ i < len, pdu' i = pdu i) :
    decodeUlMacSubPduHeader pdu' = decodeUlMacSubPduHeader pdu ∨
      len < (decodeUlMacSubPduHeader pdu).subheaderLen + (decodeUlMacSubPduHeader pdu).macLen ∧
        len < (decodeUlMacSubPduHeader pdu').subheaderLen +
          (decodeUlMacSubPduHeader pdu').macLen := by
  have h₀ := h 0 hlen
  unfold decodeUlMacSubPduHeader
  rw [h₀]
  dsimp only
  split
  case h_2 | h_3 | h_4 | h_5 =>
    split
    · by_cases h3 : 3 ≤ len
      · rw [h 1 (by omega), h 2 (by omega)]
        exact .inl rfl
      · exact .inr ⟨by dsimp only; omega, by dsimp only; omega⟩
    · by_cases h2 : 2 ≤ len
      · rw [h 1 (by omega)]
        exact .inl rfl
      · exact .inr ⟨by dsimp only; omega, by dsimp only; omega⟩
  all_goals exact .inl rfl

end Header

namespace SubPdu

variable {p : SubPdu} {len : Nat}

theorem stride_pos (h : 1 ≤ p.subheaderLen) : 1 ≤ p.stride len := by
  unfold stride
  split <;> omega

theorem stride_le (h : p.subheaderLen + p.macLen ≤ len) : p.stride len ≤ len := by
  unfold stride
  split
  · have := Nat.mod_le (len - p.subheaderLen) (2 ^ 16)
    omega
  · have := Nat.mod_le (len - p.subheaderLen) (2 ^ 16)
    omega
  · exact h

end SubPdu

def walk (pdu : Nat → Byte) : Nat → Nat → Nat → List SubPdu × Bool
  | 0, _, _ => ([], true)
  | fuel + 1, pos, len =>
    if len = 0 then ([], true)
    else
      let p := SubPdu.ofHeader pos (decodeUlMacSubPduHeader (seek pdu pos))
      if p.subheaderLen + p.macLen > len then ([], true)
      else if isEmptyCcch pdu p then ([], false)
      else
        let r := walk pdu fuel (pos + p.stride len) (len - p.stride len)
        (p :: r.1, r.2)

def subPdus (pdu : Nat → Byte) (pduLen : Nat) : List SubPdu := (walk pdu pduLen 0 pduLen).1

structure SubPdu.Read (pdu : Nat → Byte) (start stop : Nat) (p : SubPdu) : Prop where
  header : p = .ofHeader p.pos (decodeUlMacSubPduHeader (seek pdu p.pos))
  start : start ≤ p.pos
  stop : p.payload + p.macLen ≤ stop

section Walk

variable {pdu pdu' : Nat → Byte} {fuel pos len : Nat}

theorem walk_succ (h : 0 < len) : walk pdu (fuel + 1) pos len =
    let p := SubPdu.ofHeader pos (decodeUlMacSubPduHeader (seek pdu pos))
    if p.subheaderLen + p.macLen > len then ([], true)
    else if isEmptyCcch pdu p then ([], false)
    else
      (p :: (walk pdu fuel (pos + p.stride len) (len - p.stride len)).1,
        (walk pdu fuel (pos + p.stride len) (len - p.stride len)).2) := by
  rw [walk, if_neg (by omega)]

theorem walk_cases (P : List SubPdu × Bool → Prop) (hnil : ∀ b, P ([], b))
    (hcons : ∀ fuel' p, fuel = fuel' + 1 → p.Read pdu pos (pos + len) → p.pos = pos →
      p.stride len ≤ len → p.payload + p.macLen ≤ pos + p.stride len → 1 ≤ p.stride len →
      P (p :: (walk pdu fuel' (pos + p.stride len) (len - p.stride len)).1,
        (walk pdu fuel' (pos + p.stride len) (len - p.stride len)).2)) :
    P (walk pdu fuel pos len) := by
  cases fuel with
  | zero => exact hnil true
  | succ fuel =>
    rcases Nat.eq_zero_or_pos len with rfl | hlen
    · exact hnil true
    rw [walk_succ hlen]
    dsimp only
    split
    · exact hnil true
    split
    · exact hnil false
    next hfit _ =>
    refine hcons fuel _ rfl ⟨rfl, le_rfl, ?_⟩ rfl (SubPdu.stride_le (by omega)) ?_
      (SubPdu.stride_pos (subheaderLen_pos _))
    · simp only [SubPdu.payload, SubPdu.ofHeader] at hfit ⊢
      omega
    · -- the decoder skips at least what the subheader announces
      unfold SubPdu.stride SubPdu.payload
      dsimp only [SubPdu.ofHeader]
      rw [decode_lcid]
      split
      all_goals next h => simp [decodeUlMacSubPduHeader, h] <;> omega

theorem walk_read : ∀ p ∈ (walk pdu fuel pos len).1, p.Read pdu pos (pos + len) := by
  induction fuel generalizing pos len with
  | zero => simp [walk]
  | succ fuel ih =>
    refine walk_cases (fun r => ∀ p ∈ r.1, p.Read pdu pos (pos + len)) (by simp)
      fun fuel' p hf hp hpos hle _ _ => ?_
    cases hf
    rintro q (_ | ⟨_, hq⟩)
    · exact hp
    · obtain ⟨hh, hstart, hstop⟩ := ih q hq
      exact ⟨hh, by omega, by omega⟩

theorem walk_sum_le : ((walk pdu fuel pos len).1.map (·.macLen)).sum ≤ len := by
  induction fuel generalizing pos len with
  | zero => simp [walk]
  | succ fuel ih =>
    refine walk_cases (fun r => (r.1.map (·.macLen)).sum ≤ len) (by simp)
      fun fuel' p hf hp hpos hle hpay _ => ?_
    cases hf
    have := @ih (pos + p.stride len) (len - p.stride len)
    simp only [List.map_cons, List.sum_cons, SubPdu.payload] at hpay ⊢
    omega

theorem walk_split {pre post : List SubPdu} {p : SubPdu}
    (h : (walk pdu fuel pos len).1 = pre ++ p :: post) :
    p.payload + p.macLen + (post.map (·.macLen)).sum ≤ pos + len := by
  induction fuel generalizing pos len pre with
  | zero => simp [walk] at h
  | succ fuel ih =>
    revert h
    refine walk_cases (fun r => r.1 = pre ++ p :: post → _) (by simp)
      fun fuel' q hf hq hpos hle hpay _ h => ?_
    cases hf
    cases pre with
    | nil =>
      obtain ⟨rfl, rfl⟩ := List.cons.inj h
      have := @walk_sum_le pdu fuel (pos + q.stride len) (len - q.stride len)
      omega
    | cons q' pre =>
      have := ih (List.cons.inj h).2
      omega

theorem isEmptyCcch_congr {p : SubPdu} (hp : p.pos + p.subheaderLen + p.macLen ≤ len)
    (h : ∀ i < len, pdu' i = pdu i) : isEmptyCcch pdu' p = isEmptyCcch pdu p := by
  unfold isEmptyCcch
  congr 1
  rw [Bool.eq_iff_iff, List.all_eq_true, List.all_eq_true]
  refine forall₂_congr fun i hi => ?_
  rw [h _ (by have := List.mem_range.mp hi; omega)]

theorem walk_congr (h : ∀ i < pos + len, pdu' i = pdu i) :
    walk pdu' fuel pos len = walk pdu fuel pos len := by
  induction fuel generalizing pos len with
  | zero => rfl
  | succ fuel ih =>
    rcases Nat.eq_zero_or_pos len with rfl | hlen
    · rfl
    rw [walk_succ hlen, walk_succ hlen]
    dsimp only
    have hseek : ∀ i < len, seek pdu' pos i = seek pdu pos i := fun i hi => h _ (by omega)
    rcases decode_congr hlen hseek with heq | ⟨hlt, hlt'⟩
    · rw [heq]
      split
      · rfl
      · next hfit =>
        have hle :
            (SubPdu.ofHeader pos (decodeUlMacSubPduHeader (seek pdu pos))).stride len ≤ len :=
          SubPdu.stride_le (by omega)
        rw [isEmptyCcch_congr (by simp only [SubPdu.ofHeader] at hfit ⊢; omega) h,
          ih fun i hi => h i (by omega)]
    · exact (if_pos hlt').trans (if_pos hlt).symm

theorem loop_ulschRound (cell : Cell) (harqPid : Int) {fuel' : Nat} (d : Decoder) (hf : len ≤ fuel)
    (hf' : len < fuel') :
    loop (ulschRound cell harqPid pdu) fuel' (pos, len, d) =
      (fun d => if (walk pdu fuel pos len).2 then d.finish else d) <$>
        (walk pdu fuel pos len).1.foldlM (Decoder.process cell harqPid pdu) d := by
  induction fuel' generalizing pos len fuel d with
  | zero => omega
  | succ fuel' ih =>
    rw [loop]
    rcases Nat.eq_zero_or_pos len with rfl | hlen
    · cases fuel <;> rfl
    obtain ⟨fuel, rfl⟩ : ∃ k, fuel = k + 1 := ⟨fuel - 1, by omega⟩
    rw [walk_succ hlen, ulschRound]
    generalize hp : SubPdu.ofHeader pos (decodeUlMacSubPduHeader (seek pdu pos)) = p
    have hpos : 1 ≤ p.subheaderLen := hp ▸ subheaderLen_pos (seek pdu pos)
    dsimp only
    rw [if_neg (by omega)]
    by_cases hfit : p.subheaderLen + p.macLen > len
    · rw [if_pos hfit, if_pos hfit]
      rfl
    by_cases hempty : isEmptyCcch pdu p
    · rw [if_neg hfit, if_neg hfit, if_pos hempty, if_pos hempty]
      rfl
    rw [if_neg hfit, if_neg hfit, if_neg hempty, if_neg hempty, List.foldlM_cons]
    cases d.process cell harqPid pdu p with
    | error e => rfl
    | ok d =>
      have hstride := @SubPdu.stride_pos p len hpos
      exact ih d (by omega) (by omega)

theorem crntiRound_congr (h : ∀ i < pos + len, pdu' i = pdu i) :
    crntiRound pdu' (pos, len) = crntiRound pdu (pos, len) := by
  unfold crntiRound
  dsimp only
  rcases Nat.eq_zero_or_pos len with rfl | hlen
  · rfl
  have hseek : ∀ i < len, seek pdu' pos i = seek pdu pos i := fun i hi => h _ (by omega)
  rcases decode_congr hlen hseek with heq | ⟨hlt, hlt'⟩
  · rw [heq]
    split
    · rfl
    split
    · rfl
    next hfit =>
    split
    · next hcrnti =>
      obtain ⟨h1, h2⟩ := macLen_cRnti hcrnti
      rw [hseek 1 (by omega), hseek 2 (by omega)]
    · rfl
  · rw [if_pos (show _ > _ from hlt), if_pos (show _ > _ from hlt')]

theorem crntiRound_cases : (∃ crnti, crntiRound pdu (pos, len) = .ok (.inr crnti)) ∨
    ∃ n, 0 < n ∧ n ≤ len ∧ crntiRound pdu (pos, len) = .ok (.inl (pos + n, len - n)) := by
  unfold crntiRound
  dsimp only
  split
  · exact .inl ⟨_, rfl⟩
  split
  · exact .inl ⟨_, rfl⟩
  next hfit =>
  split
  · exact .inl ⟨_, rfl⟩
  split
  · exact .inl ⟨_, rfl⟩
  have := subheaderLen_pos (seek pdu pos)
  exact .inr ⟨_, by omega, by omega, rfl⟩

theorem loop_crntiRound_congr (h : ∀ i < pos + len, pdu' i = pdu i) (hf : len < fuel) :
    ∃ crnti, loop (crntiRound pdu') fuel (pos, len) = .ok crnti ∧
      loop (crntiRound pdu) fuel (pos, len) = .ok crnti := by
  induction fuel generalizing pos len with
  | zero => omega
  | succ fuel ih =>
    rw [loop, loop, crntiRound_congr h]
    rcases @crntiRound_cases pdu pos len with ⟨crnti, hr⟩ | ⟨n, hpos, hle, hr⟩
    · rw [hr]
      exact ⟨crnti, rfl, rfl⟩
    · rw [hr]
      exact ih (fun i hi => h i (by omega)) (by omega)

end Walk

namespace UeInfo

variable (cell : Cell)

def receive (ue : UeInfo) (p : SubPdu) : UeInfo :=
  match p.lcid with
  | .ccch64Bits | .ccch48Bits => (ue.prepareInitialUlRrcMessage cell).2
  | .ccch48BitsRedcap => ({ ue with isRedcap := true }.prepareInitialUlRrcMessage cell).2
  | _ => ue

def refuses (ue : UeInfo) (p : SubPdu) : Bool :=
  match p.lcid with
  | .srb _ => !ue.cellGroup
  | .cRnti => ue.ra = some .idle
  | _ => false

def hands (ue : UeInfo) (p : SubPdu) : Bool :=
  match p.lcid with
  | .ccch64Bits | .ccch48BitsRedcap | .ccch48Bits => !ue.srb0
  | .srb lcid | .dtch lcid => ue.takesSdus lcid
  | _ => false

def context (ue : UeInfo) : UeInfo :=
  { cellGroup := ue.cellGroup, srb0 := ue.srb0, uid := ue.uid, isRedcap := ue.isRedcap, ra := ue.ra,
    lcConfig := ue.lcConfig }

variable {cell} {u v : UeInfo} (h : u.context = v.context) (p : SubPdu)

theorem prepareInitialUlRrcMessage_fst (ue : UeInfo) :
    (ue.prepareInitialUlRrcMessage cell).1 = !ue.srb0 := by
  unfold prepareInitialUlRrcMessage
  split
  · next h => simp [h]
  · next h =>
    dsimp only
    split <;> split <;> (try split) <;> simp [h]

theorem refuses_context : u.context.refuses p = u.refuses p := by
  unfold refuses context
  split <;> rfl

theorem hands_context : u.context.hands p = u.hands p := by
  unfold hands context takesSdus getLcConfig
  split <;> rfl

theorem prepareInitialUlRrcMessage_context :
    ((u.context.prepareInitialUlRrcMessage cell).2).context =
      ((u.prepareInitialUlRrcMessage cell).2).context := by
  unfold prepareInitialUlRrcMessage context
  dsimp only
  split
  · rfl
  split <;> split <;> (try split) <;> simp_all [addLcid]

theorem receive_context : (u.context.receive cell p).context = (u.receive cell p).context := by
  unfold receive
  split
  · exact prepareInitialUlRrcMessage_context
  · exact prepareInitialUlRrcMessage_context
  · exact @prepareInitialUlRrcMessage_context cell { u with isRedcap := true }
  · rfl

end UeInfo

namespace SubPdu

def channel (p : SubPdu) : Nat :=
  match p.lcid with
  | .srb lcid | .dtch lcid => lcid
  | _ => 0

def isShortBsr (p : SubPdu) : Bool := p.lcid = .sBsr || p.lcid = .sTruncatedBsr

def isLongBsr (p : SubPdu) : Bool := p.lcid = .lBsr || p.lcid = .lTruncatedBsr

def isBsr (p : SubPdu) : Bool := p.isShortBsr || p.isLongBsr

end SubPdu

namespace Decoder

variable (cell : Cell) (harqPid : Int) (pdu : Nat → Byte)

def apply (d : Decoder) (p : SubPdu) : Decoder :=
  let ce := seek pdu p.payload
  { ue :=
      match p.lcid with
      | .ccch64Bits | .ccch48BitsRedcap | .ccch48Bits => d.ue.receive cell p
      | .srb lcid => if d.ue.takesSdus lcid then d.ue.countSdu lcid p.macLen else d.ue
      | .dtch lcid =>
        if d.ue.takesSdus lcid then (d.ue.countSdu lcid p.macLen).drain p.macLen else d.ue
      | .singleEntryPhr =>
        d.ue.handleSingleEntryPhr cell harqPid ((ce 0).toNat % 64) ((ce 1).toNat % 64)
      | .sTruncatedBsr | .sBsr => d.ue.setEstimate (estimateUlBufferShortBsr (ce 0))
      | .lTruncatedBsr | .lBsr => d.ue.setEstimate (estimateUlBufferLongBsr (lcgEntries ce))
      | _ => d.ue
    dataInd := d.dataInd ++ if d.ue.hands p then [⟨p.channel, p.payload, p.macLen⟩] else []
    sdus :=
      match p.lcid with
      | .dtch lcid => if d.ue.takesSdus lcid then d.sdus + 1 else d.sdus
      | _ => d.sdus
    ces := d.ces ++
      match p.lcid with
      | .singleEntryPhr => [.singleEntryPhr ((ce 0).toNat % 64) ((ce 1).toNat % 64)]
      | .sTruncatedBsr => [.shortBsr true ((ce 0).toNat / 32) ((ce 0).toNat % 32)]
      | .sBsr => [.shortBsr false ((ce 0).toNat / 32) ((ce 0).toNat % 32)]
      | .lTruncatedBsr => [.longBsr true (lcgEntries ce)]
      | .lBsr => [.longBsr false (lcgEntries ce)]
      | _ => [] }

variable {cell harqPid pdu} {d : Decoder} {p : SubPdu}

theorem process_error (h : d.ue.refuses p) :
    ∃ e, d.process cell harqPid pdu p = .error e := by
  unfold UeInfo.refuses at h
  split at h
  · next hl =>
    rw [process, hl]
    dsimp only
    rw [if_pos h]
    exact ⟨_, rfl⟩
  · next hl =>
    rw [process, hl]
    dsimp only
    rw [if_pos (by simpa using h)]
    exact ⟨_, rfl⟩
  · cases h

theorem addDataInd_eq (ind : DataInd) : d.addDataInd ind =
    if maxNumDataInd ≤ d.dataInd.length + 1 then .error (.assertion .numDataInd)
    else .ok { d with dataInd := d.dataInd ++ [ind] } := by
  unfold addDataInd
  by_cases h : maxNumDataInd ≤ d.dataInd.length + 1
  · rw [if_pos h, if_neg (by simpa using h)]
  · rw [if_neg h, if_pos (by simpa using h)]

theorem process_of_not_refuses (h : d.ue.refuses p = false) : d.process cell harqPid pdu p =
    if d.ue.hands p ∧ maxNumDataInd ≤ d.dataInd.length + 1 then .error (.assertion .numDataInd)
    else .ok (d.apply cell harqPid pdu p) := by
  unfold UeInfo.refuses at h
  cases hl : p.lcid with
  | ccch64Bits | ccch48Bits | ccch48BitsRedcap =>
    simp only [process, apply, UeInfo.hands, UeInfo.receive, SubPdu.channel, hl, reduceCtorEq,
      if_false, if_true]
    generalize hu : UeInfo.prepareInitialUlRrcMessage cell _ = r
    have hfst := congrArg Prod.fst hu
    rw [UeInfo.prepareInitialUlRrcMessage_fst] at hfst
    obtain ⟨b, ue⟩ := r
    cases b <;> simp_all [addDataInd_eq]
  | srb lcid | dtch lcid =>
    simp only [hl] at h
    simp only [process, apply, UeInfo.hands, SubPdu.channel, hl, h]
    cases d.ue.takesSdus lcid <;> simp [addDataInd_eq]
  | cRnti =>
    simp only [hl, decide_eq_false_iff_not] at h
    simp [process, apply, UeInfo.hands, hl, h]
  | _ => simp [process, apply, UeInfo.hands, hl]

end Decoder

end OpenAir.Mac

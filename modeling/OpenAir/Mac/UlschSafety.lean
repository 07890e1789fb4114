import OpenAir.Mac.BsrLaws
import OpenAir.Mac.UlschLaws

namespace OpenAir.Mac

open Function List

namespace UeInfo

variable (cell : Cell)

def after (ue : UeInfo) (ps : List SubPdu) : UeInfo := ps.foldl (receive cell) ue

def numDataInd : UeInfo → List SubPdu → Nat
  | _, [] => 0
  | ue, p :: ps => (ue.hands p).toNat + numDataInd (ue.receive cell p) ps

end UeInfo

namespace Decoder

variable {cell : Cell} {harqPid : Int} {pdu : Nat → Byte} {d : Decoder} {u : UeInfo}

theorem apply_context (p : SubPdu) :
    (d.apply cell harqPid pdu p).ue.context = (d.ue.receive cell p).context := by
  unfold apply UeInfo.receive
  cases hl : p.lcid with
  | srb lcid | dtch lcid =>
    dsimp only
    split <;> rfl
  | singleEntryPhr =>
    dsimp only
    unfold UeInfo.handleSingleEntryPhr
    split <;> rfl
  | ccch64Bits | ccch48Bits | ccch48BitsRedcap => rfl
  | _ => rfl

theorem context_receive (h : d.ue.context = u.context) (p : SubPdu) :
    (d.apply cell harqPid pdu p).ue.context = (u.receive cell p).context := by
  rw [apply_context, ← UeInfo.receive_context, h, UeInfo.receive_context]

theorem length_apply (p : SubPdu) : (d.apply cell harqPid pdu p).dataInd.length =
    d.dataInd.length + (d.ue.hands p).toNat := by
  rw [apply, length_append]
  cases d.ue.hands p <;> rfl

variable {l : List SubPdu}

theorem foldlM_process_eq {d' : Decoder} (h : l.foldlM (process cell harqPid pdu) d = .ok d') :
    d' = l.foldl (apply cell harqPid pdu) d := by
  induction l generalizing d with
  | nil =>
    cases h
    rfl
  | cons p l ih =>
    rw [foldlM_cons] at h
    cases hr : d.ue.refuses p with
    | true =>
      obtain ⟨e, he⟩ : ∃ e, d.process cell harqPid pdu p = .error e := process_error hr
      rw [he] at h
      cases h
    | false =>
      rw [process_of_not_refuses hr] at h
      split at h
      · cases h
      · exact ih h

theorem forall_split_cons {Q : List SubPdu → SubPdu → Prop} {p : SubPdu} :
    (∀ pre q post, p :: l = pre ++ q :: post → Q pre q) ↔
      Q [] p ∧ ∀ pre q post, l = pre ++ q :: post → Q (p :: pre) q := by
  constructor
  · intro h
    exact ⟨h [] p l rfl, fun pre q post hl => h (p :: pre) q post (by rw [hl]; rfl)⟩
  · rintro ⟨hp, hl⟩ pre q post heq
    cases pre with
    | nil =>
      obtain ⟨rfl, -⟩ := List.cons.inj heq
      exact hp
    | cons r pre =>
      obtain ⟨rfl, htail⟩ := List.cons.inj heq
      exact hl pre q post htail

theorem foldlM_process_ok_iff (hu : d.ue.context = u.context)
    (hd : d.dataInd.length < maxNumDataInd) :
    (∃ d', l.foldlM (process cell harqPid pdu) d = .ok d') ↔
      (∀ pre p post, l = pre ++ p :: post → (u.after cell pre).refuses p = false) ∧
        d.dataInd.length + u.numDataInd cell l < maxNumDataInd := by
  induction l generalizing d u with
  | nil => exact ⟨fun _ => ⟨by simp, hd⟩, fun _ => ⟨d, rfl⟩⟩
  | cons p l ih =>
    rw [forall_split_cons, foldlM_cons, UeInfo.numDataInd]
    have href : u.refuses p = d.ue.refuses p := by
      rw [← UeInfo.refuses_context, ← hu, UeInfo.refuses_context]
    have hhands : u.hands p = d.ue.hands p := by
      rw [← UeInfo.hands_context, ← hu, UeInfo.hands_context]
    change _ ↔ (u.refuses p = false ∧ ∀ pre q post, l = pre ++ q :: post →
      ((u.receive cell p).after cell pre).refuses q = false) ∧ _
    rw [href, hhands]
    cases hr : d.ue.refuses p with
    | true =>
      obtain ⟨e, he⟩ : ∃ e, d.process cell harqPid pdu p = .error e := process_error hr
      rw [he]
      simp only [Bool.true_eq_false, false_and, iff_false]
      rintro ⟨d', hd'⟩
      cases hd'
    | false =>
      rw [process_of_not_refuses hr]
      have hlen : (d.apply cell harqPid pdu p).dataInd.length =
          d.dataInd.length + (d.ue.hands p).toNat := length_apply p
      split
      · next hfull =>
        rw [hfull.1]
        constructor
        · rintro ⟨d', hd'⟩
          cases hd'
        · rintro ⟨-, hlt⟩
          simp only [Bool.toNat_true] at hlt
          omega
      · next hroom =>
        have hlt : (d.apply cell harqPid pdu p).dataInd.length < maxNumDataInd := by
          rw [hlen]
          cases hh : d.ue.hands p <;> simp_all
        rw [← Nat.add_assoc, ← hlen]
        simp only [true_and]
        exact ih (context_receive hu p) hlt

end Decoder

theorem UeInfo.prepareInitialUlRrcMessage_estimate (cell : Cell) (u : UeInfo) (e : Int) :
    ({ u with estimatedUlBuffer := e }.prepareInitialUlRrcMessage cell).2 =
      { (u.prepareInitialUlRrcMessage cell).2 with estimatedUlBuffer := e } := by
  unfold UeInfo.prepareInitialUlRrcMessage
  dsimp only
  split
  · rfl
  split <;> split <;> (try split) <;> rfl

theorem UeInfo.receive_estimate (cell : Cell) (u : UeInfo) (e : Int) (p : SubPdu) :
    { u with estimatedUlBuffer := e }.receive cell p =
      { u.receive cell p with estimatedUlBuffer := e } := by
  unfold UeInfo.receive
  split
  · exact prepareInitialUlRrcMessage_estimate ..
  · exact prepareInitialUlRrcMessage_estimate ..
  · exact prepareInitialUlRrcMessage_estimate cell { u with isRedcap := true } e
  · rfl

theorem UeInfo.handleSingleEntryPhr_estimate (cell : Cell) (harqPid : Int) (u : UeInfo) (e : Int)
    (ph pcmax : Nat) :
    { u with estimatedUlBuffer := e }.handleSingleEntryPhr cell harqPid ph pcmax =
      { u.handleSingleEntryPhr cell harqPid ph pcmax with estimatedUlBuffer := e } := by
  unfold UeInfo.handleSingleEntryPhr
  split <;> rfl

namespace Decoder

structure Alike (d d' : Decoder) : Prop where
  dataInd : d'.dataInd = d.dataInd
  sdus : d'.sdus = d.sdus
  ue : ∃ e, d'.ue = { d.ue with estimatedUlBuffer := e }

variable {cell : Cell} {harqPid : Int} {pdu pdu' : Nat → Byte} {d d' : Decoder} {p : SubPdu}
  {len : Nat}

section

variable (hp : p.Read pdu 0 len) (h : ∀ i < len, pdu' i = pdu i)
include hp h

theorem ce_congr {i : Nat} (hi : i < p.macLen) : seek pdu' p.payload i = seek pdu p.payload i :=
  h _ (by have := hp.stop; omega)

theorem apply_alike (ha : Alike d d') :
    Alike (d.apply cell harqPid pdu p) (d'.apply cell harqPid pdu' p) := by
  obtain ⟨hdata, hsdus, e, hue⟩ := ha
  have hlcid : p.lcid = (decodeUlMacSubPduHeader (seek pdu p.pos)).lcid :=
    congrArg SubPdu.lcid hp.header
  have hmac : p.macLen = (decodeUlMacSubPduHeader (seek pdu p.pos)).macLen :=
    congrArg SubPdu.macLen hp.header
  have hhands : d'.ue.hands p = d.ue.hands p := by rw [hue]; unfold UeInfo.hands; split <;> rfl
  refine ⟨?_, ?_, ?_⟩
  · simp only [apply, hdata, hhands]
  · simp only [apply, hsdus, hue]
    rfl
  · unfold apply
    rw [hue]
    dsimp only
    cases hl : p.lcid with
    | ccch64Bits | ccch48Bits | ccch48BitsRedcap => exact ⟨e, UeInfo.receive_estimate ..⟩
    | srb lcid | dtch lcid =>
      dsimp only
      change ∃ e', (if d.ue.takesSdus lcid then _ else _) = _
      split
      · exact ⟨_, rfl⟩
      · exact ⟨e, rfl⟩
    | singleEntryPhr =>
      have := macLen_singleEntryPhr (hlcid ▸ hl)
      dsimp only
      rw [ce_congr hp h (by omega), ce_congr hp h (by omega)]
      exact ⟨e, UeInfo.handleSingleEntryPhr_estimate ..⟩
    | sBsr | sTruncatedBsr | lBsr | lTruncatedBsr => exact ⟨_, rfl⟩
    | _ => exact ⟨e, rfl⟩

theorem apply_ue_eq (ha : Alike d d')
    (hue : d'.ue = d.ue ∨ p.isBsr)
    (hlong : p.isLongBsr → p.payload + longBsrLen (seek pdu p.payload) ≤ len) :
    (d'.apply cell harqPid pdu' p).ue = (d.apply cell harqPid pdu p).ue := by
  obtain ⟨hdata, hsdus, e, hue'⟩ := ha
  have hlcid : p.lcid = (decodeUlMacSubPduHeader (seek pdu p.pos)).lcid :=
    congrArg SubPdu.lcid hp.header
  have hmac : p.macLen = (decodeUlMacSubPduHeader (seek pdu p.pos)).macLen :=
    congrArg SubPdu.macLen hp.header
  unfold apply
  dsimp only
  cases hl : p.lcid with
  | sBsr | sTruncatedBsr =>
    have hlen : p.macLen = 1 := by
      rw [hmac]
      exact macLen_shortBsr (by rw [← hlcid, hl]; simp)
    dsimp only
    rw [ce_congr hp h (by omega), hue']
    rfl
  | lBsr | lTruncatedBsr =>
    have hle := hlong (by simp [SubPdu.isLongBsr, hl])
    have hentries : lcgEntries (seek pdu' p.payload) = lcgEntries (seek pdu p.payload) :=
      lcgEntries_congr fun i hi => h _ (by omega)
    dsimp only
    rw [hentries, hue']
    rfl
  | singleEntryPhr =>
    have := macLen_singleEntryPhr (hlcid ▸ hl)
    have hue : d'.ue = d.ue := by
      simpa [SubPdu.isBsr, SubPdu.isShortBsr, SubPdu.isLongBsr, hl] using hue
    dsimp only
    rw [ce_congr hp h (by omega), ce_congr hp h (by omega), hue]
  | _ =>
    have hue : d'.ue = d.ue := by
      simpa [SubPdu.isBsr, SubPdu.isShortBsr, SubPdu.isLongBsr, hl] using hue
    rw [hue]

end

section

variable {l : List SubPdu} (hl : ∀ p ∈ l, p.Read pdu 0 len) (h : ∀ i < len, pdu' i = pdu i)
include hl h

theorem foldl_alike :
    Alike (l.foldl (apply cell harqPid pdu) d) (l.foldl (apply cell harqPid pdu') d) := by
  induction l using List.reverseRecOn with
  | nil => exact ⟨rfl, rfl, d.ue.estimatedUlBuffer, rfl⟩
  | append_singleton l p ih =>
    rw [foldl_concat, foldl_concat]
    exact apply_alike (hl p (by simp)) h (ih fun q hq => hl q (by simp [hq]))

theorem foldl_ue_eq (hfits : ∀ pre p post, l = pre ++ p :: post → p.isLongBsr →
      (∀ q ∈ post, q.isBsr = false) → p.payload + longBsrLen (seek pdu p.payload) ≤ len) :
    (l.foldl (apply cell harqPid pdu') d).ue = (l.foldl (apply cell harqPid pdu) d).ue := by
  induction l using List.reverseRecOn with
  | nil => rfl
  | append_singleton l p ih =>
    have hl' : ∀ q ∈ l, q.Read pdu 0 len := fun q hq => hl q (by simp [hq])
    rw [foldl_concat, foldl_concat]
    refine apply_ue_eq (hl p (by simp)) h (foldl_alike hl' h) ?_
      (fun hlong => hfits l p [] rfl hlong (by simp))
    cases hbsr : p.isBsr with
    | true => exact .inr rfl
    | false =>
      -- the last BSR is one of those before
      refine .inl (ih hl' fun pre q post hsplit hlong hpost => ?_)
      refine hfits pre q (post ++ [p]) (by simp [hsplit]) hlong fun r hr => ?_
      rcases mem_append.mp hr with hr | hr
      · exact hpost r hr
      · rw [mem_singleton.mp hr]
        exact hbsr

end

theorem UeInfo.receive_estimatedUlBuffer (u : UeInfo) (p : SubPdu) :
    (u.receive cell p).estimatedUlBuffer = u.estimatedUlBuffer := by
  have h := congrArg UeInfo.estimatedUlBuffer (UeInfo.receive_estimate cell u u.estimatedUlBuffer p)
  exact h

theorem apply_estimate (hbsr : p.isBsr = false) :
    d.ue.estimatedUlBuffer - p.macLen ≤ (d.apply cell harqPid pdu p).ue.estimatedUlBuffer ∧
      (d.apply cell harqPid pdu p).ue.estimatedUlBuffer ≤ max d.ue.estimatedUlBuffer 0 := by
  unfold apply
  dsimp only
  cases hl : p.lcid with
  | ccch64Bits | ccch48Bits | ccch48BitsRedcap =>
    dsimp only
    rw [UeInfo.receive_estimatedUlBuffer]
    omega
  | srb lcid =>
    dsimp only [UeInfo.countSdu]
    split <;> (try dsimp only) <;> omega
  | dtch lcid =>
    dsimp only [UeInfo.countSdu, UeInfo.drain]
    split <;> (try dsimp only) <;> (try split) <;> omega
  | singleEntryPhr =>
    dsimp only [UeInfo.handleSingleEntryPhr]
    split <;> (try dsimp only) <;> omega
  | sBsr | sTruncatedBsr | lBsr | lTruncatedBsr =>
    simp [SubPdu.isBsr, SubPdu.isShortBsr, SubPdu.isLongBsr, hl] at hbsr
  | _ =>
    dsimp only
    omega

theorem foldl_estimate_bounds {l : List SubPdu} (hl : ∀ p ∈ l, p.isBsr = false) :
    d.ue.estimatedUlBuffer - (l.map (·.macLen)).sum ≤
        (l.foldl (apply cell harqPid pdu) d).ue.estimatedUlBuffer ∧
      (l.foldl (apply cell harqPid pdu) d).ue.estimatedUlBuffer ≤ max d.ue.estimatedUlBuffer 0 := by
  induction l generalizing d with
  | nil => simp
  | cons p l ih =>
    have hp := @apply_estimate cell harqPid pdu d p (hl p (by simp))
    have hrest := @ih (d.apply cell harqPid pdu p) fun q hq => hl q (by simp [hq])
    rw [foldl_cons, map_cons, sum_cons, Nat.cast_add]
    omega

theorem apply_longBsr (hlong : p.isLongBsr) :
    (d.apply cell harqPid pdu p).ue.estimatedUlBuffer =
      estimateUlBufferLongBsr (lcgEntries (seek pdu p.payload)) := by
  simp only [SubPdu.isLongBsr, Bool.or_eq_true, decide_eq_true_eq] at hlong
  rcases hlong with hl | hl <;> simp [apply, hl, UeInfo.setEstimate]

end Decoder

theorem exists_read_behind {pdu : Nat → Byte} {len payload : Nat} (hle : payload ≤ len)
    (hlong : len < payload + longBsrLen (seek pdu payload)) :
    ∃ (pdu₀ : Nat → Byte) (t : Nat), (∀ i < len, pdu₀ i = pdu i) ∧ len ≤ payload + (1 + t) ∧
      t < (lcgs (seek pdu₀ payload)).length := by
  rcases Nat.lt_or_eq_of_le hle with hlt | rfl
  · refine ⟨pdu, len - payload - 1, fun _ _ => rfl, by omega, ?_⟩
    unfold longBsrLen at hlong
    omega
  · -- even the octet with the groups is behind the PDU
    refine ⟨fun i => if i < payload then pdu i else 1, 0, fun i hi => if_pos hi, by omega, ?_⟩
    have : lcgs (seek (fun i => if i < payload then pdu i else 1) payload) = [0] := by
      unfold lcgs seek
      simp only [Nat.add_zero, lt_irrefl, if_false]
      decide
    rw [this]
    simp

theorem seek_update (pdu : Nat → Byte) (pos i : Nat) (b : Byte) :
    seek (update pdu (pos + i) b) pos = update (seek pdu pos) i b := by
  funext j
  unfold seek
  by_cases hj : j = i
  · rw [hj, update_self, update_self]
  · rw [update_of_ne (by omega), update_of_ne hj]

section Decoding

variable {cell : Cell} {ue : UeInfo} {pdu pdu' : Nat → Byte} {pduLen : Nat} {harqPid : Int}

theorem processMacPdu_eq : processMacPdu cell ue pdu pduLen harqPid =
    (fun d => if (walk pdu pduLen 0 pduLen).2 then d.finish else d) <$>
      (subPdus pdu pduLen).foldlM (Decoder.process cell harqPid pdu) { ue } :=
  loop_ulschRound cell harqPid { ue } le_rfl (Nat.lt_succ_self _)

theorem subPdus_congr (h : ∀ i < pduLen, pdu' i = pdu i) :
    subPdus pdu' pduLen = subPdus pdu pduLen := by
  rw [subPdus, subPdus, walk_congr (by simpa using h)]

theorem subPdus_read : ∀ p ∈ subPdus pdu pduLen, p.Read pdu 0 pduLen := by
  have h : ∀ p ∈ subPdus pdu pduLen, p.Read pdu 0 (0 + pduLen) := walk_read
  rwa [Nat.zero_add] at h

variable {d : Decoder}

theorem processMacPdu_ok (h : processMacPdu cell ue pdu pduLen harqPid = .ok d) :
    d = (fun d : Decoder => if (walk pdu pduLen 0 pduLen).2 then d.finish else d)
      ((subPdus pdu pduLen).foldl (Decoder.apply cell harqPid pdu) { ue }) := by
  rw [processMacPdu_eq] at h
  cases hf : (subPdus pdu pduLen).foldlM (Decoder.process cell harqPid pdu) { ue } with
  | error e =>
    rw [hf] at h
    cases h
  | ok d' =>
    rw [hf] at h
    cases h
    rw [← Decoder.foldlM_process_eq hf]

theorem processMacPdu_ok_iff : (∃ d, processMacPdu cell ue pdu pduLen harqPid = .ok d) ↔
    (∀ pre p post, subPdus pdu pduLen = pre ++ p :: post → (ue.after cell pre).refuses p = false) ∧
      ue.numDataInd cell (subPdus pdu pduLen) < maxNumDataInd := by
  rw [processMacPdu_eq]
  have h : (∃ d, (subPdus pdu pduLen).foldlM (Decoder.process cell harqPid pdu) { ue } =
      .ok d) ↔ _ :=
    Decoder.foldlM_process_ok_iff rfl (by simp [maxNumDataInd])
  rw [length_nil, Nat.zero_add] at h
  rw [← h]
  cases (subPdus pdu pduLen).foldlM (Decoder.process cell harqPid pdu) { ue } with
  | error e =>
    constructor
    · rintro ⟨d, hd⟩
      cases hd
    · rintro ⟨d, hd⟩
      cases hd
  | ok d => exact ⟨fun _ => ⟨d, rfl⟩, fun _ => ⟨_, rfl⟩⟩

theorem dataInd_inside {l : List SubPdu} (hl : ∀ p ∈ l, p.Read pdu 0 pduLen)
    (hd : ∀ ind ∈ d.dataInd, ind.buf + ind.len ≤ pduLen) :
    ∀ ind ∈ (l.foldl (Decoder.apply cell harqPid pdu) d).dataInd, ind.buf + ind.len ≤ pduLen := by
  induction l generalizing d with
  | nil => exact hd
  | cons p l ih =>
    refine ih (fun q hq => hl q (by simp [hq])) fun ind hind => ?_
    rcases mem_append.mp hind with hind | hind
    · exact hd ind hind
    · split at hind
      · rw [mem_singleton.mp hind]
        exact (hl p (by simp)).stop
      · cases hind

theorem estimate_of_split {pre post : List SubPdu} {p : SubPdu}
    (hd : processMacPdu cell ue pdu pduLen harqPid = .ok d)
    (hsplit : subPdus pdu pduLen = pre ++ p :: post) (hlong : p.isLongBsr)
    (hpost : ∀ q ∈ post, q.isBsr = false) :
    estimateUlBufferLongBsr (lcgEntries (seek pdu p.payload)) - (post.map (·.macLen)).sum ≤
        d.ue.estimatedUlBuffer ∧
      d.ue.estimatedUlBuffer ≤
        max (estimateUlBufferLongBsr (lcgEntries (seek pdu p.payload))) 0 := by
  have hb := @Decoder.foldl_estimate_bounds cell harqPid pdu
    ((pre.foldl (Decoder.apply cell harqPid pdu) { ue }).apply cell harqPid pdu p) post hpost
  rw [Decoder.apply_longBsr hlong, ← foldl_cons, ← foldl_append, ← hsplit] at hb
  rw [processMacPdu_ok hd]
  dsimp only
  split
  · exact hb
  · exact hb

theorem lastBsr_of_congr
    (hsafe : ∀ pdu' : Nat → Byte, (∀ i < pduLen, pdu' i = pdu i) →
      ∃ d', processMacPdu cell ue pdu' pduLen harqPid = .ok d' ∧ d'.ue = d.ue)
    {pre post : List SubPdu} {p : SubPdu} (hsplit : subPdus pdu pduLen = pre ++ p :: post)
    (hlong : p.isLongBsr) (hpost : ∀ q ∈ post, q.isBsr = false) :
    p.payload + longBsrLen (seek pdu p.payload) ≤ pduLen := by
  by_contra hover
  have hstop : p.payload + p.macLen + (post.map (·.macLen)).sum ≤ 0 + pduLen := walk_split hsplit
  obtain ⟨pdu₀, t, hagree, hbehind, ht⟩ :=
    exists_read_behind (show p.payload ≤ pduLen by omega) (Nat.lt_of_not_le hover)
  -- the same PDU, with another index of the last BSR behind it
  have hest : ∀ b, estimateUlBufferLongBsr (lcgEntries (update (seek pdu₀ p.payload) (1 + t) b))
        - (post.map (·.macLen)).sum ≤ d.ue.estimatedUlBuffer ∧
      d.ue.estimatedUlBuffer ≤ max (estimateUlBufferLongBsr
        (lcgEntries (update (seek pdu₀ p.payload) (1 + t) b))) 0 := by
    intro b
    have hagree' : ∀ i < pduLen, update pdu₀ (p.payload + (1 + t)) b i = pdu i := by
      intro i hi
      rw [update_of_ne (by omega), hagree i hi]
    obtain ⟨d', hd', hue⟩ := hsafe _ hagree'
    rw [← hue, ← seek_update]
    exact estimate_of_split hd' (by rw [subPdus_congr hagree', hsplit]) hlong hpost
  have h₀ := (hest 0).2
  have h₄₉ := (hest 49).1
  have hneg := neg_eight_le_estimate (update (seek pdu₀ p.payload) (1 + t) 0)
  have hvalue : indexValue 49 - indexValue 0 = 233 := by decide
  have hgroups := length_lcgs_le (seek pdu p.payload)
  rw [estimate_update ht 49 0, hvalue] at h₄₉
  unfold longBsrLen at hover
  omega

structure Harmless (cell : Cell) (ue : UeInfo) (pdu : Nat → Byte) (pduLen : Nat) : Prop where
  context : ∀ pre p post, subPdus pdu pduLen = pre ++ p :: post →
    (ue.after cell pre).refuses p = false
  room : ue.numDataInd cell (subPdus pdu pduLen) < maxNumDataInd
  lastBsr : ∀ pre p post, subPdus pdu pduLen = pre ++ p :: post → p.isLongBsr = true →
    (∀ q ∈ post, q.isBsr = false) → p.payload + longBsrLen (seek pdu p.payload) ≤ pduLen

theorem Harmless.congr (hh : Harmless cell ue pdu pduLen) (h : ∀ i < pduLen, pdu' i = pdu i) :
    ∃ d d', processMacPdu cell ue pdu pduLen harqPid = .ok d ∧
      processMacPdu cell ue pdu' pduLen harqPid = .ok d' ∧ d'.ue = d.ue ∧ d'.dataInd = d.dataInd ∧
      ∀ ind ∈ d.dataInd, ind.buf + ind.len ≤ pduLen := by
  have hsub := subPdus_congr h
  have hwalk : walk pdu' pduLen 0 pduLen = walk pdu pduLen 0 pduLen := walk_congr (by simpa using h)
  obtain ⟨d, hd⟩ : ∃ d, processMacPdu cell ue pdu pduLen harqPid = .ok d :=
    processMacPdu_ok_iff.mpr ⟨hh.context, hh.room⟩
  obtain ⟨d', hd'⟩ : ∃ d', processMacPdu cell ue pdu' pduLen harqPid = .ok d' :=
    processMacPdu_ok_iff.mpr (by rw [hsub]; exact ⟨hh.context, hh.room⟩)
  have halike : Decoder.Alike ((subPdus pdu pduLen).foldl (Decoder.apply cell harqPid pdu) { ue })
      ((subPdus pdu pduLen).foldl (Decoder.apply cell harqPid pdu') { ue }) :=
    Decoder.foldl_alike subPdus_read h
  have hue : ((subPdus pdu pduLen).foldl (Decoder.apply cell harqPid pdu') { ue }).ue =
      ((subPdus pdu pduLen).foldl (Decoder.apply cell harqPid pdu) { ue }).ue :=
    Decoder.foldl_ue_eq subPdus_read h hh.lastBsr
  have hinside :
      ∀ ind ∈ ((subPdus pdu pduLen).foldl (Decoder.apply cell harqPid pdu) { ue }).dataInd,
      ind.buf + ind.len ≤ pduLen := dataInd_inside subPdus_read (by simp)
  refine ⟨d, d', hd, hd', ?_⟩
  rw [processMacPdu_ok hd, processMacPdu_ok hd', hsub, hwalk]
  dsimp only
  split
  · refine ⟨?_, halike.dataInd, hinside⟩
    simp only [Decoder.finish, hue, halike.sdus]
  · exact ⟨hue, halike.dataInd, hinside⟩

/-- `nr_process_mac_pdu` and `lcid_crnti_lookahead` return, from the bytes of the PDU only, with
RLC PDUs that lie in the PDU, if and only if the PDU is harmless for the context of the UE. -/
theorem processMacPdu_safe_iff (cell : Cell) (ue : UeInfo) (pdu : Nat → Byte) (pduLen : Nat)
    (harqPid : Int) :
    (∀ pdu' : Nat → Byte, (∀ i < pduLen, pdu' i = pdu i) →
      ∃ d d' crnti, processMacPdu cell ue pdu pduLen harqPid = .ok d ∧
        processMacPdu cell ue pdu' pduLen harqPid = .ok d' ∧ d'.ue = d.ue ∧
        d'.dataInd = d.dataInd ∧ (∀ ind ∈ d.dataInd, ind.buf + ind.len ≤ pduLen) ∧
        lcidCrntiLookahead pdu pduLen = .ok crnti ∧ lcidCrntiLookahead pdu' pduLen = .ok crnti) ↔
      Harmless cell ue pdu pduLen := by
  constructor
  · intro hsafe
    obtain ⟨d, -, -, hd, -⟩ := hsafe pdu fun _ _ => rfl
    obtain ⟨hcontext, hroom⟩ := processMacPdu_ok_iff.mp ⟨d, hd⟩
    have hcongr : ∀ pdu' : Nat → Byte, (∀ i < pduLen, pdu' i = pdu i) →
        ∃ d', processMacPdu cell ue pdu' pduLen harqPid = .ok d' ∧ d'.ue = d.ue := by
      intro pdu' hagree
      obtain ⟨d₁, d', -, hd₁, hd', hue, -⟩ := hsafe pdu' hagree
      rw [hd] at hd₁
      cases hd₁
      exact ⟨d', hd', hue⟩
    exact ⟨hcontext, hroom, fun pre p post => lastBsr_of_congr hcongr⟩
  · intro hh pdu' hagree
    obtain ⟨d, d', hd, hd', hue, hdata, hinside⟩ := hh.congr hagree
    obtain ⟨crnti, hcrnti', hcrnti⟩ : ∃ crnti, lcidCrntiLookahead pdu' pduLen = .ok crnti ∧
        lcidCrntiLookahead pdu pduLen = .ok crnti :=
      loop_crntiRound_congr (by simpa using hagree) (Nat.lt_succ_self pduLen)
    exact ⟨d, d', crnti, hd, hd', hue, hdata, hinside, hcrnti, hcrnti'⟩

/-- Data on SRB1 crash the gNB when the UE has no CellGroup. -/
theorem not_forall_processMacPdu_safe :
    ¬ ∀ (cell : Cell) (ue : UeInfo) (pdu : Nat → Byte) (pduLen : Nat) (harqPid : Int), 1 ≤ pduLen →
      ∀ pdu' : Nat → Byte, (∀ i < pduLen, pdu' i = pdu i) →
        ∃ d d' crnti, processMacPdu cell ue pdu pduLen harqPid = .ok d ∧
          processMacPdu cell ue pdu' pduLen harqPid = .ok d' ∧ d'.ue = d.ue ∧
          d'.dataInd = d.dataInd ∧ (∀ ind ∈ d.dataInd, ind.buf + ind.len ≤ pduLen) ∧
          lcidCrntiLookahead pdu pduLen = .ok crnti ∧
          lcidCrntiLookahead pdu' pduLen = .ok crnti := by
  intro hall
  obtain ⟨d, -, -, hd, -⟩ :=
    hall ⟨0, fun _ _ => true, id⟩ {} (fun i => [0x01, 0x01, 0xff].getD i 0) 3
    0 (by decide) _ fun _ _ => rfl
  have herror : (processMacPdu ⟨0, fun _ _ => true, id⟩ {} (fun i => [0x01, 0x01, 0xff].getD i 0) 3
      0).isOk = false := by decide
  rw [hd] at herror
  cases herror

end Decoding

end OpenAir.Mac

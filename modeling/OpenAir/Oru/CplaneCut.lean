import OpenAir.Oru.PacketOnly

namespace OpenAir.Oru

open Function Mbuf

namespace Mbuf

variable {p : Mbuf}

theorem payloadVer_eq : p.cplaneHeader.payloadVer = bitField (p.byte 0).toNat 4 3 := by
  have h₁ := (p.byte 1).isLt
  have h₂ := (p.byte 2).isLt
  simp only [cplaneHeader, be32, be16, bitField, Nat.zero_add]
  omega

theorem dataDirection_eq : p.cplaneHeader.dataDirection = bitField (p.byte 0).toNat 7 1 := by
  have h₁ := (p.byte 1).isLt
  have h₂ := (p.byte 2).isLt
  simp only [cplaneHeader, be32, be16, bitField, Nat.zero_add]
  omega

theorem ef_eq : p.sectionHeader.ef = decide (bitField (p.byte 6).toNat 7 1 = 1) := by
  have h₇ := (p.byte 7).isLt
  simp only [sectionHeader, be32, be16, bitField, Nat.reduceAdd]
  refine decide_eq_decide.mpr ?_
  omega

theorem numSymbol_eq : p.sectionHeader.numSymbol = bitField (p.byte 5).toNat 0 4 := by
  have h₆ := (p.byte 6).isLt
  have h₇ := (p.byte 7).isLt
  simp only [sectionHeader, be32, be16, bitField, Nat.reduceAdd]
  omega

theorem beamId_mod : p.sectionHeader.beamId % 2 ^ 8 = (p.byte 7).toNat := by
  have h₇ := (p.byte 7).isLt
  simp only [sectionHeader, be32, be16, bitField, Nat.reduceAdd]
  omega

theorem sectionType_eq : p.cplaneHeader.sectionType = (p.byte 5).toNat := rfl

theorem numOfSections_eq : p.cplaneHeader.numOfSections = (p.byte 4).toNat := rfl

theorem byte_after_of_lt {n i : Nat} (h : n + i < p.data.length) :
    (p.after n).byte i = byteOf p.data (n + i) := by
  rw [byte_after (by omega), byte_of_lt h]

theorem payloadVer_after (h : 9 ≤ p.data.length) :
    (p.after 8).cplaneHeader.payloadVer = bitField (byteOf p.data 8).toNat 4 3 := by
  rw [payloadVer_eq, byte_after_of_lt (by omega)]

theorem dataDirection_after (h : 9 ≤ p.data.length) :
    (p.after 8).cplaneHeader.dataDirection = bitField (byteOf p.data 8).toNat 7 1 := by
  rw [dataDirection_eq, byte_after_of_lt (by omega)]

theorem sectionType_after (h : 14 ≤ p.data.length) :
    (p.after 8).cplaneHeader.sectionType = (byteOf p.data 13).toNat := by
  rw [sectionType_eq, byte_after_of_lt (by omega)]

theorem numSymbol_after (h : 22 ≤ p.data.length) :
    (p.after 16).sectionHeader.numSymbol = bitField (byteOf p.data 21).toNat 0 4 := by
  rw [numSymbol_eq, byte_after_of_lt (by omega)]

end Mbuf

def Section1Covered (data : List Byte) : Prop :=
  data.length < 16 ∨ 24 ≤ data.length ∨
    data.length = 23 ∧
      (bitField (byteOf data 21).toNat 0 4 = 0 ∨
        bitField (byteOf data 8).toNat 7 1 = 1 ∧
          maxAntennas ≤ (xranDecomposeCid eaxcidConfig (byteOf data 5).toNat).2)

def Section3Covered (data : List Byte) : Prop :=
  (byteOf data 12).toNat ≠ 1 ∨ data.length < 20 ∨ 28 ≤ data.length

def CplaneCovered (data : List Byte) : Prop :=
  data.length < 8 ∨ 9 ≤ data.length ∧ bitField (byteOf data 8).toNat 4 3 ≠ 1 ∨
    14 ≤ data.length ∧ ((byteOf data 13).toNat = 1 → Section1Covered data) ∧
      ((byteOf data 13).toNat = 3 → Section3Covered data)

namespace Processor

variable {c : Config} {s t : Processor} {p q r : Mbuf} {h : CplaneHeader} {sec sec' : SectionHeader}
  {antId : Nat}

theorem parseSection1Extensions_of_le {data : List Byte} (h : data.length ≤ 8) (ef : Bool)
    (numPrbc : Nat) (e : ExtState) :
    parseSection1Extensions c (data.length + 1) data ef numPrbc e =
      .ok (if ef then e.bump .cplaneErrSectExtChain else e) := by
  unfold parseSection1Extensions
  rw [loop]
  cases ef with
  | false => rfl
  | true =>
    simp only [parseExtension, Bool.not_true, Bool.false_eq_true, if_false, if_pos h]
    rfl

theorem handleSection1_of_le {q r : Mbuf} (h : r.data.length ≤ 8) (antId : Nat) :
    s.handleSection1 c q r antId =
      let s := if r.sectionHeader.ef then s.bump .cplaneErrSectExtChain else s
      if q.cplaneHeader.dataDirection = 1 then
        .ok ((s.bump .cplaneReceivedDl).handleDlCplanePacket c q.cplaneHeader r.sectionHeader antId)
      else (s.bump .cplaneReceivedUl).handleUlCplanePacket c q.cplaneHeader (q.udComp 6)
        r.sectionHeader antId := by
  unfold handleSection1
  dsimp only
  rw [parseSection1Extensions_of_le h]
  cases r.sectionHeader.ef with
  | false => rfl
  | true => rfl

def SameButStats (s t : Processor) : Prop := ∃ st, t = { s with stats := st }

theorem SameButStats.refl (s : Processor) : s.SameButStats s := ⟨s.stats, rfl⟩

theorem SameButStats.trans {u : Processor} (h : s.SameButStats t) (h' : t.SameButStats u) :
    s.SameButStats u := by
  obtain ⟨st, rfl⟩ := h
  obtain ⟨st', rfl⟩ := h'
  exact ⟨st', rfl⟩

theorem sameButStats_bump (k : Counter) : s.SameButStats (s.bump k) := ⟨_, rfl⟩

theorem sameButStats_observe (k : Hist) (diff : Int) : s.SameButStats (s.observe k diff) := ⟨_, rfl⟩

theorem handleDlCplanePacket_ignored (hsec : sec.numSymbol = sec'.numSymbol)
    (hign : sec.numSymbol = 0 ∨ maxAntennas ≤ antId) :
    s.handleDlCplanePacket c h sec antId = s.handleDlCplanePacket c h sec' antId ∧
      s.SameButStats (s.handleDlCplanePacket c h sec antId) := by
  unfold handleDlCplanePacket declareFrom
  rcases hign with h0 | hant
  · rw [← hsec, h0]
    refine ⟨rfl, ?_⟩
    dsimp only [rounds]
    split
    · exact sameButStats_bump _
    split
    · exact (sameButStats_observe _ _).trans (sameButStats_bump _)
    split
    · exact (sameButStats_observe _ _).trans (sameButStats_bump _)
    split
    · exact (sameButStats_observe _ _).trans (sameButStats_bump _)
    · exact sameButStats_observe _ _
  · rw [if_pos hant, if_pos hant]
    exact ⟨rfl, sameButStats_bump _⟩

theorem handleSection1_ignored {q' r' : Mbuf} (hq : q.data = q'.data) (hr : r.data = r'.data)
    (hlen : 6 ≤ q.data.length) (hlen' : r.data.length = 7)
    (hign : r.sectionHeader.numSymbol = 0 ∨
      q.cplaneHeader.dataDirection = 1 ∧ maxAntennas ≤ antId) :
    s.handleSection1 c q r antId = s.handleSection1 c q' r' antId ∧
      ∃ t, s.handleSection1 c q r antId = .ok t ∧ s.SameButStats t := by
  have hnum : r.sectionHeader.numSymbol = r'.sectionHeader.numSymbol := by
    rw [numSymbol_eq, numSymbol_eq, byte_congr hr (by omega)]
  have hef : r.sectionHeader.ef = r'.sectionHeader.ef := by
    rw [ef_eq, ef_eq, byte_congr hr (by omega)]
  have hhdr := cplaneHeader_congr hq (by omega)
  rw [handleSection1_of_le (by omega), handleSection1_of_le (by rw [← hr]; omega), ← hhdr, ← hef]
  dsimp only
  generalize hs' : (if r.sectionHeader.ef then s.bump .cplaneErrSectExtChain else s) = s'
  have hsame : s.SameButStats s' := by
    subst hs'
    split
    · exact sameButStats_bump _
    · exact .refl s
  by_cases hdir : q.cplaneHeader.dataDirection = 1
  · rw [if_pos hdir, if_pos hdir]
    have hign' : r.sectionHeader.numSymbol = 0 ∨ maxAntennas ≤ antId := hign.imp id And.right
    obtain ⟨heq, hstats⟩ := handleDlCplanePacket_ignored (s := s'.bump .cplaneReceivedDl) (c := c)
      (h := q.cplaneHeader) hnum hign'
    exact ⟨by rw [heq], _, rfl, (hsame.trans (sameButStats_bump _)).trans hstats⟩
  · have h0 : r.sectionHeader.numSymbol = 0 := hign.resolve_right fun h => hdir h.1
    rw [if_neg hdir, if_neg hdir]
    unfold handleUlCplanePacket
    rw [← hnum, if_pos h0, if_pos h0]
    exact ⟨rfl, _, rfl, (hsame.trans (sameButStats_bump _)).trans (sameButStats_bump _)⟩

theorem cplaneAntenna_eq (hlen : 6 ≤ p.data.length) :
    cplaneAntenna p = (xranDecomposeCid eaxcidConfig (byteOf p.data 5).toNat).2 := by
  have h₄ := byte_of_lt (p := p) (i := 5) (by omega)
  have h256 : ∀ a b : Nat, b < 2 ^ 8 → (a * 2 ^ 8 + b) &&& 15 = b &&& 15 := by
    intro a b _
    rw [show 15 = 2 ^ 4 - 1 from rfl, Nat.and_two_pow_sub_one_eq_mod,
      Nat.and_two_pow_sub_one_eq_mod]
    omega
  simp only [cplaneAntenna, be16, xranDecomposeCid, eaxcidConfig, Nat.reduceAdd, h₄,
    h256 _ _ (byteOf p.data 5).isLt]

theorem handlePrachCplanePacket_congr (h : p.data = q.data) (hlen : 6 ≤ p.data.length)
    (hcov : (p.byte 4).toNat ≠ 1 ∨ p.data.length < 12 ∨ 20 ≤ p.data.length) :
    s.handlePrachCplanePacket c p antId = s.handlePrachCplanePacket c q antId := by
  unfold handlePrachCplanePacket
  rw [← cplaneHeader_congr h hlen]
  by_cases hnum : p.cplaneHeader.numOfSections ≠ 1
  · simp only [if_pos hnum]
  by_cases h12 : p.data.length < 12
  · rw [adj_of_lt h12, adj_of_lt (by rw [← h]; exact h12)]
  have h20 : 20 ≤ p.data.length := (hcov.resolve_left hnum).resolve_left h12
  have hsec : (p.after 12).sectionHeader = (q.after 12).sectionHeader :=
    sectionHeader_congr (after_congr h) (by rw [length_after]; omega)
  rw [adj_of_le (by omega), adj_of_le (by rw [← h]; omega)]
  simp only [hsec, udComp_congr h (show 11 < _ by omega)]

theorem handleSection1_congr {q' r' : Mbuf} (hq : q.data = q'.data) (hr : r.data = r'.data)
    (hlen : 7 ≤ q.data.length) (hlen' : 8 ≤ r.data.length) :
    s.handleSection1 c q r antId = s.handleSection1 c q' r' antId := by
  unfold handleSection1
  rw [cplaneHeader_congr hq (by omega), udComp_congr hq (by omega),
    sectionHeader_congr hr hlen', hr]

theorem handleSection1_covered (h : p.data = q.data) (h16 : 16 ≤ p.data.length)
    (hcov : Section1Covered p.data) :
    s.handleSection1 c (p.after 8) (p.after 16) (cplaneAntenna p) =
        s.handleSection1 c (q.after 8) (q.after 16) (cplaneAntenna q) ∧
      (p.data.length < 24 → ∃ t,
        s.handleSection1 c (p.after 8) (p.after 16) (cplaneAntenna p) = .ok t ∧
        s.SameButStats t) := by
  have hlen₈ : (p.after 8).data.length = p.data.length - 8 := length_after
  have hlen₁₆ : (p.after 16).data.length = p.data.length - 16 := length_after
  have hant : cplaneAntenna q = cplaneAntenna p := by
    rw [cplaneAntenna_eq (by rw [← h]; omega), cplaneAntenna_eq (by omega), h]
  rw [hant]
  rcases hcov with hlt | hle | ⟨h23, hign⟩
  · omega
  · exact ⟨handleSection1_congr (after_congr h) (after_congr h) (by omega) (by omega),
      fun hlt => by omega⟩
  · rw [← numSymbol_after (by omega), ← dataDirection_after (by omega),
      ← cplaneAntenna_eq (by omega)] at hign
    have hboth := handleSection1_ignored (s := s) (c := c) (after_congr h) (after_congr h)
      (by omega) (by omega) hign
    exact ⟨hboth.1, fun _ => hboth.2⟩

theorem cplaneBody_congr (h : p.data = q.data) (hcov : CplaneCovered p.data) :
    s.cplaneBody c p = s.cplaneBody c q := by
  unfold cplaneBody
  dsimp only
  rw [← h]
  by_cases h8 : p.data.length < 8
  · rw [if_pos h8, if_pos h8]
  rw [if_neg h8, if_neg h8]
  have h9 : 9 ≤ p.data.length := by rcases hcov with h | ⟨h, -⟩ | ⟨h, -⟩ <;> omega
  rw [payloadVer_after h9, payloadVer_after (h ▸ h9), ← h]
  by_cases hver : bitField (byteOf p.data 8).toNat 4 3 ≠ 1
  · rw [if_pos hver, if_pos hver]
  rw [if_neg hver, if_neg hver]
  obtain ⟨h14, hcov₁, hcov₃⟩ := (hcov.resolve_left h8).resolve_left fun h => hver h.2
  rw [sectionType_after h14, sectionType_after (h ▸ h14), ← h]
  by_cases h1 : (byteOf p.data 13).toNat = 1
  · rw [if_pos h1, if_pos h1]
    by_cases h16 : p.data.length < 16
    · rw [if_pos h16, if_pos h16]
    · rw [if_neg h16, if_neg h16]
      exact (handleSection1_covered h (by omega) (hcov₁ h1)).1
  rw [if_neg h1, if_neg h1]
  by_cases h3 : (byteOf p.data 13).toNat = 3
  · rw [if_pos h3, if_pos h3, cplaneAntenna_eq (by omega), cplaneAntenna_eq (by rw [← h]; omega), h]
    have hlen : (p.after 8).data.length = p.data.length - 8 := length_after
    have hcov : ((p.after 8).byte 4).toNat ≠ 1 ∨ (p.after 8).data.length < 12 ∨
        20 ≤ (p.after 8).data.length := by
      rw [byte_after_of_lt (by omega), hlen]
      rcases hcov₃ h3 with h | h | h
      · exact .inl h
      · exact .inr (.inl (by omega))
      · exact .inr (.inr (by omega))
    rw [handlePrachCplanePacket_congr (after_congr h) (by omega) hcov]
  · rw [if_neg h3, if_neg h3]

def CplaneEndsEarly (data : List Byte) : Prop :=
  data.length < 24 ∨ (byteOf data 13).toNat = 3 ∧ data.length < 28

theorem cplaneBody_endsEarly (hcov : CplaneCovered p.data) (hend : CplaneEndsEarly p.data) :
    ∃ t, s.cplaneBody c p = .ok t ∧ s.SameButStats t := by
  have hb : ∀ k, s.SameButStats ((s.bump .totalCplane).bump k) := fun k =>
    (sameButStats_bump _).trans (sameButStats_bump k)
  unfold cplaneBody
  dsimp only
  by_cases h8 : p.data.length < 8
  · rw [if_pos h8]
    exact ⟨_, rfl, hb _⟩
  rw [if_neg h8]
  have h9 : 9 ≤ p.data.length := by rcases hcov with h | ⟨h, -⟩ | ⟨h, -⟩ <;> omega
  rw [payloadVer_after h9]
  by_cases hver : bitField (byteOf p.data 8).toNat 4 3 ≠ 1
  · rw [if_pos hver]
    exact ⟨_, rfl, hb _⟩
  rw [if_neg hver]
  obtain ⟨h14, hcov₁, hcov₃⟩ := (hcov.resolve_left h8).resolve_left fun h => hver h.2
  rw [sectionType_after h14]
  by_cases h1 : (byteOf p.data 13).toNat = 1
  · rw [if_pos h1]
    by_cases h16 : p.data.length < 16
    · rw [if_pos h16]
      exact ⟨_, rfl, hb _⟩
    · rw [if_neg h16]
      have h24 : p.data.length < 24 := hend.resolve_right fun h => by omega
      obtain ⟨t, ht, hst⟩ := (handleSection1_covered (s := s.bump .totalCplane) (c := c) rfl
        (by omega) (hcov₁ h1)).2 h24
      exact ⟨t, ht, (sameButStats_bump _).trans hst⟩
  rw [if_neg h1]
  by_cases h3 : (byteOf p.data 13).toNat = 3
  · rw [if_pos h3]
    refine ⟨_, rfl, (hb .cplaneReceivedPrach).trans ?_⟩
    have hnum : (p.after 8).cplaneHeader.numOfSections = (byteOf p.data 12).toNat := by
      rw [numOfSections_eq, byte_after_of_lt (by omega)]
    have hlen : (p.after 8).data.length = p.data.length - 8 := length_after
    unfold handlePrachCplanePacket
    dsimp only
    rw [hnum]
    by_cases hn : (byteOf p.data 12).toNat ≠ 1
    · rw [if_pos hn]
      exact sameButStats_bump _
    · have h20 : p.data.length < 20 := by
        rcases hcov₃ h3 with h | h | h
        · exact absurd h hn
        · exact h
        · rcases hend with h' | ⟨-, h'⟩ <;> omega
      rw [if_neg hn, adj_of_lt (by omega)]
      exact sameButStats_bump _
  · rw [if_neg h3]
    exact ⟨_, rfl, hb _⟩

end Processor

def Mbuf.inMemory (data : List Byte) (f : Nat → Byte) : Mbuf where
  id := 0
  data := data
  behind := fun k => f (data.length + k)

namespace Mbuf

variable {data : List Byte} {f : Nat → Byte} {n i : Nat}

theorem byte_inMemory_of_le (h : data.length ≤ i) : (inMemory data f).byte i = f i := by
  rw [byte_of_le (p := inMemory data f) h]
  exact congrArg f (Nat.add_sub_cancel' h)

theorem byte_after_inMemory_of_le (hn : n ≤ data.length) (h : data.length ≤ n + i) :
    ((inMemory data f).after n).byte i = f (n + i) := by
  rw [byte_after (p := inMemory data f) hn, byte_inMemory_of_le h]

end Mbuf

def Config.closed : Config := { Config.narrow with t2aMaxCpSymDiff := 0 }

def Config.exactly (k offset : Nat) : Config :=
  { Config.narrow with
    t2aMinCpSymDiff := .ofNat 32 k
    t2aMaxCpSymDiff := .ofNat 32 k
    dlSymbolBitmask := fun _ => true
    ulSymbolBitmask := fun _ => true
    prachEaxcOffset := offset }

namespace Processor

variable {data : List Byte}

def symbolInFrame (h : CplaneHeader) : Nat :=
  (h.slotId + h.subframeId) * symbolsPerSlot + h.startSymbolId

def CplaneDiffers (data : List Byte) : Prop :=
  ∃ (c : Config) (s : Processor) (p q : Mbuf), p.data = data ∧ q.data = data ∧
    (s.handleCplanePacket c p).map anonymous ≠ (s.handleCplanePacket c q).map anonymous

variable {c : Config} {s : Processor}

theorem cplaneDiffers_of {α : Type} (view : Processor → α)
    (hview : ∀ (t : Processor) (p : Mbuf), view (t.free p).anonymous = view t) {t t' : Processor}
    {f g : Nat → Byte} (hf : s.cplaneBody c (.inMemory data f) = .ok t)
    (hg : s.cplaneBody c (.inMemory data g) = .ok t') (hne : view t ≠ view t') :
    CplaneDiffers data := by
  refine ⟨c, s, .inMemory data f, .inMemory data g, rfl, rfl, fun heq => hne ?_⟩
  rw [handleCplanePacket, handleCplanePacket, hf, hg] at heq
  have hanon := congrArg view (Except.ok.inj heq)
  rwa [hview, hview] at hanon

variable {p : Mbuf}

theorem cplaneBody_of_ver (h8 : 8 ≤ p.data.length)
    (hver : (p.after 8).cplaneHeader.payloadVer = 1) :
    s.cplaneBody c p =
      if (p.after 8).cplaneHeader.sectionType = 1 then
        if p.data.length < 16 then .ok ((s.bump .totalCplane).bump .cplaneErrHdr)
        else (s.bump .totalCplane).handleSection1 c (p.after 8) (p.after 16) (cplaneAntenna p)
      else if (p.after 8).cplaneHeader.sectionType = 3 then
        .ok (((s.bump .totalCplane).bump .cplaneReceivedPrach).handlePrachCplanePacket c (p.after 8)
          (cplaneAntenna p))
      else .ok ((s.bump .totalCplane).bump .cplaneReceivedOther) := by
  unfold cplaneBody
  dsimp only
  rw [if_neg (by omega), hver]
  rfl

theorem cplaneDiffers_of_lt_14 (h8 : 8 ≤ data.length) (h14 : data.length < 14)
    (hver : data.length = 8 ∨ bitField (byteOf data 8).toNat 4 3 = 1) : CplaneDiffers data := by
  have hver' : ∀ b : Byte,
      ((inMemory data fun i => if i = 8 then 0x10 else b).after 8).cplaneHeader.payloadVer = 1 := by
    intro b
    rcases Nat.eq_or_lt_of_le h8 with h | h
    · rw [payloadVer_eq, byte_after_inMemory_of_le h8 (by omega), if_pos rfl]
      rfl
    · rw [payloadVer_after (p := inMemory data _) h]
      exact hver.resolve_left (by omega)
  have htype : ∀ b : Byte, ((inMemory data fun i => if i = 8 then 0x10 else b).after
      8).cplaneHeader.sectionType = b.toNat := by
    intro b
    rw [sectionType_eq, byte_after_inMemory_of_le h8 (by omega), if_neg (by decide)]
  have hother : init.cplaneBody .narrow (.inMemory data fun i => if i = 8 then 0x10 else 0) =
      .ok ((init.bump .totalCplane).bump .cplaneReceivedOther) := by
    rw [cplaneBody_of_ver h8 (hver' 0), htype]
    rfl
  have hhdr : init.cplaneBody .narrow (.inMemory data fun i => if i = 8 then 0x10 else 1) =
      .ok ((init.bump .totalCplane).bump .cplaneErrHdr) := by
    have h16 : (inMemory data fun i => if i = 8 then 0x10 else 1).data.length < 16 :=
      Nat.lt_trans h14 (by decide)
    rw [cplaneBody_of_ver h8 (hver' 1), htype, if_pos h16]
    rfl
  exact cplaneDiffers_of (fun t => t.stats.counter .cplaneReceivedOther) (fun _ _ => rfl)
    hother hhdr (by decide)

theorem cplaneBody_section1 (h16 : 16 ≤ p.data.length)
    (hver : bitField (byteOf p.data 8).toNat 4 3 = 1) (htype : (byteOf p.data 13).toNat = 1) :
    s.cplaneBody c p =
      (s.bump .totalCplane).handleSection1 c (p.after 8) (p.after 16) (cplaneAntenna p) := by
  rw [cplaneBody_of_ver (by omega) ((payloadVer_after (by omega)).trans hver),
    sectionType_after (by omega), if_pos htype, if_neg (by omega)]

theorem cplaneBody_section3 (h14 : 14 ≤ p.data.length)
    (hver : bitField (byteOf p.data 8).toNat 4 3 = 1) (htype : (byteOf p.data 13).toNat = 3) :
    s.cplaneBody c p =
      .ok (((s.bump .totalCplane).bump .cplaneReceivedPrach).handlePrachCplanePacket c
      (p.after 8) (cplaneAntenna p)) := by
  rw [cplaneBody_of_ver (by omega) ((payloadVer_after (by omega)).trans hver),
    sectionType_after (by omega), if_neg (by omega), if_pos htype]

theorem Config.closed_window {diff : Int} (h : ¬diff > Config.closed.t2aMaxCpSymDiff.toInt) :
    diff < Config.closed.t2aMinCpSymDiff.toInt := by
  have h₁ : Config.closed.t2aMaxCpSymDiff.toInt = 0 := by decide
  have h₂ : Config.closed.t2aMinCpSymDiff.toInt = 1 := by decide
  omega

theorem handleDlCplanePacket_closed {h : CplaneHeader} {sec : SectionHeader} {antId : Nat} :
    (s.handleDlCplanePacket .closed h sec antId).stats.counter .cplaneErrSectExtChain =
      s.stats.counter .cplaneErrSectExtChain := by
  unfold handleDlCplanePacket
  dsimp only
  split
  · exact Stats.counter_bump_of_ne (by decide)
  split
  · exact Stats.counter_bump_of_ne (by decide)
  split
  · exact Stats.counter_bump_of_ne (by decide)
  · next hle hlt => exact absurd (Config.closed_window hle) hlt

theorem handleUlCplanePacket_closed {h : CplaneHeader} {ud : UdCompHeader} {sec : SectionHeader}
    {antId : Nat} :
    ∃ t, s.handleUlCplanePacket .closed h ud sec antId = .ok t ∧
      t.stats.counter .cplaneErrSectExtChain = s.stats.counter .cplaneErrSectExtChain := by
  unfold handleUlCplanePacket
  dsimp only
  split
  · exact ⟨_, rfl, Stats.counter_bump_of_ne (by decide)⟩
  split
  · exact ⟨_, rfl, Stats.counter_bump_of_ne (by decide)⟩
  split
  · exact ⟨_, rfl, Stats.counter_bump_of_ne (by decide)⟩
  · next hle hlt => exact absurd (Config.closed_window hle) hlt

theorem cplaneDiffers_of_lt_23 (h16 : 16 ≤ data.length) (h23 : data.length < 23)
    (hver : bitField (byteOf data 8).toNat 4 3 = 1) (htype : (byteOf data 13).toNat = 1) :
    CplaneDiffers data := by
  have hbody : ∀ b : Byte, ∃ t, init.cplaneBody .closed (.inMemory data fun _ => b) = .ok t ∧
      t.stats.counter .cplaneErrSectExtChain = if bitField b.toNat 7 1 = 1 then 1 else 0 := by
    intro b
    have hlen : ((inMemory data fun _ => b).after 16).data.length ≤ 8 := by
      rw [length_after]
      exact Nat.sub_le_of_le_add (Nat.le_of_lt (Nat.lt_of_lt_of_le h23 (by decide)))
    have hef : ((inMemory data fun _ => b).after 16).sectionHeader.ef =
        decide (bitField b.toNat 7 1 = 1) := by
      rw [ef_eq, byte_after_inMemory_of_le h16 (by omega)]
    rw [cplaneBody_section1 (p := .inMemory data fun _ => b) h16 hver htype,
      handleSection1_of_le hlen, hef]
    dsimp only
    generalize hs : (if decide (bitField b.toNat 7 1 = 1) then _ else _ : Processor) = s
    have hcount : s.stats.counter .cplaneErrSectExtChain =
        if bitField b.toNat 7 1 = 1 then 1 else 0 := by
      subst hs
      by_cases hb : bitField b.toNat 7 1 = 1
      · simp only [hb, decide_true, if_true]
        rfl
      · simp only [hb, decide_false, if_false, Bool.false_eq_true]
        rfl
    split
    · refine ⟨_, rfl, ?_⟩
      rw [handleDlCplanePacket_closed, ← hcount]
      exact Stats.counter_bump_of_ne (by decide)
    · obtain ⟨t, ht, hsame⟩ := handleUlCplanePacket_closed (s := s.bump .cplaneReceivedUl)
      refine ⟨t, ht, hsame.trans ?_⟩
      rw [← hcount]
      exact Stats.counter_bump_of_ne (by decide)
  obtain ⟨t, ht, hcount⟩ := hbody 0
  obtain ⟨t', ht', hcount'⟩ := hbody 0x80
  refine cplaneDiffers_of (fun t => t.stats.counter .cplaneErrSectExtChain) (fun _ _ => rfl)
    ht ht' ?_
  rw [hcount, hcount']
  decide

section Beam

variable {s : Processor} {h : CplaneHeader} {ud : UdCompHeader} {sec : SectionHeader}
  {antId offset j : Nat} {rest : List Nat}

theorem symbolDiff_exactly {k : Nat} (hcur : s.currentAbsoluteSymbol = 140 * h.frameId)
    (hframe : h.frameId < 2 ^ 8) :
    s.symbolDiff (.exactly k offset) h.frameId h.subframeId h.slotId h.startSymbolId =
      symbolInFrame h := by
  have hper : (Config.exactly k offset).symbolsPerFrame = 140 := rfl
  have hnum : (Config.exactly k offset).numerology = 0 := rfl
  unfold symbolDiff
  dsimp only
  rw [hper, hnum, hcur]
  have hcurrent : 140 * h.frameId / 140 % 256 = h.frameId := by omega
  rw [hcurrent, Nat.mul_mod_right]
  simp only [symbolInFrame, symbolsPerSlot]
  split <;> omega

theorem t2a_exactly {k : Nat} (offset : Nat) (hk : k < 2 ^ 31) :
    (Config.exactly k offset).t2aMinCpSymDiff.toInt = k ∧
      (Config.exactly k offset).t2aMaxCpSymDiff.toInt = k := by
  have h : (BitVec.ofNat 32 k).toInt = k := by
    rw [BitVec.toInt_eq_toNat_of_lt] <;> rw [BitVec.toNat_ofNat] <;> omega
  exact ⟨h, h⟩

theorem declareSection_fresh (c : Config) (symbol antId : Nat) (sec : SectionHeader) :
    ∃ job, declareSection c (.fresh symbol) antId sec = .inr job ∧
      job.streams.map DlStreamSlot.beamId = [sec.beamId] := ⟨_, rfl, rfl⟩

theorem dlCplaneSymbol_fresh (c : Config) (antId : Nat) (sec : SectionHeader) (diff : Int)
    (target i : Nat)
    (hfree : s.dlFreeJobs = j :: rest) (hslot : s.dlSymbolRxWindow (slotOf (target + i)) = none)
    (hmax : diff + i ≤ c.t2aMaxCpSymDiff.toInt) (hmin : c.t2aMinCpSymDiff.toInt ≤ diff + i) :
    ∃ t, s.dlCplaneSymbol c antId sec diff target i = (true, t) ∧
      (t.jobs j).streams.map DlStreamSlot.beamId = [sec.beamId] := by
  obtain ⟨job, hjob, hbeam⟩ := declareSection_fresh c (target + i) antId sec
  have hj : (((({ s with dlFreeJobs := rest }).setJob j (.fresh (target + i))).setWindow
      (slotOf (target + i)) (some j)).setCompleted (slotOf (target + i)) false).jobs j =
      .fresh (target + i) := update_self ..
  unfold dlCplaneSymbol
  rw [if_neg (by omega), if_neg (by omega), openJob, hslot, hfree]
  dsimp only
  rw [hj, hjob]
  refine ⟨_, rfl, ?_⟩
  rw [← hbeam]
  exact congrArg (fun job : DlSymbolJob => job.streams.map DlStreamSlot.beamId) (update_self ..)

theorem handleDlCplanePacket_exactly (offset : Nat)
    (hcur : s.currentAbsoluteSymbol = 140 * h.frameId)
    (hframe : h.frameId < 2 ^ 8) (hk : symbolInFrame h < 2 ^ 31) (hfree : s.dlFreeJobs = j :: rest)
    (hslot : ∀ k, s.dlSymbolRxWindow k = none) (hant : antId < maxAntennas)
    (hnum : 0 < sec.numSymbol) :
    ((s.handleDlCplanePacket (.exactly (symbolInFrame h) offset) h sec antId).jobs j).streams.map
      DlStreamSlot.beamId = [sec.beamId] := by
  obtain ⟨hmin, hmax⟩ := t2a_exactly offset hk
  obtain ⟨n, hn⟩ := Nat.exists_eq_succ_of_ne_zero (Nat.pos_iff_ne_zero.mp hnum)
  unfold handleDlCplanePacket declareFrom
  dsimp only
  rw [if_neg (by omega), symbolDiff_exactly hcur hframe, if_neg (by omega), if_neg (by omega), hn,
    rounds]
  obtain ⟨t, ht, hbeam⟩ := dlCplaneSymbol_fresh (s := s.observe .dlCplane (symbolInFrame h))
    (.exactly (symbolInFrame h) offset) antId sec (symbolInFrame h)
    ((s.observe .dlCplane (symbolInFrame h)).targetSymbol (symbolInFrame h)) 0
    hfree (hslot _) (by simp [hmax]) (by simp [hmin])
  rw [if_neg (by simp [Config.isDlSymbol, Config.exactly]), ht]
  -- the symbols behind it are too early
  refine rounds.invariant
    (fun t : Processor => (t.jobs j).streams.map DlStreamSlot.beamId = [sec.beamId]) ?_ hbeam
  intro i t hi _ hbeam
  rw [dlCplaneSymbol, if_pos (by omega)]
  exact hbeam

theorem handleUlCplanePacket_exactly (offset antId : Nat) (ud : UdCompHeader)
    (hcur : s.currentAbsoluteSymbol = 140 * h.frameId) (hframe : h.frameId < 2 ^ 8)
    (hk : symbolInFrame h < 2 ^ 31) (hfree : s.ulFreeJobs = j :: rest)
    (hready : s.ulReadyJobs.length < ringCapacity) (hnum : 0 < sec.numSymbol) :
    ∃ t, s.handleUlCplanePacket (.exactly (symbolInFrame h) offset) h ud sec antId = .ok t ∧
      (t.ulJobs j).map UlJob.beamId = some sec.beamId := by
  obtain ⟨hmin, hmax⟩ := t2a_exactly offset hk
  unfold handleUlCplanePacket requestUl
  dsimp only
  rw [if_neg (by omega), symbolDiff_exactly hcur hframe, if_neg (by omega), if_neg (by omega),
    if_neg (by simp [Config.isUlSymbol, Config.exactly])]
  simp only [observe, hfree, assertFatal, hready, if_true, ok_bind]
  refine ⟨_, rfl, ?_⟩
  dsimp only
  rw [update_self]
  rfl

theorem handlePrachCplanePacket_exactly {q : Mbuf} (k antId : Nat)
    (hnum : q.cplaneHeader.numOfSections = 1) (hlen : 12 ≤ q.data.length)
    (hnone : ∀ i j, s.prachJobs i j = none) :
    ((s.handlePrachCplanePacket (.exactly k antId) q antId).prachJobs
      (q.cplaneHeader.slotId + q.cplaneHeader.subframeId) 0).map PrachJob.beamId =
        some (q.after 12).sectionHeader.beamId := by
  have hslot : q.cplaneHeader.slotId < 2 ^ 6 := Nat.mod_lt _ (by decide)
  have hsub : q.cplaneHeader.subframeId < 2 ^ 4 := Nat.mod_lt _ (by decide)
  have hoff : (antId : Int) - (Config.exactly k antId).prachEaxcOffset = 0 := Int.sub_self _
  have hnumer : (Config.exactly k antId).numerology = 0 := rfl
  unfold handlePrachCplanePacket
  dsimp only
  rw [if_neg (not_not_intro hnum), adj_of_le hlen]
  dsimp only
  rw [hoff, if_neg (by decide), hnumer, if_neg (by rw [maxSlotsPerFrame]; omega)]
  simp only [observe, hnone, Option.any_none, Bool.false_eq_true, if_false, setPrachJob,
    Nat.pow_zero, Nat.mul_one, update_self]
  rfl

end Beam

theorem symbolInFrame_lt (p : Mbuf) : symbolInFrame p.cplaneHeader < 2 ^ 31 := by
  have hslot : p.cplaneHeader.slotId < 2 ^ 6 := Nat.mod_lt _ (by decide)
  have hsub : p.cplaneHeader.subframeId < 2 ^ 4 := Nat.mod_lt _ (by decide)
  have hsym : p.cplaneHeader.startSymbolId < 2 ^ 6 := Nat.mod_lt _ (by decide)
  simp only [symbolInFrame, symbolsPerSlot]
  omega

theorem range_maxDlJobs : List.range maxDlJobs = 0 :: (List.range 1022).map Nat.succ := by
  rw [maxDlJobs, List.range_succ_eq_map]

def headerOf (data : List Byte) : CplaneHeader := ((inMemory data fun _ => 0).after 8).cplaneHeader

def inFrameOf (data : List Byte) : Processor :=
  { init with currentAbsoluteSymbol := 140 * (headerOf data).frameId }

theorem cplaneHeader_over (f : Nat → Byte) (h14 : 14 ≤ data.length) :
    ((inMemory data f).after 8).cplaneHeader = headerOf data :=
  cplaneHeader_congr rfl (by rw [length_after]; exact Nat.le_sub_of_add_le h14)

theorem cplaneBody_of_eq_23 (h23 : data.length = 23)
    (hver : bitField (byteOf data 8).toNat 4 3 = 1) (htype : (byteOf data 13).toNat = 1)
    (hnum : bitField (byteOf data 21).toNat 0 4 ≠ 0)
    (hant : (headerOf data).dataDirection = 1 →
      (xranDecomposeCid eaxcidConfig (byteOf data 5).toNat).2 < maxAntennas) (b : Byte) :
    ∃ t, (inFrameOf data).cplaneBody (.exactly (symbolInFrame (headerOf data)) 0)
      (.inMemory data fun _ => b) =
        .ok t ∧
      ((headerOf data).dataDirection = 1 →
        (t.jobs 0).streams.map (fun st => st.beamId % 2 ^ 8) = [b.toNat]) ∧
      ((headerOf data).dataDirection ≠ 1 →
        (t.ulJobs 0).map (fun job => job.beamId % 2 ^ 8) = some b.toNat) := by
  have hlen : ((inMemory data fun _ => b).after 16).data.length ≤ 8 := by
    rw [length_after]
    exact Nat.sub_le_of_le_add (Nat.le_of_lt (h23 ▸ by decide))
  have hsym := numSymbol_after (p := .inMemory data fun _ => b) (show 22 ≤ data.length by omega)
  have hbeam : ((inMemory data fun _ => b).after 16).sectionHeader.beamId % 2 ^ 8 = b.toNat := by
    rw [beamId_mod, byte_after_inMemory_of_le (by omega) (by omega)]
  have hframe : (headerOf data).frameId < 2 ^ 8 := Nat.mod_lt _ (by decide)
  have hk : symbolInFrame (headerOf data) < 2 ^ 31 := symbolInFrame_lt _
  have hant' := cplaneAntenna_eq (p := .inMemory data fun _ => b) (show 6 ≤ data.length by omega)
  rw [cplaneBody_section1 (p := .inMemory data fun _ => b) (show 16 ≤ data.length by omega) hver
    htype, handleSection1_of_le hlen, cplaneHeader_over _ (by omega)]
  dsimp only
  generalize ((inMemory data fun _ => b).after 16).sectionHeader = sec at hbeam hsym
  generalize hs : (if sec.ef then _ else _ : Processor) = s
  have hfields : s.currentAbsoluteSymbol = 140 * (headerOf data).frameId ∧
      s.dlFreeJobs = List.range maxDlJobs ∧ s.ulFreeJobs = List.range maxUlJobs ∧
      s.dlSymbolRxWindow = (fun _ => none) ∧ s.ulReadyJobs = [] := by
    subst hs
    split <;> simp only [bump, inFrameOf, init, and_self]
  obtain ⟨hcur, hdl, hul, hwin, hready⟩ := hfields
  have hnum' : 0 < sec.numSymbol := by rw [hsym]; exact Nat.pos_of_ne_zero hnum
  by_cases hdir : (headerOf data).dataDirection = 1
  · rw [if_pos hdir]
    refine ⟨_, rfl, fun _ => ?_, fun h => absurd hdir h⟩
    have hstreams := handleDlCplanePacket_exactly (s := s.bump .cplaneReceivedDl) 0 hcur hframe hk
      (hdl.trans range_maxDlJobs) (fun k => congrFun hwin k) (hant'.trans_lt (hant hdir)) hnum'
    have hmod := congrArg (List.map (· % 2 ^ 8)) hstreams
    rw [List.map_map, List.map_cons, List.map_nil, hbeam] at hmod
    exact hmod
  · rw [if_neg hdir]
    obtain ⟨t, ht, hjob⟩ := handleUlCplanePacket_exactly (s := s.bump .cplaneReceivedUl) 0
      (cplaneAntenna (.inMemory data fun _ => b)) (((inMemory data fun _ => b).after 8).udComp 6)
      hcur hframe hk (hul.trans range_maxDlJobs)
      (by rw [show (s.bump _).ulReadyJobs = [] from hready]; decide) hnum'
    have hmod := congrArg (Option.map (· % 2 ^ 8)) hjob
    rw [Option.map_map, Option.map_some, hbeam] at hmod
    exact ⟨t, ht, fun h => absurd h hdir, fun _ => hmod⟩

theorem cplaneDiffers_of_eq_23 (h23 : data.length = 23)
    (hver : bitField (byteOf data 8).toNat 4 3 = 1) (htype : (byteOf data 13).toNat = 1)
    (hnum : bitField (byteOf data 21).toNat 0 4 ≠ 0)
    (hant : bitField (byteOf data 8).toNat 7 1 = 1 →
      (xranDecomposeCid eaxcidConfig (byteOf data 5).toNat).2 < maxAntennas) :
    CplaneDiffers data := by
  have hdir : (headerOf data).dataDirection = bitField (byteOf data 8).toNat 7 1 :=
    dataDirection_after (p := .inMemory data fun _ => 0) (show 9 ≤ data.length by omega)
  rw [← hdir] at hant
  obtain ⟨t, ht, hdl, hul⟩ := cplaneBody_of_eq_23 h23 hver htype hnum hant 0
  obtain ⟨t', ht', hdl', hul'⟩ := cplaneBody_of_eq_23 h23 hver htype hnum hant 1
  by_cases hdir : (headerOf data).dataDirection = 1
  · refine cplaneDiffers_of (fun t => (t.jobs 0).streams.map fun st => st.beamId % 2 ^ 8)
      (fun _ _ => rfl) ht ht' ?_
    rw [hdl hdir, hdl' hdir]
    decide
  · refine cplaneDiffers_of (fun t => (t.ulJobs 0).map fun job => job.beamId % 2 ^ 8)
      (fun _ _ => rfl) ht ht' ?_
    rw [hul hdir, hul' hdir]
    decide

theorem cplaneDiffers_of_lt_28 (h20 : 20 ≤ data.length) (h28 : data.length < 28)
    (hver : bitField (byteOf data 8).toNat 4 3 = 1) (htype : (byteOf data 13).toNat = 3)
    (hnum : (byteOf data 12).toNat = 1) : CplaneDiffers data := by
  let antId := (xranDecomposeCid eaxcidConfig (byteOf data 5).toNat).2
  let view (t : Processor) :=
    (t.prachJobs ((headerOf data).slotId + (headerOf data).subframeId) 0).map
    fun job => job.beamId % 2 ^ 8
  have hbody :
      ∀ b : Byte, ∃ t, init.cplaneBody (.exactly 0 antId) (.inMemory data fun _ => b) = .ok t ∧
      view t = some b.toNat := by
    intro b
    have hlen : ((inMemory data fun _ => b).after 8).data.length = data.length - 8 := length_after
    have hbeam : ((inMemory data fun _ => b).after 20).sectionHeader.beamId % 2 ^ 8 = b.toNat := by
      rw [beamId_mod, byte_after_inMemory_of_le (by omega) (by omega)]
    have hnum' : ((inMemory data fun _ => b).after 8).cplaneHeader.numOfSections = 1 := by
      rw [numOfSections_eq, byte_after_of_lt (show 8 + 4 < data.length by omega)]
      exact hnum
    have hjob := handlePrachCplanePacket_exactly 0 antId
      (s := (init.bump .totalCplane).bump .cplaneReceivedPrach) hnum' (by omega) (fun _ _ => rfl)
    rw [after_after, cplaneHeader_over _ (by omega)] at hjob
    have hmod := congrArg (Option.map (· % 2 ^ 8)) hjob
    rw [Option.map_map, Option.map_some, hbeam] at hmod
    rw [cplaneBody_section3 (p := .inMemory data fun _ => b) (show 14 ≤ data.length by omega) hver
      htype, cplaneAntenna_eq (show 6 ≤ data.length by omega)]
    exact ⟨_, rfl, hmod⟩
  obtain ⟨t, ht, hview⟩ := hbody 0
  obtain ⟨t', ht', hview'⟩ := hbody 1
  refine cplaneDiffers_of view (fun _ _ => rfl) ht ht' ?_
  rw [hview, hview']
  decide

theorem cplaneDiffers_of_not_covered (hcov : ¬ CplaneCovered data) : CplaneDiffers data := by
  unfold CplaneCovered Section1Covered Section3Covered at hcov
  push Not at hcov
  obtain ⟨h8, hver, hrest⟩ := hcov
  by_cases h14 : 14 ≤ data.length
  · have hver' := hver (by omega)
    by_cases h1 : (byteOf data 13).toNat = 1 → Section1Covered data
    · obtain ⟨h3, hnum, h20, h28⟩ := hrest h14 h1
      exact cplaneDiffers_of_lt_28 h20 h28 hver' h3 hnum
    · unfold Section1Covered at h1
      push Not at h1
      obtain ⟨htype, h16, h24, hign⟩ := h1
      by_cases h23 : data.length = 23
      · obtain ⟨hnum, hant⟩ := hign h23
        exact cplaneDiffers_of_eq_23 h23 hver' htype hnum hant
      · exact cplaneDiffers_of_lt_23 h16 (by omega) hver' htype
  · exact cplaneDiffers_of_lt_14 h8 (by omega) (by
      by_cases h9 : 9 ≤ data.length
      · exact .inr (hver h9)
      · exact .inl (by omega))

theorem handleUplanePacket_endsEarly (h : p.data.length < 16) :
    s.handleUplanePacket c p = (s.bump .totalUplaneReceived).free p := by
  have hnone : ∀ e, p.xranExtractIqSamples e = none := by
    intro e
    unfold xranExtractIqSamples
    by_cases h8 : p.data.length < 8
    · rw [adj_of_lt h8]
      rfl
    rw [adj_of_le (by omega), Option.bind_eq_bind, Option.bind_some]
    by_cases h12 : p.data.length < 12
    · rw [adj_of_lt (by rw [length_after]; omega)]
      rfl
    have hlt : (p.after (8 + 4)).data.length < 4 := by
      rw [length_after]
      omega
    rw [adj_of_le (by rw [length_after]; omega), after_after, Option.bind_some]
    dsimp only
    rw [adj_of_lt hlt]
    cases e <;> rfl
  rw [handleUplanePacket, hnone]

structure DataOnly (data : List Byte) : Prop where
  cplane : ∀ (c : Config) (s : Processor) (p q : Mbuf), p.data = data → q.data = data →
    (s.handleCplanePacket c p).map anonymous = (s.handleCplanePacket c q).map anonymous
  uplane : ∀ (c : Config) (s : Processor) (p q : Mbuf), p.data = data → q.data = data →
    (s.handleUplanePacket c p).anonymous = (s.handleUplanePacket c q).anonymous
  cplaneEndsEarly :
    CplaneEndsEarly data → ∀ (c : Config) (s : Processor) (p : Mbuf), p.data = data →
    ∃ t, s.handleCplanePacket c p = .ok t ∧ s.OnlyStatistics p t
  uplaneEndsEarly : data.length < 16 → ∀ (c : Config) (s : Processor) (p : Mbuf), p.data = data →
    s.OnlyStatistics p (s.handleUplanePacket c p)

theorem dataOnly_iff (data : List Byte) : DataOnly data ↔ CplaneCovered data := by
  constructor
  · intro hdata
    by_contra hcov
    obtain ⟨c, s, p, q, hp, hq, hne⟩ := cplaneDiffers_of_not_covered hcov
    exact hne (hdata.cplane c s p q hp hq)
  · intro hcov
    constructor
    · rintro c s p q rfl hq
      rw [handleCplanePacket, handleCplanePacket, cplaneBody_congr hq.symm hcov]
      cases s.cplaneBody c q with
      | error e => rfl
      | ok t => exact congrArg Except.ok anonymous_free
    · rintro c s p q rfl hq
      exact handleUplanePacket_congr hq.symm
    · rintro hend c s p rfl
      obtain ⟨t, ht, st, rfl⟩ := cplaneBody_endsEarly (c := c) (s := s) hcov hend
      exact ⟨_, by rw [handleCplanePacket, ht]; rfl, st, rfl⟩
    · rintro hend c s p rfl
      rw [handleUplanePacket_endsEarly hend]
      exact ⟨_, rfl⟩

def cutAt12 : List Byte := [0x10, 2, 0, 8, 0, 0, 0, 0x80, 0x90, 0, 0, 12, 1, 1, 0, 0]

/-- The 16 bytes are a whole radio application header; whether they get a job for the symbol is a
matter of the memory behind them. -/
theorem not_forall_dataOnly : ¬ ∀ data, DataOnly data := by
  intro hclaim
  have heq := (hclaim cutAt12).cplane .narrow (init.handleAbsoluteSymbolTick .narrow 11)
    (.inMemory cutAt12 fun _ => 0) (.inMemory cutAt12 fun i => if i = 21 then 1 else 0) rfl rfl
  have hslot := congrArg (fun r => r.toOption.bind fun t : Processor => t.dlSymbolRxWindow 12) heq
  exact absurd hslot (by decide +kernel)

end Processor

end OpenAir.Oru

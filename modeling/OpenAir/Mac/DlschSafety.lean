import OpenAir.Mac.Dlsch

namespace OpenAir.Mac

open List

variable {cur cur' : Nat → Byte} {len : Nat} {d : DlDecoder}

def DlAction.stride : DlAction → Nat
  | .leave => 0
  | .skip n => n
  | .sdu _ subheaderLen macLen => subheaderLen + macLen
  | .timeAlignment _ _ => 2
  | .contentionResolution => 7

def DlMac.goesOn (mac : DlMac) (cur : Nat → Byte) : DlAction → Bool
  | .leave => false
  | .skip _ | .sdu _ _ _ => true
  | .timeAlignment _ tag => (tag : Int) = mac.tagId
  | .contentionResolution => !mac.raWaiting || mac.checkRaContentionResolution (seek cur 1)

def DlMac.after (mac : DlMac) : DlAction → DlMac
  | .contentionResolution =>
    if mac.raWaiting && mac.raActive then { mac with raWaiting := false, raActive := false }
    else mac
  | _ => mac

def DlMac.numSdus (mac : DlMac) : DlAction → Nat
  | .sdu lcid _ _ => if mac.drops lcid then 0 else 1
  | _ => 0

/-- The subPDU is carried out from the bytes that are left, and the SDU it may hand to RLC lies in
them. -/
def DlMac.harmless (mac : DlMac) (queued : Nat) (cur : Nat → Byte) (len : Nat) : DlAction → Prop
  | .leave | .skip _ => True
  | .sdu lcid subheaderLen macLen =>
    mac.drops lcid = true ∨ (subheaderLen + macLen ≤ len ∧ queued + 1 < maxNumDataInd)
  | .timeAlignment _ _ => len = 1 → ¬ (0 ≤ mac.tagId ∧ mac.tagId ≤ 3)
  | .contentionResolution =>
    mac.raWaiting = true →
      mac.iqPlayer = true ∨ 7 ≤ len ∨ ∃ i, 1 + i < len ∧ cur (1 + i) ≠ mac.contResId i

def DlMac.HarmlessFrom (pdu : Nat → Byte) : Nat → DlMac → Nat → Nat → Nat → Prop
  | 0, _, _, _, _ => True
  | fuel + 1, mac, queued, pos, len =>
    0 < len →
      let cur := seek pdu pos
      let a := dlAction cur len
      mac.harmless queued cur len a ∧
        (mac.goesOn cur a = true → a.stride < len →
          HarmlessFrom pdu fuel (mac.after a) (queued + mac.numSdus a) (pos + a.stride)
            (len - a.stride))

theorem getMacLen_congr (h : ∀ i < len, cur' i = cur i) :
    getMacLen cur' len = getMacLen cur len := by
  unfold getMacLen
  by_cases hlen : len < 2
  · simp [hlen]
  · have h₀ := h 0 (by omega)
    have h₁ := h 1 (by omega)
    by_cases hlen' : len < 3
    · simp only [h₀, h₁, hlen, hlen', if_false]
      cases (cur 0).getLsbD 6 <;> simp
    · have h₂ := h 2 (by omega)
      simp only [h₀, h₁, h₂]

theorem subheaderLen_of_ok (hok : (getMacLen cur len).ok) :
    2 ≤ len ∧ (getMacLen cur len).subheaderLen = (if (cur 0).getLsbD 6 then 3 else 2) ∧
      (getMacLen cur len).macLen =
        if (cur 0).getLsbD 6 then (cur 1).toNat * 256 + (cur 2).toNat else (cur 1).toNat := by
  unfold getMacLen at hok ⊢
  dsimp only at hok ⊢
  split at hok
  · cases hok
  · next hlen =>
    split at hok
    · cases hok
    · next hlen' =>
      rw [if_neg hlen, if_neg hlen']
      exact ⟨by omega, rfl, rfl⟩

theorem allZero_iff (hok : (getMacLen cur len).ok) :
    ((List.range ((getMacLen cur len).subheaderLen + (getMacLen cur len).macLen)).all
      fun i => cur i = 0) ↔ cur 0 = 0 ∧ cur 1 = 0 := by
  obtain ⟨-, hsub, hmac⟩ := subheaderLen_of_ok hok
  simp only [all_eq_true, mem_range, decide_eq_true_eq]
  constructor
  · intro h
    have hle : 2 ≤ (getMacLen cur len).subheaderLen := by rw [hsub]; split <;> omega
    exact ⟨h 0 (by omega), h 1 (by omega)⟩
  · rintro ⟨h₀, h₁⟩ i hi
    rw [hsub, hmac, h₀, h₁] at hi
    obtain rfl | rfl : i = 0 ∨ i = 1 := by simp at hi; omega
    · exact h₀
    · exact h₁

theorem dlAction_congr (hlen : 0 < len) (h : ∀ i < len, cur' i = cur i)
    (hta : DlLcid.ofNat ((cur 0).toNat % 64) = .taCommand → 1 < len) :
    dlAction cur' len = dlAction cur len := by
  unfold dlAction
  rw [h 0 hlen]
  cases hl : DlLcid.ofNat ((cur 0).toNat % 64) with
  | ccch =>
    unfold DlLcid.action
    rw [getMacLen_congr h]
    dsimp only
    cases hok : (getMacLen cur len).ok with
    | false => rfl
    | true =>
      have hok' : (getMacLen cur' len).ok := by rw [getMacLen_congr h, hok]
      have hzero := allZero_iff hok'
      rw [getMacLen_congr h, h 0 hlen, h 1 (subheaderLen_of_ok hok).1, ← allZero_iff hok,
        Bool.eq_iff_iff.symm] at hzero
      simp only [hzero]
  | taCommand =>
    simp only [DlLcid.action, h 1 (hta hl)]
  | lc lcid => simp only [DlLcid.action, getMacLen_congr h]
  | tciStateActUeSpecPdsch => simp only [DlLcid.action, getMacLen_congr h]
  | aperiodicCsiTriStateSubsel => simp only [DlLcid.action, getMacLen_congr h]
  | spCsiRsCsiImResSetAct => simp only [DlLcid.action, getMacLen_congr h]
  | spSrsActivation => simp only [DlLcid.action, getMacLen_congr h]
  | _ => rfl

theorem lcid_of_timeAlignment {ta tag : Nat} (h : dlAction cur len = .timeAlignment ta tag) :
    DlLcid.ofNat ((cur 0).toNat % 64) = .taCommand := by
  unfold dlAction at h
  generalize DlLcid.ofNat ((cur 0).toNat % 64) = lcid at h ⊢
  cases lcid <;> simp only [DlLcid.action] at h <;> (repeat' split at h) <;> cases h
  rfl

theorem getMacLen_pos : 0 < (getMacLen cur len).subheaderLen := by
  unfold getMacLen
  dsimp only
  repeat' split
  all_goals simp

theorem leave_or_stride_pos {a : DlAction} (h : dlAction cur len = a) :
    a = .leave ∨ 0 < a.stride := by
  have hsub := @getMacLen_pos cur len
  unfold dlAction at h
  generalize DlLcid.ofNat ((cur 0).toNat % 64) = lcid at h
  cases lcid <;> simp only [DlLcid.action] at h <;> (repeat' split at h) <;> subst h <;>
    first
    | exact .inl rfl
    | exact .inr (by simp only [DlAction.stride]; omega)

theorem stride_pos {mac : DlMac} (h : mac.goesOn cur (dlAction cur len)) :
    0 < (dlAction cur len).stride := by
  rcases leave_or_stride_pos (rfl : dlAction cur len = _) with hleave | hpos
  · rw [hleave] at h
    cases h
  · exact hpos

theorem checkRaContentionResolution_congr {mac : DlMac} (h : ∀ i < len, cur' i = cur i)
    (hid : mac.iqPlayer ∨ 7 ≤ len ∨ ∃ i, 1 + i < len ∧ cur (1 + i) ≠ mac.contResId i) :
    mac.checkRaContentionResolution (seek cur' 1) =
      mac.checkRaContentionResolution (seek cur 1) := by
  unfold DlMac.checkRaContentionResolution
  by_cases hlen : 7 ≤ len
  · congr 1
    rw [Bool.eq_iff_iff]
    simp only [all_eq_true, mem_range, decide_eq_true_eq]
    exact forall₂_congr fun i hi => by rw [seek, seek, h (1 + i) (by omega)]
  · rcases hid with hiq | hlen' | ⟨i, hi, hne⟩
    · simp [hiq]
    · exact absurd hlen' hlen
    · have hfalse : ∀ c : Nat → Byte, c (1 + i) = cur (1 + i) →
          ((List.range 6).all fun i => seek c 1 i = mac.contResId i) = false := by
        intro c hc
        rw [all_eq_false]
        exact ⟨i, mem_range.mpr (by omega), by simpa [seek, hc] using hne⟩
      rw [hfalse cur rfl, hfalse cur' (h _ hi)]

theorem perform_congr {pos : Nat} (h : ∀ i < len, cur' i = cur i) {a : DlAction}
    (ha : d.mac.harmless d.dataInd.length cur len a) :
    d.perform pos cur' a = d.perform pos cur a := by
  cases a with
  | contentionResolution =>
    unfold DlDecoder.perform
    by_cases hwait : d.mac.raWaiting
    · simp only [hwait, if_true, checkRaContentionResolution_congr h (ha hwait)]
    · simp only [hwait, Bool.false_eq_true, if_false]
  | _ => rfl

theorem perform_timeAlignment_leave {pos ta tag : Nat}
    (h : dlAction cur len = .timeAlignment ta tag) (htag : ¬ (0 ≤ d.mac.tagId ∧ d.mac.tagId ≤ 3)) :
    d.perform pos cur (.timeAlignment ta tag) = .ok (.leave d) := by
  have hlcid := lcid_of_timeAlignment h
  unfold dlAction at h
  rw [hlcid] at h
  simp only [DlLcid.action, DlAction.timeAlignment.injEq] at h
  rw [DlDecoder.perform, if_pos (by omega)]

theorem dlschRound_congr {pdu pdu' : Nat → Byte} {pos : Nat}
    (h : ∀ i < pos + len, pdu' i = pdu i)
    (ha : 0 < len →
      d.mac.harmless d.dataInd.length (seek pdu pos) len (dlAction (seek pdu pos) len)) :
    dlschRound pdu' (pos, len, d) = dlschRound pdu (pos, len, d) := by
  unfold dlschRound
  by_cases hlen : len = 0
  · simp [hlen]
  · replace ha := ha (by omega)
    have hcur : ∀ i < len, seek pdu' pos i = seek pdu pos i := fun i hi => h _ (by omega)
    have hsame : d.perform pos (seek pdu' pos) (dlAction (seek pdu' pos) len) =
        d.perform pos (seek pdu pos) (dlAction (seek pdu pos) len) := by
      by_cases hta : DlLcid.ofNat ((seek pdu pos 0).toNat % 64) = .taCommand ∧ len = 1
      · obtain ⟨hl, rfl⟩ := hta
        have hl' : DlLcid.ofNat ((seek pdu' pos 0).toNat % 64) = .taCommand := by
          rw [hcur 0 (by omega), hl]
        have hact : ∀ c : Nat → Byte, DlLcid.ofNat ((c 0).toNat % 64) = .taCommand →
            dlAction c 1 = .timeAlignment ((c 1).toNat % 64) ((c 1).toNat / 64) := by
          intro c hc
          rw [dlAction, hc]
          rfl
        rw [hact _ hl] at ha
        rw [hact _ hl, hact _ hl', perform_timeAlignment_leave (hact _ hl) (ha rfl),
          perform_timeAlignment_leave (hact _ hl') (ha rfl)]
      · have hact : dlAction (seek pdu' pos) len = dlAction (seek pdu pos) len :=
          dlAction_congr (by omega) hcur fun hl => by
            have hne : len ≠ 1 := fun h1 => hta ⟨hl, h1⟩
            omega
        rw [hact]
        exact perform_congr hcur ha
    simp only [hsame]

def Inside (pduLen : Nat) (l : List DataInd) : Prop := ∀ ind ∈ l, ind.buf + ind.len ≤ pduLen

theorem addDataInd_cases (d : DlDecoder) (ind : DataInd) :
    (d.dataInd.length + 1 < maxNumDataInd ∧
      d.addDataInd ind = .ok { d with dataInd := d.dataInd ++ [ind] }) ∨
    (¬ d.dataInd.length + 1 < maxNumDataInd ∧
      d.addDataInd ind = .error (.assertion .numDataInd)) := by
  unfold DlDecoder.addDataInd
  simp only [length_append, length_singleton]
  split
  · next h => exact .inl ⟨h, rfl⟩
  · next h => exact .inr ⟨h, rfl⟩

theorem perform_next {pos n : Nat} {d' : DlDecoder} {a : DlAction}
    (h : d.perform pos cur a = .ok (.next d' n)) :
    n = a.stride ∧ d.mac.goesOn cur a ∧ d'.mac = d.mac.after a ∧
      d'.dataInd.length = d.dataInd.length + d.mac.numSdus a ∧
      (a.stride ≤ len → d.mac.harmless d.dataInd.length cur len a) ∧
      (d.mac.harmless d.dataInd.length cur len a → Inside (pos + len) d.dataInd →
        Inside (pos + len) d'.dataInd) := by
  cases a with
  | leave => cases h
  | skip m =>
    cases h
    exact ⟨rfl, rfl, rfl, rfl, fun _ => trivial, fun _ hd => hd⟩
  | sdu lcid subheaderLen macLen =>
    rw [DlDecoder.perform] at h
    by_cases hdrop : d.mac.drops lcid
    · rw [if_pos hdrop] at h
      cases h
      exact ⟨rfl, rfl, rfl, by simp [DlMac.numSdus, hdrop], fun _ => .inl hdrop, fun _ hd => hd⟩
    · rw [if_neg hdrop] at h
      rcases addDataInd_cases d ⟨lcid, pos + subheaderLen, macLen⟩ with ⟨hroom, hadd⟩ | ⟨-, hadd⟩
      · rw [hadd] at h
        cases h
        refine ⟨rfl, rfl, rfl, by simp [DlMac.numSdus, hdrop], fun hle => .inr ⟨hle, hroom⟩,
          fun ha hd ind hind => ?_⟩
        have hle := (ha.resolve_left hdrop).1
        rcases mem_append.mp hind with hind | hind
        · exact hd ind hind
        · rw [mem_singleton.mp hind]
          dsimp only
          omega
      · rw [hadd] at h
        cases h
  | timeAlignment ta tag =>
    rw [DlDecoder.perform] at h
    split at h
    · cases h
    · next htag =>
      cases h
      refine ⟨rfl, by simpa [DlMac.goesOn] using htag, rfl, rfl, fun hle hone => ?_, fun _ hd => hd⟩
      dsimp only [DlAction.stride] at hle
      omega
  | contentionResolution =>
    rw [DlDecoder.perform] at h
    dsimp only at h
    have hharm : DlAction.contentionResolution.stride ≤ len →
        d.mac.harmless d.dataInd.length cur len .contentionResolution :=
      fun hle _ => .inr (.inl hle)
    split at h
    · next hwait =>
      split at h
      · next hok =>
        cases h
        simp only [Bool.and_eq_true] at hok
        exact ⟨rfl, by simp [DlMac.goesOn, hok.2], by simp [DlMac.after, hwait, hok.1], rfl, hharm,
          fun _ hd => hd⟩
      · next hnot =>
        split at h
        · cases h
        · next hok =>
          cases h
          simp only [Bool.not_eq_true', Bool.not_eq_false] at hok
          have hactive : d.mac.raActive = false := by simpa [hok] using hnot
          exact ⟨rfl, by simp [DlMac.goesOn, hok], by simp [DlMac.after, hactive], rfl, hharm,
            fun _ hd => hd⟩
    · next hwait =>
      cases h
      exact ⟨rfl, by simp [DlMac.goesOn, hwait], by simp [DlMac.after, hwait], rfl, hharm,
        fun _ hd => hd⟩

theorem perform_contentionResolution_of_check {pos : Nat} (hwait : d.mac.raWaiting)
    (hok : d.mac.checkRaContentionResolution (seek cur 1)) :
    ∃ d', d.perform pos cur .contentionResolution = .ok (.next d' 7) ∧
      .contentionFailed ∉ d'.events.getLast? := by
  rw [DlDecoder.perform, if_pos hwait]
  dsimp only
  cases hactive : d.mac.raActive with
  | true => exact ⟨_, by rw [hok]; rfl, by simp⟩
  | false => exact ⟨_, by rw [hok]; rfl, by simp⟩

theorem perform_contentionResolution_of_not_check {pos : Nat} (hwait : d.mac.raWaiting)
    (hok : d.mac.checkRaContentionResolution (seek cur 1) = false) :
    d.perform pos cur .contentionResolution = .ok (.discard
      { d with events := d.events ++ [.contentionTimerStop] ++ [.contentionFailed] }) := by
  rw [DlDecoder.perform, if_pos hwait]
  dsimp only
  rw [hok, Bool.and_false]
  rfl

theorem perform_cases (pos : Nat) {a : DlAction} :
    (∃ d', d.perform pos cur a = .ok (.next d' a.stride)) ∨
      (d.mac.goesOn cur a = false ∧
        (d.perform pos cur a = .ok (.leave d) ∨ ∃ d', d.perform pos cur a = .ok (.discard d'))) ∨
      ((∃ e, d.perform pos cur a = .error e) ∧
        ∀ len, ¬ d.mac.harmless d.dataInd.length cur len a) := by
  cases a with
  | leave => exact .inr (.inl ⟨rfl, .inl rfl⟩)
  | skip n => exact .inl ⟨d, rfl⟩
  | sdu lcid subheaderLen macLen =>
    rw [DlDecoder.perform]
    by_cases hdrop : d.mac.drops lcid
    · exact .inl ⟨d, by rw [if_pos hdrop]; rfl⟩
    · rw [if_neg hdrop]
      rcases addDataInd_cases d ⟨lcid, pos + subheaderLen, macLen⟩ with ⟨-, hadd⟩ | ⟨hroom, hadd⟩
      · exact .inl ⟨_, by rw [hadd]; rfl⟩
      · exact .inr (.inr ⟨⟨_, by rw [hadd]⟩, fun len ha => hroom (ha.resolve_left hdrop).2⟩)
  | timeAlignment ta tag =>
    by_cases htag : (tag : Int) = d.mac.tagId
    · exact .inl ⟨_, by rw [DlDecoder.perform, if_neg (not_not.mpr htag)]; rfl⟩
    · exact .inr (.inl ⟨by simpa [DlMac.goesOn] using htag,
        .inl (by rw [DlDecoder.perform, if_pos htag])⟩)
  | contentionResolution =>
    by_cases hwait : d.mac.raWaiting
    · cases hok : d.mac.checkRaContentionResolution (seek cur 1) with
      | false =>
        exact .inr (.inl ⟨by simp [DlMac.goesOn, hwait, hok],
          .inr ⟨_, perform_contentionResolution_of_not_check hwait hok⟩⟩)
      | true =>
        obtain ⟨d', hd', -⟩ := perform_contentionResolution_of_check hwait hok
        exact .inl ⟨d', hd'⟩
    · exact .inl ⟨d, by simp only [DlDecoder.perform, hwait]; simp [DlAction.stride]⟩

section Round

variable {pdu : Nat → Byte} {pos : Nat}

theorem dlschRound_inl {st : Nat × Nat × DlDecoder}
    (h : dlschRound pdu (pos, len, d) = .ok (.inl st)) :
    let cur := seek pdu pos
    let a := dlAction cur len
    0 < a.stride ∧ a.stride < len ∧ d.mac.goesOn cur a ∧
      d.mac.harmless d.dataInd.length cur len a ∧
      ∃ d', st = (pos + a.stride, len - a.stride, d') ∧ d'.mac = d.mac.after a ∧
        d'.dataInd.length = d.dataInd.length + d.mac.numSdus a ∧
        (Inside (pos + len) d.dataInd → Inside (pos + len) d'.dataInd) := by
  unfold dlschRound at h
  dsimp only at h ⊢
  split at h
  · cases h
  · split at h
    · cases h
    · cases h
    · cases h
    · next d' n hp =>
      obtain ⟨rfl, hgo, hmac, hnum, hharm, hin⟩ := perform_next hp
      split at h
      · next hlt =>
        cases h
        have ha := hharm (Nat.le_of_lt hlt)
        exact ⟨stride_pos hgo, hlt, hgo, ha, d', rfl, hmac, hnum, hin ha⟩
      · cases h

theorem dlschRound_inr (ha : 0 < len →
      d.mac.harmless d.dataInd.length (seek pdu pos) len (dlAction (seek pdu pos) len))
    (hin : Inside (pos + len) d.dataInd) (h : ∀ st, dlschRound pdu (pos, len, d) ≠ .ok (.inl st)) :
    ∃ o, dlschRound pdu (pos, len, d) = .ok (.inr o) ∧ Inside (pos + len) o.dataInd := by
  by_cases hlen : len = 0
  · exact ⟨d, by simp [dlschRound, hlen], hin⟩
  · replace ha := ha (by omega)
    unfold dlschRound at h ⊢
    dsimp only at h ⊢
    rw [if_neg hlen] at h ⊢
    rcases @perform_cases (seek pdu pos) d pos (dlAction (seek pdu pos) len) with
      ⟨d', hp⟩ | ⟨-, hp | ⟨d', hp⟩⟩ | ⟨-, hnot⟩
    · rw [hp] at h ⊢
      dsimp only at h ⊢
      split at h
      · exact absurd rfl (h _)
      · next hge =>
        obtain ⟨-, -, -, -, -, hin'⟩ := perform_next hp
        exact ⟨d', by rw [if_neg hge], hin' ha hin⟩
    · exact ⟨d, by rw [hp], hin⟩
    · exact ⟨_, by rw [hp], fun ind hind => absurd hind not_mem_nil⟩
    · exact absurd ha (hnot len)

theorem dlschRound_of_last {n : Nat} {d' : DlDecoder} (hlen : 0 < len)
    (hp : d.perform pos (seek pdu pos) (dlAction (seek pdu pos) len) = .ok (.next d' n))
    (hn : len ≤ n) : dlschRound pdu (pos, len, d) = .ok (.inr d') := by
  unfold dlschRound
  dsimp only
  rw [if_neg (by omega), hp]
  dsimp only
  rw [if_neg (by omega)]

def SafeRound (pdu : Nat → Byte) (pos len : Nat) (d : DlDecoder) : Prop :=
  ∀ pdu' : Nat → Byte, (∀ i < pos + len, pdu' i = pdu i) →
    ∃ o, dlschRound pdu (pos, len, d) = .ok (.inr o) ∧
    dlschRound pdu' (pos, len, d) = .ok (.inr o) ∧
      Inside (pos + len) o.dataInd

def followedBy (pdu : Nat → Byte) (pduLen : Nat) (tail : Nat → Byte) : Nat → Byte :=
  fun i => if i < pduLen then pdu i else tail (i - pduLen)

theorem followedBy_of_lt {pduLen i : Nat} {tail : Nat → Byte} (h : i < pduLen) :
    followedBy pdu pduLen tail i = pdu i := if_pos h

theorem followedBy_add {pduLen i : Nat} {tail : Nat → Byte} :
    followedBy pdu pduLen tail (pduLen + i) = tail i := by
  rw [followedBy, if_neg (by omega), Nat.add_sub_cancel_left]

theorem SafeRound.eq {pdu₁ pdu₂ : Nat → Byte} {o₁ o₂ : DlDecoder} (h : SafeRound pdu pos len d)
    (h₁ : ∀ i < pos + len, pdu₁ i = pdu i) (h₂ : ∀ i < pos + len, pdu₂ i = pdu i)
    (hr₁ : dlschRound pdu₁ (pos, len, d) = .ok (.inr o₁))
    (hr₂ : dlschRound pdu₂ (pos, len, d) = .ok (.inr o₂)) : o₁ = o₂ := by
  obtain ⟨o, ho, ho₁, -⟩ := h pdu₁ h₁
  obtain ⟨o', ho', ho₂, -⟩ := h pdu₂ h₂
  rw [ho] at ho'
  cases ho'
  rw [hr₁] at ho₁
  rw [hr₂] at ho₂
  cases ho₁
  cases ho₂
  rfl

theorem SafeRound.sdu {lcid subheaderLen macLen : Nat} (h : SafeRound pdu pos len d)
    (hlen : 0 < len) (ha : dlAction (seek pdu pos) len = .sdu lcid subheaderLen macLen)
    (hdrop : ¬ d.mac.drops lcid) :
    subheaderLen + macLen ≤ len ∧ d.dataInd.length + 1 < maxNumDataInd := by
  obtain ⟨o, ho, -, hin⟩ := h pdu fun _ _ => rfl
  rcases addDataInd_cases d ⟨lcid, pos + subheaderLen, macLen⟩ with ⟨hroom, hadd⟩ | ⟨-, hadd⟩
  · refine ⟨?_, hroom⟩
    by_contra hlong
    have hp : d.perform pos (seek pdu pos) (dlAction (seek pdu pos) len) = .ok (.next
        { d with dataInd := d.dataInd ++ [⟨lcid, pos + subheaderLen, macLen⟩] }
        (subheaderLen + macLen)) := by
      rw [ha, DlDecoder.perform, if_neg hdrop, hadd]
    rw [dlschRound_of_last hlen hp (by omega)] at ho
    cases ho
    have hend := hin ⟨lcid, pos + subheaderLen, macLen⟩ (by simp)
    dsimp only at hend
    omega
  · rw [dlschRound] at ho
    dsimp only at ho
    rw [if_neg (by omega), ha, DlDecoder.perform, if_neg hdrop, hadd] at ho
    cases ho

theorem SafeRound.timeAlignment {ta tag : Nat} (h : SafeRound pdu pos 1 d)
    (ha : dlAction (seek pdu pos) 1 = .timeAlignment ta tag) :
    ¬ (0 ≤ d.mac.tagId ∧ d.mac.tagId ≤ 3) := by
  rintro ⟨hnonneg, hle⟩
  have hlcid := lcid_of_timeAlignment ha
  obtain ⟨tag', htag'⟩ := Int.eq_ofNat_of_zero_le hnonneg
  have hround :
      ∀ t < 64, dlschRound (followedBy pdu (pos + 1) fun _ => BitVec.ofNat 8 (tag' * 64 + t))
      (pos, 1, d) = .ok (.inr { d with events := d.events ++ [.timeAlignment t] }) := by
    intro t ht
    have hoct :
        (seek (followedBy pdu (pos + 1) fun _ => BitVec.ofNat 8 (tag' * 64 + t)) pos 1).toNat =
        tag' * 64 + t := by
      rw [seek, followedBy_add (i := 0), BitVec.toNat_ofNat]
      omega
    have hact :
        dlAction (seek (followedBy pdu (pos + 1) fun _ => BitVec.ofNat 8 (tag' * 64 + t)) pos) 1 =
        .timeAlignment t tag' := by
      rw [dlAction, seek, followedBy_of_lt (by omega)]
      rw [seek] at hlcid
      rw [hlcid]
      simp only [DlLcid.action, hoct, DlAction.timeAlignment.injEq]
      omega
    refine dlschRound_of_last (n := 2) (by omega) ?_ (by omega)
    rw [hact, DlDecoder.perform, if_neg (by omega)]
  have heq := h.eq (fun _ => followedBy_of_lt) (fun _ => followedBy_of_lt) (hround 0 (by omega))
    (hround 1 (by omega))
  simp at heq

theorem SafeRound.contentionResolution (h : SafeRound pdu pos len d) (hlen : 0 < len)
    (ha : dlAction (seek pdu pos) len = .contentionResolution) (hwait : d.mac.raWaiting) :
    d.mac.iqPlayer ∨ 7 ≤ len ∨
      ∃ i, 1 + i < len ∧ seek pdu pos (1 + i) ≠ d.mac.contResId i := by
  by_contra hcut
  simp only [not_or, not_exists, not_and, ne_eq, not_not, Bool.not_eq_true] at hcut
  obtain ⟨hiq, hshort, hid⟩ := hcut
  have hact : ∀ tail, dlAction (seek (followedBy pdu (pos + len) tail) pos) len =
      .contentionResolution := by
    intro tail
    have hcongr :=
      @dlAction_congr (seek pdu pos) (seek (followedBy pdu (pos + len) tail) pos) len hlen
      (fun i hi => followedBy_of_lt (by omega))
    rw [hcongr fun hl => ?_, ha]
    rw [dlAction, hl] at ha
    cases ha
  have hgood : d.mac.checkRaContentionResolution
      (seek (seek (followedBy pdu (pos + len) fun i => d.mac.contResId (len - 1 + i)) pos) 1) := by
    rw [DlMac.checkRaContentionResolution, hiq, Bool.false_or, all_eq_true]
    intro i _
    rw [decide_eq_true_eq, seek, seek]
    by_cases hi : 1 + i < len
    · rw [followedBy_of_lt (by omega)]
      exact hid i hi
    · rw [show pos + (1 + i) = pos + len + (1 + i - len) by omega, followedBy_add]
      congr 1
      omega
  have hbad : d.mac.checkRaContentionResolution
      (seek (seek (followedBy pdu (pos + len) fun i => d.mac.contResId (len - 1 + i) + 1) pos) 1) =
        false := by
    rw [DlMac.checkRaContentionResolution, hiq, Bool.false_or, all_eq_false]
    refine ⟨5, by decide, ?_⟩
    rw [decide_eq_true_eq, seek, seek, show pos + (1 + 5) = pos + len + (6 - len) by omega,
      followedBy_add, show len - 1 + (6 - len) = 5 by omega]
    simp
  obtain ⟨o₁, hr₁, hlast₁⟩ : ∃ o, dlschRound
      (followedBy pdu (pos + len) fun i => d.mac.contResId (len - 1 + i)) (pos, len, d) =
        .ok (.inr o) ∧ .contentionFailed ∉ o.events.getLast? := by
    obtain ⟨d', hd', hlast⟩ := @perform_contentionResolution_of_check _ d pos hwait hgood
    exact ⟨d', dlschRound_of_last hlen (by rw [hact]; exact hd') (by omega), hlast⟩
  obtain ⟨o₂, hr₂, hlast₂⟩ : ∃ o, dlschRound
      (followedBy pdu (pos + len) fun i => d.mac.contResId (len - 1 + i) + 1) (pos, len, d) =
        .ok (.inr o) ∧ .contentionFailed ∈ o.events.getLast? := by
    refine ⟨{ d with
      events := d.events ++ [.contentionTimerStop] ++ [.contentionFailed], dataInd := [] },
        ?_, by simp⟩
    rw [dlschRound]
    dsimp only
    rw [if_neg (by omega), hact, perform_contentionResolution_of_not_check hwait hbad]
  have heq := h.eq (fun _ => followedBy_of_lt) (fun _ => followedBy_of_lt) hr₁ hr₂
  exact hlast₁ (heq ▸ hlast₂)

theorem harmless_of_safeRound (h : SafeRound pdu pos len d) (hlen : 0 < len) :
    d.mac.harmless d.dataInd.length (seek pdu pos) len (dlAction (seek pdu pos) len) := by
  cases ha : dlAction (seek pdu pos) len with
  | leave => trivial
  | skip n => trivial
  | sdu lcid subheaderLen macLen =>
    by_cases hdrop : d.mac.drops lcid
    · exact .inl hdrop
    · exact .inr (h.sdu hlen ha hdrop)
  | timeAlignment ta tag =>
    rintro rfl
    exact h.timeAlignment ha
  | contentionResolution => exact h.contentionResolution hlen ha

theorem safeRound_iff (hin : Inside (pos + len) d.dataInd)
    (hlast : ∀ st, dlschRound pdu (pos, len, d) ≠ .ok (.inl st)) :
    SafeRound pdu pos len d ↔ (0 < len →
      d.mac.harmless d.dataInd.length (seek pdu pos) len (dlAction (seek pdu pos) len)) := by
  constructor
  · exact harmless_of_safeRound
  · intro ha pdu' hagree
    obtain ⟨o, ho, hin'⟩ := dlschRound_inr ha hin hlast
    exact ⟨o, ho, by rw [dlschRound_congr hagree ha, ho], hin'⟩

end Round

def SafeLoop (pdu : Nat → Byte) (fuel pos len : Nat) (d : DlDecoder) : Prop :=
  ∀ pdu' : Nat → Byte, (∀ i < pos + len, pdu' i = pdu i) →
    ∃ o, loop (dlschRound pdu) fuel (pos, len, d) = .ok o ∧
      loop (dlschRound pdu') fuel (pos, len, d) = .ok o ∧ Inside (pos + len) o.dataInd

theorem harmlessFrom_of_last {pdu : Nat → Byte} {pos fuel : Nat}
    (hlast : ∀ st, dlschRound pdu (pos, len, d) ≠ .ok (.inl st)) :
    DlMac.HarmlessFrom pdu (fuel + 1) d.mac d.dataInd.length pos len ↔ (0 < len →
      d.mac.harmless d.dataInd.length (seek pdu pos) len (dlAction (seek pdu pos) len)) := by
  rw [DlMac.HarmlessFrom]
  refine forall_congr' fun hlen => and_iff_left_of_imp fun ha hgo hlt => ?_
  -- the parser would go on
  exfalso
  rcases @perform_cases (seek pdu pos) d pos (dlAction (seek pdu pos) len) with
    ⟨d', hp⟩ | ⟨hstop, -⟩ | ⟨-, hnot⟩
  · refine hlast (pos + (dlAction (seek pdu pos) len).stride,
      len - (dlAction (seek pdu pos) len).stride, d') ?_
    rw [dlschRound]
    dsimp only
    rw [if_neg (by omega), hp]
    dsimp only
    rw [if_pos hlt]
  · rw [hstop] at hgo
    cases hgo
  · exact hnot len ha

theorem safeLoop_iff {pdu : Nat → Byte} {fuel : Nat} : ∀ {pos len : Nat} {d : DlDecoder},
    len < fuel → Inside (pos + len) d.dataInd →
      (SafeLoop pdu fuel pos len d ↔
        DlMac.HarmlessFrom pdu fuel d.mac d.dataInd.length pos len) := by
  induction fuel with
  | zero => intro _ _ _ hfuel; omega
  | succ fuel ih =>
    intro pos len d hfuel hin
    by_cases hgo : ∃ st, dlschRound pdu (pos, len, d) = .ok (.inl st)
    · obtain ⟨st, hst⟩ := hgo
      obtain ⟨hpos, hlt, hgoes, ha, d', rfl, hmac, hnum, hin'⟩ := dlschRound_inl hst
      have hsum : pos + (dlAction (seek pdu pos) len).stride +
          (len - (dlAction (seek pdu pos) len).stride) = pos + len := by omega
      have hstep := @ih _ (len - (dlAction (seek pdu pos) len).stride) d' (by omega)
        (by rw [hsum]; exact hin' hin)
      have hloop : ∀ pdu' : Nat → Byte, (∀ i < pos + len, pdu' i = pdu i) →
          loop (dlschRound pdu') (fuel + 1) (pos, len, d) = loop (dlschRound pdu') fuel
            (pos + (dlAction (seek pdu pos) len).stride,
              len - (dlAction (seek pdu pos) len).stride, d') := by
        intro pdu' hagree
        rw [loop, dlschRound_congr hagree fun _ => ha, hst]
      have hsafe : SafeLoop pdu (fuel + 1) pos len d ↔ SafeLoop pdu fuel
          (pos + (dlAction (seek pdu pos) len).stride)
          (len - (dlAction (seek pdu pos) len).stride) d' := by
        unfold SafeLoop
        rw [hsum]
        refine forall₂_congr fun pdu' hagree => ?_
        rw [hloop pdu' hagree, hloop pdu fun _ _ => rfl]
      rw [hsafe, hstep, DlMac.HarmlessFrom, hmac, hnum]
      dsimp only
      exact ⟨fun hrest _ => ⟨ha, fun _ _ => hrest⟩, fun hall => (hall (by omega)).2 hgoes hlt⟩
    · have hlast : ∀ st, dlschRound pdu (pos, len, d) ≠ .ok (.inl st) := fun st hst => hgo ⟨st, hst⟩
      have hlast' : ∀ pdu' : Nat → Byte, (∀ i < pos + len, pdu' i = pdu i) →
          ∀ st, dlschRound pdu' (pos, len, d) ≠ .ok (.inl st) := by
        intro pdu' hagree st hst
        obtain ⟨-, -, -, ha, -⟩ := dlschRound_inl hst
        exact hlast st (by rw [dlschRound_congr (fun i hi => (hagree i hi).symm) fun _ => ha, hst])
      rw [harmlessFrom_of_last hlast, ← safeRound_iff hin hlast]
      refine forall₂_congr fun pdu' hagree => exists_congr fun o => ?_
      rw [loop.eq_ok_iff_of_last hlast, loop.eq_ok_iff_of_last (hlast' pdu' hagree)]

/-- `nr_ue_process_mac_pdu` returns, from the bytes of the PDU only and with SDUs that lie in it,
exactly when each subPDU it comes to is harmless. -/
theorem ueProcessMacPdu_safe_iff (mac : DlMac) (pdu : Nat → Byte) (pduLen : Nat) :
    (∀ pdu' : Nat → Byte, (∀ i < pduLen, pdu' i = pdu i) →
      ∃ o, ueProcessMacPdu mac pdu pduLen = .ok o ∧ ueProcessMacPdu mac pdu' pduLen = .ok o ∧
        ∀ ind ∈ o.dataInd, ind.buf + ind.len ≤ pduLen) ↔
      DlMac.HarmlessFrom pdu (pduLen + 1) mac 0 0 pduLen := by
  have h := @safeLoop_iff pdu (pduLen + 1) 0 pduLen { mac } (by omega)
    fun ind hind => absurd hind not_mem_nil
  rw [SafeLoop, Nat.zero_add] at h
  exact h

/-- An SDU whose length counts its subheader reaches over the end of the PDU. -/
theorem not_forall_ueProcessMacPdu_safe :
    ¬ ∀ (mac : DlMac) (pdu : Nat → Byte) (pduLen : Nat), 1 ≤ pduLen →
      ∀ pdu' : Nat → Byte, (∀ i < pduLen, pdu' i = pdu i) →
        ∃ o, ueProcessMacPdu mac pdu pduLen = .ok o ∧ ueProcessMacPdu mac pdu' pduLen = .ok o ∧
          ∀ ind ∈ o.dataInd, ind.buf + ind.len ≤ pduLen := by
  intro hall
  let pdu : Nat → Byte := fun i => [0x01, 0x03, 0xff].getD i 0
  obtain ⟨o, ho, -, hin⟩ := hall {} pdu 3 (by decide) pdu fun _ _ => rfl
  have hdata : (ueProcessMacPdu {} pdu 3).toOption.map (·.dataInd) = some [⟨1, 2, 3⟩] := by
    decide
  rw [ho] at hdata
  have hmem : (⟨1, 2, 3⟩ : DataInd) ∈ o.dataInd := by
    have heq : o.dataInd = [⟨1, 2, 3⟩] := Option.some.inj hdata
    rw [heq]
    exact mem_singleton_self _
  exact absurd (hin _ hmem) (by decide)

end OpenAir.Mac

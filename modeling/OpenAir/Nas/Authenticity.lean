import OpenAir.Nas.Effects

namespace OpenAir.Nas

open NrUeNas

def Handler.unprotected : Handler → Bool
  | .identityRequest | .authenticationRequest | .authenticationReject | .deregistrationAccept
  | .registrationReject | .serviceReject => true
  | _ => false

def ProtectedBy (env : Env) (nas : NrUeNas) (c : Container) (b : Buffer) : Prop :=
  b.octet 1 ≠ 0 ∧ 8 ≤ b.len ∧
    slice b.octet 2 4 =
      (nasSecurityComputeMac env c (estimatedCount nas.security.nasCountDl (b.octet 6)) b).toList

structure Genuine (env : Env) (nas : NrUeNas) (c : Container) (b : Buffer) : Prop where
  ciphered : b.octet 1 = 2
  len : 8 ≤ b.len
  sequence : b.octet 6 = nas.security.nasCountDl.setWidth 8
  limit : nas.security.nasCountDl ≤ 0xffffff
  mac : slice b.octet 2 4 = (nasSecurityComputeMac env c nas.security.nasCountDl b).toList

def Accepts (env : Env) (nas : NrUeNas) (b : Buffer) : Prop :=
  ∃ nas' b', nas.nasSecurityRxProcess env b = .ok (.integrityPassed, nas', b')

/-- A message is handled, leaves the security context alone, reaches no handler but those that need
no protection, and does not keep later messages of the network from being accepted. -/
def Preserves (env : Env) (nas : NrUeNas) (c : Container) (b : Buffer) : Prop :=
  ∃ handled, nas.downlinkDataInd env b = .ok handled ∧ SecurityUnchanged nas handled.nas ∧
    (∀ handler ∈ handled.handler, handler.unprotected) ∧
    ∀ later, Genuine env nas c later → Accepts env handled.nas later

inductive MeetsEap : List Byte → Prop
  | eapMsg {rest : List Byte} (h : 6 ≤ rest.length) : MeetsEap (ieiEapMsg :: rest)
  | pduSessionStatus {rest : List Byte} (hlen : 4 ≤ rest.length) (hmax : (rest.headD 0).toNat ≤ 32)
      (h : MeetsEap (rest.drop 3)) : MeetsEap (0x50 :: rest)
  | t3448 {rest : List Byte} (h : MeetsEap (rest.drop 2)) : MeetsEap (0x6b :: rest)
  | t3446 {rest : List Byte} (h : MeetsEap (rest.drop 2)) : MeetsEap (0x5f :: rest)
  | cagList {rest : List Byte}
      (h : MeetsEap
        (rest.drop (2 + ((rest.headD 0).toNat * 256 + ((rest.drop 1).headD 0).toNat)))) :
      MeetsEap (0x75 :: rest)

structure Harmless (nas : NrUeNas) (b : Buffer) : Prop where
  authenticationRequest : b.octet 1 = 0 → b.octet 2 = fgsAuthenticationRequest → nas.KsiInUse b
  serviceReject : b.octet 1 = 0 → b.octet 2 = fgsServiceReject →
    b.octet 4 ≠ notAuthorizedForThisCag → ¬MeetsEap (b.data.drop 4)
  /-- no new security context is announced -/
  notNew : b.octet 1 ≠ 3
  inSequence : b.octet 1 ≠ 0 → b.octet 1 ≠ 1 → b.octet 1 ≠ 4 → 8 ≤ b.len →
    b.octet 6 = nas.security.nasCountDl.setWidth 8 ∧ nas.security.nasCountDl ≤ 0xffffff

theorem Handler.unprotected_of_allowed {b : Buffer} {h : Handler}
    (hb : unprotectedAllowed b h.msgType) : h.unprotected := by
  cases h <;> first | rfl | exact absurd hb Bool.false_ne_true

theorem meetsEap_of_error {fuel : Nat} {l : List Byte} {e : Abort}
    (h : decodeServiceRejectIes fuel l = .error e) : MeetsEap l := by
  induction fuel generalizing l with
  | zero => cases h
  | succ fuel ih =>
    cases l with
    | nil => cases h
    | cons iei rest =>
      rw [decodeServiceRejectIes] at h
      split_ifs at h with h50 hbad htimer heap hshort hcag
      · subst h50
        exact .pduSessionStatus (by omega) (by omega) (ih h)
      · obtain rfl | rfl := htimer
        · exact .t3448 (ih h)
        · exact .t3446 (ih h)
      · subst heap
        exact .eapMsg (by omega)
      · subst hcag
        exact .cagList (ih h)

theorem MeetsEap.decode_eq_error {l : List Byte} (h : MeetsEap l) {fuel : Nat}
    (hfuel : l.length ≤ fuel) : decodeServiceRejectIes fuel l = .error .nullPointer := by
  induction h generalizing fuel with
  | eapMsg h =>
    obtain _ | fuel := fuel
    · cases hfuel
    · rw [decodeServiceRejectIes, if_neg (by decide), if_neg (by decide), if_pos rfl,
        if_neg (by omega)]
  | pduSessionStatus hlen hmax h ih =>
    obtain _ | fuel := fuel
    · cases hfuel
    · rw [decodeServiceRejectIes, if_pos rfl, if_neg (by omega), ih (by simp at hfuel ⊢; omega)]
  | t3448 h ih =>
    obtain _ | fuel := fuel
    · cases hfuel
    · rw [decodeServiceRejectIes, if_neg (by decide), if_pos (.inl rfl),
        ih (by simp at hfuel ⊢; omega)]
  | t3446 h ih =>
    obtain _ | fuel := fuel
    · cases hfuel
    · rw [decodeServiceRejectIes, if_neg (by decide), if_pos (.inr rfl),
        ih (by simp at hfuel ⊢; omega)]
  | cagList h ih =>
    obtain _ | fuel := fuel
    · cases hfuel
    · rw [decodeServiceRejectIes, if_neg (by decide), if_neg (by decide), if_neg (by decide),
        if_pos rfl]
      exact ih (by simp at hfuel ⊢; omega)

theorem decodeFgsServiceReject_ok {body : List Byte} (h : ¬MeetsEap (body.drop 1)) :
    ∃ decoded, decodeFgsServiceReject body = .ok decoded := by
  cases body with
  | nil => exact ⟨false, rfl⟩
  | cons cause ies =>
    cases hd : decodeFgsServiceReject (cause :: ies) with
    | ok decoded => exact ⟨decoded, rfl⟩
    | error e => exact absurd (meetsEap_of_error hd) h

theorem MeetsEap.decodeFgsServiceReject {body : List Byte} (h : MeetsEap (body.drop 1)) :
    decodeFgsServiceReject body = .error .nullPointer := by
  cases body with
  | nil => cases h
  | cons cause ies => exact MeetsEap.decode_eq_error h (Nat.le_refl _)

section

variable {env : Env} {nas : NrUeNas} {c : Container} {b : Buffer}

theorem Genuine.accepts {nas' : NrUeNas} {later : Buffer} (h : Genuine env nas c later)
    (hc : nas'.securityContainer = some c)
    (hcount : nas'.security.nasCountDl = nas.security.nasCountDl) : Accepts env nas' later := by
  have hest :
      estimatedCount nas'.security.nasCountDl (later.octet 6) = nas.security.nasCountDl := by
    rw [hcount, estimatedCount_eq_self]
    exact h.sequence
  have hlen : ¬later.len < mmHeaderOctets := Nat.not_lt.mpr (Nat.le_trans (by decide) h.len)
  refine ⟨nas'.setCountDl (nas.security.nasCountDl + 1),
    nasSecurityDecryptPayload env c nas.security.nasCountDl later, ?_⟩
  simp only [nasSecurityRxProcess, hc, if_neg hlen, h.ciphered, if_neg (Nat.not_lt.mpr h.len)]
  rw [if_neg (by decide), if_neg (by decide), if_neg (by decide), rxProtected]
  simp only [hest]
  rw [if_neg (BitVec.not_lt.mpr h.limit), if_neg (not_not.mpr h.mac)]

theorem Preserves.of_unchanged {handled : Handled} (hc : nas.securityContainer = some c)
    (h : nas.downlinkDataInd env b = .ok handled) (hs : SecurityUnchanged nas handled.nas)
    (hhandler : ∀ handler ∈ handled.handler, handler.unprotected) : Preserves env nas c b :=
  ⟨handled, h, hs, hhandler, fun _ hg => hg.accepts (hs.container.trans hc) hs.countDl⟩

theorem Preserves.of_discarded (state : SecurityState) (hc : nas.securityContainer = some c)
    (hrx : nas.nasSecurityRxProcess env b = .ok (state, nas, b)) (hd : state.discards) :
    Preserves env nas c b :=
  .of_unchanged hc (receive_of_discards _ hrx hd) (.refl nas) (by simp)

theorem Handler.run_unprotected {handler : Handler} (hu : handler.unprotected)
    (hlen : mmHeaderOctets ≤ b.len) (hauth : handler = .authenticationRequest → nas.KsiInUse b)
    (hreject : handler = .serviceReject → ∃ decoded,
      decodeFgsServiceReject (b.data.drop (protectionOctets b + mmHeaderOctets)) = .ok decoded) :
    ∃ nas' sent, handler.run env nas b = .ok (nas', sent) ∧ SecurityUnchanged nas nas' := by
  cases handler with
  | identityRequest => exact ⟨nas, _, rfl, .refl nas⟩
  | authenticationRequest =>
    refine ⟨nas, [plainUplink env (.authenticationFailure ngKsiAlreadyInUse)], ?_, .refl nas⟩
    rw [Handler.run, handleFgmmAuthenticationRequest_of_ksi hlen (hauth rfl)]
  | authenticationReject => exact ⟨_, _, rfl, handleAuthenticationReject_unchanged⟩
  | deregistrationAccept => exact ⟨_, _, rfl, rfl, rfl, rfl, rfl⟩
  | registrationReject => exact ⟨_, _, rfl, handleRegistrationReject_unchanged⟩
  | serviceReject =>
    obtain ⟨decoded, hd⟩ := hreject rfl
    have hrun : ∃ nas', nas.handleServiceReject b = .ok nas' := by
      unfold handleServiceReject
      rw [hd]
      cases decoded <;> exact ⟨_, rfl⟩
    obtain ⟨nas', hrun⟩ := hrun
    refine ⟨nas', [], ?_, handleServiceReject_unchanged hrun⟩
    rw [Handler.run, hrun]
    rfl
  | _ => cases hu

theorem getMsgType_plain (hlen : mmHeaderOctets ≤ b.len) (h : b.octet 1 = 0) :
    getMsgType b = b.octet 2 := by
  have hlen₂ : ¬b.len < 2 := Nat.not_lt.mpr (Nat.le_trans (by decide) hlen)
  rw [getMsgType, if_neg hlen₂, if_pos h]
  exact if_neg (Nat.not_lt.mpr hlen)

section Rx

variable (env : Env) (hc : nas.securityContainer = some c)
include hc

theorem rx_short (hlen : b.len < mmHeaderOctets) :
    nas.nasSecurityRxProcess env b = .ok (.badInput, nas, b) := by
  simp only [nasSecurityRxProcess, hc, if_pos hlen]

variable (hlen : mmHeaderOctets ≤ b.len)
include hlen

theorem rx_plain (h : b.octet 1 = 0) :
    nas.nasSecurityRxProcess env b =
      .ok (if unprotectedAllowed b (b.octet 2) then .unprotected else .badInput, nas, b) := by
  simp only [nasSecurityRxProcess, hc, if_neg (Nat.not_lt.mpr hlen), if_pos h,
    getMsgType_plain hlen h]

theorem rx_new (h : b.octet 1 = 3) :
    nas.nasSecurityRxProcess env b =
      .ok (.noSecurityContext, (nas.setCountDl 0).deleteContainer, b) := by
  simp only [nasSecurityRxProcess, hc, if_neg (Nat.not_lt.mpr hlen), h]
  rw [if_neg (by decide), if_pos trivial]

theorem rx_unhandled (h : b.octet 1 = 1 ∨ b.octet 1 = 4) :
    nas.nasSecurityRxProcess env b = .ok (.badInput, nas, b) := by
  simp only [nasSecurityRxProcess, hc, if_neg (Nat.not_lt.mpr hlen)]
  obtain h | h := h <;>
    rw [h, if_neg (by decide), if_neg (by decide), if_pos (by decide)]

theorem rx_protected (h₀ : b.octet 1 ≠ 0) (h₃ : b.octet 1 ≠ 3)
    (h₁₄ : ¬(b.octet 1 = 1 ∨ b.octet 1 = 4)) :
    nas.nasSecurityRxProcess env b =
      if b.len < 8 then .ok (.badInput, nas, b) else nas.rxProtected env b c := by
  simp only [nasSecurityRxProcess, hc, if_neg (Nat.not_lt.mpr hlen), if_neg h₀, if_neg h₃,
    if_neg h₁₄]

end Rx

theorem Harmless.preserves_plain (hc : nas.securityContainer = some c)
    (hlen : mmHeaderOctets ≤ b.len)
    (hh : Harmless nas b) (hplain : b.octet 1 = 0) : Preserves env nas c b := by
  have hrx := rx_plain env hc hlen hplain
  cases hallowed : unprotectedAllowed b (b.octet 2) with
  | false => exact .of_discarded .badInput hc (by rw [hrx, hallowed]; rfl) rfl
  | true =>
    rw [hallowed] at hrx
    have hdispatch := receive_of_not_discards Handler.ofMsgType hrx rfl
    rw [getMsgType_plain hlen hplain] at hdispatch
    cases hhandler : Handler.ofMsgType (b.octet 2) with
    | none =>
      rw [hhandler] at hdispatch
      exact .of_unchanged hc hdispatch (.refl nas) (by simp)
    | some handler =>
      have htype := Handler.msgType_of_ofMsgType hhandler
      have hu := Handler.unprotected_of_allowed (htype ▸ hallowed)
      obtain ⟨nas', sent, hrun, hs⟩ : ∃ nas' sent, handler.run env nas b = .ok (nas', sent) ∧
          SecurityUnchanged nas nas' := by
        refine Handler.run_unprotected hu hlen ?_ ?_
        · rintro rfl
          exact hh.authenticationRequest hplain htype
        · rintro rfl
          have hcause : b.octet 4 ≠ notAuthorizedForThisCag := by
            rw [htype] at hallowed
            exact of_decide_eq_true hallowed
          apply decodeFgsServiceReject_ok
          rw [protectionOctets, if_pos hplain, List.drop_drop]
          exact hh.serviceReject hplain htype hcause
      rw [hhandler, dispatch, hrun] at hdispatch
      refine .of_unchanged hc hdispatch hs ?_
      simp [hu]

theorem Harmless.preserves (hc : nas.securityContainer = some c)
    (h : mmHeaderOctets ≤ b.len → Harmless nas b)
    (hforged : ¬ProtectedBy env nas c b) : Preserves env nas c b := by
  by_cases hlen : b.len < mmHeaderOctets
  · exact .of_discarded .badInput hc (rx_short env hc hlen) rfl
  have hlen' := Nat.not_lt.mp hlen
  have hh := h hlen'
  by_cases hplain : b.octet 1 = 0
  · exact hh.preserves_plain hc hlen' hplain
  by_cases hbad : b.octet 1 = 1 ∨ b.octet 1 = 4
  · exact .of_discarded .badInput hc (rx_unhandled env hc hlen' hbad) rfl
  have hrx := rx_protected env hc hlen' hplain hh.notNew hbad
  by_cases hshort : b.len < 8
  · exact .of_discarded .badInput hc (by rw [hrx, if_pos hshort]) rfl
  · obtain ⟨hsqn, hle⟩ := hh.inSequence hplain (mt .inl hbad) (mt .inr hbad) (Nat.not_lt.mp hshort)
    have hest := (estimatedCount_eq_self nas.security.nasCountDl (b.octet 6)).mpr hsqn
    have hmac :
        slice b.octet 2 4 ≠ (nasSecurityComputeMac env c nas.security.nasCountDl b).toList := by
      intro hmac
      exact hforged ⟨hplain, Nat.not_lt.mp hshort, by rw [hest, hmac]⟩
    refine .of_discarded .integrityFailed hc ?_ rfl
    rw [hrx, if_neg hshort, rxProtected]
    simp only [hest]
    rw [if_neg (BitVec.not_lt.mpr hle), if_pos hmac]
    rfl

def probe (mac : Vector Byte 4) (key : Key32) : Env := .simple (fun _ _ => mac) fun _ _ => key

def otherEnv (nas : NrUeNas) (b : Buffer) : Env :=
  probe (.replicate 4 (b.octet 2 + 1)) (.replicate 32 (nas.security.keys.kamf[0] + 1))

theorem add_one_ne (x : Byte) : x + 1 ≠ x := by bv_omega

theorem mac_otherEnv (count : BitVec 32) :
    slice b.octet 2 4 ≠ (nasSecurityComputeMac (otherEnv nas b) c count b).toList := by
  intro h
  have hhead := congrArg (List.headD · 0) h
  rw [slice_succ] at hhead
  exact add_one_ne (b.octet 2) hhead.symm

theorem kamf_otherEnv (nas₀ : NrUeNas) :
    (nas₀.generateAuthenticationResp (otherEnv nas b) b).1.security.keys.kamf ≠
      nas.security.keys.kamf := by
  intro h
  have hhead :
      (Vector.replicate 32 (nas.security.keys.kamf[0] + 1))[0] = nas.security.keys.kamf[0] :=
    congrArg (fun key : Key32 => key[0]) h
  rw [Vector.getElem_replicate] at hhead
  exact add_one_ne _ hhead

theorem not_protectedBy_otherEnv : ¬ProtectedBy (otherEnv nas b) nas c b := by
  rintro ⟨_, _, hmac⟩
  exact mac_otherEnv _ hmac

theorem container_of_torn {handled : Handled} {handler : Handler}
    (hnone : nas.securityContainer = none)
    (hmac : ∀ c count, slice b.octet 2 4 ≠ (nasSecurityComputeMac env c count b).toList)
    (hrun : handler.run env nas b = .ok (handled.nas, handled.sent)) :
    handled.nas.securityContainer = none := by
  by_cases hauth : handler = .authenticationRequest
  · subst hauth
    exact (handleFgmmAuthenticationRequest_kept (Except.ok.inj hrun)).1.trans hnone
  by_cases hsmc : handler = .securityModeCommand
  · subst hsmc
    obtain hr | ⟨u, c, _, ha⟩ := handleSecurityModeCommand_ok hrun
    · obtain h | h := hr.container
      · exact h.trans hnone
      · exact h
    · exact absurd ha.valid.symm (hmac c _)
  · exact (Handler.run_effect hauth hsmc hrun).container.trans hnone

variable (hc : nas.securityContainer = some c) (hlen : mmHeaderOctets ≤ b.len)
include hc hlen

theorem ksiInUse_of_preserves (h : Preserves (otherEnv nas b) nas c b) (hplain : b.octet 1 = 0)
    (htype : b.octet 2 = fgsAuthenticationRequest) : nas.KsiInUse b := by
  by_contra hksi
  obtain ⟨handled, hok, hs, _⟩ := h
  have hrx := rx_plain (otherEnv nas b) hc hlen hplain
  rw [htype] at hrx
  rw [downlinkDataInd, receive_of_not_discards Handler.ofMsgType hrx rfl,
    getMsgType_plain hlen hplain, htype] at hok
  obtain ⟨_, hrun⟩ := dispatch_some_ok (h := .authenticationRequest) hok
  obtain ⟨nas₀, _, hauth⟩ := handleFgmmAuthenticationRequest_of_not_ksi (otherEnv nas b) hlen hksi
  have hnas : handled.nas = (nas₀.generateAuthenticationResp (otherEnv nas b) b).1 := by
    rw [← hauth, Except.ok.inj hrun]
  exact kamf_otherEnv nas₀ (by rw [← hnas, hs.keys])

theorem not_meetsEap_of_preserves (h : Preserves env nas c b) (hplain : b.octet 1 = 0)
    (htype : b.octet 2 = fgsServiceReject) (hcause : b.octet 4 ≠ notAuthorizedForThisCag) :
    ¬MeetsEap (b.data.drop 4) := by
  intro heap
  obtain ⟨handled, hok, _⟩ := h
  have hrx := rx_plain env hc hlen hplain
  have hallowed : unprotectedAllowed b fgsServiceReject := decide_eq_true hcause
  rw [htype, hallowed] at hrx
  rw [downlinkDataInd, receive_of_not_discards Handler.ofMsgType hrx rfl,
    getMsgType_plain hlen hplain, htype] at hok
  obtain ⟨_, hrun⟩ := dispatch_some_ok (h := .serviceReject) hok
  have herror : decodeFgsServiceReject (b.data.drop (protectionOctets b + mmHeaderOctets)) =
      .error .nullPointer := by
    apply MeetsEap.decodeFgsServiceReject
    rw [protectionOctets, if_pos hplain, List.drop_drop]
    exact heap
  rw [Handler.run, handleServiceReject, herror] at hrun
  cases hrun

theorem notNew_of_preserves (h : Preserves (otherEnv nas b) nas c b) : b.octet 1 ≠ 3 := by
  intro hnew
  obtain ⟨handled, hok, hs, _⟩ := h
  have hrx := rx_new (otherEnv nas b) hc hlen hnew
  rw [downlinkDataInd, receive_of_not_discards Handler.ofMsgType hrx rfl] at hok
  have hnone : handled.nas.securityContainer = none := by
    cases hhandler : Handler.ofMsgType (getMsgType b) with
    | none =>
      rw [hhandler] at hok
      cases hok
      rfl
    | some handler =>
      rw [hhandler] at hok
      exact container_of_torn rfl (fun _ count => mac_otherEnv count) (dispatch_some_ok hok).2
  rw [hs.container, hc] at hnone
  cases hnone

theorem inSequence_of_preserves (h : Preserves (otherEnv nas b) nas c b) (h₀ : b.octet 1 ≠ 0)
    (h₁ : b.octet 1 ≠ 1) (h₄ : b.octet 1 ≠ 4) (hlen' : 8 ≤ b.len) :
    b.octet 6 = nas.security.nasCountDl.setWidth 8 ∧ nas.security.nasCountDl ≤ 0xffffff := by
  have h₃ := notNew_of_preserves hc hlen h
  obtain ⟨handled, hok, hs, _⟩ := h
  have hrx := rx_protected (otherEnv nas b) hc hlen h₀ h₃ (not_or.mpr ⟨h₁, h₄⟩)
  rw [if_neg (Nat.not_lt.mpr hlen'), rxProtected] at hrx
  split at hrx
  · rw [downlinkDataInd, receive, hrx] at hok
    cases hok
  · next hle =>
    rw [if_pos (mac_otherEnv _)] at hrx
    rw [downlinkDataInd, receive_of_discards _ hrx rfl] at hok
    cases hok
    have hest := hs.countDl
    exact ⟨(estimatedCount_eq_self _ _).mp hest, by rw [← hest]; exact BitVec.not_lt.mp hle⟩

end

def activeUe : NrUeNas where
  security := { nasCountDl := 5 }
  securityContainer := some
    { integrityAlgorithm := .eia2, cipheringAlgorithm := .eea2, integrityKey := .replicate 16 0
      cipheringKey := .replicate 16 0 }

def zeroEnv : Env := probe (.replicate 4 0) (.replicate 32 0)

def forged (sqn : Byte) : Buffer :=
  { data := [0x7e, 2, 1, 1, 1, 1, sqn, 0x7e], behind := fun _ => 0 }

end OpenAir.Nas

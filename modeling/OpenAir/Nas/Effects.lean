import OpenAir.Nas.Downlink

namespace OpenAir.Nas

open NrUeNas

section Estimate

variable (count : BitVec 32) (sqn : Byte)

theorem low_octet_replaced (v : BitVec 32) :
    (v &&& ~~~255) ||| sqn.setWidth 32 = v.extractLsb' 8 24 ++ sqn := by
  refine BitVec.eq_of_getLsbD_eq fun i hi => ?_
  have hmask : (~~~(255 : BitVec 32)).getLsbD i = decide (8 ≤ i) := by
    revert i
    decide
  rw [BitVec.getLsbD_or, BitVec.getLsbD_and, hmask, BitVec.getLsbD_setWidth, BitVec.getLsbD_append]
  by_cases h : i < 8
  · simp [h, Nat.not_le.mpr h, hi]
  · have hle : 8 ≤ i := by omega
    simp [h, hle, hi, show i - 8 < 24 by omega]

theorem toNat_low_octet_replaced (v : BitVec 32) :
    ((v &&& ~~~255) ||| sqn.setWidth 32).toNat = v.toNat / 256 * 256 + sqn.toNat := by
  have hv := v.isLt
  have hs := sqn.isLt
  rw [low_octet_replaced, BitVec.toNat_append, BitVec.extractLsb'_toNat, Nat.shiftRight_eq_div_pow,
    ← Nat.shiftLeft_add_eq_or_of_lt hs, Nat.shiftLeft_eq]
  omega

theorem toNat_estimatedCount (h : count.toNat + 256 < 2 ^ 32) :
    (estimatedCount count sqn).toNat =
      if sqn.toNat < count.toNat % 256 then (count.toNat / 256 + 1) * 256 + sqn.toNat
      else count.toNat / 256 * 256 + sqn.toNat := by
  have hlow : (count.setWidth 8).toNat = count.toNat % 256 := BitVec.toNat_setWidth ..
  have hlt : sqn < count.setWidth 8 ↔ sqn.toNat < count.toNat % 256 := by rw [BitVec.lt_def, hlow]
  unfold estimatedCount
  by_cases heq : sqn = count.setWidth 8
  · have hsqn : sqn.toNat = count.toNat % 256 := heq ▸ hlow
    rw [if_neg (not_not.mpr heq), if_neg (by omega)]
    omega
  · rw [if_pos heq, toNat_low_octet_replaced]
    by_cases hs : sqn.toNat < count.toNat % 256
    · have hadd : (count + 256).toNat = count.toNat + 256 := by
        rw [BitVec.toNat_add]
        exact Nat.mod_eq_of_lt h
      rw [if_pos (hlt.mpr hs), if_pos hs, hadd]
      omega
    · rw [if_neg (mt hlt.mp hs), if_neg hs]

theorem le_estimatedCount (h : count.toNat + 256 < 2 ^ 32) :
    count.toNat ≤ (estimatedCount count sqn).toNat := by
  have hs := sqn.isLt
  rw [toNat_estimatedCount count sqn h]
  split <;> omega

theorem setWidth_estimatedCount : (estimatedCount count sqn).setWidth 8 = sqn := by
  unfold estimatedCount
  split
  · rw [low_octet_replaced, BitVec.setWidth_append]
    simp
  · next h => exact (not_not.mp h).symm

theorem estimatedCount_eq_self : estimatedCount count sqn = count ↔ sqn = count.setWidth 8 := by
  constructor
  · intro h
    rw [← h, setWidth_estimatedCount]
  · intro h
    rw [estimatedCount, if_neg (not_not.mpr h)]

end Estimate

section Generators

variable {env : Env} {nas nas' : NrUeNas} {header : SecurityHeader} {message : Plain} {u : Uplink}
  {sent : List Uplink}

structure ProtectedAt (env : Env) (c : Container) (count : BitVec 32) (u : Uplink) : Prop where
  protection : ∃ p, u.protection = some p ∧ p.container = c ∧
    p.mac = uplinkCipher count (u.data.drop 6) ∧ ∀ cipher ∈ p.ciphers, cipher.count = count
  mac : (u.data.drop 2).take 4 = (c.mac env (uplinkCipher count (u.data.drop 6))).toList
  sequence : u.data[6]? = some (count.setWidth 8)
  body : u.data.drop 7 =
    if u.header.ciphered then c.encrypt env (uplinkCipher count (env.mmMsgEncode u.message))
    else env.mmMsgEncode u.message

variable {c : Container}

theorem NrUeNas.sealed_data {body : List Byte} {ciphers : List StreamCipher} :
    (nas.sealed env c header message body ciphers).data =
      [fgsMobilityManagementMessage, header.octet] ++
        ((c.mac env (uplinkCipher nas.security.nasCountUl
          (nas.security.nasCountUl.setWidth 8 :: body))).toList ++
          nas.security.nasCountUl.setWidth 8 :: body) := by
  simp [sealed]

theorem NrUeNas.protectedAt_sealed {body : List Byte} {ciphers : List StreamCipher}
    (hbody : body = if header.ciphered then
      c.encrypt env (uplinkCipher nas.security.nasCountUl (env.mmMsgEncode message))
      else env.mmMsgEncode message)
    (hciphers : ∀ cipher ∈ ciphers, cipher.count = nas.security.nasCountUl) :
    ProtectedAt env c nas.security.nasCountUl (nas.sealed env c header message body ciphers) := by
  have hdrop : (nas.sealed env c header message body ciphers).data.drop 6 =
      nas.security.nasCountUl.setWidth 8 :: body := by
    rw [sealed_data]
    simp
  refine ⟨⟨_, rfl, rfl, ?_, hciphers⟩, ?_, ?_, ?_⟩
  · rw [hdrop]
  · rw [hdrop, sealed_data]
    simp
  · rw [sealed_data]
    simp
  · rw [show 7 = 6 + 1 from rfl, ← List.drop_drop, hdrop]
    exact hbody

structure SecurityUnchanged (nas nas' : NrUeNas) : Prop where
  container : nas'.securityContainer = nas.securityContainer
  keys : nas'.security.keys = nas.security.keys
  countUl : nas'.security.nasCountUl = nas.security.nasCountUl
  countDl : nas'.security.nasCountDl = nas.security.nasCountDl

theorem SecurityUnchanged.refl (nas : NrUeNas) : SecurityUnchanged nas nas := ⟨rfl, rfl, rfl, rfl⟩

structure Protects (env : Env) (nas nas' : NrUeNas) (u : Uplink) : Prop where
  protectedAt : ∃ c, nas.securityContainer = some c ∧ ProtectedAt env c nas.security.nasCountUl u
  container : nas'.securityContainer = nas.securityContainer
  kamf : nas'.security.keys.kamf = nas.security.keys.kamf
  countUl : nas'.security.nasCountUl = nas.security.nasCountUl + 1
  countDl : nas'.security.nasCountDl = nas.security.nasCountDl

theorem protectWithContainer_ok (hheader : header.ciphered)
    (h : nas.protectWithContainer env header message = .ok (nas', u)) :
    Protects env nas nas' u ∧ u.message = message ∧ nas.security.nasCountUl ≤ 0xffffff := by
  unfold protectWithContainer at h
  cases hc : nas.securityContainer with
  | none => simp [hc] at h
  | some c =>
    simp only [hc, cipherAndProtect] at h
    split at h
    · cases h
    · next hle =>
      cases h
      refine ⟨⟨⟨c, hc, ?_⟩, rfl, rfl, rfl, rfl⟩, rfl, BitVec.not_lt.mp hle⟩
      apply protectedAt_sealed
      · rw [if_pos hheader]
      · simp [uplinkCipher]

theorem securityContext_eq_some (h : nas.securityContext = some c) :
    nas.securityContainer = some c :=
  (Option.filter_eq_some_iff.mp h).1

def Plain.isSecurityModeComplete : Plain → Bool
  | .securityModeComplete _ => true
  | _ => false

inductive Effect (env : Env) (nas nas' : NrUeNas) : List Uplink → Prop
  | keeps {sent : List Uplink} (h : SecurityUnchanged nas nas')
      (hsent : ∀ u ∈ sent, u.protection = none) :
      Effect env nas nas' sent
  | protects {u : Uplink} (h : Protects env nas nas' u)
      (hmessage : u.message.isSecurityModeComplete = false)
      (hle : nas.security.nasCountUl ≤ 0xffffff) : Effect env nas nas' [u]

theorem Effect.container (h : Effect env nas nas' sent) :
    nas'.securityContainer = nas.securityContainer := by
  cases h with
  | keeps h _ => exact h.container
  | protects h _ _ => exact h.container

theorem Effect.countDl (h : Effect env nas nas' sent) :
    nas'.security.nasCountDl = nas.security.nasCountDl := by
  cases h with
  | keeps h _ => exact h.countDl
  | protects h _ _ => exact h.countDl

theorem Effect.refl (nas : NrUeNas) : Effect env nas nas [] := .keeps (.refl nas) (by simp)

theorem Effect.trans_unchanged {nas'' : NrUeNas} (h : Effect env nas nas' sent)
    (h' : SecurityUnchanged nas' nas'') : Effect env nas nas'' sent := by
  cases h with
  | keeps h hsent =>
    exact .keeps ⟨h'.container.trans h.container, h'.keys.trans h.keys, h'.countUl.trans h.countUl,
      h'.countDl.trans h.countDl⟩ hsent
  | protects h hmessage hle =>
    exact .protects ⟨h.protectedAt, h'.container.trans h.container,
      (congrArg Keys.kamf h'.keys).trans h.kamf, h'.countUl.trans h.countUl,
      h'.countDl.trans h.countDl⟩ hmessage hle

theorem SecurityUnchanged.trans_effect {nas'' : NrUeNas} (h : SecurityUnchanged nas nas')
    (h' : Effect env nas' nas'' sent) : Effect env nas nas'' sent := by
  cases h' with
  | keeps h' hsent =>
    exact .keeps ⟨h'.container.trans h.container, h'.keys.trans h.keys, h'.countUl.trans h.countUl,
      h'.countDl.trans h.countDl⟩ hsent
  | protects h' hmessage hle =>
    refine .protects ⟨?_, h'.container.trans h.container, h'.kamf.trans (congrArg Keys.kamf h.keys),
      ?_, h'.countDl.trans h.countDl⟩ hmessage (h.countUl ▸ hle)
    · obtain ⟨c, hc, hu⟩ := h'.protectedAt
      exact ⟨c, h.container.symm.trans hc, h.countUl ▸ hu⟩
    · rw [h'.countUl, h.countUl]

theorem protectWithContainer_effect (hheader : header.ciphered)
    (hmessage : message.isSecurityModeComplete = false)
    (h : nas.protectWithContainer env header message = .ok (nas', u)) :
    Effect env nas nas' [u] := by
  obtain ⟨hp, rfl, hle⟩ := protectWithContainer_ok hheader h
  exact .protects hp hmessage hle

theorem generateRegistrationRequest_effect
    (h : nas.generateRegistrationRequest env = .ok (nas', sent)) : Effect env nas nas' sent := by
  unfold generateRegistrationRequest at h
  split at h
  · cases h
    exact .refl nas
  cases hctx : nas.securityContext with
  | none =>
    simp only [hctx] at h
    cases h
    exact .keeps (.refl nas) (by simp [plainUplink])
  | some c =>
    simp only [hctx] at h
    split at h
    · cases h
    · next hle =>
      cases h
      refine .protects ⟨⟨c, securityContext_eq_some hctx, ?_⟩, rfl, rfl, rfl, rfl⟩ rfl
        (BitVec.not_lt.mp hle)
      exact protectedAt_sealed rfl (by simp)

theorem generateServiceRequest_ok {moUlData : Bool}
    (h : nas.generateServiceRequest env moUlData = .ok (nas', u)) :
    (SecurityUnchanged nas nas' ∧ u.protection = none) ∨
      (Protects env nas nas' u ∧ u.message.isSecurityModeComplete = false) := by
  unfold generateServiceRequest at h
  cases hguti : nas.guti with
  | none => simp [hguti] at h
  | some guti =>
    cases hctx : nas.securityContext with
    | none =>
      simp only [hguti, hctx] at h
      cases h
      exact .inl ⟨.refl nas, rfl⟩
    | some c =>
      have hc := securityContext_eq_some hctx
      cases hs : nas.pduSessionStatus with
      | none =>
        simp only [hguti, hctx, hs] at h
        cases h
        exact .inr ⟨⟨⟨c, hc, protectedAt_sealed rfl (by simp)⟩, rfl, rfl, rfl, rfl⟩, rfl⟩
      | some status =>
        simp only [hguti, hctx, hs] at h
        split at h
        · cases h
        · cases h
          exact .inr ⟨⟨⟨c, hc, protectedAt_sealed rfl (by simp [uplinkCipher])⟩, rfl, rfl,
            rfl, rfl⟩, rfl⟩

theorem generateSecurityModeReject_ok {cause : Byte}
    (h : nas.generateSecurityModeReject env cause = .ok (nas', u)) :
    nas' = nas ∧ u.protection = none := by
  unfold generateSecurityModeReject at h
  cases hctx : nas.securityContext with
  | none =>
    simp only [hctx] at h
    cases h
    exact ⟨rfl, rfl⟩
  | some c => simp [hctx] at h

theorem generateSecurityModeComplete_ok (h : nas.generateSecurityModeComplete env = .ok (nas', u)) :
    Protects env nas nas' u ∧ u.message.isSecurityModeComplete ∧
      nas.security.nasCountUl ≤ 0xffffff := by
  obtain ⟨container, _, h⟩ := bind_eq_ok.mp h
  obtain ⟨hp, hm, hle⟩ := protectWithContainer_ok rfl h
  exact ⟨hp, by rw [hm]; rfl, hle⟩

theorem generateRegistrationComplete_effect
    (h : nas.generateRegistrationComplete env = .ok (nas', u)) : Effect env nas nas' [u] := by
  obtain ⟨⟨nas₁, u₁⟩, h₁, h⟩ := bind_eq_ok.mp h
  cases h
  exact (protectWithContainer_effect rfl rfl h₁).trans_unchanged ⟨rfl, rfl, rfl, rfl⟩

theorem generateDeregistrationRequest_effect {guti : Guti}
    (h : nas.generateDeregistrationRequest env guti = .ok (nas', u)) : Effect env nas nas' [u] := by
  obtain ⟨⟨nas₁, u₁⟩, h₁, h⟩ := bind_eq_ok.mp h
  cases h
  exact (protectWithContainer_effect rfl rfl h₁).trans_unchanged ⟨rfl, rfl, rfl, rfl⟩

theorem deregistrationReq_effect {detach : Bool}
    (h : nas.deregistrationReq env detach = .ok (nas', sent)) : Effect env nas nas' sent := by
  unfold deregistrationReq at h
  split at h
  · cases h
    exact .refl nas
  · obtain ⟨⟨nas₁, u⟩, h₁, h⟩ := bind_eq_ok.mp h
    cases h
    have h₀ : SecurityUnchanged nas
        (if detach then { nas with terminationProcedure := true } else nas) := by
      split <;> exact ⟨rfl, rfl, rfl, rfl⟩
    exact h₀.trans_effect (generateDeregistrationRequest_effect h₁)

variable {b : Buffer}

theorem handleRegistrationAccept_effect
    (h : nas.handleRegistrationAccept env b = .ok (nas', sent)) : Effect env nas nas' sent := by
  obtain ⟨_ | guti, _, h⟩ := bind_eq_ok.mp h
  · cases h
    exact .refl nas
  · obtain ⟨⟨nas₁, u⟩, h₁, h⟩ := bind_eq_ok.mp h
    cases h
    have h₀ : SecurityUnchanged nas { nas with guti := guti.or nas.guti } := ⟨rfl, rfl, rfl, rfl⟩
    exact h₀.trans_effect (generateRegistrationComplete_effect h₁)

theorem handlePduSessionAccept_effect (h : nas.handlePduSessionAccept env b = .ok (nas', sent)) :
    Effect env nas nas' sent := by
  obtain ⟨_ | psi, _, h⟩ := bind_eq_ok.mp h
  · cases h
    exact .refl nas
  · cases h
    exact .keeps ⟨rfl, rfl, rfl, rfl⟩ (by simp)

theorem handlePduSessionModificationCommand_effect
    (h : nas.handlePduSessionModificationCommand env b = .ok (nas', sent)) :
    Effect env nas nas' sent := by
  obtain ⟨_ | ids, _, h⟩ := bind_eq_ok.mp h
  · cases h
    exact .refl nas
  · obtain ⟨⟨nas₁, u⟩, h₁, h⟩ := bind_eq_ok.mp h
    cases h
    exact protectWithContainer_effect rfl rfl h₁

theorem handleDownlinkNasTransport_effect
    (h : nas.handleDownlinkNasTransport env b = .ok (nas', sent)) : Effect env nas nas' sent := by
  unfold handleDownlinkNasTransport at h
  split_ifs at h with hlen hacc hmod
  · cases h
    exact .refl nas
  · exact handlePduSessionAccept_effect h
  · exact handlePduSessionModificationCommand_effect h
  · cases h
    exact .refl nas

theorem abortServiceRequest_unchanged (nas : NrUeNas) :
    SecurityUnchanged nas nas.abortServiceRequest := by
  unfold abortServiceRequest
  split <;> exact ⟨rfl, rfl, rfl, rfl⟩

theorem handleServiceReject_unchanged (h : nas.handleServiceReject b = .ok nas') :
    SecurityUnchanged nas nas' := by
  obtain ⟨decoded, _, h⟩ := bind_eq_ok.mp h
  have ha := abortServiceRequest_unchanged nas
  split at h <;> cases h
  · exact ⟨ha.container, ha.keys, ha.countUl, ha.countDl⟩
  · exact ha

theorem handleAuthenticationReject_unchanged :
    SecurityUnchanged nas (nas.handleAuthenticationReject b) := by
  unfold handleAuthenticationReject
  split_ifs <;> exact ⟨rfl, rfl, rfl, rfl⟩

theorem handleRegistrationReject_unchanged :
    SecurityUnchanged nas (nas.handleRegistrationReject b) := by
  unfold handleRegistrationReject
  split_ifs <;> exact ⟨rfl, rfl, rfl, rfl⟩

theorem handleIdentityRequest_unprotected :
    ∀ u ∈ nas.handleIdentityRequest env b, u.protection = none := by
  unfold handleIdentityRequest
  dsimp only
  split_ifs <;> simp [plainUplink]

theorem Handler.run_effect {handler : Handler} (hauth : handler ≠ .authenticationRequest)
    (hsmc : handler ≠ .securityModeCommand) (h : handler.run env nas b = .ok (nas', sent)) :
    Effect env nas nas' sent := by
  cases handler with
  | authenticationRequest => exact absurd rfl hauth
  | securityModeCommand => exact absurd rfl hsmc
  | identityRequest =>
    cases h
    exact .keeps (.refl nas) handleIdentityRequest_unprotected
  | authenticationReject =>
    cases h
    exact .keeps handleAuthenticationReject_unchanged (by simp)
  | downlinkNasTransport => exact handleDownlinkNasTransport_effect h
  | registrationAccept => exact handleRegistrationAccept_effect h
  | deregistrationAccept =>
    cases h
    exact .keeps ⟨rfl, rfl, rfl, rfl⟩ (by simp)
  | pduSessionEstablishmentAcc => exact handlePduSessionAccept_effect h
  | pduSessionEstablishmentRej =>
    cases h
    exact .refl nas
  | pduSessionModificationCommand => exact handlePduSessionModificationCommand_effect h
  | registrationReject =>
    cases h
    exact .keeps handleRegistrationReject_unchanged (by simp)
  | serviceAccept =>
    cases h
    exact .keeps ⟨rfl, rfl, rfl, rfl⟩ (by simp)
  | serviceReject =>
    obtain ⟨nas₁, h₁, h⟩ := bind_eq_ok.mp h
    cases h
    exact .keeps (handleServiceReject_unchanged h₁) (by simp)

def NrUeNas.KsiInUse (nas : NrUeNas) (b : Buffer) : Prop :=
  nas.ksi = some ((b.octet mmHeaderOctets).setWidth 3)

theorem handleFgmmAuthenticationRequest_of_ksi (hlen : mmHeaderOctets ≤ b.len)
    (hksi : nas.KsiInUse b) :
    nas.handleFgmmAuthenticationRequest env b =
      (nas, [plainUplink env (.authenticationFailure ngKsiAlreadyInUse)]) := by
  rw [KsiInUse] at hksi
  simp [handleFgmmAuthenticationRequest, hksi, Nat.not_lt.mpr hlen]

theorem handleFgmmAuthenticationRequest_of_not_ksi (env : Env) (hlen : mmHeaderOctets ≤ b.len)
    (hksi : ¬nas.KsiInUse b) :
    ∃ nas₀, SecurityUnchanged nas nas₀ ∧
      nas.handleFgmmAuthenticationRequest env b = nas₀.generateAuthenticationResp env b := by
  rw [KsiInUse] at hksi
  unfold handleFgmmAuthenticationRequest
  simp only [Nat.not_lt.mpr hlen, if_false]
  cases h : nas.ksi with
  | none =>
    exact ⟨{ nas with ksi := some ((b.octet mmHeaderOctets).setWidth 3) }, ⟨rfl, rfl, rfl, rfl⟩,
      rfl⟩
  | some ksi =>
    have hne : ksi ≠ (b.octet mmHeaderOctets).setWidth 3 := by
      rintro rfl
      exact hksi h
    exact ⟨nas, .refl nas, if_neg hne⟩

theorem handleFgmmAuthenticationRequest_kept
    (h : nas.handleFgmmAuthenticationRequest env b = (nas', sent)) :
    nas'.securityContainer = nas.securityContainer ∧
      nas'.security.nasCountUl = nas.security.nasCountUl ∧
      nas'.security.nasCountDl = nas.security.nasCountDl ∧ ∀ u ∈ sent, u.protection = none := by
  unfold handleFgmmAuthenticationRequest at h
  dsimp only at h
  generalize (b.octet (if b.len < mmHeaderOctets then 255 else mmHeaderOctets)).setWidth 3 =
    ngKsi at h
  split at h
  · cases h
    exact ⟨rfl, rfl, rfl, by simp [plainUplink]⟩
  · split at h <;> cases h <;> exact ⟨rfl, rfl, rfl, by simp [plainUplink]⟩

structure Activates (env : Env) (nas nas' : NrUeNas) (b : Buffer) (u : Uplink) (c : Container) :
    Prop where
  integrityKey : c.integrityKey = deriveKnas env 2 (b.octet 10 &&& 0x0f) nas.security.keys.kamf
  valid : (nasSecurityComputeMac env c nas.security.nasCountDl b).toList = slice b.octet 2 4
  container : nas'.securityContainer = some c
  kamf : nas'.security.keys.kamf = nas.security.keys.kamf
  countUl : nas'.security.nasCountUl = nas.security.nasCountUl + 1
  countDl : nas'.security.nasCountDl = nas.security.nasCountDl
  protectedAt : ProtectedAt env c nas.security.nasCountUl u
  message : u.message.isSecurityModeComplete = true
  limit : nas.security.nasCountUl ≤ 0xffffff

structure RejectsMode (nas nas' : NrUeNas) (sent : List Uplink) : Prop where
  container : nas'.securityContainer = nas.securityContainer ∨ nas'.securityContainer = none
  kamf : nas'.security.keys.kamf = nas.security.keys.kamf
  countUl : nas'.security.nasCountUl = nas.security.nasCountUl
  countDl : nas'.security.nasCountDl = nas.security.nasCountDl
  unprotected : ∀ u ∈ sent, u.protection = none

theorem rejectSecurityMode_ok (h : nas.rejectSecurityMode env = .ok (nas', sent)) :
    nas' = nas ∧ ∀ u ∈ sent, u.protection = none := by
  obtain ⟨⟨nas₁, u⟩, h₁, h₂⟩ := bind_eq_ok.mp h
  obtain ⟨hnas, hu⟩ := generateSecurityModeReject_ok h₁
  cases h₂
  exact ⟨hnas, by simpa using hu⟩

theorem RejectsMode.of_reject (h : nas.rejectSecurityMode env = .ok (nas', sent)) :
    RejectsMode nas nas' sent := by
  obtain ⟨rfl, hsent⟩ := rejectSecurityMode_ok h
  exact ⟨.inl rfl, rfl, rfl, rfl, hsent⟩

@[simp] theorem NrUeNas.deleteContainer_security :
    nas.deleteContainer.security = nas.security := rfl

section SetKnas

variable {ciphering integrity : Byte}

@[simp] theorem NrUeNas.setKnas_kamf :
    (nas.setKnas env ciphering integrity).security.keys.kamf = nas.security.keys.kamf := by
  simp only [setKnas]

@[simp] theorem NrUeNas.setKnas_nasCountUl :
    (nas.setKnas env ciphering integrity).security.nasCountUl = nas.security.nasCountUl := by
  simp only [setKnas]

@[simp] theorem NrUeNas.setKnas_nasCountDl :
    (nas.setKnas env ciphering integrity).security.nasCountDl = nas.security.nasCountDl := by
  simp only [setKnas]

theorem RejectsMode.of_reject_setKnas
    (h : (nas.setKnas env ciphering integrity).deleteContainer.rejectSecurityMode env =
      .ok (nas', sent)) :
    RejectsMode nas nas' sent := by
  obtain ⟨rfl, hsent⟩ := rejectSecurityMode_ok h
  exact ⟨.inr rfl, by simp, by simp, by simp, hsent⟩

end SetKnas

theorem streamSecurityContainerInit_ok {ciphering integrity : Nat} {knasEnc knasInt : Key16}
    (h : streamSecurityContainerInit ciphering integrity knasEnc knasInt = .ok c) :
    c.integrityKey = knasInt := by
  unfold streamSecurityContainerInit at h
  split at h <;> cases h
  rfl

theorem nasSecurityGetMac_eq_some {mac : List Byte} (h : nasSecurityGetMac b = some mac) :
    mac = slice b.octet 2 4 := by
  unfold nasSecurityGetMac at h
  split_ifs at h
  exact (Option.some.inj h).symm

theorem Activates.of_complete {nas₁ : NrUeNas}
    (h : nas₁.generateSecurityModeComplete env = .ok (nas', u))
    (hkey : c.integrityKey = deriveKnas env 2 (b.octet 10 &&& 0x0f) nas.security.keys.kamf)
    (hvalid : (nasSecurityComputeMac env c nas.security.nasCountDl b).toList = slice b.octet 2 4)
    (hcontainer : nas₁.securityContainer = some c)
    (hkamf : nas₁.security.keys.kamf = nas.security.keys.kamf)
    (hul : nas₁.security.nasCountUl = nas.security.nasCountUl)
    (hdl : nas₁.security.nasCountDl = nas.security.nasCountDl) : Activates env nas nas' b u c := by
  obtain ⟨hp, hm, hle⟩ := generateSecurityModeComplete_ok h
  obtain ⟨c', hc', hu⟩ := hp.protectedAt
  have hcc : c = c' := Option.some.inj (hcontainer.symm.trans hc')
  subst hcc
  rw [hul] at hu hle
  refine ⟨hkey, hvalid, hp.container.trans hcontainer, hp.kamf.trans hkamf, ?_,
    hp.countDl.trans hdl, hu, hm, hle⟩
  rw [hp.countUl, hul]

theorem handleSecurityModeCommand_ok (h : nas.handleSecurityModeCommand env b = .ok (nas', sent)) :
    RejectsMode nas nas' sent ∨ ∃ u c, sent = [u] ∧ Activates env nas nas' b u c := by
  unfold handleSecurityModeCommand at h
  split at h
  · exact .inl (.of_reject h)
  split at h
  · exact .inl (.of_reject h)
  next mac hmac =>
  dsimp only at h
  split at h
  · exact .inl (.of_reject_setKnas h)
  obtain ⟨c, hinit, h⟩ := bind_eq_ok.mp h
  split at h
  · exact .inl (.of_reject_setKnas h)
  · next hvalid =>
    obtain ⟨⟨nas₁, u⟩, hcomplete, h⟩ := bind_eq_ok.mp h
    cases h
    refine .inr ⟨u, c, rfl, .of_complete hcomplete (streamSecurityContainerInit_ok hinit) ?_ rfl
      (by simp) (by simp) (by simp)⟩
    rw [setKnas_nasCountDl, not_not] at hvalid
    rw [hvalid, nasSecurityGetMac_eq_some hmac]

end Generators

def Handler.msgType : Handler → Byte
  | .identityRequest => fgsIdentityRequest
  | .authenticationRequest => fgsAuthenticationRequest
  | .authenticationReject => fgsAuthenticationReject
  | .securityModeCommand => fgsSecurityModeCommand
  | .downlinkNasTransport => fgsDownlinkNasTransport
  | .registrationAccept => fgsRegistrationAccept
  | .deregistrationAccept => fgsDeregistrationAcceptUeOriginating
  | .pduSessionEstablishmentAcc => fgsPduSessionEstablishmentAcc
  | .pduSessionEstablishmentRej => fgsPduSessionEstablishmentRej
  | .pduSessionModificationCommand => fgsPduSessionModificationCommand
  | .registrationReject => fgsRegistrationReject
  | .serviceAccept => fgsServiceAccept
  | .serviceReject => fgsServiceReject

theorem ite_some_eq_some {t a : Byte} {handler h : Handler} {other : Option Handler}
    (ht : (if t = a then some handler else other) = some h) :
    (t = a ∧ handler = h) ∨ other = some h := by
  split at ht
  · next hta => exact .inl ⟨hta, Option.some.inj ht⟩
  · exact .inr ht

theorem Handler.msgType_of_ofMsgType {t : Byte} {h : Handler} (ht : Handler.ofMsgType t = some h) :
    t = h.msgType := by
  unfold Handler.ofMsgType at ht
  repeat
    obtain ⟨htype, rfl⟩ | ht := ite_some_eq_some ht
    · exact htype
  cases ht

section Receive

variable {env : Env} {nas : NrUeNas} {b : Buffer}

inductive RxOutcome (env : Env) (nas : NrUeNas) (b : Buffer) :
    SecurityState → NrUeNas → Buffer → Prop
  | untouched {state : SecurityState} (h : state ≠ .integrityPassed) :
      RxOutcome env nas b state nas b
  | torn (h : b.octet 1 = 3) :
      RxOutcome env nas b .noSecurityContext (nas.setCountDl 0).deleteContainer b
  | failed (hle : estimatedCount nas.security.nasCountDl (b.octet 6) ≤ 0xffffff) :
      RxOutcome env nas b .integrityFailed
        (nas.setCountDl (estimatedCount nas.security.nasCountDl (b.octet 6))) b
  | passed (c : Container) (b' : Buffer) (hc : nas.securityContainer = some c)
      (hle : estimatedCount nas.security.nasCountDl (b.octet 6) ≤ 0xffffff) :
      RxOutcome env nas b .integrityPassed
        (nas.setCountDl (estimatedCount nas.security.nasCountDl (b.octet 6) + 1)) b'

variable {b' : Buffer} {nas' : NrUeNas} {state : SecurityState}

theorem rxOutcome (h : nas.nasSecurityRxProcess env b = .ok (state, nas', b')) :
    RxOutcome env nas b state nas' b' := by
  unfold nasSecurityRxProcess at h
  cases hc : nas.securityContainer with
  | none =>
    simp only [hc] at h
    cases h
    exact .untouched (by decide)
  | some c =>
    simp only [hc] at h
    split_ifs at h with hlen hplain hallowed hnew hbad hlen'
    · cases h
      exact .untouched (by decide)
    · cases h
      exact .untouched (by decide)
    · cases h
      exact .untouched (by decide)
    · cases h
      exact .torn hnew
    · cases h
      exact .untouched (by decide)
    · cases h
      exact .untouched (by decide)
    · unfold rxProtected at h
      dsimp only at h
      split_ifs at h with hexit hmac
      · cases h
        exact .failed (BitVec.not_lt.mp hexit)
      · cases h
        exact .passed c _ hc (BitVec.not_lt.mp hexit)

theorem receive_of_discards (handlers : Byte → Option Handler)
    (hrx : nas.nasSecurityRxProcess env b = .ok (state, nas', b')) (hd : state.discards) :
    nas.receive env handlers b = .ok { handler := none, nas := nas', sent := [] } := by
  rw [receive, hrx]
  simp only [ok_bind, hd, if_true]
  rfl

def dispatch (env : Env) (nas : NrUeNas) (b : Buffer) : Option Handler → Call Handled
  | none => .ok { handler := none, nas, sent := [] }
  | some h => do
    let (nas, sent) ← h.run env nas b
    return { handler := some h, nas, sent }

theorem receive_of_not_discards (handlers : Byte → Option Handler)
    (hrx : nas.nasSecurityRxProcess env b = .ok (state, nas', b')) (hd : state.discards = false) :
    nas.receive env handlers b = dispatch env nas' b' (handlers (getMsgType b')) := by
  rw [receive, hrx]
  simp only [ok_bind, hd]
  cases handlers (getMsgType b') <;> rfl

theorem dispatch_some_ok {h : Handler} {handled : Handled}
    (hok : dispatch env nas b (some h) = .ok handled) :
    handled.handler = some h ∧ h.run env nas b = .ok (handled.nas, handled.sent) := by
  obtain ⟨⟨nas', sent⟩, hrun, hok⟩ := bind_eq_ok.mp hok
  cases hok
  exact ⟨rfl, hrun⟩

theorem receive_ok {handlers : Byte → Option Handler} {handled : Handled}
    (h : nas.receive env handlers b = .ok handled) :
    ∃ state nas' b', nas.nasSecurityRxProcess env b = .ok (state, nas', b') ∧
      ((handled.nas = nas' ∧ handled.sent = []) ∨
        ∃ handler, state.discards = false ∧ handlers (getMsgType b') = some handler ∧
          handler.run env nas' b' = .ok (handled.nas, handled.sent)) := by
  obtain ⟨⟨state, nas', b'⟩, hrx, _⟩ := bind_eq_ok.mp h
  refine ⟨state, nas', b', hrx, ?_⟩
  cases hd : state.discards with
  | true =>
    rw [receive_of_discards handlers hrx hd] at h
    cases h
    exact .inl ⟨rfl, rfl⟩
  | false =>
    rw [receive_of_not_discards handlers hrx hd] at h
    cases hh : handlers (getMsgType b') with
    | none =>
      rw [hh] at h
      cases h
      exact .inl ⟨rfl, rfl⟩
    | some handler =>
      rw [hh] at h
      exact .inr ⟨handler, rfl, rfl, (dispatch_some_ok h).2⟩

end Receive

end OpenAir.Nas

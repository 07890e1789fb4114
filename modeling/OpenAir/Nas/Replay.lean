import OpenAir.Lib.Run
import OpenAir.Nas.Effects

namespace OpenAir.Nas

open List

structure Acceptance where
  key : Key16
  count : BitVec 32
  deriving DecidableEq

def Event.downlink : Event → Option Buffer
  | .connEstabliCnf b | .downlinkDataInd b => some b
  | _ => none

section Definitions

variable (env : Env)

def NrUeNas.rxAcceptance (nas : NrUeNas) (b : Buffer) : Option Acceptance :=
  match nas.securityContainer, nas.nasSecurityRxProcess env b with
  | some c, .ok (.integrityPassed, _) =>
    some { key := c.integrityKey, count := estimatedCount nas.security.nasCountDl (b.octet 6) }
  | _, _ => none

def NrUeNas.acceptance (nas : NrUeNas) (ev : Event) : Option Acceptance :=
  ev.downlink.bind fun b => nas.rxAcceptance env b

def NrUeNas.commandedKey (nas : NrUeNas) : Event → Option Key16
  | .downlinkDataInd b =>
    match nas.nasSecurityRxProcess env b with
    | .ok (state, nas, b) =>
      if state.discards = false ∧ getMsgType b = fgsSecurityModeCommand then
        some (deriveKnas env 2 (b.octet 10 &&& 0x0f) nas.security.keys.kamf)
      else none
    | .error _ => none
  | _ => none

structure Receptions where
  nas : NrUeNas := {}
  accepted : List Acceptance := []

namespace Receptions

variable (h : Receptions)

def exec (ev : Event) : Option (Receptions × List Uplink) :=
  match h.nas.exec env ev with
  | .ok (nas, sent) =>
    some ({ nas, accepted := h.accepted ++ (h.nas.acceptance env ev).toList }, sent)
  | .error _ => none

def FreshKey (ev : Event) : Prop := ∀ a ∈ h.accepted, h.nas.commandedKey env ev ≠ some a.key

instance (ev : Event) : Decidable (h.FreshKey env ev) :=
  inferInstanceAs (Decidable (∀ a ∈ h.accepted, h.nas.commandedKey env ev ≠ some a.key))

def Increasing : Prop := h.accepted.Pairwise fun a a' => a.key = a'.key → a.count < a'.count

end Receptions

end Definitions

variable {env : Env}

structure Behind (nas : NrUeNas) (accepted : List Acceptance) : Prop where
  limit : nas.security.nasCountDl.toNat ≤ 0x1000000
  below : ∀ c, nas.securityContainer = some c → ∀ a ∈ accepted, a.key = c.integrityKey →
    a.count < nas.security.nasCountDl
  increasing : accepted.Pairwise fun a a' => a.key = a'.key → a.count < a'.count

namespace Behind

variable {nas nas' : NrUeNas} {accepted : List Acceptance}

theorem of_eq (h : Behind nas accepted)
    (hcount : nas'.security.nasCountDl = nas.security.nasCountDl)
    (hcontainer : nas'.securityContainer = nas.securityContainer ∨ nas'.securityContainer = none) :
    Behind nas' accepted := by
  refine ⟨hcount ▸ h.limit, ?_, h.increasing⟩
  intro c hc a ha hkey
  obtain heq | hnone := hcontainer
  · rw [hcount]
    exact h.below c (heq ▸ hc) a ha hkey
  · rw [hnone] at hc
    cases hc

theorem estimated (h : Behind nas accepted) {sqn : Byte}
    (hle : estimatedCount nas.security.nasCountDl sqn ≤ 0xffffff) :
    Behind (nas.setCountDl (estimatedCount nas.security.nasCountDl sqn)) accepted := by
  have hest := le_estimatedCount nas.security.nasCountDl sqn (by have := h.limit; omega)
  refine ⟨?_, ?_, h.increasing⟩
  · exact Nat.le_trans (BitVec.le_def.mp hle) (by decide)
  · intro c hc a ha hkey
    exact BitVec.lt_def.mpr (Nat.lt_of_lt_of_le (BitVec.lt_def.mp (h.below c hc a ha hkey)) hest)

theorem passed (h : Behind nas accepted) {c : Container} (hc : nas.securityContainer = some c)
    {count : BitVec 32}
    (hge : nas.security.nasCountDl.toNat ≤ count.toNat) (hle : count ≤ 0xffffff) :
    Behind (nas.setCountDl (count + 1)) (accepted ++ [{ key := c.integrityKey, count }]) := by
  have hle' : count.toNat ≤ 0xffffff := BitVec.le_def.mp hle
  have hsucc : (count + 1).toNat = count.toNat + 1 := by
    rw [BitVec.toNat_add]
    exact Nat.mod_eq_of_lt (show count.toNat + 1 < 2 ^ 32 by omega)
  have hbelow : ∀ a ∈ accepted, a.key = c.integrityKey → a.count.toNat < count.toNat := by
    intro a ha hkey
    exact Nat.lt_of_lt_of_le (BitVec.lt_def.mp (h.below c hc a ha hkey)) hge
  refine ⟨?_, ?_, ?_⟩
  · show (count + 1).toNat ≤ _
    omega
  · intro c' hc' a ha hkey
    cases Option.some.inj (hc.symm.trans hc')
    show a.count < count + 1
    rw [BitVec.lt_def, hsucc]
    obtain ha | ha := mem_append.mp ha
    · exact Nat.lt_succ_of_lt (hbelow a ha hkey)
    · cases mem_singleton.mp ha
      exact Nat.lt_succ_self _
  · rw [pairwise_append]
    refine ⟨h.increasing, pairwise_singleton .., ?_⟩
    intro a ha a' ha' hkey
    cases mem_singleton.mp ha'
    exact BitVec.lt_def.mpr (hbelow a ha hkey)

variable {b b' : Buffer} {state : SecurityState}

theorem rx (h : Behind nas accepted)
    (hrx : nas.nasSecurityRxProcess env b = .ok (state, nas', b')) :
    Behind nas' (accepted ++ (nas.rxAcceptance env b).toList) ∧
      ∀ a ∈ nas.rxAcceptance env b, a.count < nas'.security.nasCountDl := by
  have hnone : state ≠ .integrityPassed → nas.rxAcceptance env b = none := by
    intro hstate
    unfold NrUeNas.rxAcceptance
    rw [hrx]
    cases nas.securityContainer <;> cases state <;> first | rfl | exact absurd rfl hstate
  cases rxOutcome hrx with
  | untouched hstate =>
    rw [hnone hstate]
    exact ⟨by simpa using h, by simp⟩
  | torn _ =>
    rw [hnone (by decide)]
    refine ⟨⟨Nat.zero_le _, ?_, by simpa using h.increasing⟩, by simp⟩
    intro c hc
    cases hc
  | failed hle =>
    rw [hnone (by decide)]
    exact ⟨by simpa using h.estimated hle, by simp⟩
  | passed c _ hc hle =>
    have hsome : nas.rxAcceptance env b = some
        { key := c.integrityKey, count := estimatedCount nas.security.nasCountDl (b.octet 6) } := by
      unfold NrUeNas.rxAcceptance
      rw [hrx, hc]
    have hge := le_estimatedCount nas.security.nasCountDl (b.octet 6) (by have := h.limit; omega)
    have hb := h.passed hc hge hle
    rw [hsome]
    refine ⟨hb, ?_⟩
    rintro a ⟨⟩
    exact hb.below _ hc _ (mem_append_right _ (mem_singleton_self _)) rfl

theorem activates (h : Behind nas accepted) {u : Uplink} {c : Container}
    (ha : Activates env nas nas' b u c)
    (hfresh : ∀ a ∈ accepted, a.key = c.integrityKey → a.count < nas.security.nasCountDl) :
    Behind nas' accepted := by
  refine ⟨ha.countDl ▸ h.limit, ?_, h.increasing⟩
  intro c' hc' a hmem hkey
  cases Option.some.inj (ha.container.symm.trans hc')
  rw [ha.countDl]
  exact hfresh a hmem hkey

theorem handler (h : Behind nas accepted) {handler : Handler} {sent : List Uplink}
    (hfresh : handler = .securityModeCommand → ∀ a ∈ accepted,
      a.key = deriveKnas env 2 (b.octet 10 &&& 0x0f) nas.security.keys.kamf →
      a.count < nas.security.nasCountDl)
    (hrun : handler.run env nas b = .ok (nas', sent)) : Behind nas' accepted := by
  by_cases hauth : handler = .authenticationRequest
  · subst hauth
    obtain ⟨hcontainer, _, hdl, _⟩ := handleFgmmAuthenticationRequest_kept (Except.ok.inj hrun)
    exact h.of_eq hdl (.inl hcontainer)
  by_cases hsmc : handler = .securityModeCommand
  · subst hsmc
    obtain hr | ⟨u, c, _, ha⟩ := handleSecurityModeCommand_ok hrun
    · exact h.of_eq hr.countDl hr.container
    · exact h.activates ha fun a hmem hkey => hfresh rfl a hmem (hkey.trans ha.integrityKey)
  · have he := Handler.run_effect hauth hsmc hrun
    exact h.of_eq he.countDl (.inl he.container)

end Behind

section Steps

variable {nas nas' : NrUeNas} {sent : List Uplink}

theorem initiateServiceRequest_kept {moUlData : Bool}
    (h : nas.initiateServiceRequest env moUlData = .ok (nas', sent)) :
    nas'.securityContainer = nas.securityContainer ∧
      nas'.security.nasCountDl = nas.security.nasCountDl := by
  unfold NrUeNas.initiateServiceRequest at h
  split at h
  · cases h
    exact ⟨rfl, rfl⟩
  · obtain ⟨⟨nas₁, u⟩, h₁, h⟩ := bind_eq_ok.mp h
    cases h
    obtain ⟨hs, _⟩ | ⟨hp, _⟩ := generateServiceRequest_ok h₁
    · exact ⟨hs.container, hs.countDl⟩
    · exact ⟨hp.container, hp.countDl⟩

theorem exec_cases {ev : Event} (hev : ev.downlink = none)
    (h : nas.exec env ev = .ok (nas', sent)) :
    Effect env nas nas' sent ∨ (ev = .pagingInd true ∨ ev = .moUlDataInd) ∧
      ∃ moUlData, nas.initiateServiceRequest env moUlData = .ok (nas', sent) := by
  cases ev with
  | registrationRequest => exact .inl (generateRegistrationRequest_effect h)
  | pagingInd connectionEstablish =>
    cases connectionEstablish with
    | true => exact .inr ⟨.inl rfl, _, h⟩
    | false =>
      cases h
      exact .inl (.refl nas)
  | moUlDataInd => exact .inr ⟨.inr rfl, _, h⟩
  | pduSessionReq req =>
    obtain ⟨⟨nas₁, u⟩, h₁, h⟩ := bind_eq_ok.mp h
    cases h
    exact .inl (protectWithContainer_effect rfl rfl h₁)
  | connEstablishInd =>
    cases h
    exact .inl (.keeps ⟨rfl, rfl, rfl, rfl⟩ (by simp))
  | connEstabliCnf b => cases hev
  | connReleaseInd =>
    cases h
    have ha := abortServiceRequest_unchanged nas
    exact .inl (.keeps ⟨ha.container, ha.keys, ha.countUl, ha.countDl⟩ (by simp))
  | deregistrationReq detach => exact .inl (deregistrationReq_effect h)
  | downlinkDataInd b => cases hev

theorem exec_kept {ev : Event} (hev : ev.downlink = none) (h : nas.exec env ev = .ok (nas', sent)) :
    nas'.securityContainer = nas.securityContainer ∧
      nas'.security.nasCountDl = nas.security.nasCountDl := by
  obtain he | ⟨-, moUlData, hreq⟩ := exec_cases hev h
  · exact ⟨he.container, he.countDl⟩
  · exact initiateServiceRequest_kept hreq

theorem Handler.ofConnEstabliCnf_ne {t : Byte} {handler : Handler}
    (h : Handler.ofConnEstabliCnf t = some handler) :
    handler ≠ .securityModeCommand ∧ handler ≠ .authenticationRequest := by
  unfold Handler.ofConnEstabliCnf at h
  split_ifs at h <;> cases h <;> decide

variable {h h' : Receptions} {ev : Event}

theorem receive_behind {handlers : Byte → Option Handler} {b : Buffer} {handled : Handled}
    {accepted : List Acceptance}
    (hb : Behind nas accepted) (hrec : nas.receive env handlers b = .ok handled)
    (hfresh : ∀ state nas' b', nas.nasSecurityRxProcess env b = .ok (state, nas', b') →
      state.discards = false →
      handlers (getMsgType b') = some .securityModeCommand → ∀ a ∈ accepted,
        a.key ≠ deriveKnas env 2 (b'.octet 10 &&& 0x0f) nas'.security.keys.kamf) :
    Behind handled.nas (accepted ++ (nas.rxAcceptance env b).toList) := by
  obtain ⟨state, nas', b', hrx, h⟩ := receive_ok hrec
  obtain ⟨hb', hnew⟩ := hb.rx hrx
  obtain ⟨hnas, _⟩ | ⟨handler, hd, hhandler, hrun⟩ := h
  · rwa [hnas]
  · refine hb'.handler ?_ hrun
    rintro rfl a ha hkey
    obtain ha | ha := mem_append.mp ha
    · exact absurd hkey (hfresh state nas' b' hrx hd hhandler a ha)
    · exact hnew a (Option.mem_toList.mp ha)

theorem exec_behind (hb : Behind h.nas h.accepted) (hfresh : h.FreshKey env ev)
    (hexec : h.exec env ev = some (h', sent)) : Behind h'.nas h'.accepted := by
  unfold Receptions.exec at hexec
  split at hexec
  · next nas sent hok =>
    cases hexec
    cases hev : ev.downlink with
    | none =>
      obtain ⟨hcontainer, hcount⟩ := exec_kept hev hok
      simpa [NrUeNas.acceptance, hev] using hb.of_eq hcount (.inl hcontainer)
    | some b =>
      cases ev with
      | connEstabliCnf b =>
        cases hev
        obtain ⟨handled, hrec, hok⟩ := bind_eq_ok.mp hok
        cases hok
        refine receive_behind hb hrec ?_
        intro state nas' b' _ _ hhandler
        exact absurd rfl (Handler.ofConnEstabliCnf_ne hhandler).1
      | downlinkDataInd b =>
        cases hev
        obtain ⟨handled, hrec, hok⟩ := bind_eq_ok.mp hok
        cases hok
        refine receive_behind hb hrec ?_
        intro state nas' b' hrx hd hhandler a ha hkey
        refine hfresh a ha ?_
        have hsmc : state.discards = false ∧ getMsgType b' = fgsSecurityModeCommand :=
          ⟨hd, Handler.msgType_of_ofMsgType hhandler⟩
        simp only [NrUeNas.commandedKey, hrx, if_pos hsmc, hkey]
      | _ => cases hev
  · cases hexec

/-- In every run in which each Security Mode Command that is handled brings a key under which no
message was accepted before, the COUNTs of the accepted messages go up under each key. -/
theorem accepted_increasing {labels : List (Event × List Uplink)}
    (hrun : Run (fun h l h' => h.exec env l.1 = some (h', l.2) ∧ h.FreshKey env l.1) {} labels h) :
    h.Increasing := by
  have hinit : Behind ({} : NrUeNas) [] := ⟨by decide, by simp, .nil⟩
  refine (Run.invariant (fun h => Behind h.nas h.accepted) hinit ?_ hrun).increasing
  intro h l h' hb hstep
  exact exec_behind hb hstep.2 hstep.1

end Steps

def countingEnv : Env :=
  { Env.simple (fun key cipher => #v[cipher.count.setWidth 8, key[0], 0, 0])
      fun key s => .replicate 32 (key.headD 0 + s.headD 0) with
    f2345 := fun rand => { res := .replicate 8 0, ck := rand, ik := rand } }

def authenticationRequest (ksi rand : Byte) : Buffer where
  data := [0x7e, 0, 0x56, ksi, 2, 0, 0, 0x21] ++ .replicate 16 rand ++ [0x20, 0x10] ++
    .replicate 16 0xbb
  behind _ := 0

def securityModeCommand (key : Byte) : Buffer where
  data := [0x7e, 3, 0, key, 0, 0, 0, 0x7e, 0, 0x5d, 0x02, 0, 2, 0xf0, 0xf0]
  behind _ := 0

def configurationUpdate (key sqn : Byte) : Buffer where
  data := [0x7e, 2, sqn, key, 0, 0, sqn, 0x7e, 0, 0x54]
  behind _ := 0

def Receptions.trace (r : Receptions × List (Event × List Uplink)) : List (List Byte × BitVec 32) :=
  r.1.accepted.map fun a => (a.key.toList, a.count)

theorem not_forall_accepted_increasing :
    ¬∀ (env : Env) (labels : List (Event × List Uplink)) (h : Receptions),
      Run (fun h l h' => h.exec env l.1 = some (h', l.2)) {} labels h → h.Increasing := by
  intro hall
  have hexec : (execList (Receptions.exec countingEnv) (fun _ _ => true) {}
      [.downlinkDataInd (authenticationRequest 0 0), .downlinkDataInd (securityModeCommand 0xac),
        .downlinkDataInd (configurationUpdate 0xac 1), .downlinkDataInd (securityModeCommand 0xac),
        .downlinkDataInd (configurationUpdate 0xac 1)]).map Receptions.trace =
      some [(.replicate 16 0xac, 1), (.replicate 16 0xac, 1)] := by
    decide
  obtain ⟨⟨h, labels⟩, hrun, htrace⟩ := Option.map_eq_some_iff.mp hexec
  have hinc := hall countingEnv labels h ((execList_run hrun).mono fun _ _ _ hs => hs.1)
  obtain ⟨a, l, haccepted, ha, htrace⟩ := map_eq_cons_iff.mp htrace
  obtain ⟨a', l', rfl, ha', _⟩ := map_eq_cons_iff.mp htrace
  have hkey : a.key = a'.key := Vector.toList_inj.mp (congrArg Prod.fst (ha.trans ha'.symm))
  have hcount : a.count = a'.count := congrArg Prod.snd (ha.trans ha'.symm)
  rw [Receptions.Increasing, haccepted] at hinc
  have hlt := rel_of_pairwise_cons hinc mem_cons_self hkey
  rw [hcount] at hlt
  exact BitVec.lt_irrefl _ hlt

theorem accepted_increasing_twice :
    ∃ (labels : List (Event × List Uplink)) (h : Receptions),
      Run (fun h l h' => h.exec countingEnv l.1 = some (h', l.2) ∧ h.FreshKey countingEnv l.1)
        {} labels h ∧
      h.accepted.map (fun a => (a.key.toList, a.count)) =
        [(.replicate 16 0xac, 1), (.replicate 16 0xac, 2)] ∧ h.Increasing := by
  have hexec :
      (execList (Receptions.exec countingEnv) (fun h ev => decide (h.FreshKey countingEnv ev)) {}
      [.downlinkDataInd (authenticationRequest 0 0), .downlinkDataInd (securityModeCommand 0xac),
        .downlinkDataInd (configurationUpdate 0xac 1),
        .downlinkDataInd (configurationUpdate 0xac 2)]).map Receptions.trace =
      some [(.replicate 16 0xac, 1), (.replicate 16 0xac, 2)] := by
    decide
  obtain ⟨⟨h, labels⟩, hexec, htrace⟩ := Option.map_eq_some_iff.mp hexec
  have hrun :
      Run (fun h l h' => h.exec countingEnv l.1 = some (h', l.2) ∧ h.FreshKey countingEnv l.1)
        {} labels h :=
    (execList_run hexec).mono fun _ _ _ hs => ⟨hs.1, of_decide_eq_true hs.2⟩
  exact ⟨labels, h, hrun, htrace, accepted_increasing hrun⟩

end OpenAir.Nas

import Mathlib.Data.List.Nodup
import OpenAir.Nas.Replay

namespace OpenAir.Nas

open List

structure Transmission where
  kamf : Key32
  uplink : Uplink
  protection : Protection
  deriving DecidableEq

namespace Transmission

variable (m : Transmission)

def count : BitVec 32 := m.protection.mac.count

def keystream : Key16 × BitVec 32 := (m.protection.container.cipheringKey, m.count)

structure WellProtected (env : Env) : Prop where
  sequence : m.uplink.data[6]? = some (m.count.setWidth 8)
  mac : (m.uplink.data.drop 2).take 4 = (m.protection.container.mac env m.protection.mac).toList
  message : m.protection.mac.message = m.uplink.data.drop 6
  ciphers : ∀ cipher ∈ m.protection.ciphers, cipher.count = m.count
  body : m.uplink.data.drop 7 =
    if m.uplink.header.ciphered then
      m.protection.container.encrypt env (uplinkCipher m.count (env.mmMsgEncode m.uplink.message))
    else env.mmMsgEncode m.uplink.message

end Transmission

structure Transmissions where
  nas : NrUeNas := {}
  kamf : Key32 := .replicate 32 0
  sent : List Transmission := []

def transmitted (kamf : Key32) (sent : List Uplink) : List Transmission :=
  sent.filterMap fun uplink => uplink.protection.map fun protection => { kamf, uplink, protection }

def Event.requestsService : Event → Bool
  | .pagingInd connectionEstablish => connectionEstablish
  | .moUlDataInd => true
  | _ => false

def NrUeNas.derivesKeys (env : Env) (nas : NrUeNas) : Event → Bool
  | .downlinkDataInd b =>
    match nas.nasSecurityRxProcess env b with
    | .ok (state, nas, b) =>
      !state.discards && getMsgType b = fgsAuthenticationRequest &&
        nas.ksi ≠ some ((b.octet mmHeaderOctets).setWidth 3)
    | .error _ => false
  | _ => false

def kamfFor (nas : NrUeNas) (kamf : Key32) (sent : List Uplink) : Key32 :=
  if sent.any fun u => u.message.isSecurityModeComplete then nas.security.keys.kamf else kamf

namespace Transmissions

variable (env : Env) (h : Transmissions)

def exec (ev : Event) : Option (Transmissions × List Uplink) :=
  match h.nas.exec env ev with
  | .ok (nas, sent) =>
    let kamf := kamfFor h.nas h.kamf sent
    some ({ nas, kamf, sent := h.sent ++ transmitted kamf sent }, sent)
  | .error _ => none

/-- Keys are derived before the first protected message only, and the COUNT of a Service Request is
not above the largest one. -/
def Orderly (ev : Event) : Prop :=
  (h.nas.derivesKeys env ev = true → h.nas.security.nasCountUl = 0) ∧
    (ev.requestsService = true → h.nas.security.nasCountUl ≤ 0xffffff)

instance (ev : Event) : Decidable (h.Orderly env ev) :=
  inferInstanceAs (Decidable ((_ → _) ∧ (_ → _)))

def under (kamf : Key32) : List Transmission := h.sent.filter (·.kamf = kamf)

structure WellSent : Prop where
  messages : ∀ m ∈ h.sent, m.WellProtected env
  counts : ∀ kamf, (h.under kamf).map (·.count) = (List.range (h.under kamf).length).map (.ofNat 32)
  keystreams : ((h.sent.filter fun m => m.protection.ciphers ≠ []).map (·.keystream)).Nodup

end Transmissions

variable {env : Env}

theorem ProtectedAt.wellProtected {c : Container} {count : BitVec 32} {u : Uplink}
    (h : ProtectedAt env c count u)
    (kamf : Key32) : ∃ p, u.protection = some p ∧ p.container = c ∧ p.mac.count = count ∧
      Transmission.WellProtected { kamf, uplink := u, protection := p } env := by
  obtain ⟨p, hp, rfl, hmac, hciphers⟩ := h.protection
  have hcount : p.mac.count = count := by rw [hmac]; rfl
  refine ⟨p, hp, rfl, hcount, ?_, ?_, ?_, ?_, ?_⟩
  · rw [Transmission.count, hcount]
    exact h.sequence
  · rw [hmac]
    exact h.mac
  · rw [hmac]
    rfl
  · rw [Transmission.count, hcount]
    exact hciphers
  · rw [Transmission.count, hcount]
    exact h.body

structure Counted (env : Env) (nas : NrUeNas) (kamf : Key32) (sent : List Transmission) : Prop where
  counts : sent.map (·.count) = (List.range nas.security.nasCountUl.toNat).map (.ofNat 32)
  limit : nas.security.nasCountUl.toNat ≤ 0x1000000
  same : ∀ m ∈ sent, m.kamf = nas.security.keys.kamf
  active : nas.securityContainer ≠ none → 0 < nas.security.nasCountUl.toNat
  current : 0 < nas.security.nasCountUl.toNat → kamf = nas.security.keys.kamf
  messages : ∀ m ∈ sent, m.WellProtected env

namespace Counted

variable {nas nas' : NrUeNas} {kamf : Key32} {sent : List Transmission}

theorem of_eq (h : Counted env nas kamf sent)
    (hkamf : nas'.security.keys.kamf = nas.security.keys.kamf)
    (hcount : nas'.security.nasCountUl = nas.security.nasCountUl)
    (hcontainer : nas'.securityContainer = nas.securityContainer ∨ nas'.securityContainer = none) :
    Counted env nas' kamf sent := by
  refine ⟨hcount ▸ h.counts, hcount ▸ h.limit, hkamf ▸ h.same, ?_, ?_, h.messages⟩
  · intro hne
    rw [hcount]
    obtain heq | hnone := hcontainer
    · exact h.active (heq ▸ hne)
    · exact absurd hnone hne
  · rw [hcount, hkamf]
    exact h.current

theorem of_zero (h : Counted env nas kamf sent) (hzero : nas.security.nasCountUl = 0)
    (hcount : nas'.security.nasCountUl = nas.security.nasCountUl)
    (hcontainer : nas'.securityContainer = nas.securityContainer) (kamf' : Key32) :
    Counted env nas' kamf' sent := by
  have hzero' : nas'.security.nasCountUl.toNat = 0 := by rw [hcount, hzero]; rfl
  have hnil : sent = [] := by
    have hcounts := h.counts
    rw [hzero] at hcounts
    exact map_eq_nil_iff.mp hcounts
  subst hnil
  refine ⟨by simp [hzero'], by omega, by simp, ?_, by omega, by simp⟩
  intro hne
  have := h.active (hcontainer ▸ hne)
  rw [hzero] at this
  exact absurd this (by decide)

theorem snoc (h : Counted env nas kamf sent) {c : Container} {u : Uplink}
    (hu : ProtectedAt env c nas.security.nasCountUl u) (hle : nas.security.nasCountUl ≤ 0xffffff)
    (hkamf : nas'.security.keys.kamf = nas.security.keys.kamf)
    (hcount : nas'.security.nasCountUl = nas.security.nasCountUl + 1) :
    Counted env nas' nas.security.keys.kamf (sent ++ transmitted nas.security.keys.kamf [u]) := by
  obtain ⟨p, hp, _, hmac, hwell⟩ := hu.wellProtected nas.security.keys.kamf
  have hle' : nas.security.nasCountUl.toNat ≤ 0xffffff := BitVec.le_def.mp hle
  have hsucc : nas'.security.nasCountUl.toNat = nas.security.nasCountUl.toNat + 1 := by
    rw [hcount, BitVec.toNat_add]
    exact Nat.mod_eq_of_lt (show nas.security.nasCountUl.toNat + 1 < 2 ^ 32 by omega)
  have hnew : transmitted nas.security.keys.kamf [u] =
      [{ kamf := nas.security.keys.kamf, uplink := u, protection := p }] := by
    simp [transmitted, hp]
  rw [hnew]
  refine ⟨?_, by omega, ?_, by omega, ?_, ?_⟩
  · rw [hsucc, range_succ, map_append, map_append, h.counts]
    simp [Transmission.count, hmac]
  · intro m hm
    rw [hkamf]
    obtain hm | hm := mem_append.mp hm
    · exact h.same m hm
    · rw [mem_singleton.mp hm]
  · intro _
    exact hkamf.symm
  · intro m hm
    obtain hm | hm := mem_append.mp hm
    · exact h.messages m hm
    · rw [mem_singleton.mp hm]
      exact hwell

theorem kamfFor (h : Counted env nas kamf sent) (us : List Uplink) :
    Counted env nas (Nas.kamfFor nas kamf us) sent := by
  refine ⟨h.counts, h.limit, h.same, h.active, ?_, h.messages⟩
  intro hpos
  unfold Nas.kamfFor
  split
  · rfl
  · exact h.current hpos

theorem unprotected {us : List Uplink} (h : Counted env nas' kamf sent)
    (hus : ∀ u ∈ us, u.protection = none) :
    Counted env nas' kamf (sent ++ transmitted kamf us) := by
  have hnil : transmitted kamf us = [] := by
    rw [transmitted, filterMap_eq_nil_iff]
    intro u hu
    rw [hus u hu]
    rfl
  rwa [hnil, append_nil]

theorem effect {us : List Uplink} (h : Counted env nas kamf sent) (he : Effect env nas nas' us) :
    Counted env nas' (Nas.kamfFor nas kamf us)
      (sent ++ transmitted (Nas.kamfFor nas kamf us) us) := by
  cases he with
  | keeps hs hus =>
    exact ((h.kamfFor us).of_eq (by rw [hs.keys]) hs.countUl (.inl hs.container)).unprotected hus
  | @protects u hp hmessage hle =>
    obtain ⟨c, hc, hu⟩ := hp.protectedAt
    have hkamf : kamf = nas.security.keys.kamf := h.current (h.active (by simp [hc]))
    have hfor : Nas.kamfFor nas kamf [u] = nas.security.keys.kamf := by
      rw [Nas.kamfFor, any_cons, hmessage, any_nil]
      exact hkamf
    rw [hfor]
    exact h.snoc hu hle hp.kamf hp.countUl

variable {b b' : Buffer} {state : SecurityState}

theorem rx (h : Counted env nas kamf sent)
    (hrx : nas.nasSecurityRxProcess env b = .ok (state, nas', b')) :
    Counted env nas' kamf sent ∧ nas'.security.keys.kamf = nas.security.keys.kamf ∧
      nas'.security.nasCountUl = nas.security.nasCountUl := by
  cases rxOutcome hrx with
  | untouched _ => exact ⟨h, rfl, rfl⟩
  | torn _ => exact ⟨h.of_eq rfl rfl (.inr rfl), rfl, rfl⟩
  | failed _ => exact ⟨h.of_eq rfl rfl (.inl rfl), rfl, rfl⟩
  | passed _ _ _ _ => exact ⟨h.of_eq rfl rfl (.inl rfl), rfl, rfl⟩

theorem handler {handler : Handler} {us : List Uplink} (h : Counted env nas kamf sent)
    (hauth : handler = .authenticationRequest →
      (mmHeaderOctets ≤ b.len ∧ nas.KsiInUse b) ∨ nas.security.nasCountUl = 0)
    (hrun : handler.run env nas b = .ok (nas', us)) :
    Counted env nas' (Nas.kamfFor nas kamf us)
      (sent ++ transmitted (Nas.kamfFor nas kamf us) us) := by
  by_cases ha : handler = .authenticationRequest
  · subst ha
    obtain ⟨hcontainer, hul, _, hus⟩ := handleFgmmAuthenticationRequest_kept (Except.ok.inj hrun)
    obtain ⟨hlen, hksi⟩ | hzero := hauth rfl
    · rw [Handler.run, handleFgmmAuthenticationRequest_of_ksi hlen hksi] at hrun
      cases hrun
      exact (h.kamfFor _).unprotected hus
    · exact (h.of_zero hzero hul hcontainer _).unprotected hus
  by_cases hsmc : handler = .securityModeCommand
  · subst hsmc
    obtain hr | ⟨u, c, rfl, hact⟩ := handleSecurityModeCommand_ok hrun
    · exact ((h.kamfFor us).of_eq hr.kamf hr.countUl hr.container).unprotected hr.unprotected
    · have hfor : Nas.kamfFor nas kamf [u] = nas.security.keys.kamf := by
        rw [Nas.kamfFor, any_cons, hact.message]
        rfl
      rw [hfor]
      exact h.snoc hact.protectedAt hact.limit hact.kamf hact.countUl
  · exact h.effect (Handler.run_effect ha hsmc hrun)

end Counted

section Steps

variable {nas nas' : NrUeNas} {sent : List Uplink} {ev : Event}

theorem le_len_of_getMsgType {b : Buffer} (h : getMsgType b = fgsAuthenticationRequest) :
    mmHeaderOctets ≤ b.len := by
  unfold getMsgType at h
  by_contra hlen
  have hlen₃ : b.len < 3 := Nat.not_le.mp hlen
  split_ifs at h with h₂ h₀ h₁₀ h₉ h₁₇
  all_goals first | exact absurd h (by decide) | omega

theorem initiateServiceRequest_effect {moUlData : Bool} (hle : nas.security.nasCountUl ≤ 0xffffff)
    (h : nas.initiateServiceRequest env moUlData = .ok (nas', sent)) :
    Effect env nas nas' sent := by
  unfold NrUeNas.initiateServiceRequest at h
  split at h
  · cases h
    exact .refl nas
  · obtain ⟨⟨nas₁, u⟩, h₁, h⟩ := bind_eq_ok.mp h
    cases h
    have he : Effect env nas nas₁ [u] := by
      obtain ⟨hs, hu⟩ | ⟨hp, hm⟩ := generateServiceRequest_ok h₁
      · exact .keeps hs (by simpa using hu)
      · exact .protects hp hm hle
    exact he.trans_unchanged ⟨rfl, rfl, rfl, rfl⟩

theorem exec_effect (hev : ev.downlink = none)
    (hle : ev.requestsService → nas.security.nasCountUl ≤ 0xffffff)
    (h : nas.exec env ev = .ok (nas', sent)) : Effect env nas nas' sent := by
  obtain he | ⟨hreq, moUlData, h⟩ := exec_cases hev h
  · exact he
  · refine initiateServiceRequest_effect (hle ?_) h
    rcases hreq with rfl | rfl <;> rfl

theorem receive_counted {handlers : Byte → Option Handler} {b : Buffer} {handled : Handled}
    {kamf : Key32} {xs : List Transmission} (h : Counted env nas kamf xs)
    (hrec : nas.receive env handlers b = .ok handled)
    (hauth : ∀ state nas' b', nas.nasSecurityRxProcess env b = .ok (state, nas', b') →
      state.discards = false → handlers (getMsgType b') = some .authenticationRequest →
        (mmHeaderOctets ≤ b'.len ∧ nas'.KsiInUse b') ∨ nas.security.nasCountUl = 0) :
    Counted env handled.nas (kamfFor nas kamf handled.sent)
      (xs ++ transmitted (kamfFor nas kamf handled.sent) handled.sent) := by
  obtain ⟨state, nas', b', hrx, hhandled⟩ := receive_ok hrec
  obtain ⟨h', hkamf, hul⟩ := h.rx hrx
  have hfor : kamfFor nas kamf handled.sent = kamfFor nas' kamf handled.sent := by
    rw [kamfFor, kamfFor, hkamf]
  rw [hfor]
  obtain ⟨hnas, hsent⟩ | ⟨handler, hd, hhandler, hrun⟩ := hhandled
  · rw [hnas, hsent]
    exact h'.unprotected (by simp)
  · refine h'.handler ?_ hrun
    rintro rfl
    rw [hul]
    exact hauth state nas' b' hrx hd hhandler

variable {h h' : Transmissions}

theorem exec_counted (hc : Counted env h.nas h.kamf h.sent) (hord : h.Orderly env ev)
    (hexec : h.exec env ev = some (h', sent)) : Counted env h'.nas h'.kamf h'.sent := by
  unfold Transmissions.exec at hexec
  split at hexec
  · next nas sent hok =>
    cases hexec
    cases hev : ev.downlink with
    | none => exact hc.effect (exec_effect hev hord.2 hok)
    | some b =>
      cases ev with
      | connEstabliCnf b =>
        obtain ⟨handled, hrec, hok⟩ := bind_eq_ok.mp hok
        cases hok
        refine receive_counted hc hrec ?_
        intro state nas' b' _ _ hhandler
        exact absurd rfl (Handler.ofConnEstabliCnf_ne hhandler).2
      | downlinkDataInd b =>
        obtain ⟨handled, hrec, hok⟩ := bind_eq_ok.mp hok
        cases hok
        refine receive_counted hc hrec ?_
        intro state nas' b' hrx hd hhandler
        have htype := Handler.msgType_of_ofMsgType hhandler
        by_cases hksi : nas'.KsiInUse b'
        · exact .inl ⟨le_len_of_getMsgType htype, hksi⟩
        · refine .inr (hord.1 ?_)
          simp only [NrUeNas.derivesKeys, hrx, hd, htype]
          exact decide_eq_true hksi
      | _ => cases hev
  · cases hexec

theorem under_eq (hc : Counted env h.nas h.kamf h.sent) (kamf : Key32) :
    h.under kamf = h.sent ∨ h.under kamf = [] := by
  by_cases hk : h.nas.security.keys.kamf = kamf
  · refine .inl (filter_eq_self.mpr ?_)
    intro m hm
    exact decide_eq_true ((hc.same m hm).trans hk)
  · refine .inr (filter_eq_nil_iff.mpr ?_)
    intro m hm hm'
    exact hk ((hc.same m hm).symm.trans (of_decide_eq_true hm'))

theorem nodup_counts (hc : Counted env h.nas h.kamf h.sent) : (h.sent.map (·.count)).Nodup := by
  rw [hc.counts]
  refine List.Nodup.map_on ?_ nodup_range
  intro i hi j hj hij
  have hlimit := hc.limit
  have hi' := mem_range.mp hi
  have hj' := mem_range.mp hj
  have hnat := congrArg BitVec.toNat hij
  rwa [BitVec.toNat_ofNat, BitVec.toNat_ofNat, Nat.mod_eq_of_lt (by omega),
    Nat.mod_eq_of_lt (by omega)] at hnat

theorem Counted.wellSent (hc : Counted env h.nas h.kamf h.sent) : h.WellSent env := by
  refine ⟨hc.messages, ?_, ?_⟩
  · intro kamf
    obtain hall | hnone := under_eq hc kamf
    · have hlen : h.sent.length = h.nas.security.nasCountUl.toNat := by
        simpa using congrArg List.length hc.counts
      rw [hall, hlen, hc.counts]
    · rw [hnone]
      rfl
  · have hpairs : ((h.sent.map (·.keystream)).map Prod.snd).Nodup := by
      rw [map_map]
      exact nodup_counts hc
    exact (List.Nodup.of_map _ hpairs).sublist (filter_sublist.map _)

/-- In every run of orderly steps the protected messages are sent as they should be. -/
theorem uplink_wellSent {labels : List (Event × List Uplink)}
    (hrun : Run (fun h l h' => h.exec env l.1 = some (h', l.2) ∧ h.Orderly env l.1) {} labels h) :
    h.WellSent env := by
  have hinit : Counted env ({} : NrUeNas) (.replicate 32 0) [] := by
    refine ⟨rfl, by decide, by simp, ?_, by decide, by simp⟩
    intro hne
    exact absurd rfl hne
  refine (Run.invariant (fun h => Counted env h.nas h.kamf h.sent) hinit ?_ hrun).wellSent
  intro h l h' hc hstep
  exact exec_counted hc hstep.2 hstep.1

end Steps

def Transmissions.trace (r : Transmissions × List (Event × List Uplink)) :
    List (Byte × BitVec 32) :=
  r.1.sent.map fun m => (m.kamf.get 0, m.count)

theorem not_forall_uplink_wellSent :
    ¬∀ (env : Env) (labels : List (Event × List Uplink)) (h : Transmissions),
      Run (fun h l h' => h.exec env l.1 = some (h', l.2)) {} labels h → h.WellSent env := by
  intro hall
  have hexec : (execList (Transmissions.exec countingEnv) (fun _ _ => true) {}
      [.downlinkDataInd (authenticationRequest 0 0), .downlinkDataInd (securityModeCommand 0xac),
        .downlinkDataInd (authenticationRequest 1 0x11),
        .downlinkDataInd (securityModeCommand 0xbd)]).map Transmissions.trace =
      some [(0x43, 0), (0x54, 1)] := by
    decide
  obtain ⟨⟨h, labels⟩, hrun, htrace⟩ := Option.map_eq_some_iff.mp hexec
  have hwell := hall countingEnv labels h ((execList_run hrun).mono fun _ _ _ hs => hs.1)
  obtain ⟨m, l, hsent, hm, htrace⟩ := map_eq_cons_iff.mp htrace
  obtain ⟨m', l', rfl, hm', htrace⟩ := map_eq_cons_iff.mp htrace
  cases map_eq_nil_iff.mp htrace
  have hne : m.kamf ≠ m'.kamf := by
    intro heq
    have hfst : m.kamf.get 0 = 0x43 := congrArg Prod.fst hm
    rw [heq, show m'.kamf.get 0 = 0x54 from congrArg Prod.fst hm'] at hfst
    exact absurd hfst (by decide)
  -- the only message under the second K_AMF has the COUNT 1
  have hunder : h.under m'.kamf = [m'] := by
    have hboth : h.sent = [m, m'] := hsent
    simp [Transmissions.under, hboth, hne]
  have hcounts := hwell.counts m'.kamf
  rw [hunder] at hcounts
  have hcount : m'.count = 0 := by simpa using hcounts
  rw [show m'.count = 1 from congrArg Prod.snd hm'] at hcount
  exact absurd hcount (by decide)

theorem uplink_wellSent_twice :
    ∃ (labels : List (Event × List Uplink)) (h : Transmissions),
      Run (fun h l h' => h.exec countingEnv l.1 = some (h', l.2) ∧ h.Orderly countingEnv l.1)
        {} labels h ∧
      h.sent.map (fun m => (m.kamf.get 0, m.count)) = [(0x43, 0), (0x43, 1)] ∧
      h.WellSent countingEnv := by
  have hexec :
      (execList (Transmissions.exec countingEnv) (fun h ev => decide (h.Orderly countingEnv ev)) {}
      [.downlinkDataInd (authenticationRequest 0 0), .downlinkDataInd (securityModeCommand 0xac),
        .pduSessionReq
          { pdusessionId := 1, pdusessionType := 1, sst := 1, sd := 0, dnn := [] }]).map
        Transmissions.trace =
      some [(0x43, 0), (0x43, 1)] := by
    decide
  obtain ⟨⟨h, labels⟩, hexec, htrace⟩ := Option.map_eq_some_iff.mp hexec
  have hrun :
      Run (fun h l h' => h.exec countingEnv l.1 = some (h', l.2) ∧ h.Orderly countingEnv l.1)
        {} labels h :=
    (execList_run hexec).mono fun _ _ _ hs => ⟨hs.1, of_decide_eq_true hs.2⟩
  exact ⟨labels, h, hrun, htrace, uplink_wellSent hrun⟩

end OpenAir.Nas

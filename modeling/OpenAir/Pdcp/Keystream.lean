import OpenAir.Pdcp.Delivery

namespace OpenAir.Pdcp

def keystreams (ls : List (Op × Output)) : List Keystream := ls.flatMap (·.2.keystream.toList)

structure History where
  used : List Key := []
  rewound : Bool := false

variable {sec : Security} {c : Config} {e e' e₀ : Entity} {h : History} {ls : List (Op × Output)}
  {l : Op × Output}

namespace Entity

def ciphers (e : Entity) : Bool := e.hasCiphering && !e.entitySuspended

def lowersTxNext (c : Config) (e : Entity) : Op → Bool
  | .processSdu _ _ => !e.entitySuspended && e.txNext = 0xffffffff
  | .suspend => true
  | .reestablish _ => c.type ≠ .drbAm
  | .setCountUl count snSize => composeCount count snSize < e.txNext
  | _ => false

def newKey : Op → Option Key
  | .setSecurity p => if p.cipheringAlgorithm = -1 ∨ p.cipheringAlgorithm = 0 then none
      else some p.cipheringKey
  | .reestablish p => if p.cipheringAlgorithm = -1 ∨ p.cipheringAlgorithm = 0 then none
      else some p.cipheringKey
  | _ => none

end Entity

namespace History

/-- A call that sets a key finds the current one or one that has not been used, and no SDU is
ciphered with a key with which `tx_next` has been lowered. -/
def allows (h : History) (e : Entity) (op : Op) : Bool :=
  (Entity.newKey op).all (fun k => k = e.securityContext.key || k ∉ h.used) &&
    match op with
    | .processSdu _ _ => !(e.ciphers && h.rewound)
    | _ => true

def usedNext (h : History) (e : Entity) : Op → List Key
  | .processSdu _ _ => if e.ciphers then e.securityContext.key :: h.used else h.used
  | _ => h.used

def next (c : Config) (h : History) (e : Entity) (op : Op) : History :=
  { used := h.usedNext e op
    rewound :=
      if (Entity.newKey op).any fun k => k ∉ h.used then false
      else h.rewound || (e.lowersTxNext c op && e.securityContext.key ∈ h.usedNext e op) }

end History

def GuardedStep (sec : Security) (c : Config) (s : Entity × History) (l : Op × Output)
    (t : Entity × History) : Prop :=
  Step sec c s.1 l t.1 ∧ s.2.allows s.1 l.1 = true ∧ t.2 = s.2.next c s.1 l.1

variable {p : SecurityKeysAndAlgos}

theorem setSecurity_key (hs : e.setSecurity p = some e') :
    e'.securityContext.key = ((Entity.newKey (.setSecurity p)).getD e.securityContext.key) ∧
      e'.txNext = e.txNext := by
  obtain ⟨_, _, _, rfl⟩ := Entity.setSecurity_eq hs
  refine ⟨?_, rfl⟩
  unfold Entity.newKey
  dsimp only
  split <;> rfl

theorem reestablished_key (hs : e.reestablished p = some e') :
    e'.securityContext.key = ((Entity.newKey (.setSecurity p)).getD e.securityContext.key) ∧
      e'.txNext = e.txNext := by
  obtain ⟨e₁, hset, rfl⟩ := Option.map_eq_some_iff.mp hs
  have hkey := setSecurity_key hset
  exact hkey

theorem recvPdu_txNext (e : Entity) (pdu : List Byte) :
    (e.recvPdu sec c pdu).1.txNext = e.txNext := by
  rw [Entity.recvPdu_eq]
  cases e.accepted sec c pdu with
  | none => rfl
  | some s =>
    dsimp only
    unfold Entity.startTReordering Entity.stopTReordering Entity.storeDeliver
    split_ifs <;> rfl

theorem setTime_txNext (c : Config) (e : Entity) (now : UInt64) :
    (e.setTime c now).1.txNext = e.txNext := by
  rcases Entity.setTime_cases c e now with heq | ⟨-, -, heq⟩ <;> rw [heq]
  unfold Entity.expire Entity.startTReordering
  split <;> rfl

structure TxStep (c : Config) (e : Entity) (l : Op × Output) (e' : Entity) : Prop where
  key : e'.securityContext.key = (Entity.newKey l.1).getD e.securityContext.key
  txNext : e.lowersTxNext c l.1 = false →
    e.txNext ≤ e'.txNext ∧ (l.2.keystream ≠ none → e.txNext < e'.txNext)
  keystream : ∀ k, l.2.keystream = some k →
    (∃ sdu pduMaxSize, l.1 = .processSdu sdu pduMaxSize) ∧ e.ciphers = true ∧
      k = ⟨e.securityContext.key, c.rbId, e.txNext, c.txDirection⟩

theorem TxStep.of_none
    (hkey : e'.securityContext.key = (Entity.newKey l.1).getD e.securityContext.key)
    (hnext : e.lowersTxNext c l.1 = false → e.txNext ≤ e'.txNext) (hout : l.2.keystream = none) :
    TxStep c e l e' :=
  ⟨hkey, fun hl => ⟨hnext hl, fun hne => absurd hout hne⟩, fun k hk => by simp [hout] at hk⟩

theorem txStep_reestablish {r : Entity × List Sdu} (hr : e.reestablish c p = some r) :
    TxStep c e (.reestablish p, { delivered := r.2 }) r.1 := by
  unfold Entity.reestablish at hr
  split at hr
  · obtain ⟨e₁, hre, rfl⟩ := Option.map_eq_some_iff.mp hr
    obtain ⟨hk, hnext⟩ := reestablished_key hre
    exact .of_none hk (fun _ => hnext ▸ UInt32.le_refl _) rfl
  · next htype =>
    obtain ⟨e₁, hre, rfl⟩ := Option.map_eq_some_iff.mp hr
    refine .of_none ?_ (fun hl => by simp [Entity.lowersTxNext, htype] at hl) rfl
    have hk := (reestablished_key hre).1
    dsimp only at hk
    split at hk <;> exact hk
  · next htype =>
    obtain ⟨e₁, hre, rfl⟩ := Option.map_eq_some_iff.mp hr
    exact .of_none (reestablished_key hre).1 (fun hl => by simp [Entity.lowersTxNext, htype] at hl)
      rfl

theorem txStep_processSdu {sdu : List Byte} {pduMaxSize : Nat} {r : Entity × Option (List Byte)}
    (hr : e.processSdu sec c sdu pduMaxSize = some r) :
    TxStep c e (.processSdu sdu pduMaxSize,
      { pdu := r.2, keystream := if r.2.isSome then e.keystream c else none }) r.1 := by
  unfold Entity.processSdu at hr
  split at hr
  · cases hr
  · split at hr
    · cases hr
      exact .of_none rfl (fun _ => UInt32.le_refl _) rfl
    · next hactive =>
      cases hr
      have hlt (hl : e.lowersTxNext c (.processSdu sdu pduMaxSize) = false) :
          e.txNext < e.txNext + 1 := by
        simp only [Entity.lowersTxNext, hactive, Bool.not_false, Bool.true_and,
          decide_eq_false_iff_not] at hl
        grind
      refine ⟨rfl, fun hl => ⟨UInt32.le_of_lt (hlt hl), fun _ => hlt hl⟩, fun k hk => ?_⟩
      simp only [Option.isSome_some, if_true, Entity.keystream] at hk
      split at hk
      · next hcipher =>
        cases hk
        exact ⟨⟨_, _, rfl⟩, by simp [Entity.ciphers, hcipher, hactive], rfl⟩
      · cases hk

theorem txStep (hs : Step sec c e l e') : TxStep c e l e' := by
  obtain ⟨op, out⟩ := l
  cases op with
  | recvPdu pdu =>
    cases hs
    refine .of_none ?_ (fun _ => recvPdu_txNext e pdu ▸ UInt32.le_refl _) rfl
    rw [(Entity.sameSecurity_recvPdu e pdu).2.2.1]
    rfl
  | setTime now =>
    cases hs
    refine .of_none ?_ (fun _ => setTime_txNext c e now ▸ UInt32.le_refl _) rfl
    rw [(Entity.sameSecurity_setTime e now).2.2.1]
    rfl
  | processSdu sdu pduMaxSize =>
    obtain ⟨r, hr, heq⟩ := Option.map_eq_some_iff.mp hs
    cases heq
    exact txStep_processSdu hr
  | setSecurity parameters =>
    obtain ⟨e₁, hset, heq⟩ := Option.map_eq_some_iff.mp hs
    cases heq
    obtain ⟨hkey, hnext⟩ := setSecurity_key hset
    exact .of_none hkey (fun _ => hnext ▸ UInt32.le_refl _) rfl
  | suspend =>
    cases hs
    refine .of_none ?_ nofun rfl
    unfold Entity.suspend
    dsimp only
    split <;> rfl
  | reestablish parameters =>
    obtain ⟨r, hr, heq⟩ := Option.map_eq_some_iff.mp hs
    cases heq
    exact txStep_reestablish hr
  | setCountUl count snSize =>
    cases hs
    refine .of_none rfl (fun hl => ?_) rfl
    change e.txNext ≤ Entity.composeCount count snSize
    simpa [Entity.lowersTxNext] using hl
  | setCountDl count snSize =>
    cases hs
    exact .of_none rfl (fun _ => UInt32.le_refl _) rfl
  | release =>
    cases hs
    exact .of_none rfl (fun _ => UInt32.le_refl _) rfl

structure Fresh (ls : List (Op × Output)) (s : Entity × History) : Prop where
  nodup : (keystreams ls).Nodup
  used : ∀ k ∈ keystreams ls, k.key ∈ s.2.used
  below : s.2.rewound = false → ∀ k ∈ keystreams ls, k.key = s.1.securityContext.key →
    k.count < s.1.txNext

theorem keystreams_append (ls : List (Op × Output)) (l : Op × Output) :
    keystreams (ls ++ [l]) = keystreams ls ++ l.2.keystream.toList := by
  simp [keystreams]

theorem TxStep.mem_keystream (ht : TxStep c e l e') {k : Keystream}
    (hk : k ∈ l.2.keystream.toList) :
    e.ciphers ∧ k.key = e.securityContext.key ∧ k.count = e.txNext ∧
      Entity.newKey l.1 = none ∧ k.key ∈ h.usedNext e l.1 := by
  obtain ⟨⟨sdu, pduMaxSize, hop⟩, hc, rfl⟩ := ht.keystream k (Option.mem_toList.mp hk)
  rw [hop]
  exact ⟨hc, rfl, rfl, rfl, by simp [History.usedNext, hc]⟩

theorem subset_usedNext (h : History) (e : Entity) (op : Op) :
    ∀ k ∈ h.used, k ∈ h.usedNext e op := by
  intro k hk
  unfold History.usedNext
  split
  · split
    · exact List.mem_cons_of_mem _ hk
    · exact hk
  · exact hk

namespace Fresh

variable (hf : Fresh ls (e, h)) (ht : TxStep c e l e') (ha : h.allows e l.1)
include hf ht

theorem used_step : ∀ k ∈ keystreams (ls ++ [l]), k.key ∈ h.usedNext e l.1 := by
  intro k hk
  rw [keystreams_append] at hk
  rcases List.mem_append.mp hk with hk | hk
  · exact subset_usedNext h e l.1 _ (hf.used k hk)
  · exact (ht.mem_keystream hk).2.2.2.2

include ha

theorem nodup_step : (keystreams (ls ++ [l])).Nodup := by
  rw [keystreams_append]
  refine List.nodup_append.mpr ⟨hf.nodup, by cases l.2.keystream <;> simp,
    fun k hk k' hk' heq => ?_⟩
  obtain ⟨⟨sdu, pduMaxSize, hop⟩, hc, rfl⟩ := ht.keystream k' (Option.mem_toList.mp hk')
  have hrewound : h.rewound = false := by
    rw [hop] at ha
    simpa [History.allows, Entity.newKey, hc] using ha
  have hlt := hf.below hrewound k hk (by rw [heq])
  rw [heq] at hlt
  exact UInt32.lt_irrefl _ hlt

omit ha in
theorem below_of_same_key (hkey : e'.securityContext.key = e.securityContext.key)
    (hr : (h.rewound || (e.lowersTxNext c l.1 &&
      decide (e.securityContext.key ∈ h.usedNext e l.1))) = false) :
    ∀ k ∈ keystreams (ls ++ [l]), k.key = e'.securityContext.key → k.count < e'.txNext := by
  obtain ⟨hrewound, hlow⟩ := Bool.or_eq_false_iff.mp hr
  intro k hk hkk
  rw [hkey] at hkk
  have hlowers : e.lowersTxNext c l.1 = false := by
    by_contra hl
    have hused := hkk ▸ hf.used_step ht k hk
    simp [hl, hused] at hlow
  obtain ⟨hle, hlt⟩ := ht.txNext hlowers
  rw [keystreams_append] at hk
  rcases List.mem_append.mp hk with hk | hk
  · exact UInt32.lt_of_lt_of_le (hf.below hrewound k hk hkk) hle
  · rw [(ht.mem_keystream hk (h := h)).2.2.1]
    exact hlt fun hnone => by simp [hnone] at hk

theorem below_step (hr : (h.next c e l.1).rewound = false) :
    ∀ k ∈ keystreams (ls ++ [l]), k.key = e'.securityContext.key → k.count < e'.txNext := by
  have hkey := ht.key
  unfold History.next at hr
  cases hnew : Entity.newKey l.1 with
  | none =>
    rw [hnew] at hkey
    simp only [hnew, Option.any_none, Bool.false_eq_true, if_false] at hr
    exact hf.below_of_same_key ht hkey hr
  | some k' =>
    rw [hnew, Option.getD_some] at hkey
    by_cases hused : k' ∈ h.used
    · have hsame : k' = e.securityContext.key := by
        simpa [History.allows, hnew, hused] using (Bool.and_eq_true_iff.mp ha).1
      simp only [hnew, Option.any_some, hused, not_true_eq_false, decide_false, Bool.false_eq_true,
        if_false] at hr
      exact hf.below_of_same_key ht (hkey.trans hsame) hr
    · -- nothing has been ciphered with the new key
      intro k hk hkk
      rw [keystreams_append] at hk
      rcases List.mem_append.mp hk with hk | hk
      · exact absurd (hkey ▸ hkk ▸ hf.used k hk) hused
      · have := (ht.mem_keystream hk (h := h)).2.2.2.1
        simp [hnew] at this

theorem step : Fresh (ls ++ [l]) (e', h.next c e l.1) :=
  ⟨hf.nodup_step ht ha, hf.used_step ht, hf.below_step ht ha⟩

end Fresh

/-- No keystream is used twice as long as the history allows every call. -/
theorem keystreams_nodup {s : Entity × History} (hrun : Run (GuardedStep sec c) (e₀, {}) ls s) :
    (keystreams ls).Nodup := by
  have hinv : Fresh ls s := by
    refine hrun.trace_invariant Fresh ⟨.nil, by simp [keystreams], by simp [keystreams]⟩ ?_
    rintro ls ⟨e, h⟩ l ⟨e', h'⟩ hf ⟨hs, ha, rfl⟩
    exact hf.step (txStep hs) ha
  exact hinv.nodup

theorem keystreams_nodup_reestablish :
    ∃ ls s, Run (GuardedStep .small (.small true)) (.small, {}) ls s ∧
      (keystreams ls).map (fun k => (k.key.get 0, k.count)) = [(0x5a, 0), (0x5a, 1), (0x77, 0)] ∧
      (keystreams ls).Nodup := by
  have hobs : (execList
      (fun s op => (exec .small (.small true) s.1 op).map fun r =>
        ((r.1, History.next (.small true) s.2 s.1 op), r.2))
      (fun s op => s.2.allows s.1 op) (Entity.small, {})
      [.processSdu [7, 11] 100, .processSdu [7, 12] 100, .suspend,
        .reestablish { SecurityKeysAndAlgos.small with cipheringKey := .replicate 16 0x77 },
        .processSdu [7, 13] 100]).map
        (fun r => (keystreams r.2).map fun k => (k.key.get 0, k.count)) =
      some [(0x5a, 0), (0x5a, 1), (0x77, 0)] := by decide
  obtain ⟨⟨s, ls⟩, hexec, heq⟩ := Option.map_eq_some_iff.mp hobs
  have hrun : Run (GuardedStep .small (.small true)) (.small, {}) ls s := by
    refine (execList_run hexec).mono ?_
    rintro s ⟨op, out⟩ t ⟨hs, ha⟩
    obtain ⟨r, hr, hrt⟩ := Option.map_eq_some_iff.mp hs
    cases hrt
    exact ⟨hr, ha, rfl⟩
  exact ⟨ls, s, hrun, heq, keystreams_nodup hrun⟩

def Op.transmits : Op → Bool
  | .processSdu _ _ => true
  | .setSecurity _ => true
  | .suspend => true
  | .reestablish _ => true
  | .setCountUl _ _ => true
  | _ => false

/-- A re-establishment that keeps the key sends COUNT 0 again. -/
theorem not_forall_keystreams_nodup :
    ¬ ∀ (sec : Security) (c : Config) (parameters : SecurityKeysAndAlgos) (e₀ e : Entity)
      (ls : List (Op × Output)), Entity.new parameters = some e₀ →
      Run (fun s l t => Step sec c s l t ∧ l.1.transmits = true) e₀ ls e →
      (keystreams ls).Nodup := by
  intro h
  have hobs : (execList (exec .small (.small true)) (fun _ op => op.transmits) Entity.small
      [.processSdu [7, 11] 100, .suspend,
        .reestablish { integrityAlgorithm := -1, cipheringAlgorithm := -1 },
        .processSdu [7, 12] 100]).map (fun r => keystreams r.2) =
      some [⟨.replicate 16 0x5a, 1, 0, 1⟩, ⟨.replicate 16 0x5a, 1, 0, 1⟩] := by decide
  obtain ⟨⟨e, ls⟩, hexec, heq⟩ := Option.map_eq_some_iff.mp hobs
  have hnodup := h .small (.small true) .small .small e ls (by decide) (execList_run hexec)
  dsimp only at heq
  rw [heq] at hnodup
  simp at hnodup

end OpenAir.Pdcp

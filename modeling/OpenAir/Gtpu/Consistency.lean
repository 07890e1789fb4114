import OpenAir.Gtpu.Tables
import OpenAir.Lib.BitReader
import OpenAir.Lib.Run

namespace OpenAir.Gtpu

def Op.Concerns : Op → UeId → BearerKey → Prop
  | .createTunnel ueId _ outgoingBearerId _ _ _ _, ue, id =>
    ue = ueId ∧ id = outgoingBearerId.signExtend 64
  | .updateTunnel ueId bearerId _ _, ue, id => ue = ueId ∧ id = bearerId.setWidth 64
  | .updateUeId oldUeId newUeId, ue, _ => ue = oldUeId ∨ ue = newUeId
  | .deleteOneTunnel ueId rbId, ue, id => ue = ueId ∧ id = rbId.signExtend 64
  | .deleteAllTunnels ueId, ue, _ => ue = ueId
  | .deleteS1uTunnel rnti ids, ue, id => ue = rnti.setWidth 64 ∧ ∃ i ∈ ids, id = i.setWidth 64

def Op.callbacks : Op → Option Callbacks
  | .createTunnel _ _ _ _ _ callbacks _ => some callbacks
  | _ => none

abbrev Event := Op × Result

def given (ls : List Event) (teid : Teid) : Option Callbacks :=
  ls.foldl (fun found l => if l.2 = .teid teid then l.1.callbacks else found) none

structure Consistent (given : Teid → Option Callbacks) (s : Tables) : Prop where
  entry_of_bearer : ∀ ue id b, s.bearer ue id = some b →
    ∃ d, s.te2ue.lookup b.teidIncoming = some d ∧ d.ueId = ue ∧ d.outgoingTeid = b.teidOutgoing
  bearer_of_entry : ∀ teid d, s.te2ue.lookup teid = some d →
    ∃ ue id b, s.bearer ue id = some b ∧ b.teidIncoming = teid
  injective : ∀ ue id b ue' id' b', s.bearer ue id = some b → s.bearer ue' id' = some b' →
    b.teidIncoming = b'.teidIncoming → ue = ue' ∧ id = id'
  teid_ne_zero : ∀ teid d, s.te2ue.lookup teid = some d → teid ≠ 0
  callbacks : ∀ teid d, s.te2ue.lookup teid = some d → given teid = some d.toCallbacks

def Undisturbed (op : Op) (s t : Tables) : Prop :=
  ∀ ue id, ¬ op.Concerns ue id → t.bearer ue id = s.bearer ue id ∧
    ∀ b, s.bearer ue id = some b → t.te2ue.lookup b.teidIncoming = s.te2ue.lookup b.teidIncoming

def Meets (s : Tables) : Op → Prop
  | .createTunnel ueId _ outgoingBearerId _ _ _ _ =>
    s.bearer ueId (outgoingBearerId.signExtend 64) = none
  | .updateTunnel ueId bearerId _ teid =>
    ∀ b, s.bearer ueId (bearerId.setWidth 64) = some b → b.teidOutgoing = teid
  | .updateUeId oldUeId newUeId => ∀ bearers, s.ue2te.lookup oldUeId = some bearers →
    (∀ id : BearerKey, id ∈ bearers.keys ↔ id.toNat < StdMap.size bearers) ∧
      ∀ id, s.bearer newUeId id = none
  | .deleteOneTunnel _ _ => True
  | .deleteAllTunnels _ => True
  | .deleteS1uTunnel rnti ids => ∀ id ∈ ids, s.bearer (rnti.setWidth 64) (id.setWidth 64) = none

def Step (inst : EndPoint) (s : Tables) (l : Event) (t : Tables) : Prop :=
  ∃ fuel, s.exec inst fuel l.1 = .ok (l.2, t)

def GoodStep (inst : EndPoint) (s : Tables) (l : Event) (t : Tables) : Prop :=
  Step inst s l t ∧ Meets s l.1

def pdusessionOf (id : BearerKey) : BitVec 16 := (id.setWidth 8).setWidth 16

section Effects

variable (s t : Tables)

structure Unchanged : Prop where
  bearer : ∀ ue id, t.bearer ue id = s.bearer ue id
  entry : ∀ teid, t.te2ue.lookup teid = s.te2ue.lookup teid

structure Added (ueId : UeId) (key : BearerKey) (new : Bearer) (data : UeidData) : Prop where
  absent : s.bearer ueId key = none
  fresh : s.te2ue.lookup new.teidIncoming = none
  bearer : ∀ ue id, t.bearer ue id = if ue = ueId ∧ id = key then some new else s.bearer ue id
  entry : ∀ teid, t.te2ue.lookup teid =
    if teid = new.teidIncoming then some data else s.te2ue.lookup teid

structure Removed (P : UeId → BearerKey → Prop) : Prop where
  gone : ∀ ue id, P ue id → t.bearer ue id = none
  bearer : ∀ ue id, ¬ P ue id → t.bearer ue id = s.bearer ue id
  entry_gone : ∀ ue id b, P ue id → s.bearer ue id = some b → t.te2ue.lookup b.teidIncoming = none
  entry : ∀ teid, (∀ ue id b, P ue id → s.bearer ue id = some b → b.teidIncoming ≠ teid) →
    t.te2ue.lookup teid = s.te2ue.lookup teid

structure Renamed (oldUeId newUeId : UeId) : Prop where
  absent : ∀ id, s.bearer newUeId id = none
  bearer : ∀ ue id, t.bearer ue id =
    if ue = oldUeId then none else if ue = newUeId then s.bearer oldUeId id else s.bearer ue id
  entry_moved : ∀ id b, s.bearer oldUeId id = some b → t.te2ue.lookup b.teidIncoming =
    (s.te2ue.lookup b.teidIncoming).map ({ · with ueId := newUeId })
  entry : ∀ teid, (∀ id b, s.bearer oldUeId id = some b → b.teidIncoming ≠ teid) →
    t.te2ue.lookup teid = s.te2ue.lookup teid

structure Readdressed (ueId : UeId) (key : BearerKey) (old new : Bearer) : Prop where
  present : s.bearer ueId key = some old
  incoming : new.teidIncoming = old.teidIncoming
  outgoing : new.teidOutgoing = old.teidOutgoing
  bearer : ∀ ue id, t.bearer ue id = if ue = ueId ∧ id = key then some new else s.bearer ue id
  entry : ∀ teid, t.te2ue.lookup teid = s.te2ue.lookup teid

end Effects

theorem Removed.of_absent {s : Tables} {P : UeId → BearerKey → Prop}
    (h : ∀ ue id, P ue id → s.bearer ue id = none) : Removed s s P where
  gone := h
  bearer := fun _ _ _ => rfl
  entry_gone := by
    intro ue id b hP hb
    rw [h _ _ hP] at hb
    cases hb
  entry := fun _ _ => rfl

theorem Unchanged.removed {s t : Tables} (he : Unchanged s t) : Removed s t fun _ _ => False where
  gone := by rintro _ _ ⟨⟩
  bearer := fun _ _ _ => he.bearer _ _
  entry_gone := by rintro _ _ _ ⟨⟩
  entry := fun _ _ => he.entry _

variable {g g' : Teid → Option Callbacks} {s t : Tables} {ueId oldUeId newUeId : UeId}
  {key : BearerKey} {old new : Bearer} {data : UeidData} {P : UeId → BearerKey → Prop}

namespace Consistent

variable {ue : UeId} {id : BearerKey} {b : Bearer}

theorem teid_ne (h : Consistent g s) {ue' : UeId} {id' : BearerKey} {b' : Bearer}
    (hb : s.bearer ue id = some b) (hb' : s.bearer ue' id' = some b')
    (hne : ¬ (ue = ue' ∧ id = id')) :
    b.teidIncoming ≠ b'.teidIncoming := fun heq => hne (h.injective _ _ _ _ _ _ hb hb' heq)

variable {teid : Teid}

theorem teid_ne_of_fresh (h : Consistent g s) (hf : s.te2ue.lookup teid = none)
    (hb : s.bearer ue id = some b) : b.teidIncoming ≠ teid := by
  rintro rfl
  obtain ⟨d, hd, _⟩ := h.entry_of_bearer _ _ _ hb
  rw [hf] at hd
  cases hd

theorem added (h : Consistent g s) (he : Added s t ueId key new data) (hz : new.teidIncoming ≠ 0)
    (hue : data.ueId = ueId) (hout : data.outgoingTeid = new.teidOutgoing)
    (hg : ∀ teid, g' teid = if teid = new.teidIncoming then some data.toCallbacks else g teid) :
    Consistent g' t where
  entry_of_bearer := by
    intro ue id b hb
    rw [he.bearer] at hb
    rw [he.entry]
    split at hb
    · next heq =>
      cases hb
      exact ⟨data, if_pos rfl, hue.trans heq.1.symm, hout⟩
    · rw [if_neg (h.teid_ne_of_fresh he.fresh hb)]
      exact h.entry_of_bearer _ _ _ hb
  bearer_of_entry := by
    intro teid d hd
    rw [he.entry] at hd
    split at hd
    · next heq => exact ⟨ueId, key, new, by rw [he.bearer, if_pos ⟨rfl, rfl⟩], heq.symm⟩
    · obtain ⟨ue, id, b, hb, hteid⟩ := h.bearer_of_entry _ _ hd
      refine ⟨ue, id, b, ?_, hteid⟩
      rw [he.bearer, if_neg]
      · exact hb
      · rintro ⟨rfl, rfl⟩
        rw [he.absent] at hb
        cases hb
  injective := by
    intro ue id b ue' id' b' hb hb' heq
    rw [he.bearer] at hb hb'
    split at hb <;> split at hb'
    · next h₁ h₂ => exact ⟨h₁.1.trans h₂.1.symm, h₁.2.trans h₂.2.symm⟩
    · cases hb
      exact absurd heq.symm (h.teid_ne_of_fresh he.fresh hb')
    · cases hb'
      exact absurd heq (h.teid_ne_of_fresh he.fresh hb)
    · exact h.injective _ _ _ _ _ _ hb hb' heq
  teid_ne_zero := by
    intro teid d hd
    rw [he.entry] at hd
    split at hd
    · next heq => exact heq ▸ hz
    · exact h.teid_ne_zero _ _ hd
  callbacks := by
    intro teid d hd
    rw [he.entry] at hd
    rw [hg]
    split at hd
    · next heq =>
      cases hd
      rw [if_pos heq]
    · next hne =>
      rw [if_neg hne]
      exact h.callbacks _ _ hd

theorem removed_entry (he : Removed s t P) {d : UeidData} (hd : t.te2ue.lookup teid = some d) :
    s.te2ue.lookup teid = some d ∧
      ∀ ue id b, P ue id → s.bearer ue id = some b → b.teidIncoming ≠ teid := by
  have hkept : ∀ ue id b, P ue id → s.bearer ue id = some b → b.teidIncoming ≠ teid := by
    rintro ue id b hP hb rfl
    rw [he.entry_gone _ _ _ hP hb] at hd
    cases hd
  rw [he.entry _ hkept] at hd
  exact ⟨hd, hkept⟩

theorem removed_bearer (he : Removed s t P) (hb : t.bearer ue id = some b) :
    ¬ P ue id ∧ s.bearer ue id = some b := by
  by_cases hP : P ue id
  · rw [he.gone _ _ hP] at hb
    cases hb
  · rw [he.bearer _ _ hP] at hb
    exact ⟨hP, hb⟩

theorem removed_lookup (h : Consistent g s) (he : Removed s t P) (hP : ¬ P ue id)
    (hb : s.bearer ue id = some b) :
    t.te2ue.lookup b.teidIncoming = s.te2ue.lookup b.teidIncoming := by
  refine he.entry _ fun ue' id' b' hP' hb' => h.teid_ne hb' hb ?_
  rintro ⟨rfl, rfl⟩
  exact hP hP'

theorem removed (h : Consistent g s) (he : Removed s t P) : Consistent g t where
  entry_of_bearer := by
    intro ue id b hb
    obtain ⟨hP, hb⟩ := removed_bearer he hb
    rw [h.removed_lookup he hP hb]
    exact h.entry_of_bearer _ _ _ hb
  bearer_of_entry := by
    intro teid d hd
    obtain ⟨hd, hkept⟩ := removed_entry he hd
    obtain ⟨ue, id, b, hb, hteid⟩ := h.bearer_of_entry _ _ hd
    exact ⟨ue, id, b, (he.bearer _ _ fun hP => hkept _ _ _ hP hb hteid).trans hb, hteid⟩
  injective := by
    intro ue id b ue' id' b' hb hb' heq
    exact h.injective _ _ _ _ _ _ (removed_bearer he hb).2 (removed_bearer he hb').2 heq
  teid_ne_zero := fun teid d hd => h.teid_ne_zero _ _ (removed_entry he hd).1
  callbacks := fun teid d hd => h.callbacks _ _ (removed_entry he hd).1

theorem renamed_bearer (he : Renamed s t oldUeId newUeId) (hb : t.bearer ue id = some b) :
    (ue = newUeId ∧ s.bearer oldUeId id = some b) ∨
      (ue ≠ oldUeId ∧ ue ≠ newUeId ∧ s.bearer ue id = some b) := by
  rw [he.bearer] at hb
  split at hb
  · cases hb
  · next hold =>
    split at hb
    · next hnew => exact .inl ⟨hnew, hb⟩
    · next hnew => exact .inr ⟨hold, hnew, hb⟩

theorem renamed_lookup (h : Consistent g s) (he : Renamed s t oldUeId newUeId) (hue : ue ≠ oldUeId)
    (hb : s.bearer ue id = some b) :
    t.te2ue.lookup b.teidIncoming = s.te2ue.lookup b.teidIncoming :=
  he.entry _ fun _ _ hb' => h.teid_ne hb' hb fun heq => hue heq.1.symm

theorem renamed_entry (he : Renamed s t oldUeId newUeId) {d : UeidData}
    (hd : t.te2ue.lookup teid = some d) :
    ∃ d', s.te2ue.lookup teid = some d' ∧ d'.toCallbacks = d.toCallbacks := by
  by_cases hold : ∃ id b, s.bearer oldUeId id = some b ∧ b.teidIncoming = teid
  · obtain ⟨id, b, hb, rfl⟩ := hold
    rw [he.entry_moved _ _ hb] at hd
    obtain ⟨d', hd', rfl⟩ := Option.map_eq_some_iff.mp hd
    exact ⟨d', hd', rfl⟩
  · rw [he.entry _ fun id b hb heq => hold ⟨id, b, hb, heq⟩] at hd
    exact ⟨d, hd, rfl⟩

theorem renamed (h : Consistent g s) (he : Renamed s t oldUeId newUeId) : Consistent g t where
  entry_of_bearer := by
    intro ue id b hb
    rcases renamed_bearer he hb with ⟨rfl, hb⟩ | ⟨hold, hnew, hb⟩
    · obtain ⟨d, hd, _, hout⟩ := h.entry_of_bearer _ _ _ hb
      refine ⟨{ d with ueId := ue }, ?_, rfl, hout⟩
      rw [he.entry_moved _ _ hb, hd, Option.map_some]
    · rw [h.renamed_lookup he hold hb]
      exact h.entry_of_bearer _ _ _ hb
  bearer_of_entry := by
    intro teid d hd
    obtain ⟨d', hd', _⟩ := renamed_entry he hd
    obtain ⟨ue, id, b, hb, hteid⟩ := h.bearer_of_entry _ _ hd'
    have hnew : ue ≠ newUeId := by
      rintro rfl
      rw [he.absent] at hb
      cases hb
    by_cases hold : ue = oldUeId
    · subst hold
      exact ⟨newUeId, id, b, by rw [he.bearer, if_neg hnew.symm, if_pos rfl, hb], hteid⟩
    · exact ⟨ue, id, b, by rw [he.bearer, if_neg hold, if_neg hnew, hb], hteid⟩
  injective := by
    intro ue id b ue' id' b' hb hb' heq
    rcases renamed_bearer he hb with ⟨hnew, hs⟩ | ⟨hold, _, hs⟩ <;>
      rcases renamed_bearer he hb' with ⟨hnew', hs'⟩ | ⟨hold', _, hs'⟩
    · exact ⟨hnew.trans hnew'.symm, (h.injective _ _ _ _ _ _ hs hs' heq).2⟩
    · exact absurd (h.injective _ _ _ _ _ _ hs hs' heq).1.symm hold'
    · exact absurd (h.injective _ _ _ _ _ _ hs hs' heq).1 hold
    · exact h.injective _ _ _ _ _ _ hs hs' heq
  teid_ne_zero := by
    intro teid d hd
    obtain ⟨d', hd', _⟩ := renamed_entry he hd
    exact h.teid_ne_zero _ _ hd'
  callbacks := by
    intro teid d hd
    obtain ⟨d', hd', heq⟩ := renamed_entry he hd
    rw [h.callbacks _ _ hd', heq]

theorem readdressed_bearer (he : Readdressed s t ueId key old new) (hb : t.bearer ue id = some b) :
    ∃ b', s.bearer ue id = some b' ∧
      b.teidIncoming = b'.teidIncoming ∧ b.teidOutgoing = b'.teidOutgoing := by
  rw [he.bearer] at hb
  split at hb
  · next heq =>
    cases hb
    obtain ⟨rfl, rfl⟩ := heq
    exact ⟨old, he.present, he.incoming, he.outgoing⟩
  · exact ⟨b, hb, rfl, rfl⟩

theorem readdressed (h : Consistent g s) (he : Readdressed s t ueId key old new) :
    Consistent g t where
  entry_of_bearer := by
    intro ue id b hb
    obtain ⟨b', hb', hin, hout⟩ := readdressed_bearer he hb
    rw [he.entry, hin, hout]
    exact h.entry_of_bearer _ _ _ hb'
  bearer_of_entry := by
    intro teid d hd
    rw [he.entry] at hd
    obtain ⟨ue, id, b, hb, hteid⟩ := h.bearer_of_entry _ _ hd
    by_cases heq : ue = ueId ∧ id = key
    · obtain ⟨rfl, rfl⟩ := heq
      rw [he.present] at hb
      cases hb
      exact ⟨ue, id, new, by rw [he.bearer, if_pos ⟨rfl, rfl⟩], he.incoming.trans hteid⟩
    · exact ⟨ue, id, b, by rw [he.bearer, if_neg heq, hb], hteid⟩
  injective := by
    intro ue id b ue' id' b' hb hb' heq
    obtain ⟨c, hc, hin, _⟩ := readdressed_bearer he hb
    obtain ⟨c', hc', hin', _⟩ := readdressed_bearer he hb'
    exact h.injective _ _ _ _ _ _ hc hc' (hin.symm.trans (heq.trans hin'))
  teid_ne_zero := by
    simp only [he.entry]
    exact h.teid_ne_zero
  callbacks := by
    simp only [he.entry]
    exact h.callbacks

end Consistent

namespace Tables

variable {id : BearerKey}

theorem bearer_setBearer {b : Bearer} {ue : UeId} :
    (s.setBearer ueId key b).bearer ue id =
      if ue = ueId ∧ id = key then some b else s.bearer ue id := by
  unfold bearer setBearer StdMap.modify
  rw [StdMap.lookup_insert_eq]
  by_cases hue : ue = ueId
  · subst hue
    rw [if_pos rfl, Option.bind_some, StdMap.lookup_insert_eq]
    by_cases hid : id = key
    · simp [hid]
    · rw [if_neg hid, if_neg fun h => hid h.2]
      cases s.ue2te.lookup ue with
      | none => rfl
      | some bearers => rfl
  · rw [if_neg hue, if_neg fun h => hue h.1]

theorem gtpv1uNewTeid_ne_zero (r : Draw) : gtpv1uNewTeid r ≠ 0 := by
  intro h
  have hfirst := r.first.isLt
  have hmod : r.second.val % (2 ^ 31 - 1 - 1) < 2 ^ 31 - 1 - 1 := Nat.mod_lt _ (by decide)
  have hzero : (gtpv1uNewTeid r).toNat = 0 := congrArg BitVec.toNat h
  rw [gtpv1uNewTeid, BitVec.toNat_ofNat] at hzero
  omega

variable {teid : Teid}

theorem freshTeid_eq_ok {draws : List Draw} (h : s.freshTeid draws = .ok teid) :
    teid ≠ 0 ∧ s.te2ue.lookup teid = none := by
  unfold freshTeid at h
  split at h
  · next teid' hfind =>
    cases h
    have hunused := List.find?_some hfind
    obtain ⟨r, _, rfl⟩ := List.mem_map.mp (List.mem_of_find?_eq_some hfind)
    exact ⟨gtpv1uNewTeid_ne_zero r, Option.isNone_iff_eq_none.mp hunused⟩
  · cases h

theorem setWidth_signExtend (id : BitVec 32) : (id.signExtend 64).setWidth 8 = id.setWidth 8 := by
  ext i hi
  rw [BitVec.getElem_setWidth, BitVec.getElem_setWidth, BitVec.getLsbD_signExtend]
  simp [show i < 64 by omega, show i < 32 by omega]

theorem newGtpuCreateTunnel_effect {inst : EndPoint} {incomingBearerId outgoingBearerId : BitVec 32}
    {outgoingTeid : Teid} {remoteAddr : TransportLayerAddr} {callbacks : Callbacks}
    {draws : List Draw} {r : Result}
    (habsent : s.bearer ueId (outgoingBearerId.signExtend 64) = none)
    (h : s.newGtpuCreateTunnel inst ueId incomingBearerId outgoingBearerId outgoingTeid remoteAddr
      callbacks draws = .ok (r, t)) :
    ∃ new data, Added s t ueId (outgoingBearerId.signExtend 64) new data ∧
      r = .teid new.teidIncoming ∧
      new.teidIncoming ≠ 0 ∧ data.ueId = ueId ∧ data.outgoingTeid = new.teidOutgoing ∧
      data.toCallbacks = callbacks ∧
      data.pdusessionId = pdusessionOf (outgoingBearerId.signExtend 64) := by
  unfold newGtpuCreateTunnel at h
  simp only [habsent, Option.isSome_none, Bool.false_eq_true, if_false] at h
  obtain ⟨teid, hteid, h⟩ := bind_eq_ok.mp h
  obtain ⟨ip, _, h⟩ := bind_eq_ok.mp h
  cases h
  obtain ⟨hne, hfresh⟩ := freshTeid_eq_ok hteid
  refine ⟨_, _, ⟨habsent, hfresh, fun _ _ => bearer_setBearer, fun _ => StdMap.lookup_insert_eq⟩,
    rfl, hne, rfl, rfl, rfl, ?_⟩
  rw [pdusessionOf, setWidth_signExtend]

theorem updateTunnel_effect {bearerId : BitVec 8} {addr : InAddr}
    (hsame : ∀ b, s.bearer ueId (bearerId.setWidth 64) = some b → b.teidOutgoing = teid) :
    Unchanged s (s.updateTunnelOutgoingAddressAndTeid ueId bearerId addr teid).2 ∨
      ∃ old new, Readdressed s (s.updateTunnelOutgoingAddressAndTeid ueId bearerId addr teid).2 ueId
        (bearerId.setWidth 64) old new := by
  unfold updateTunnelOutgoingAddressAndTeid
  cases hb : s.bearer ueId (bearerId.setWidth 64) with
  | none => exact .inl ⟨fun _ _ => rfl, fun _ => rfl⟩
  | some b =>
    exact .inr ⟨b, { b with ip := { b.ip with family := .inet, addr }, teidOutgoing := teid }, hb,
      rfl, (hsame b hb).symm, fun _ _ => bearer_setBearer, fun _ => rfl⟩

theorem bearer_of_lookup {bearers : StdMap BearerKey Bearer}
    (h : s.ue2te.lookup ueId = some bearers) : s.bearer ueId id = bearers.lookup id := by
  rw [bearer, h, Option.bind_some]

theorem bearer_of_lookup_none (h : s.ue2te.lookup ueId = none) :
    s.bearer ueId id = none := by
  rw [bearer, h, Option.bind_none]

theorem bearer_eraseUe {ue : UeId} {te2ue : StdMap Teid UeidData} :
    bearer { ue2te := s.ue2te.erase ueId, te2ue } ue id = if ue = ueId then
      none else s.bearer ue id := by
  unfold bearer
  rw [StdMap.lookup_erase_eq]
  split <;> rfl

theorem deleteOneTunnel_effect (s : Tables) (ueId : UeId) (rbId : BitVec 32) :
    Removed s (s.newGtpuDeleteOneTunnel ueId rbId).2 fun ue id => ue = ueId ∧
      id = rbId.signExtend 64 := by
  unfold newGtpuDeleteOneTunnel
  cases hue : s.ue2te.lookup ueId with
  | none => exact .of_absent (by rintro _ _ ⟨rfl, rfl⟩; exact bearer_of_lookup_none hue)
  | some bearers =>
    cases hid : bearers.lookup (rbId.signExtend 64) with
    | none =>
      dsimp only
      rw [hid]
      exact .of_absent (by rintro _ _ ⟨rfl, rfl⟩; rw [bearer_of_lookup hue, hid])
    | some b =>
      have hb : s.bearer ueId (rbId.signExtend 64) = some b := (bearer_of_lookup hue).trans hid
      dsimp only
      rw [hid]
      refine ⟨?_, ?_, ?_, ?_⟩
      · rintro _ _ ⟨rfl, rfl⟩
        rw [bearer, AList.lookup_insert, Option.bind_some, AList.lookup_erase]
      · intro ue id hne
        rw [bearer, StdMap.lookup_insert_eq]
        split
        · next heq =>
          rw [Option.bind_some, StdMap.lookup_erase_eq, if_neg fun h => hne ⟨heq, h⟩, heq,
            bearer_of_lookup hue]
        · rfl
      · rintro _ _ b' ⟨rfl, rfl⟩ hb'
        rw [hb] at hb'
        cases hb'
        exact AList.lookup_erase ..
      · intro teid hkept
        exact AList.lookup_erase_ne (hkept _ _ b ⟨rfl, rfl⟩ hb).symm

theorem mem_teids {bearers : StdMap BearerKey Bearer} :
    teid ∈ bearers.entries.map (fun e => e.2.teidIncoming) ↔
      ∃ id b, bearers.lookup id = some b ∧ b.teidIncoming = teid := by
  rw [List.mem_map]
  constructor
  · rintro ⟨⟨id, b⟩, he, rfl⟩
    exact ⟨id, b, AList.mem_lookup_iff.mpr he, rfl⟩
  · rintro ⟨id, b, hb, rfl⟩
    exact ⟨⟨id, b⟩, AList.mem_lookup_iff.mp hb, rfl⟩

theorem deleteAllTunnels_effect (s : Tables) (ueId : UeId) :
    Removed s (s.newGtpuDeleteAllTunnels ueId).2 fun ue _ => ue = ueId := by
  unfold newGtpuDeleteAllTunnels
  cases hue : s.ue2te.lookup ueId with
  | none => exact .of_absent (by rintro _ _ rfl; exact bearer_of_lookup_none hue)
  | some bearers =>
    refine ⟨?_, ?_, ?_, ?_⟩
    · rintro _ _ rfl
      rw [bearer_eraseUe, if_pos rfl]
    · intro ue id hne
      rw [bearer_eraseUe, if_neg hne]
    · rintro _ id b rfl hb
      rw [bearer_of_lookup hue] at hb
      rw [StdMap.lookup_eraseAll, if_pos (mem_teids.mpr ⟨id, b, hb, rfl⟩)]
    · intro teid hkept
      rw [StdMap.lookup_eraseAll, if_neg]
      intro hmem
      obtain ⟨id, b, hb, hteid⟩ := mem_teids.mp hmem
      exact hkept ueId id b rfl ((bearer_of_lookup hue).trans hb) hteid

theorem deleteS1uTunnel_effect {rnti : BitVec 16} {ids : List (BitVec 8)}
    (habsent : ∀ id ∈ ids, s.bearer (rnti.setWidth 64) (id.setWidth 64) = none) :
    Unchanged s (s.gtpv1uDeleteS1uTunnel rnti ids).2 := by
  unfold gtpv1uDeleteS1uTunnel
  cases hue : s.ue2te.lookup (rnti.setWidth 64) with
  | none => exact ⟨fun _ _ => rfl, fun _ => rfl⟩
  | some bearers =>
    have hlisted : listed bearers ids = [] := by
      rw [listed, List.filterMap_eq_nil_iff]
      intro id hid
      rw [← bearer_of_lookup hue, habsent id hid]
    dsimp only
    rw [hlisted]
    refine ⟨?_, fun _ => rfl⟩
    intro ue id
    split
    · next hsize =>
      -- only a UE without bearers is erased
      rw [bearer_eraseUe]
      split
      · next heq =>
        rw [heq, bearer_of_lookup hue, eq_comm, AList.lookup_eq_none, AList.mem_keys,
          List.eq_nil_of_length_eq_zero hsize]
        exact List.not_mem_nil
      · rfl
    · rfl

structure Moving (s : Tables) (bearers : StdMap BearerKey Bearer) (newUeId : UeId)
    (x : BitVec 32 × Tables) : Prop where
  ue : ∀ ue, x.2.ue2te.lookup ue = s.ue2te.lookup ue
  done : ∀ id b, id.toNat < x.1.toNat → bearers.lookup id = some b →
    x.2.te2ue.lookup b.teidIncoming =
      (s.te2ue.lookup b.teidIncoming).map ({ · with ueId := newUeId })
  mine : ∀ id b, bearers.lookup id = some b →
    x.2.te2ue.lookup b.teidIncoming = s.te2ue.lookup b.teidIncoming ∨
    x.2.te2ue.lookup b.teidIncoming =
      (s.te2ue.lookup b.teidIncoming).map ({ · with ueId := newUeId })
  other : ∀ teid, (∀ id b, bearers.lookup id = some b → b.teidIncoming ≠ teid) →
    x.2.te2ue.lookup teid = s.te2ue.lookup teid

section Loop

variable {bearers : StdMap BearerKey Bearer} {x : BitVec 32 × Tables} {b : Bearer}

theorem updateUeIdRound_eq (hue : x.2.ue2te.lookup oldUeId = some bearers)
    (hb : bearers.lookup (x.1.setWidth 64) = some b)
    (hd : x.2.te2ue.lookup b.teidIncoming = some data) :
    updateUeIdRound oldUeId newUeId x = (x.1 + 1,
      { ue2te := x.2.ue2te.insert oldUeId bearers
        te2ue := if data.ueId = oldUeId then
            x.2.te2ue.insert b.teidIncoming { data with ueId := newUeId }
          else x.2.te2ue }) := by
  unfold updateUeIdRound
  rw [hue, Option.getD_some, StdMap.subscript_of_lookup hb]
  dsimp only
  rw [StdMap.subscript_of_lookup hd]

theorem lookup_round {te2ue : StdMap Teid UeidData} {d d' : UeidData} {k teid : Teid}
    (h : te2ue.lookup k = some d) (hd : d.ueId ≠ oldUeId → d = d')
    (hset : { d with ueId := newUeId } = d') :
    (if d.ueId = oldUeId then te2ue.insert k { d with ueId := newUeId } else te2ue).lookup teid =
      if teid = k then some d' else te2ue.lookup teid := by
  split
  · rw [StdMap.lookup_insert_eq, hset]
  · next hne =>
    split
    · next heq => rw [heq, h, hd hne]
    · rfl

theorem toNat_add_one_le (i : BitVec 32) : (i + 1).toNat ≤ i.toNat + 1 := by
  rw [BitVec.toNat_add]
  exact Nat.mod_le _ _

theorem Moving.step (hc : Consistent g s) (hue : s.ue2te.lookup oldUeId = some bearers)
    (hkeys : ∀ id : BearerKey, id ∈ bearers.keys ↔ id.toNat < StdMap.size bearers)
    (h : Moving s bearers newUeId x) (hmore : moreBearers oldUeId x) :
    Moving s bearers newUeId (updateUeIdRound oldUeId newUeId x) := by
  have hue' := (h.ue oldUeId).trans hue
  rw [moreBearers, hue', Option.getD_some, decide_eq_true_iff] at hmore
  have hkey : (x.1.setWidth 64).toNat = x.1.toNat := by
    rw [BitVec.toNat_setWidth, Nat.mod_eq_of_lt (by have := x.1.isLt; omega)]
  obtain ⟨b, hb⟩ := StdMap.mem_keys_iff.mp ((hkeys (x.1.setWidth 64)).mpr (hkey.symm ▸ hmore))
  obtain ⟨d, hd, hdue, _⟩ := hc.entry_of_bearer _ _ _ ((bearer_of_lookup hue).trans hb)
  -- the entry is as at the start, or another bearer's round has moved it
  obtain ⟨data, hdata, hdisj⟩ : ∃ data, x.2.te2ue.lookup b.teidIncoming = some data ∧
      (data = d ∨ data = { d with ueId := newUeId }) := by
    rcases h.mine _ _ hb with hsame | hmoved
    · exact ⟨d, hsame.trans hd, .inl rfl⟩
    · rw [hd] at hmoved
      exact ⟨_, hmoved, .inr rfl⟩
  have hlookup : ∀ teid, (updateUeIdRound oldUeId newUeId x).2.te2ue.lookup teid =
      if teid = b.teidIncoming then some { d with ueId := newUeId } else x.2.te2ue.lookup teid := by
    intro teid
    rw [updateUeIdRound_eq hue' hb hdata]
    refine lookup_round hdata ?_ ?_
    · intro hne
      rcases hdisj with rfl | rfl
      · exact absurd hdue hne
      · rfl
    · rcases hdisj with rfl | rfl <;> rfl
  have hmoved : (updateUeIdRound oldUeId newUeId x).2.te2ue.lookup b.teidIncoming =
      (s.te2ue.lookup b.teidIncoming).map ({ · with ueId := newUeId }) := by
    rw [hlookup, if_pos rfl, hd, Option.map_some]
  refine ⟨?_, ?_, ?_, ?_⟩
  · intro ue
    rw [updateUeIdRound_eq hue' hb hdata, StdMap.lookup_insert_eq]
    split
    · next heq => rw [heq, hue]
    · exact h.ue ue
  · intro id b' hid hb'
    by_cases hteid : b'.teidIncoming = b.teidIncoming
    · rw [hteid, hmoved]
    · rw [hlookup, if_neg hteid]
      have hne : id ≠ x.1.setWidth 64 := by
        rintro rfl
        rw [hb] at hb'
        cases hb'
        exact hteid rfl
      have hle : (updateUeIdRound oldUeId newUeId x).1.toNat ≤ x.1.toNat + 1 := by
        rw [updateUeIdRound_eq hue' hb hdata]
        exact toNat_add_one_le x.1
      have hne' : id.toNat ≠ x.1.toNat :=
        fun heq => hne (BitVec.eq_of_toNat_eq (heq.trans hkey.symm))
      exact h.done id b' (by omega) hb'
  · intro id b' hb'
    by_cases hteid : b'.teidIncoming = b.teidIncoming
    · rw [hteid]
      exact .inr hmoved
    · rw [hlookup, if_neg hteid]
      exact h.mine id b' hb'
  · intro teid hother
    rw [hlookup, if_neg (hother _ _ hb).symm]
    exact h.other teid hother

theorem updateUeId_effect {fuel : Nat} {r : Result} (hc : Consistent g s)
    (hmeets : ∀ bearers, s.ue2te.lookup oldUeId = some bearers →
      (∀ id : BearerKey, id ∈ bearers.keys ↔ id.toNat < StdMap.size bearers) ∧
        ∀ id, s.bearer newUeId id = none)
    (h : s.gtpv1uUpdateUeId fuel oldUeId newUeId = .ok (r, t)) :
    Unchanged s t ∨ Renamed s t oldUeId newUeId := by
  unfold gtpv1uUpdateUeId at h
  cases hue : s.ue2te.lookup oldUeId with
  | none =>
    rw [hue] at h
    cases h
    exact .inl ⟨fun _ _ => rfl, fun _ => rfl⟩
  | some bearers =>
    rw [hue] at h
    dsimp only at h
    obtain ⟨hkeys, habsent⟩ := hmeets bearers hue
    split at h
    · cases h
    · next i u hloop =>
      cases h
      have hstart : Moving s bearers newUeId (0, s) :=
        ⟨fun _ => rfl, fun _ _ hlt => absurd hlt (Nat.not_lt_zero _), fun _ _ _ => .inl rfl,
          fun _ _ => rfl⟩
      obtain ⟨hend, hcond⟩ := whileLoop.invariant (Moving s bearers newUeId) hstart
        (fun _ hx hmore => hx.step hc hue hkeys hmore) hloop
      have huold : u.ue2te.lookup oldUeId = some bearers := (hend.ue oldUeId).trans hue
      rw [moreBearers, huold, Option.getD_some, decide_eq_false_iff_not, Nat.not_lt] at hcond
      refine .inr ⟨habsent, ?_, ?_, ?_⟩
      · intro ue id
        rw [huold, Option.getD_some]
        unfold bearer
        rw [StdMap.lookup_erase_eq]
        split
        · rfl
        · rw [StdMap.lookup_insert_eq]
          split
          · rw [hue]
          · rw [hend.ue]
      · intro id b hb
        rw [bearer_of_lookup hue] at hb
        have hid := (hkeys id).mp (StdMap.mem_keys_iff.mpr ⟨b, hb⟩)
        exact hend.done id b (Nat.lt_of_lt_of_le hid hcond) hb
      · intro teid hother
        exact hend.other teid fun id b hb => hother id b ((bearer_of_lookup hue).trans hb)

end Loop

end Tables

section Frame

variable {op : Op}

theorem Undisturbed.of_added (hc : Consistent g s) (he : Added s t ueId key new data)
    (hop : op.Concerns ueId key) : Undisturbed op s t := by
  intro ue id hnot
  have hne : ¬ (ue = ueId ∧ id = key) := by
    rintro ⟨rfl, rfl⟩
    exact hnot hop
  refine ⟨by rw [he.bearer, if_neg hne], fun b hb => ?_⟩
  rw [he.entry, if_neg (hc.teid_ne_of_fresh he.fresh hb)]

theorem Undisturbed.of_readdressed (he : Readdressed s t ueId key old new)
    (hop : op.Concerns ueId key) : Undisturbed op s t := by
  intro ue id hnot
  refine ⟨?_, fun _ _ => he.entry _⟩
  rw [he.bearer, if_neg]
  rintro ⟨rfl, rfl⟩
  exact hnot hop

theorem Undisturbed.of_removed (hc : Consistent g s) (he : Removed s t P)
    (hop : ∀ ue id, P ue id → op.Concerns ue id) : Undisturbed op s t := by
  intro ue id hnot
  have hP : ¬ P ue id := fun h => hnot (hop _ _ h)
  exact ⟨he.bearer _ _ hP, fun b hb => hc.removed_lookup he hP hb⟩

theorem Undisturbed.of_renamed (hc : Consistent g s) (he : Renamed s t oldUeId newUeId)
    (hop : ∀ ue id, ue = oldUeId ∨ ue = newUeId → op.Concerns ue id) : Undisturbed op s t := by
  intro ue id hnot
  have hold : ue ≠ oldUeId := fun h => hnot (hop _ _ (.inl h))
  have hnew : ue ≠ newUeId := fun h => hnot (hop _ _ (.inr h))
  exact ⟨by rw [he.bearer, if_neg hold, if_neg hnew], fun b hb => hc.renamed_lookup he hold hb⟩

end Frame

theorem given_append (ls : List Event) (l : Event) (teid : Teid) :
    given (ls ++ [l]) teid = if l.2 = .teid teid then l.1.callbacks else given ls teid := by
  rw [given, List.foldl_append]
  rfl

variable {l : Event}

theorem given_append_of_ne {ls : List Event} (h : ∀ teid, l.2 ≠ .teid teid) :
    given (ls ++ [l]) = given ls := by
  funext teid
  rw [given_append, if_neg (h teid)]

variable {inst : EndPoint}

theorem Tables.result_ne_teid {fuel : Nat} {op : Op} {r : Result} (hop : op.callbacks = none)
    (h : s.exec inst fuel op = .ok (r, t)) (teid : Teid) : r ≠ .teid teid := by
  rintro rfl
  cases op with
  | createTunnel => cases hop
  | updateTunnel ueId bearerId addr teid' =>
    rw [exec, updateTunnelOutgoingAddressAndTeid] at h
    split at h <;> cases h
  | updateUeId oldUeId newUeId =>
    rw [exec, gtpv1uUpdateUeId] at h
    split at h
    · cases h
    · split at h <;> cases h
  | deleteOneTunnel ueId rbId =>
    rw [exec, newGtpuDeleteOneTunnel] at h
    split at h
    · cases h
    · split at h <;> cases h
  | deleteAllTunnels ueId =>
    rw [exec, newGtpuDeleteAllTunnels] at h
    split at h <;> cases h
  | deleteS1uTunnel rnti ids =>
    rw [exec, gtpv1uDeleteS1uTunnel] at h
    split at h <;> cases h

inductive Effect (l : Event) (s t : Tables) : Prop
  | added {ueId : UeId} {key : BearerKey} {new : Bearer} {data : UeidData}
      (he : Added s t ueId key new data) (hop : l.1.Concerns ueId key)
      (hr : l.2 = .teid new.teidIncoming) (hz : new.teidIncoming ≠ 0) (hue : data.ueId = ueId)
      (hout : data.outgoingTeid = new.teidOutgoing) (hcb : l.1.callbacks = some data.toCallbacks)
      (hid : data.pdusessionId = pdusessionOf key)
  | removed {P : UeId → BearerKey → Prop} (he : Removed s t P)
      (hop : ∀ ue id, P ue id → l.1.Concerns ue id) (hr : ∀ teid, l.2 ≠ .teid teid)
  | renamed {oldUeId newUeId : UeId} (he : Renamed s t oldUeId newUeId)
      (hop : ∀ ue id, ue = oldUeId ∨ ue = newUeId → l.1.Concerns ue id)
      (hr : ∀ teid, l.2 ≠ .teid teid)
  | readdressed {ueId : UeId} {key : BearerKey} {old new : Bearer}
      (he : Readdressed s t ueId key old new) (hop : l.1.Concerns ueId key)
      (hr : ∀ teid, l.2 ≠ .teid teid)

theorem Effect.unchanged (he : Unchanged s t) (hr : ∀ teid, l.2 ≠ .teid teid) :
    Effect l s t := .removed he.removed (by rintro _ _ ⟨⟩) hr

theorem GoodStep.effect (hc : Consistent g s) (h : GoodStep inst s l t) :
    Effect l s t := by
  obtain ⟨⟨fuel, hexec⟩, hmeets⟩ := h
  obtain ⟨op, r⟩ := l
  dsimp only at hexec hmeets
  have hr : op.callbacks = none → ∀ teid, r ≠ .teid teid := fun hop =>
    Tables.result_ne_teid hop hexec
  cases op with
  | createTunnel ueId incomingBearerId outgoingBearerId outgoingTeid remoteAddr callbacks draws =>
    obtain ⟨new, data, he, hteid, hz, hue, hout, rfl, hid⟩ :=
      Tables.newGtpuCreateTunnel_effect hmeets hexec
    exact .added he ⟨rfl, rfl⟩ hteid hz hue hout rfl hid
  | updateTunnel ueId bearerId addr teid =>
    obtain rfl : _ = t := congrArg Prod.snd (Except.ok.inj hexec)
    rcases Tables.updateTunnel_effect hmeets with he | ⟨old, new, he⟩
    · exact .unchanged he (hr rfl)
    · exact .readdressed he ⟨rfl, rfl⟩ (hr rfl)
  | updateUeId oldUeId newUeId =>
    rcases Tables.updateUeId_effect hc hmeets hexec with he | he
    · exact .unchanged he (hr rfl)
    · exact .renamed he (fun _ _ h => h) (hr rfl)
  | deleteOneTunnel ueId rbId =>
    obtain rfl : _ = t := congrArg Prod.snd (Except.ok.inj hexec)
    exact .removed (Tables.deleteOneTunnel_effect s ueId rbId) (fun _ _ h => h) (hr rfl)
  | deleteAllTunnels ueId =>
    obtain rfl : _ = t := congrArg Prod.snd (Except.ok.inj hexec)
    exact .removed (Tables.deleteAllTunnels_effect s ueId) (fun _ _ h => h) (hr rfl)
  | deleteS1uTunnel rnti ids =>
    obtain rfl : _ = t := congrArg Prod.snd (Except.ok.inj hexec)
    exact .unchanged (Tables.deleteS1uTunnel_effect hmeets) (hr rfl)

theorem Consistent.step {ls : List Event} (hc : Consistent (given ls) s) (h : GoodStep inst s l t) :
    Consistent (given (ls ++ [l])) t ∧ Undisturbed l.1 s t := by
  cases h.effect hc with
  | added he hop hr hz hue hout hcb hid =>
    refine ⟨hc.added he hz hue hout fun teid => ?_, .of_added hc he hop⟩
    rw [given_append, hcb, hr]
    simp only [Result.teid.injEq, eq_comm]
  | removed he hop hr =>
    rw [given_append_of_ne hr]
    exact ⟨hc.removed he, .of_removed hc he hop⟩
  | renamed he hop hr =>
    rw [given_append_of_ne hr]
    exact ⟨hc.renamed he, .of_renamed hc he hop⟩
  | readdressed he hop hr =>
    rw [given_append_of_ne hr]
    exact ⟨hc.readdressed he, .of_readdressed he hop⟩

theorem Consistent.empty (g : Teid → Option Callbacks) : Consistent g {} where
  entry_of_bearer := by rintro _ _ _ ⟨⟩
  bearer_of_entry := by rintro _ _ ⟨⟩
  injective := by rintro _ _ _ _ _ _ ⟨⟩
  teid_ne_zero := by rintro _ _ ⟨⟩
  callbacks := by rintro _ _ ⟨⟩

/-- In every run whose operations meet their conditions the tables agree, and the next operation
leaves all other bearers and their entries as they are. -/
theorem tables_of_run (inst : EndPoint) (ls : List Event) (s : Tables)
    (hrun : Run (GoodStep inst) {} ls s) :
    Consistent (given ls) s ∧ ∀ l t, GoodStep inst s l t → Undisturbed l.1 s t := by
  have hc : Consistent (given ls) s :=
    hrun.trace_invariant (fun ls s => Consistent (given ls) s) (.empty _) fun _ _ _ _ hc h =>
      (hc.step h).1
  exact ⟨hc, fun l t h => (hc.step h).2⟩

def loopback : TransportLayerAddr where
  length := 32
  buffer := .ofFn fun i => if i = 0 then 127 else if i = 3 then 1 else 0

def localEndPoint : EndPoint where
  handle := 7
  dstPort := 2152
  ipVersion := 4
  foundAddr := loopback.buffer

def createDrb1 : Op :=
  .createTunnel 1 1 1 9 loopback { callBack := some 0 } [⟨4, 0⟩]

def createDrb2 : Op :=
  .createTunnel 1 2 2 10 loopback { callBack := some 1 } [⟨6, 0⟩]

def deleteDrb1 : Op := .deleteOneTunnel 1 1

def after (fuel : Nat) (ops : List Op) : Tables :=
  ops.foldl (fun s op =>
    match s.exec localEndPoint fuel op with
    | .ok (_, t) => t
    | .error _ => s) {}

theorem step_createDrb1 :
    Step localEndPoint {} (createDrb1, .teid 5) (after 0 [createDrb1]) := ⟨0, rfl⟩

theorem step_createDrb2 : Step localEndPoint (after 0 [createDrb1]) (createDrb2, .teid 7)
    (after 0 [createDrb1, createDrb2]) := ⟨0, rfl⟩

/-- Two bearers of one UE are created and the first deleted. -/
theorem tables_of_run_deleteDrb1 :
    ∃ s t ls, Run (GoodStep localEndPoint) {} ls s ∧ ls.length = 2 ∧
      GoodStep localEndPoint s (deleteDrb1, .ok) t ∧ t.te2ue.lookup 5 = none ∧
      (∃ ue id b, s.bearer ue id = some b ∧ b.teidIncoming = 7) ∧
      t.bearer 1 2 = s.bearer 1 2 := by
  have hrun : Run (GoodStep localEndPoint) {} [(createDrb1, .teid 5), (createDrb2, .teid 7)]
      (after 0 [createDrb1, createDrb2]) :=
    .cons ⟨step_createDrb1, rfl⟩ (.cons ⟨step_createDrb2, rfl⟩ .nil)
  have hdelete : GoodStep localEndPoint (after 0 [createDrb1, createDrb2]) (deleteDrb1, .ok)
      (after 0 [createDrb1, createDrb2, deleteDrb1]) := ⟨⟨0, rfl⟩, trivial⟩
  have h := tables_of_run _ _ _ hrun
  refine ⟨_, _, _, hrun, rfl, hdelete, by decide, h.1.bearer_of_entry 7 _ rfl,
    (h.2 _ _ hdelete 1 2 fun h => absurd h.2 (by decide)).1⟩

/-- The new number of a UE with DRB 1 comes with a bearer 0 and an entry for TEID 0. -/
theorem not_forall_tables : ¬ ∀ (inst : EndPoint) (ls : List Event) (s : Tables),
    Run (Step inst) {} ls s →
      Consistent (given ls) s ∧ ∀ l t, Step inst s l t → Undisturbed l.1 s t := by
  intro hclaim
  have hupdate : Step localEndPoint (after 0 [createDrb1]) (.updateUeId 1 2, .ok)
      (after 3 [createDrb1, .updateUeId 1 2]) := ⟨3, rfl⟩
  have hrun := Run.cons step_createDrb1 (.cons hupdate .nil)
  have hzero : (after 3 [createDrb1, .updateUeId 1 2]).te2ue.lookup 0 = some {} := by decide
  exact (hclaim _ _ _ hrun).1.teid_ne_zero 0 _ hzero rfl

end OpenAir.Gtpu

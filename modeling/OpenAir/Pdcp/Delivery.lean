import OpenAir.Pdcp.Count
import OpenAir.Pdcp.ReceiveLaws

namespace OpenAir.Pdcp

open List

def Op.receives : Op → Bool
  | .recvPdu _ => true
  | .setTime _ => true
  | _ => false

variable {sec : Security} {c : Config}

def delivered (ls : List (Op × Output)) : List Sdu := ls.flatMap (·.2.delivered)

def acceptedSdus (ls : List (Op × Output)) : List Sdu := ls.flatMap (·.2.accepted.toList)

namespace Entity

variable {e e' e₀ : Entity} {s : Sdu} {pdu : List Byte} {ls : List (Op × Output)}

def noWrap (sec : Security) (c : Config) (e : Entity) : Op → Bool
  | .recvPdu pdu => (e.accepted sec c pdu).all fun s => s.count ≠ 0xffffffff
  | _ => true

structure Authentic (sec : Security) (c : Config) (e : Entity) (pdu : List Byte) (s : Sdu) :
    Prop where
  sn : s.count.toNat % 2 ^ c.snSize = rcvdSn c (setDcBit c pdu)
  buffer : s.buffer = ((e.deciphered sec c s.count (setDcBit c pdu)).take
    (pdu.length - e.integritySize c)).drop c.headerSize
  mac : e.hasIntegrity = true →
    sec.integrity e.integrityContext ((e.deciphered sec c s.count (setDcBit c pdu)).take
        (pdu.length - 4)) c.rbId s.count c.rxDirection =
      (e.deciphered sec c s.count (setDcBit c pdu)).drop (pdu.length - 4)

theorem length_setDcBit (c : Config) (pdu : List Byte) : (setDcBit c pdu).length = pdu.length := by
  cases pdu <;> rfl

theorem length_deciphered (e : Entity) (n : UInt32) (buffer : List Byte) :
    (e.deciphered sec c n buffer).length = buffer.length := by
  unfold deciphered
  split
  · simp only [length_append, sec.length_decipher, length_take, length_drop]
    omega
  · rfl

theorem authentic_of_decode (h : e.decode sec c pdu = some s) : e.Authentic sec c pdu s := by
  unfold decode at h
  split at h
  · cases h
  · split at h
    · cases h
    · dsimp only at h
      split at h
      · cases h
      · split at h
        · next hmac =>
          cases h
          refine ⟨rcvdCount_mod (rcvdSn_lt c _), ?_, fun hi => ?_⟩
          · rw [length_deciphered, length_setDcBit]
          · have hsize : e.integritySize c = 4 := by simp [integritySize, hi]
            simpa [macPasses, hi, hsize, length_deciphered, length_setDcBit] using hmac
        · cases h

def SameSecurity (e e' : Entity) : Prop :=
  e'.hasCiphering = e.hasCiphering ∧ e'.hasIntegrity = e.hasIntegrity ∧
    e'.securityContext = e.securityContext ∧ e'.integrityContext = e.integrityContext

theorem Authentic.congr (hs : SameSecurity e e') (h : e.Authentic sec c pdu s) :
    e'.Authentic sec c pdu s := by
  obtain ⟨h₁, h₂, h₃, h₄⟩ := hs
  obtain ⟨hsn, hbuffer, hmac⟩ := h
  have hdec : e'.deciphered sec c = e.deciphered sec c := by
    unfold deciphered
    rw [h₁, h₃]
  exact ⟨hsn, by simpa only [hdec, integritySize, h₂] using hbuffer,
    by simpa only [hdec, h₂, h₄] using hmac⟩

theorem SameSecurity.refl (e : Entity) : SameSecurity e e := ⟨rfl, rfl, rfl, rfl⟩

theorem SameSecurity.trans {e₁ e₂ e₃ : Entity} (h : SameSecurity e₁ e₂) (h' : SameSecurity e₂ e₃) :
    SameSecurity e₁ e₃ :=
  ⟨h'.1.trans h.1, h'.2.1.trans h.2.1, h'.2.2.1.trans h.2.2.1, h'.2.2.2.trans h.2.2.2⟩

theorem sameSecurity_startTReordering (e : Entity) : SameSecurity e e.startTReordering := by
  unfold startTReordering
  split <;> exact .refl e

theorem sameSecurity_stopTReordering (e : Entity) : SameSecurity e e.stopTReordering := by
  unfold stopTReordering
  split <;> exact .refl e

theorem sameSecurity_recvPdu (e : Entity) (pdu : List Byte) :
    SameSecurity e (e.recvPdu sec c pdu).1 := by
  rw [recvPdu_eq]
  cases e.accepted sec c pdu with
  | none => exact .refl e
  | some s =>
    have hstore : SameSecurity e (e.storeDeliver s).1 := by
      unfold storeDeliver
      split <;> exact .refl e
    exact (hstore.trans (sameSecurity_stopTReordering _)).trans (sameSecurity_startTReordering _)

theorem sameSecurity_setTime (e : Entity) (now : UInt64) : SameSecurity e (e.setTime c now).1 := by
  rcases setTime_cases c e now with heq | ⟨-, -, heq⟩ <;> rw [heq]
  · exact .refl e
  · exact sameSecurity_startTReordering (stopped { e with tCurrent := now } |>.deliver e.rxReord).1

structure InOrder (sec : Security) (c : Config) (ls : List (Op × Output)) (e : Entity) :
    Prop where
  reordering : e.Reordering
  sorted : Ascending (delivered ls)
  before : ∀ s ∈ delivered ls, s.count < e.rxDeliv
  perm : (delivered ls ++ e.rxList).Perm (acceptedSdus ls)
  authentic : ∀ l ∈ ls, ∀ s, l.2.accepted = some s →
    ∃ pdu, l.1 = .recvPdu pdu ∧ e.Authentic sec c pdu s

theorem InOrder.step {l : Op × Output} (h : InOrder sec c ls e) (hs : Step sec c e l e')
    (hop : l.1.receives) (hwrap : e.noWrap sec c l.1) :
    InOrder sec c (ls ++ [l]) e' := by
  have key (acc : Option Sdu) (hacc : l.2.accepted = acc) (hre : e'.Reordering)
      (hd : Delivers e e' acc l.2.delivered) (hsame : SameSecurity e e')
      (hauth : ∀ s, acc = some s → ∃ pdu, l.1 = .recvPdu pdu ∧ e.Authentic sec c pdu s) :
      InOrder sec c (ls ++ [l]) e' := by
    have hdel : delivered (ls ++ [l]) = delivered ls ++ l.2.delivered := by simp [delivered]
    have haccs : acceptedSdus (ls ++ [l]) = acceptedSdus ls ++ acc.toList := by
      simp [acceptedSdus, hacc]
    refine ⟨hre, ?_, ?_, ?_, ?_⟩
    · rw [hdel]
      refine pairwise_append.mpr ⟨h.sorted, hd.sorted, fun s hs t ht => ?_⟩
      exact UInt32.lt_of_lt_of_le (h.before s hs) (hd.between t ht).1
    · intro s hs
      rw [hdel] at hs
      rcases mem_append.mp hs with hs | hs
      · exact UInt32.lt_of_lt_of_le (h.before s hs) hd.deliv_le
      · exact (hd.between s hs).2
    · rw [hdel, haccs, append_assoc]
      refine (hd.perm.append_left _).trans ((perm_append_comm.append_left _).trans ?_)
      rw [← append_assoc]
      exact h.perm.append_right _
    · intro l' hl' s hs
      rcases mem_append.mp hl' with hl' | hl'
      · obtain ⟨pdu, hpdu, ha⟩ := h.authentic l' hl' s hs
        exact ⟨pdu, hpdu, ha.congr hsame⟩
      · rw [mem_singleton.mp hl'] at hs ⊢
        obtain ⟨pdu, hpdu, ha⟩ := hauth s (hacc ▸ hs)
        exact ⟨pdu, hpdu, ha.congr hsame⟩
  obtain ⟨op, out⟩ := l
  cases op with
  | recvPdu pdu =>
    cases hs
    have hwrap' : ∀ s, e.accepted sec c pdu = some s → s.count ≠ 0xffffffff := fun s hacc => by
      simpa [noWrap, hacc] using hwrap
    obtain ⟨hre, hd⟩ := h.reordering.recvPdu hwrap'
    exact key _ rfl hre hd (sameSecurity_recvPdu e pdu) fun s hacc =>
      ⟨pdu, rfl, authentic_of_decode (accepted_eq_some.mp hacc).1⟩
  | setTime now =>
    cases hs
    obtain ⟨hre, hd⟩ := h.reordering.setTime now (c := c)
    exact key none rfl hre hd (sameSecurity_setTime e now) nofun
  | processSdu => cases hop
  | setSecurity => cases hop
  | suspend => cases hop
  | reestablish => cases hop
  | setCountUl => cases hop
  | setCountDl => cases hop
  | release => cases hop

theorem reordering_new {parameters : SecurityKeysAndAlgos} (h : Entity.new parameters = some e₀) :
    e₀.Reordering := by
  obtain ⟨_, _, _, rfl⟩ := setSecurity_eq h
  exact ⟨⟨.nil, by simp, UInt32.le_refl _⟩, fun hrun => absurd rfl hrun⟩

/-- A receiver delivers the accepted SDUs in the order of their COUNTs, each once; what it has not
delivered is still in `rx_list`. -/
theorem delivered_in_order {parameters : SecurityKeysAndAlgos}
    (hnew : Entity.new parameters = some e₀)
    (h : Run (fun s l t => Step sec c s l t ∧ l.1.receives = true ∧ s.noWrap sec c l.1 = true)
      e₀ ls e) :
    Ascending (delivered ls) ∧
      (∀ s ∈ delivered ls, ∃ pdu out, (.recvPdu pdu, out) ∈ ls ∧ out.accepted = some s ∧
        e.Authentic sec c pdu s) ∧
      (delivered ls ++ e.rxList).Perm (acceptedSdus ls) := by
  have hinv : InOrder sec c ls e :=
    h.trace_invariant (InOrder sec c) ⟨reordering_new hnew, .nil, by simp [delivered], ?_, by simp⟩
      fun _ _ _ _ hi hs => hi.step hs.1 hs.2.1 hs.2.2
  · refine ⟨hinv.sorted, fun s hs => ?_, hinv.perm⟩
    have hmem : s ∈ acceptedSdus ls := hinv.perm.mem_iff.mp (mem_append_left _ hs)
    obtain ⟨⟨op, out⟩, hl, hout⟩ := mem_flatMap.mp hmem
    have hout := Option.mem_toList.mp hout
    obtain ⟨pdu, rfl, ha⟩ := hinv.authentic _ hl s hout
    exact ⟨pdu, out, hl, hout, ha⟩
  · obtain ⟨_, _, _, rfl⟩ := setSecurity_eq hnew
    exact .refl _

theorem delivered_in_order_expiry :
    ∃ e₀ ls e, Entity.new .small = some e₀ ∧
      Run (fun s l t => Step .small (.small false) s l t ∧ l.1.receives = true ∧
        s.noWrap .small (.small false) l.1 = true) e₀ ls e ∧
      (delivered ls).map (fun s => (s.count, s.buffer)) =
        [(0, [7, 10]), (1, [7, 11]), (3, [7, 13])] ∧
      Ascending (delivered ls) := by
  have hobs : ((Entity.new .small).bind fun e₀ =>
      (execList (exec .small (.small false))
        (fun e op => op.receives && e.noWrap .small (.small false) op) e₀
        [.setTime 1, .recvPdu [128, 1, 7, 80, 207, 207, 207, 207],
          .recvPdu [128, 0, 7, 80, 203, 203, 203, 203],
          .recvPdu [128, 3, 7, 84, 195, 195, 195, 195], .setTime 200]).map fun r =>
        (delivered r.2).map fun s => (s.count, s.buffer)) =
      some [(0, [7, 10]), (1, [7, 11]), (3, [7, 13])] := by decide
  obtain ⟨e₀, hnew, hobs⟩ := Option.bind_eq_some_iff.mp hobs
  obtain ⟨⟨e, ls⟩, hrun, heq⟩ := Option.map_eq_some_iff.mp hobs
  have hrun' : Run (fun s l t => Step .small (.small false) s l t ∧ l.1.receives = true ∧
      s.noWrap .small (.small false) l.1 = true) e₀ ls e :=
    (execList_run hrun).mono fun _ _ _ hs => ⟨hs.1, Bool.and_eq_true_iff.mp hs.2⟩
  exact ⟨e₀, ls, e, hnew, hrun', heq, (delivered_in_order hnew hrun').1⟩

end Entity

end OpenAir.Pdcp

import Mathlib
import OpenAir.Lib.Bits

/-! Uplink packet classification by the QoS rules of a UE, `nr_sdap_qos_rule.c`. -/

namespace OpenAir.Sdap

open List

inductive PfDirection where
  | reserved
  | downlink
  | uplink
  | bidirectional
  deriving DecidableEq

/-- `other` are the types that are never matched. Octet `i` of an IPv6 address is `addr i`; a
prefix longer than the address makes `ipv6_match` read behind it. -/
inductive PfComponent where
  | matchAll
  | ipv4RemoteAddr (addr mask : BitVec 32)
  | ipv4LocalAddr (addr mask : BitVec 32)
  | ipv6RemoteAddrPrefix (addr : Nat → Byte) (prefixLen : Fin 129)
  | ipv6LocalAddrPrefix (addr : Nat → Byte) (prefixLen : Fin 129)
  | protocolIdNextHdr (protocol : Byte)
  | singleRemotePort (port : Nat)
  | singleLocalPort (port : Nat)
  | remotePortRange (low high : Nat)
  | localPortRange (low high : Nat)
  | other

structure PacketFilter where
  pfId : Nat
  direction : PfDirection
  components : List PfComponent

def PfDirection.ul (d : PfDirection) : Bool := d = .uplink || d = .bidirectional

/-- What is read of an IP header; addresses are pairs of source and destination. -/
structure IpFields where
  ip4 : Option (BitVec 32 × BitVec 32) := none
  ip6 : Option ((Nat → Byte) × (Nat → Byte)) := none
  protocol : Byte
  transportHdr : Nat

def addressAt (pkt : List Byte) (i : Nat) : BitVec 32 :=
  pkt.getD i 0 ++ pkt.getD (i + 1) 0 ++ pkt.getD (i + 2) 0 ++ pkt.getD (i + 3) 0

def portAt (pkt : List Byte) (i : Nat) : Nat :=
  (pkt.getD i 0).toNat * 256 + (pkt.getD (i + 1) 0).toNat

/-- `none` where `packet_filter_match` returns false for the header. -/
def ipFields (pkt : List Byte) : Option IpFields :=
  let version := (pkt.getD 0 0).toNat / 16
  let ihl := (pkt.getD 0 0).toNat % 16
  if pkt.length < 20 then none
  else if version = 4 then
    if ihl < 5 ∨ ihl * 4 > pkt.length then none
    else some {
      ip4 := some (addressAt pkt 12, addressAt pkt 16)
      protocol := pkt.getD 9 0
      transportHdr := ihl * 4 }
  else if version = 6 then
    if pkt.length < 40 then none
    else some {
      ip6 := some (fun i => pkt.getD (8 + i) 0, fun i => pkt.getD (24 + i) 0)
      protocol := pkt.getD 6 0
      transportHdr := 40 }
  else none

def IpFields.ports (x : IpFields) (pkt : List Byte) : Option (Nat × Nat) :=
  if (x.protocol = 6 ∨ x.protocol = 17) ∧ x.transportHdr + 4 ≤ pkt.length then
    some (portAt pkt x.transportHdr, portAt pkt (x.transportHdr + 2))
  else none

def remoteEnd {α : Type*} (ul : Bool) (p : α × α) : α := if ul then p.2 else p.1

def localEnd {α : Type*} (ul : Bool) (p : α × α) : α := if ul then p.1 else p.2

def ipv4Match (pktAddr filterAddr mask : BitVec 32) : Bool :=
  pktAddr &&& mask == filterAddr &&& mask

def ipv6Match (pktAddr filterAddr : Nat → Byte) (prefixLen : Nat) : Bool :=
  let bytes := prefixLen / 8
  let bits := prefixLen % 8
  let mask := (0xff : Byte) <<< (8 - bits)
  (List.range bytes).all (fun i => pktAddr i == filterAddr i) &&
    (bits == 0 || pktAddr bytes &&& mask == filterAddr bytes &&& mask)

def PfComponent.accepts (ul : Bool) (x : IpFields) (ports : Nat × Nat) : PfComponent → Bool
  | .matchAll => true
  | .ipv4RemoteAddr addr mask => x.ip4.any fun p => ipv4Match (remoteEnd ul p) addr mask
  | .ipv4LocalAddr addr mask => x.ip4.any fun p => ipv4Match (localEnd ul p) addr mask
  | .ipv6RemoteAddrPrefix addr n => x.ip6.any fun p => ipv6Match (remoteEnd ul p) addr n
  | .ipv6LocalAddrPrefix addr n => x.ip6.any fun p => ipv6Match (localEnd ul p) addr n
  | .protocolIdNextHdr protocol => x.protocol == protocol
  | .singleRemotePort port => remoteEnd ul ports == port
  | .singleLocalPort port => localEnd ul ports == port
  | .remotePortRange low high => low ≤ remoteEnd ul ports && remoteEnd ul ports ≤ high
  | .localPortRange low high => low ≤ localEnd ul ports && localEnd ul ports ≤ high
  | .other => false

/-- Ports that are not there are 0. -/
def packetFilterMatch (pf : PacketFilter) (pkt : List Byte) : Bool :=
  !pf.components.isEmpty && (ipFields pkt).any fun x =>
    pf.components.all (PfComponent.accepts pf.direction.ul x ((x.ports pkt).getD (0, 0)))

structure QosRule where
  qfi : Nat
  ruleId : Nat
  precedence : Nat
  isDefault : Bool
  packetFilters : List PacketFilter

structure QosRules where
  rules : List QosRule := []
  qfi : Nat
  usePacketFilters : Bool := false

def QosRule.matchesUl (rule : QosRule) (pkt : List Byte) : Bool :=
  !rule.isDefault && rule.packetFilters.any fun f => f.direction.ul && packetFilterMatch f pkt

def nrSdapMatchUlPacket (t : QosRules) (pkt : List Byte) : Nat :=
  ((t.rules.find? fun rule => rule.matchesUl pkt).map (·.qfi)).getD t.qfi

def maxNumSdapQosRules : Nat := 64

inductive QosRuleOp where
  | add (rule : QosRule)
  | remove (ruleId : Nat)
  | update (ruleId qfi precedence : Nat) (isDefault : Bool) (pfList : List PacketFilter)
      (replace : Bool)
  | deletePf (ruleId : Nat) (pfIds : List Nat)

def findQosRule (rules : List QosRule) (ruleId : Nat) : Option Nat :=
  rules.findIdx? fun rule => rule.ruleId == ruleId

/-- The calls; `qsort` puts rules of the same precedence in some order. -/
def QosRules.exec (qsort : List QosRule → List QosRule) (t : QosRules) : QosRuleOp → QosRules
  | .add rule =>
    if maxNumSdapQosRules ≤ t.rules.length then t
    else
      { rules := qsort (t.rules ++ [rule])
        qfi := if rule.isDefault then rule.qfi else t.qfi
        usePacketFilters := true }
  | .remove ruleId =>
    let rules := (findQosRule t.rules ruleId).elim t.rules t.rules.eraseIdx
    { t with rules, usePacketFilters := t.usePacketFilters && !rules.isEmpty }
  | .update ruleId qfi precedence isDefault pfList replace =>
    match findQosRule t.rules ruleId with
    | none => t
    | some i =>
      { t with
        rules := qsort (t.rules.modify i fun rule =>
          { rule with
            qfi, precedence, isDefault
            packetFilters := if replace then pfList else rule.packetFilters ++ pfList })
        qfi := if isDefault then qfi else t.qfi }
  | .deletePf ruleId pfIds =>
    match findQosRule t.rules ruleId with
    | none => t
    | some i =>
      { t with rules := t.rules.modify i fun rule =>
          { rule with packetFilters :=
              pfIds.foldl (fun fs id => fs.eraseP fun f => f.pfId == id) rule.packetFilters } }

structure SortsRules (qsort : List QosRule → List QosRule) : Prop where
  perm : ∀ l, (qsort l).Perm l
  sorted : ∀ l, ((qsort l).map (·.precedence)).Pairwise (· ≤ ·)

def SamePrefix (n : Nat) (a b : Nat → Byte) : Prop :=
  ∀ i < n, (a (i / 8)).getLsbD (7 - i % 8) = (b (i / 8)).getLsbD (7 - i % 8)

def PfComponent.Satisfied (ul : Bool) (x : IpFields) (ports : Option (Nat × Nat)) :
    PfComponent → Prop
  | .matchAll => True
  | .ipv4RemoteAddr addr mask => ∃ p ∈ x.ip4, ∀ i, mask.getLsbD i = true →
      (remoteEnd ul p).getLsbD i = addr.getLsbD i
  | .ipv4LocalAddr addr mask => ∃ p ∈ x.ip4, ∀ i, mask.getLsbD i = true →
      (localEnd ul p).getLsbD i = addr.getLsbD i
  | .ipv6RemoteAddrPrefix addr n => ∃ p ∈ x.ip6, SamePrefix n (remoteEnd ul p) addr
  | .ipv6LocalAddrPrefix addr n => ∃ p ∈ x.ip6, SamePrefix n (localEnd ul p) addr
  | .protocolIdNextHdr protocol => x.protocol = protocol
  | .singleRemotePort port => ∃ p ∈ ports, remoteEnd ul p = port
  | .singleLocalPort port => ∃ p ∈ ports, localEnd ul p = port
  | .remotePortRange low high => ∃ p ∈ ports, low ≤ remoteEnd ul p ∧ remoteEnd ul p ≤ high
  | .localPortRange low high => ∃ p ∈ ports, low ≤ localEnd ul p ∧ localEnd ul p ≤ high
  | .other => False

def PacketFilter.Satisfied (pf : PacketFilter) (pkt : List Byte) : Prop :=
  ∃ x ∈ ipFields pkt, ∀ c ∈ pf.components, c.Satisfied pf.direction.ul x (x.ports pkt)

def QosRule.Applies (rule : QosRule) (pkt : List Byte) : Prop :=
  rule.isDefault = false ∧ ∃ f ∈ rule.packetFilters, f.direction.ul = true ∧ f.Satisfied pkt

def Classifies (t : QosRules) (pkt : List Byte) (qfi : Nat) : Prop :=
  (∃ rule ∈ t.rules, rule.Applies pkt ∧ rule.qfi = qfi ∧
    ∀ rule' ∈ t.rules, rule'.Applies pkt → rule.precedence ≤ rule'.precedence) ∨
  (∀ rule ∈ t.rules, ¬ rule.Applies pkt) ∧ qfi = t.qfi

def UlRight (t : QosRules) (pkt : List Byte) : Prop :=
  Classifies t pkt (nrSdapMatchUlPacket t pkt) ∧ ∀ rule ∈ t.rules, ∀ f ∈ rule.packetFilters,
    (packetFilterMatch f pkt = true ↔ f.Satisfied pkt)

def PfComponent.isPort : PfComponent → Bool
  | .singleRemotePort _ | .singleLocalPort _ | .remotePortRange _ _ | .localPortRange _ _ => true
  | _ => false

/-- The filter has a component, and if it asks for a port that the packet does not have, a packet
with both ports 0 would not satisfy it. -/
def PacketFilter.ReadsWell (pf : PacketFilter) (pkt : List Byte) : Prop :=
  ∀ x ∈ ipFields pkt, pf.components ≠ [] ∧
    (x.ports pkt = none → (∃ c ∈ pf.components, c.isPort = true) →
      ∃ c ∈ pf.components, ¬ c.Satisfied pf.direction.ul x (some (0, 0)))

theorem and_eq_and_iff {w : Nat} {a b mask : BitVec w} :
    a &&& mask = b &&& mask ↔ ∀ i, mask.getLsbD i → a.getLsbD i = b.getLsbD i := by
  constructor
  · intro h i hi
    simpa [hi] using congrArg (·.getLsbD i) h
  · intro h
    refine BitVec.eq_of_getLsbD_eq fun i _ => ?_
    rw [BitVec.getLsbD_and, BitVec.getLsbD_and]
    cases hm : mask.getLsbD i with
    | false => simp
    | true => rw [h i hm]

theorem ipv6Match_iff {a b : Nat → Byte} {n : Nat} : ipv6Match a b n ↔ SamePrefix n a b := by
  have hmask (k : Nat) :
      ((0xff : Byte) <<< (8 - n % 8)).getLsbD k ↔ 8 - n % 8 ≤ k ∧ k < 8 := by
    rw [BitVec.getLsbD_shiftLeft, show (0xff : Byte) = BitVec.allOnes 8 from rfl,
      BitVec.getLsbD_allOnes]
    simp
    omega
  simp only [ipv6Match, Bool.and_eq_true, all_eq_true, mem_range, beq_iff_eq,
    Bool.or_eq_true, and_eq_and_iff, hmask]
  constructor
  · rintro ⟨hbytes, hbits⟩ i hi
    rcases Nat.lt_or_ge (i / 8) (n / 8) with hlt | hge
    · rw [hbytes _ hlt]
    · rw [show i / 8 = n / 8 by omega]
      rcases hbits with h₀ | hbits
      · omega
      · exact hbits _ (by omega)
  · intro h
    refine ⟨fun i hi => BitVec.eq_of_getLsbD_eq fun k hk => ?_,
      or_iff_not_imp_left.mpr fun _ k hk => ?_⟩
    · have := h (8 * i + (7 - k)) (by omega)
      rwa [show (8 * i + (7 - k)) / 8 = i by omega,
        show 7 - (8 * i + (7 - k)) % 8 = k by omega] at this
    · have := h (8 * (n / 8) + (7 - k)) (by omega)
      rwa [show (8 * (n / 8) + (7 - k)) / 8 = n / 8 by omega,
        show 7 - (8 * (n / 8) + (7 - k)) % 8 = k by omega] at this

namespace PfComponent

variable {ul : Bool} {x : IpFields} {c : PfComponent}

theorem accepts_iff (p : Nat × Nat) : c.accepts ul x p ↔ c.Satisfied ul x (some p) := by
  cases c <;>
    simp [accepts, Satisfied, ipv4Match, and_eq_and_iff, ipv6Match_iff, Option.any_eq_true]

theorem satisfied_congr (h : c.isPort = false) (o o' : Option (Nat × Nat)) :
    c.Satisfied ul x o ↔ c.Satisfied ul x o' := by
  cases c <;> first | rfl | cases h

theorem not_satisfied_none (h : c.isPort) : ¬ c.Satisfied ul x none := by
  cases c <;> simp_all [Satisfied, isPort]

end PfComponent

theorem packetFilterMatch_exact_iff {pf : PacketFilter} {pkt : List Byte} :
    (packetFilterMatch pf pkt ↔ pf.Satisfied pkt) ↔ pf.ReadsWell pkt := by
  unfold packetFilterMatch PacketFilter.Satisfied PacketFilter.ReadsWell
  cases hx : ipFields pkt with
  | none => simp
  | some x =>
    simp only [Option.any_some, Option.mem_some_iff, exists_eq_left', forall_eq', Bool.and_eq_true,
      Bool.not_eq_true', isEmpty_eq_false_iff, all_eq_true, PfComponent.accepts_iff]
    have hnil : pf.components = [] → ∀ (P : PfComponent → Prop), ∀ c ∈ pf.components, P c := by
      intro h P c hc
      rw [h] at hc
      cases hc
    cases hp : x.ports pkt with
    | some p =>
      simp only [Option.getD_some, reduceCtorEq, false_implies, and_true]
      exact ⟨fun h hc => (h.mpr (hnil hc _)).1 hc, fun h => and_iff_right h⟩
    | none =>
      simp only [Option.getD_none, true_implies]
      by_cases hport : ∃ c ∈ pf.components, c.isPort
      · obtain ⟨c, hc, hcp⟩ := hport
        have hne : pf.components ≠ [] := ne_nil_of_mem hc
        have hno : ¬ ∀ c ∈ pf.components, c.Satisfied pf.direction.ul x none :=
          fun h => PfComponent.not_satisfied_none hcp (h c hc)
        have hex : ∃ c ∈ pf.components, c.isPort := ⟨c, hc, hcp⟩
        simp only [hne, hno, hex, ne_eq, not_false_eq_true, true_and, iff_false, true_implies]
        simp
      · have hsame : (∀ c ∈ pf.components, c.Satisfied pf.direction.ul x (some (0, 0))) ↔
            ∀ c ∈ pf.components, c.Satisfied pf.direction.ul x none := by
          refine forall₂_congr fun c hc => PfComponent.satisfied_congr ?_ _ _
          exact Bool.eq_false_iff.mpr fun h => hport ⟨c, hc, h⟩
        simp only [hsame, hport, false_implies, and_true]
        exact ⟨fun h hc => (h.mpr (hnil hc _)).1 hc, fun h => and_iff_right h⟩

def QosRules.Sorted (t : QosRules) : Prop := (t.rules.map (·.precedence)).Pairwise (· ≤ ·)

theorem QosRules.Sorted.exec {qsort : List QosRule → List QosRule} (hsort : SortsRules qsort)
    {t : QosRules} (h : t.Sorted) (op : QosRuleOp) : (t.exec qsort op).Sorted := by
  cases op with
  | add rule =>
    simp only [QosRules.exec]
    split
    · exact h
    · exact hsort.sorted _
  | remove ruleId =>
    have hsub : ((findQosRule t.rules ruleId).elim t.rules t.rules.eraseIdx).Sublist t.rules := by
      cases findQosRule t.rules ruleId with
      | none => exact .refl _
      | some i => exact eraseIdx_sublist _ _
    exact List.Pairwise.sublist (hsub.map _) h
  | update ruleId qfi precedence isDefault pfList replace =>
    simp only [QosRules.exec]
    split
    · exact h
    · exact hsort.sorted _
  | deletePf ruleId pfIds =>
    simp only [QosRules.exec]
    split
    · exact h
    · -- only the filters of a rule change
      refine Eq.mp (congrArg (List.Pairwise (· ≤ ·)) (ext_getElem? fun j => ?_)) h
      simp only [List.getElem?_map, List.getElem?_modify]
      split <;> cases t.rules[j]? <;> rfl

theorem sorted_run {qsort : List QosRule → List QosRule} (hsort : SortsRules qsort)
    (ops : List QosRuleOp) :
    ∀ {t : QosRules}, t.Sorted → (ops.foldl (·.exec qsort ·) t).Sorted := by
  induction ops with
  | nil => intro t h; exact h
  | cons op ops ih => intro t h; exact ih (h.exec hsort op)

theorem classifies_of_exact {t : QosRules} {pkt : List Byte} (h : t.Sorted)
    (hexact : ∀ rule ∈ t.rules, ∀ f ∈ rule.packetFilters,
      (packetFilterMatch f pkt ↔ f.Satisfied pkt)) :
    Classifies t pkt (nrSdapMatchUlPacket t pkt) := by
  have happlies : ∀ rule ∈ t.rules, rule.matchesUl pkt ↔ rule.Applies pkt := by
    intro rule hrule
    simp only [QosRule.matchesUl, QosRule.Applies, Bool.and_eq_true, Bool.not_eq_true',
      any_eq_true]
    refine and_congr_right fun _ => exists_congr fun f => and_congr_right fun hf => ?_
    exact and_congr_right fun _ => hexact rule hrule f hf
  unfold nrSdapMatchUlPacket
  cases hfind : t.rules.find? fun rule => rule.matchesUl pkt with
  | none =>
    refine .inr ⟨fun rule hrule hap => ?_, rfl⟩
    exact List.find?_eq_none.mp hfind rule hrule ((happlies rule hrule).mpr hap)
  | some rule =>
    obtain ⟨hmatch, before, behind, hrules, hbefore⟩ := List.find?_eq_some_iff_append.mp hfind
    have hmem : rule ∈ t.rules := by simp [hrules]
    refine .inl ⟨rule, hmem, (happlies rule hmem).mp hmatch, rfl, fun rule' hmem' hap => ?_⟩
    have hmatch' := (happlies rule' hmem').mpr hap
    rw [QosRules.Sorted, hrules, map_append, map_cons, pairwise_append,
      pairwise_cons] at h
    rw [hrules] at hmem'
    rcases mem_append.mp hmem' with hb | hb
    · simpa [hmatch'] using hbefore rule' hb
    · rcases mem_cons.mp hb with rfl | hb
      · exact Nat.le_refl _
      · exact h.2.1.1 _ (mem_map_of_mem hb)

/-- After every history, a packet is classified right exactly if every filter reads it well. -/
theorem ulRight_iff_readsWell {qsort : List QosRule → List QosRule} (hsort : SortsRules qsort)
    (qfi : Nat) (ops : List QosRuleOp) (pkt : List Byte) :
    UlRight (ops.foldl (·.exec qsort ·) { qfi }) pkt ↔
      ∀ rule ∈ (ops.foldl (·.exec qsort ·) { qfi } : QosRules).rules, ∀ f ∈ rule.packetFilters,
        f.ReadsWell pkt := by
  have hempty : QosRules.Sorted { qfi } := .nil
  constructor
  · intro h rule hrule f hf
    exact packetFilterMatch_exact_iff.mp (h.2 rule hrule f hf)
  · intro h
    have hexact : ∀ rule ∈ (ops.foldl (·.exec qsort ·) { qfi } : QosRules).rules,
        ∀ f ∈ rule.packetFilters, (packetFilterMatch f pkt = true ↔ f.Satisfied pkt) :=
      fun rule hrule f hf => packetFilterMatch_exact_iff.mpr (h rule hrule f hf)
    exact ⟨classifies_of_exact (sorted_run hsort ops hempty) hexact, hexact⟩

def sortByPrecedence (rules : List QosRule) : List QosRule :=
  rules.mergeSort fun a b => decide (a.precedence ≤ b.precedence)

theorem sortByPrecedence_sorts : SortsRules sortByPrecedence where
  perm l := mergeSort_perm _ _
  sorted l := by
    refine pairwise_map.mpr ((pairwise_mergeSort ?_ ?_ l).imp of_decide_eq_true)
    · intro a b c hab hbc
      exact decide_eq_true ((of_decide_eq_true hab).trans (of_decide_eq_true hbc))
    · intro a b
      simpa using Nat.le_total a.precedence b.precedence

def wellKnownRule : QosRule :=
  { qfi := 5, ruleId := 1, precedence := 10, isDefault := false
    packetFilters :=
      [{ pfId := 1, direction := .uplink, components := [.remotePortRange 0 1023] }] }

def emptyPacket (protocol : Byte) : List Byte :=
  [0x45, 0, 0, 20, 0, 0, 0, 0, 64, protocol, 0, 0, 10, 0, 0, 2, 10, 0, 0, 1]

theorem ulRight_udp_packet :
    UlRight (([.add wellKnownRule] : List QosRuleOp).foldl (·.exec sortByPrecedence ·) { qfi := 9 })
      (emptyPacket 17 ++ [0x30, 0x39, 0, 53]) := by
  refine (ulRight_iff_readsWell sortByPrecedence_sorts 9 _ _).mpr fun rule hrule f hf x hx => ?_
  obtain rfl : rule = wellKnownRule := by
    simpa [QosRules.exec, maxNumSdapQosRules, sortByPrecedence] using hrule
  obtain rfl := mem_singleton.mp hf
  obtain rfl := Option.some.inj hx
  exact ⟨by simp, fun h => by cases h⟩

/-- An ICMP packet has no ports, but is sent with the rule for the ports 0 to 1023. -/
theorem not_ulRight_icmp_packet :
    ¬ ∀ qsort, SortsRules qsort → ∀ (qfi : Nat) (ops : List QosRuleOp) (pkt : List Byte),
      UlRight (ops.foldl (·.exec qsort ·) { qfi }) pkt := by
  intro h
  have hicmp := (h sortByPrecedence sortByPrecedence_sorts 9 [.add wellKnownRule] (emptyPacket 1)).2
  have hrule : wellKnownRule ∈ sortByPrecedence [wellKnownRule] := by simp [sortByPrecedence]
  obtain ⟨x, hx, hsat⟩ := (hicmp wellKnownRule hrule _ (mem_singleton.mpr rfl)).mp (by decide)
  obtain rfl := Option.some.inj hx
  obtain ⟨p, hp, -⟩ := hsat _ (mem_singleton.mpr rfl)
  cases hp

end OpenAir.Sdap

import OpenAir.Rlc.Um.Stream
import OpenAir.Rlc.Um.TransmitCounters

namespace OpenAir.Rlc.Um

open List

namespace Stream

variable {c : Config} {d : List Byte} {k m : Nat}

theorem sends_last (n : Nat) (hk : k < d.length) (hmax : d.length ≤ sduMax) :
    Sends c ⟨n, d.take k⟩
      (if k = 0 then wholePdu (d.drop k) else segmentPdu c (decide (k = 0)) true n k (d.drop k)) [d]
      ⟨if k = 0 then n else (n + 1) % c.snModulus, []⟩ := by
  have hdrop : d.drop k ≠ [] := fun h => by
    rw [drop_eq_nil_iff] at h
    omega
  split
  · next hz =>
    subst hz
    exact .whole hdrop
  · next hz =>
    have hlen : (d.take k).length = k := length_take_of_le hk.le
    have htake : d.take k ≠ [] := fun h => hz (by rw [← hlen, h, length_nil])
    have hsends : Sends c ⟨n, d.take k⟩ (segmentPdu c false true n (d.take k).length (d.drop k))
        [d.take k ++ d.drop k] ⟨(n + 1) % c.snModulus, []⟩ :=
      .last htake hdrop (by rw [hlen, length_drop]; omega)
    rwa [hlen, take_append_drop, ← decide_eq_false hz] at hsends

theorem sends_part (n : Nat) (hm : 0 < m) (hk : k + m < d.length) (hmax : d.length ≤ sduMax) :
    Sends c ⟨n, d.take k⟩ (segmentPdu c (decide (k = 0)) false n k ((d.drop k).take m)) []
      ⟨n, d.take (k + m)⟩ := by
  have hlen : (d.take k).length = k := length_take_of_le (by omega)
  have hlen' : ((d.drop k).take m).length = m :=
    length_take_of_le (by rw [length_drop]; omega)
  have hpart : (d.drop k).take m ≠ [] := fun h => by
    rw [h, length_nil] at hlen'
    omega
  have hsends : Sends c ⟨n, d.take k⟩
      (segmentPdu c (decide (d.take k = [])) false n (d.take k).length ((d.drop k).take m)) []
      ⟨n, d.take k ++ (d.drop k).take m⟩ := .segment hpart (by omega)
  have hz : (d.take k = []) = (k = 0) := by rw [← length_eq_zero_iff, hlen]
  rwa [← take_add, hlen, decide_eq_decide.mpr hz.to_iff] at hsends

end Stream

namespace Tx

variable {c : Config} {e e' : Tx} {st : Stream} {pending : List (List Byte)}
  {s s₁ t : Segment} {l rest : List Segment} {heap : Heap} {size : Nat} {pdu : List Byte}

def sduOf (e : Tx) (s : Segment) : List Byte := (e.heap.sdu s.sdu).data

theorem data_assignSn (s t : Segment) : ((e.assignSn s).sdu t.sdu).data = e.sduOf t :=
  Heap.sdu_modify_apply Sdu.data (by simp) (by simp)

theorem live_assignSn {p : Nat} : (e.assignSn s).Live p ↔ e.heap.Live p :=
  Heap.live_modify (by simp)

section

variable (hcut : Cut c size s (e.assignSn s) s₁ l heap)
include hcut

theorem sdu_cut : s₁.sdu = s.sdu ∧ ∀ t ∈ l, t.sdu = s.sdu := by
  cases hcut with
  | whole => simp
  | split hs => simp [hs.sdu₁, hs.sdu₂]

theorem data_cut (hlive : e.heap.Live t.sdu) : (heap.sdu t.sdu).data = e.sduOf t := by
  cases hcut with
  | whole => exact data_assignSn s t
  | split =>
    rw [Heap.sdu_split (live_assignSn.mpr hlive)]
    exact data_assignSn s t

variable (hholds : e.heap.Holds (s :: rest))
include hholds

theorem sn_cut : (heap.sdu s₁.sdu).sn = some e.txNext := by
  have hlive := hholds.live s (by simp)
  have hassign : ((e.assignSn s).sdu s.sdu).sn = some e.txNext := by
    rw [assignSn, Heap.sdu_modify_self (by simp) hlive]
  cases hcut with
  | whole => exact hassign
  | split hs =>
    rw [hs.sdu₁, Heap.sdu_split (live_assignSn.mpr hlive)]
    exact hassign

theorem live_cut (ht : t ∈ l ++ rest) : e.heap.Live t.sdu := by
  rcases mem_append.mp ht with ht | ht
  · rw [(sdu_cut hcut).2 t ht]
    exact hholds.live s (by simp)
  · exact hholds.live t (by simp [ht])

theorem data_freeSduSegment (ht : t ∈ l ++ rest) :
    ((freeSduSegment heap s₁).1.sdu t.sdu).data = e.sduOf t := by
  have hh := hcut.holds (hholds.modify (by simp) (hholds.live s (by simp)))
  rw [sdu_freeSduSegment hh (hh.freeSduSegment.live t ht)]
  exact data_cut hcut (live_cut hcut hholds ht)

theorem pdu_eq (hpdu : serializeSdu c { e with heap := heap } s₁ size = some pdu) :
    pdu = if s₁.isFirst && s₁.isLast then wholePdu (((e.sduOf s).drop s₁.so).take s₁.size)
      else segmentPdu c s₁.isFirst s₁.isLast e.txNext s₁.so
        (((e.sduOf s).drop s₁.so).take s₁.size) := by
  have hdata : (heap.sdu s₁.sdu).data = e.sduOf s := by
    rw [(sdu_cut hcut).1]
    exact data_cut hcut (hholds.live s (by simp))
  rw [serializeSdu_eq _ _ hcut.header_le, Option.some.injEq, dataOf, snOf] at hpdu
  dsimp only at hpdu
  rw [hdata, sn_cut hcut hholds] at hpdu
  exact hpdu.symm

end

structure Streams (c : Config) (e : Tx) (st : Stream) (pending : List (List Byte)) : Prop
    extends e.Sound c where
  next : e.txNext = st.next
  sdus : e.txList.map e.sduOf = pending
  size : ∀ d ∈ pending, d ≠ [] ∧ d.length ≤ sduMax
  last : ∀ s ∈ e.txList, s.isLast = true
  first : ∀ s ∈ e.txList.tail, s.isFirst = true
  sent : st.sent = (e.txList.head?.map fun s => (e.sduOf s).take s.so).getD []

namespace Streams

theorem new (c : Config) : (Entity.new c).tx.Streams c ⟨0, []⟩ [] where
  toSound := .new c
  next := rfl
  sdus := rfl
  size := by simp
  last := by simp [Entity.new]
  first := by simp [Entity.new]
  sent := rfl

variable (h : e.Streams c st pending)
include h

theorem recvSdu {sdu : List Byte} {sduId : Int} (hr : e.recvSdu c sdu sduId = some e')
    (hpos : sdu ≠ []) (hroom : e.txSize + sdu.length ≤ e.txMaxsize) :
    e'.Streams c st (pending ++ [sdu]) := by
  have hsound := h.toSound.recvSdu hr
  have hmax : sdu.length ≤ sduMax := by
    unfold Tx.recvSdu at hr
    split at hr
    · cases hr
    · omega
  rcases recvSdu_appends h.holds.id_nodup hr with ⟨-, hfull⟩ | ⟨-, l₁, l₂, happ, rfl⟩
  · omega
  · obtain rfl := happ.tail h.txEnd
    have heq : e.txList = l₁ := by simpa using happ.eq
    have hfresh := h.holds.not_live_fresh
    have hold (t) (ht : t ∈ l₁) : ((newSdu e.heap sdu sduId).1.sdu t.sdu).data = e.sduOf t := by
      have hlive := h.holds.live t (heq ▸ ht)
      rw [sdu_newSdu_of_ne sdu sduId fun hq => hfresh (hq ▸ hlive)]
      rfl
    have hnew : ((newSdu e.heap sdu sduId).1.sdu e.heap.fresh).data = sdu := by
      rw [sdu_newSdu_self sdu sduId hfresh]
    refine ⟨hsound, h.next, ?_, ?_, ?_, ?_, ?_⟩
    · rw [← h.sdus, heq, map_append]
      exact congrArg₂ _ (map_congr_left hold) (congrArg (fun d => [d]) hnew)
    · intro d hd
      rcases mem_append.mp hd with hd | hd
      · exact h.size d hd
      · exact mem_singleton.mp hd ▸ ⟨hpos, hmax⟩
    · intro t ht
      rcases mem_append.mp ht with ht | ht
      · exact h.last t (heq ▸ ht)
      · exact mem_singleton.mp ht ▸ rfl
    · intro t ht
      have hfirst := h.first
      rw [heq] at hfirst
      cases l₁ with
      | nil => simp at ht
      | cons s l₁ =>
        rcases mem_append.mp ht with ht | ht
        · exact hfirst t ht
        · exact mem_singleton.mp ht ▸ rfl
    · rw [h.sent, heq]
      cases l₁ with
      | nil => rfl
      | cons s l₁ => exact congrArg (List.take s.so) (hold s (by simp)).symm

theorem head_eq (hl : e.txList = s :: rest) :
    (e.sduOf s).length ≤ sduMax ∧ 0 < s.size ∧ s.so + s.size = (e.sduOf s).length ∧
      st.sent = (e.sduOf s).take s.so ∧ s.isFirst = decide (s.so = 0) := by
  have hmem : e.sduOf s ∈ pending := by
    rw [← h.sdus, hl]
    simp
  have hfits := h.holds.fits s (by simp [hl])
  have hlast := hfits.last.mp (h.last s (by simp [hl]))
  obtain ⟨hne, hmax⟩ := h.size _ hmem
  refine ⟨hmax, hfits.pos (length_pos_iff.mpr hne), hlast, ?_, ?_⟩
  · rw [h.sent, hl]
    rfl
  · rw [Bool.eq_iff_iff, decide_eq_true_iff]
    exact hfits.first

theorem tail_sent (hl : e.txList = s :: rest) :
    (rest.head?.map fun t => (e.sduOf t).take t.so).getD [] = [] := by
  cases rest with
  | nil => rfl
  | cons t rest =>
    have hso : t.so = 0 :=
      (h.holds.fits t (by simp [hl])).first.mp (h.first t (by simp [hl]))
    simp [hso]

theorem tail {n : Nat} (hl : e.txList = s :: rest) (hsound : e'.Sound c) (hnext : e'.txNext = n)
    (hlist : e'.txList = rest) (hdata : ∀ t ∈ rest, e'.sduOf t = e.sduOf t) :
    e'.Streams c ⟨n, []⟩ (rest.map e.sduOf) where
  toSound := hsound
  next := hnext
  sdus := by
    rw [hlist]
    exact map_congr_left hdata
  size d hd := h.size d (by rw [← h.sdus, hl]; exact mem_cons_of_mem _ hd)
  last t ht := h.last t (by rw [hl]; exact mem_cons_of_mem _ (hlist ▸ ht))
  first t ht := h.first t (by rw [hl]; exact mem_of_mem_tail (hlist ▸ ht))
  sent := by
    rw [← h.tail_sent hl, hlist]
    cases rest with
    | nil => rfl
    | cons t rest => exact congrArg (List.take t.so) (hdata t (by simp)).symm

theorem cut (hl : e.txList = s :: rest) (hsound : e'.Sound c) (hnext : e'.txNext = st.next)
    (hlist : e'.txList = t :: rest) (hdata : ∀ r ∈ t :: rest, e'.sduOf r = e.sduOf r)
    (hsdu : t.sdu = s.sdu) (hlast : t.isLast = s.isLast) :
    e'.Streams c ⟨st.next, (e.sduOf s).take t.so⟩ pending where
  toSound := hsound
  next := hnext
  sdus := by
    have ht : e.sduOf t = e.sduOf s := by rw [sduOf, sduOf, hsdu]
    rw [hlist, map_congr_left hdata, ← h.sdus, hl, map_cons, map_cons, ht]
  size := h.size
  last r hr := by
    have hlast' := h.last
    rw [hl] at hlast'
    rw [hlist] at hr
    rcases mem_cons.mp hr with rfl | hr
    · exact hlast.trans (hlast' s (by simp))
    · exact hlast' r (mem_cons_of_mem _ hr)
  first r hr := h.first r (by rw [hl]; rwa [hlist] at hr)
  sent := by
    have ht : e.sduOf t = e.sduOf s := by rw [sduOf, sduOf, hsdu]
    rw [hlist, List.head?_cons, Option.map_some, Option.getD_some, hdata t (by simp), ht]

theorem sends (hg : Generates c size e e' pdu) (hsq : ∀ s rest, e.txList = s :: rest →
    ¬ Squeezed c s size) :
    (pdu = [] ∧ e' = e) ∨ ∃ st' sdus pending', st.Sends c pdu sdus st' ∧ pending = sdus ++
      pending' ∧ e'.Streams c st' pending' := by
  have hsound := h.toSound.generates hg
  cases hg with
  | nothing => exact .inl ⟨rfl, rfl⟩
  | lost hl hs => exact absurd hs (hsq _ _ hl)
  | @sent s s₁ l rest heap _ hl hfit hcut hpdu =>
    refine .inr ?_
    have hsound := hsound.2 (hsound.1.mpr hsq)
    have hholds := h.holds
    rw [hl] at hholds
    rw [pdu_eq hcut hholds hpdu]
    have hdata (t) (ht : t ∈ l ++ rest) := data_freeSduSegment hcut hholds ht
    obtain ⟨hmax, hpos, hstop, hsent, hfirst⟩ := h.head_eq hl
    obtain ⟨n, sent⟩ := st
    obtain rfl : e.txNext = n := h.next
    obtain rfl : sent = _ := hsent
    cases hcut with
    | whole =>
      refine ⟨_, [e.sduOf s], rest.map e.sduOf, ?_, ?_, h.tail hl hsound rfl rfl hdata⟩
      · have hsends :=
          Stream.sends_last (c := c) e.txNext (d := e.sduOf s) (k := s.so) (by omega) hmax
        have hall : ((e.sduOf s).drop s.so).take s.size = (e.sduOf s).drop s.so :=
          take_of_length_le (by rw [length_drop]; omega)
        rw [hall, hfirst, h.last s (by simp [hl])]
        simpa using hsends
      · rw [← h.sdus, hl, map_cons, singleton_append]
    | split hs =>
      have hstop₁ := hs.so₁
      have hstop₂ := hs.so₂
      have hpos₁ := hs.size₁
      have hpos₂ := hs.size₂
      have hstop' := hs.stop₂
      unfold Segment.stop at hstop₂ hstop'
      refine ⟨_, [], pending, ?_, rfl, h.cut hl hsound ?_ rfl hdata hs.sdu₂ hs.last₂⟩
      · rw [hs.last₁, hs.first₁, hs.so₁, hfirst, hstop₂, hs.so₁]
        simpa using Stream.sends_part (c := c) e.txNext (d := e.sduOf s) (by omega) (by omega) hmax
      · simp [hs.last₁]

end Streams

end Tx

theorem Stream.Sends.ne_nil {c : Config} {st st' : Stream} {pdu : List Byte}
    {sdus : List (List Byte)} (h : st.Sends c pdu sdus st') : pdu ≠ [] := by
  cases h with
  | whole => simp [wholePdu_eq]
  | segment => exact segmentPdu_ne_nil
  | last => exact segmentPdu_ne_nil

theorem Stream.Sends.congr {c c' : Config} {st st' : Stream} {pdu : List Byte}
    {sdus : List (List Byte)} (hsn : c.snFieldLength = c'.snFieldLength)
    (h : st.Sends c pdu sdus st') : st.Sends c' pdu sdus st' := by
  have hpdu : segmentPdu c = segmentPdu c' := by
    funext isFirst isLast sn so data
    simp only [segmentPdu, segmentHeader, hsn]
  have hmod : c.snModulus = c'.snModulus := by simp only [Config.snModulus, hsn]
  cases h with
  | whole hdata => exact .whole hdata
  | segment hdata hsize =>
    rw [hpdu]
    exact .segment hdata hsize
  | last hsent hdata hsize =>
    rw [hpdu, hmod]
    exact .last hsent hdata hsize

namespace Entity

variable {c c' : Config} {e e' r : Entity} {l : Op × Output} {ls rs : List (Op × Output)}

def transmits (e : Entity) : Op → Bool
  | .recvSdu sdu _ => decide (sdu ≠ [] ∧ e.tx.txSize + sdu.length ≤ e.tx.txMaxsize)
  | .generatePdu _ => true
  | _ => false

def sdus (ls : List (Op × Output)) : List (List Byte) :=
  ls.filterMap fun l => match l.1 with
    | .recvSdu sdu _ => some sdu
    | _ => none

def pdus (ls : List (Op × Output)) : List (List Byte) := (ls.map (·.2.pdu)).filter (· ≠ [])

def received (ls : List (Op × Output)) : List (List Byte) :=
  ls.filterMap fun l => match l.1 with
    | .recvPdu pdu => some pdu
    | _ => none

def Delivers (c : Config) (ls : List (Op × Output)) : Prop :=
  (∃ rs r, Run (fun s l t => Step c s l t ∧ l.1.receives = true) (Entity.new c) rs r ∧
    received rs = pdus ls) ∧
  ∀ rs r, Run (fun s l t => Step c s l t ∧ l.1.receives = true) (Entity.new c) rs r →
    received rs = pdus ls → (deliveries rs).map Delivery.sdu = sdus ls

def StreamRun (c : Config) (ps : List (List Byte × List (List Byte))) (st : Stream) : Prop :=
  Run (fun st l st' => st.Sends c l.1 l.2 st') ⟨0, []⟩ ps st

theorem exists_streamRun (h : Run (fun s l t => Step c s l t ∧
      (s.transmits l.1 ∧ s.keepsTxSize c l.1)) (Entity.new c) ls e) :
    ∃ ps st pending, StreamRun c ps st ∧ ps.map Prod.fst = pdus ls ∧
      ps.flatMap Prod.snd ++ pending = sdus ls ∧ e.tx.Streams c st pending := by
  refine h.trace_invariant (fun ls e => ∃ ps st pending, StreamRun c ps st ∧
    ps.map Prod.fst = pdus ls ∧ ps.flatMap Prod.snd ++ pending = sdus ls ∧
    e.tx.Streams c st pending) ⟨[], _, [], .nil, rfl, rfl, .new c⟩ ?_
  rintro ls e ⟨op, out⟩ e' ⟨ps, st, pending, hrun, hpdus, hsdus, hst⟩ ⟨⟨fuel, hexec⟩, ht, hk⟩
  cases op with
  | recvSdu sdu sduId =>
    obtain ⟨tx, hr, heq⟩ := Option.map_eq_some_iff.mp hexec
    cases heq
    have hroom := of_decide_eq_true ht
    refine ⟨ps, st, pending ++ [sdu], hrun, ?_, ?_, hst.recvSdu hr hroom.1 hroom.2⟩
    · simp [pdus, hpdus]
    · rw [← append_assoc, hsdus]
      simp [sdus]
  | generatePdu size =>
    obtain ⟨⟨tx, pdu⟩, hr, heq⟩ := Option.map_eq_some_iff.mp hexec
    cases heq
    have hgen := Tx.generateTxPdu_generates hr
    have hsame : sdus (ls ++ [(.generatePdu size, { pdu := pdu })]) = sdus ls := by simp [sdus]
    rw [hsame]
    rcases hst.sends hgen (keepsTxSize_generatePdu.mp hk) with
      ⟨rfl, rfl⟩ | ⟨st', outs, pending', hsends, rfl, hst'⟩
    · exact ⟨ps, st, pending, hrun, by simp [pdus, hpdus], hsdus, hst⟩
    · refine ⟨ps ++ [(pdu, outs)], st', pending', .snoc hrun hsends, ?_, ?_, hst'⟩
      · simp [pdus, hpdus, hsends.ne_nil]
      · simpa using hsdus
  | recvPdu pdu => cases ht
  | setTime now => cases ht
  | discardSdu sduId => cases ht
  | reestablishment => cases ht

theorem follows_streamRun {ps : List (List Byte × List (List Byte))} {st : Stream}
    (hmax : (sduMax : Int) ≤ c.rxMaxsize)
    (h : Run (fun s l t => Step c s l t ∧ l.1.receives) (Entity.new c) rs r)
    (hps : StreamRun c ps st) (heq : received rs = ps.map Prod.fst) :
    r.rx.Follows c st ∧ (deliveries rs).map Delivery.sdu = ps.flatMap Prod.snd := by
  induction h generalizing ps st with
  | nil =>
    obtain rfl : ps = [] := by simpa [received] using heq.symm
    obtain rfl := Run.nil_inv hps
    exact ⟨.new _ hmax, rfl⟩
  | @snoc rs e l e' h hs ih =>
    obtain ⟨op, out⟩ := l
    obtain ⟨⟨fuel, hexec⟩, hop⟩ := hs
    cases op with
    | recvPdu pdu =>
      obtain ⟨⟨rx, ds⟩, hr, heq'⟩ := Option.map_eq_some_iff.mp hexec
      cases heq'
      have hlast : ps.map Prod.fst = received rs ++ [pdu] := by
        rw [← heq]
        simp [received]
      obtain ⟨ps, ps', rfl, hpre, hp⟩ := map_eq_append_iff.mp hlast
      obtain ⟨p, rfl, rfl⟩ := map_eq_singleton_iff.mp hp
      obtain ⟨st₁, hps, hsends⟩ := Run.snoc_inv hps
      obtain ⟨hf, hd⟩ := ih hps hpre.symm
      obtain ⟨hf', hout⟩ := hf.sends hsends hr
      exact ⟨hf', by simpa [deliveries, hout] using hd⟩
    | setTime now =>
      obtain ⟨rx, hr, heq'⟩ := Option.map_eq_some_iff.mp hexec
      cases heq'
      obtain ⟨hf, hd⟩ := ih hps (by simpa [received] using heq)
      -- the timer of a receiver without a gap does not run
      rw [Rx.checkTReassembly, if_pos (.inl hf.stopped)] at hr
      cases hr
      exact ⟨hf, by simpa [deliveries] using hd⟩
    | recvSdu sdu sduId => cases hop
    | generatePdu size => cases hop
    | discardSdu sduId => cases hop
    | reestablishment => cases hop

theorem exists_receives {ps : List (List Byte × List (List Byte))} {st : Stream}
    (hmax : (sduMax : Int) ≤ c.rxMaxsize) (hps : StreamRun c ps st) :
    ∃ rs r, Run (fun s l t => Step c s l t ∧ l.1.receives) (Entity.new c) rs r ∧
      received rs = ps.map Prod.fst := by
  induction hps with
  | nil => exact ⟨[], _, .nil, rfl⟩
  | @snoc ps st p st' hps hsends ih =>
    obtain ⟨rs, r, hrun, heq⟩ := ih
    have hf := (follows_streamRun hmax hrun hps heq).1
    obtain ⟨fuel, ⟨rx, out⟩, hr⟩ := hf.exists_recvPdu r.tCurrent p.1
    refine ⟨rs ++ [(.recvPdu p.1, { deliveries := out })], { r with rx },
      .snoc hrun ⟨⟨fuel, ?_⟩, rfl⟩, ?_⟩
    · exact Option.map_eq_some_iff.mpr ⟨_, hr, rfl⟩
    · simp [received, ← heq]

section

variable (hsn : c.snFieldLength = c'.snFieldLength) (hmax : (sduMax : Int) ≤ c'.rxMaxsize)
  (h : Run (fun s l t => Step c s l t ∧
    (s.transmits l.1 ∧ s.keepsTxSize c l.1)) (Entity.new c) ls e)
include hsn hmax h

theorem exists_pending : ∃ st pending, e.tx.Streams c st pending ∧
    (∃ rs r, Run (fun s l t => Step c' s l t ∧ l.1.receives) (Entity.new c') rs r ∧
      received rs = pdus ls) ∧
    ∀ rs r, Run (fun s l t => Step c' s l t ∧ l.1.receives) (Entity.new c') rs r →
      received rs = pdus ls → (deliveries rs).map Delivery.sdu ++ pending = sdus ls := by
  obtain ⟨ps, st, pending, hps, hpdus, hsdus, hst⟩ := exists_streamRun h
  have hps' : StreamRun c' ps st := hps.mono fun _ _ _ hs => hs.congr hsn
  refine ⟨st, pending, hst, ?_, fun rs r hrun heq => ?_⟩
  · obtain ⟨rs, r, hrun, heq⟩ := exists_receives hmax hps'
    exact ⟨rs, r, hrun, heq.trans hpdus⟩
  · rw [(follows_streamRun hmax hrun hps' (heq.trans hpdus.symm)).2, hsdus]

theorem delivers_of_txList (hempty : e.tx.txList = []) : Delivers c' ls := by
  obtain ⟨st, pending, hst, hex, hall⟩ := exists_pending hsn hmax h
  obtain rfl : pending = [] := by
    rw [← hst.sdus, hempty]
    rfl
  exact ⟨hex, fun rs r hrun heq => by simpa using hall rs r hrun heq⟩

/-- A receiver of the PDUs delivers the SDUs as long as the transmitter is not given a PDU size with
room for the header of a whole SDU only, and no more with the first such call. -/
theorem round_trip :
    (e.tx.txList = [] → Delivers c' ls) ∧
      ∀ l e', Step c e l e' → e.transmits l.1 = true → e'.tx.txList = [] →
        (Delivers c' (ls ++ [l]) ↔ e.keepsTxSize c l.1 = true) := by
  refine ⟨delivers_of_txList hsn hmax h, fun l e' hs ht hempty =>
    ⟨fun hd => ?_, fun hk => delivers_of_txList hsn hmax (.snoc h ⟨hs, ht, hk⟩) hempty⟩⟩
  by_contra hk
  obtain ⟨op, out⟩ := l
  obtain ⟨fuel, hexec⟩ := hs
  cases op with
  | recvSdu sdu sduId => exact hk rfl
  | generatePdu size =>
    obtain ⟨⟨tx, pdu⟩, hr, heq⟩ := Option.map_eq_some_iff.mp hexec
    cases heq
    obtain ⟨s, rest, hl, hsq⟩ : ∃ s rest, e.tx.txList = s :: rest ∧ Squeezed c s size := by
      by_contra hno
      exact hk (keepsTxSize_generatePdu.mpr fun s rest hl hsq => hno ⟨s, rest, hl, hsq⟩)
    obtain ⟨rfl, -⟩ := (Tx.generateTxPdu_generates hr).squeezed hl hsq
    -- the PDUs are those of before, without the SDU that was waiting
    obtain ⟨st, pending, hst, ⟨rs, r, hrun, heq⟩, hall⟩ := exists_pending hsn hmax h
    have hbefore := hall rs r hrun heq
    have hafter := hd.2 rs r hrun (by simpa [pdus] using heq)
    have hsame : sdus (ls ++ [(.generatePdu size, { pdu := [] })]) = sdus ls := by simp [sdus]
    rw [hafter, hsame, append_right_eq_self] at hbefore
    have hne := hst.sdus
    rw [hl, hbefore] at hne
    cases hne
  | recvPdu pdu => cases ht
  | setTime now => cases ht
  | discardSdu sduId => cases ht
  | reestablishment => cases ht

end

def receiverConfig : Config := { Config.twelve with rxMaxsize := sduMax }

theorem round_trip_segments :
    ∃ ls e, Run (fun s l t => Step .twelve s l t ∧ (s.transmits l.1 = true ∧
          s.keepsTxSize .twelve l.1 = true)) (Entity.new .twelve) ls e ∧
      sdus ls = [[1, 2, 3], [4]] ∧ pdus ls = [[64, 0, 1], [128, 0, 0, 1, 2, 3], [0, 4]] ∧
      Delivers receiverConfig ls := by
  have hobs : (execAll .twelve 5
      (fun e op => e.transmits op && e.keepsTxSize .twelve op)
      (.new .twelve) [.recvSdu [1, 2, 3] 7, .generatePdu 3, .recvSdu [4] 8,
        .generatePdu 1, .generatePdu 10, .generatePdu 2]).map
        (fun r => (r.1.tx.txList, sdus r.2, pdus r.2)) =
      some ([], [[1, 2, 3], [4]], [[64, 0, 1], [128, 0, 0, 1, 2, 3], [0, 4]]) := by decide
  obtain ⟨⟨e, ls⟩, hrun, heq⟩ := Option.map_eq_some_iff.mp hobs
  simp only [Prod.mk.injEq] at heq
  obtain ⟨hempty, hsdus, hpdus⟩ := heq
  have hrun' : Run (fun s l t => Step .twelve s l t ∧ (s.transmits l.1 = true ∧
      s.keepsTxSize .twelve l.1 = true)) (Entity.new .twelve) ls e :=
    (execAll_run hrun).mono fun _ _ _ hs => ⟨hs.1, Bool.and_eq_true_iff.mp hs.2⟩
  exact ⟨ls, e, hrun', hsdus, hpdus,
    (round_trip (show Config.twelve.snFieldLength = receiverConfig.snFieldLength from rfl)
      (by decide) hrun').1 hempty⟩

/-- A PDU of two bytes loses an SDU of two bytes. -/
theorem not_forall_round_trip :
    ¬ ∀ c c' : Config, c.snFieldLength = c'.snFieldLength → (sduMax : Int) ≤ c'.rxMaxsize →
      ∀ ls e, Run (fun s l t => Step c s l t ∧ s.transmits l.1 = true) (Entity.new c) ls e →
        e.tx.txList = [] → Delivers c' ls := by
  intro h
  have hobs : (execAll .twelve 5 transmits (.new .twelve)
      [.recvSdu [1, 2] 7, .generatePdu 2]).map (fun r => (r.1.tx.txList, sdus r.2, pdus r.2)) =
      some ([], [[1, 2]], []) := by decide
  obtain ⟨⟨e, ls⟩, hrun, heq⟩ := Option.map_eq_some_iff.mp hobs
  simp only [Prod.mk.injEq] at heq
  obtain ⟨hempty, hsdus, hpdus⟩ := heq
  have hd := h .twelve receiverConfig rfl (by decide) ls e (execAll_run hrun) hempty
  have hnil := hd.2 [] _ .nil hpdus.symm
  rw [hsdus] at hnil
  cases hnil

end Entity

end OpenAir.Rlc.Um

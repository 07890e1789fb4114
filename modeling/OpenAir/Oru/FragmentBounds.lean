import OpenAir.Oru.ExtensionChain
import OpenAir.Oru.Uplane

namespace OpenAir.Oru

open List

structure Span where
  start : Nat
  stop : Nat
  deriving DecidableEq

def compPrbBytes (iqBits : Nat) : Nat := 1 + 3 * iqBits

/-- `bfp_decompress_prb_pair` -/
def bfpPairReads (w src : Nat) : List Span :=
  let src1 := src + compPrbBytes w
  [⟨src, src + 1⟩, ⟨src1, src1 + 1⟩] ++
    [src + 1, src + 1 + w, src + 1 + 2 * w, src1 + 1, src1 + 1 + w, src1 + 1 + 2 * w].map
      fun i => ⟨i, i + 16⟩

/-- `bfp_decompress_prb_simd` -/
def bfpSimdReads (w src : Nat) : List Span :=
  ⟨src, src + 1⟩ :: [src + 1, src + 1 + w, src + 1 + 2 * w].map fun i => ⟨i, i + 16⟩

/-- `bfp_decompress_prb_scalar` -/
def bfpScalarReads (w src : Nat) : List Span :=
  ⟨src, src + 1⟩ :: [src + 1, src + 1 + w, src + 1 + 2 * w].map fun i => ⟨i, i + w⟩

/-- `bfp_decompress_prbs`: pairs as long as a third PRB follows, then single PRBs as long as another
one follows, then the rest byte by byte. -/
def bfpDecompressReads (w n : Nat) : List Span :=
  let pairs := if 4 ≤ w ∧ w ≤ 9 then (n - 1) / 2 else 0
  let simd := if 4 ≤ w then n - 1 - 2 * pairs else 0
  ((List.range pairs).flatMap fun i => bfpPairReads w (2 * i * compPrbBytes w)) ++
    ((List.range simd).flatMap fun i => bfpSimdReads w ((2 * pairs + i) * compPrbBytes w)) ++
    (List.range (n - 2 * pairs - simd)).flatMap fun i =>
      bfpScalarReads w ((2 * pairs + simd + i) * compPrbBytes w)

/-- `unpack_iq`: the bytes it reads.  Uncompressed samples have two bytes each, whatever the
width. -/
def unpackIqReads (method : FhCompMethod) (w n : Nat) : List Span :=
  match method with
  | .none => (List.range (n * 12 * 2)).map fun j => ⟨2 * j, 2 * j + 2⟩
  | .bfp => bfpDecompressReads w n
  | .blkscale =>
    (List.range n).map fun p => ⟨p * compPrbBytes w, p * compPrbBytes w + 1 + 3 * w⟩
  | .ulaw =>
    (List.range n).map fun p => ⟨p * compPrbBytes w + 1, p * compPrbBytes w + 1 + 3 * w⟩
  | .other _ => []

section Reads

variable {w n : Nat}

variable {src : Nat} {r : Span}

theorem bfpPairReads_stop (hw : 4 ≤ w) (hr : r ∈ bfpPairReads w src) :
    r.stop ≤ src + 3 * compPrbBytes w := by
  simp only [bfpPairReads, compPrbBytes, map_cons, map_nil, mem_append, mem_cons,
    not_mem_nil, or_false] at hr
  unfold compPrbBytes
  rcases hr with (rfl | rfl) | rfl | rfl | rfl | rfl | rfl | rfl <;> dsimp only <;> omega

theorem bfpSimdReads_stop (hw : 4 ≤ w) (hr : r ∈ bfpSimdReads w src) :
    r.stop ≤ src + 2 * compPrbBytes w := by
  simp only [bfpSimdReads, map_cons, map_nil, mem_cons, not_mem_nil,
    or_false] at hr
  unfold compPrbBytes
  rcases hr with rfl | rfl | rfl | rfl <;> dsimp only <;> omega

theorem bfpScalarReads_stop (hr : r ∈ bfpScalarReads w src) :
    r.stop ≤ src + compPrbBytes w := by
  simp only [bfpScalarReads, map_cons, map_nil, mem_cons, not_mem_nil,
    or_false] at hr
  unfold compPrbBytes
  rcases hr with rfl | rfl | rfl | rfl <;> dsimp only <;> omega

theorem prb_le {p k : Nat} (h : p + k ≤ n) :
    p * compPrbBytes w + k * compPrbBytes w ≤ n * compPrbBytes w := by
  rw [← Nat.add_mul]
  exact Nat.mul_le_mul_right _ h

theorem bfpDecompressReads_stop (hr : r ∈ bfpDecompressReads w n) :
    r.stop ≤ n * compPrbBytes w := by
  unfold bfpDecompressReads at hr
  dsimp only at hr
  generalize hpairs : (if 4 ≤ w ∧ w ≤ 9 then (n - 1) / 2 else 0) = pairs at hr
  generalize hsimd : (if 4 ≤ w then n - 1 - 2 * pairs else 0) = simd at hr
  simp only [mem_append, mem_flatMap, mem_range] at hr
  rcases hr with (⟨i, hi, hr⟩ | ⟨i, hi, hr⟩) | ⟨i, hi, hr⟩
  · have hw : 4 ≤ w := by
      by_contra hw
      rw [if_neg fun h => hw h.1] at hpairs
      omega
    have hpair : 2 * i + 3 ≤ n := by
      split at hpairs <;> omega
    exact (bfpPairReads_stop hw hr).trans (prb_le hpair)
  · have hw : 4 ≤ w := by
      by_contra hw
      rw [if_neg hw] at hsimd
      omega
    have hnext : 2 * pairs + i + 2 ≤ n := by
      split at hsimd <;> omega
    exact (bfpSimdReads_stop hw hr).trans (prb_le hnext)
  · have hlast : 2 * pairs + simd + i + 1 ≤ n := by omega
    have hle := prb_le (w := w) hlast
    rw [Nat.one_mul] at hle
    exact (bfpScalarReads_stop hr).trans hle

theorem unpackIqReads_stop {method : FhCompMethod} (hm : method ≠ .none)
    (hr : r ∈ unpackIqReads method w n) : r.stop ≤ n * compPrbBytes w := by
  cases method with
  | none => exact absurd rfl hm
  | bfp => exact bfpDecompressReads_stop hr
  | blkscale =>
    obtain ⟨p, hp, rfl⟩ := mem_map.mp hr
    have hp' : p + 1 ≤ n := mem_range.mp hp
    have hle := prb_le (w := w) hp'
    unfold compPrbBytes at hle ⊢
    dsimp only
    omega
  | ulaw =>
    obtain ⟨p, hp, rfl⟩ := mem_map.mp hr
    have hp' : p + 1 ≤ n := mem_range.mp hp
    have hle := prb_le (w := w) hp'
    unfold compPrbBytes at hle ⊢
    dsimp only
    omega
  | other => cases hr

theorem unpackIqReads_none_iff {len : Nat} :
    (∀ r ∈ unpackIqReads .none w n, r.stop ≤ len) ↔ 48 * n ≤ len := by
  constructor
  · intro h
    rcases Nat.eq_zero_or_pos n with rfl | hn
    · omega
    · have hlast := h ⟨2 * (n * 12 * 2 - 1), 2 * (n * 12 * 2 - 1) + 2⟩
        (mem_map.mpr ⟨n * 12 * 2 - 1, mem_range.mpr (by omega), rfl⟩)
      dsimp only at hlast
      omega
  · intro h r hr
    obtain ⟨j, hj, rfl⟩ := mem_map.mp hr
    have := mem_range.mp hj
    dsimp only
    omega

end Reads

namespace Reader

theorem outputs_stop (fs : List DlFragment) (r : Reader) {o : DlIqStream} (ho : o ∈ r.outputs fs) :
    o.iq + o.numPrb * 12 ≤ r.arenaOff + prbsOf fs * 12 := by
  induction fs generalizing r with
  | nil => cases ho
  | cons f fs ih =>
    have hprbs : prbsOf (f :: fs) = f.numPrbc + prbsOf fs := by simp [prbsOf]
    rw [outputs, mem_append] at ho
    rcases ho with ho | ho
    · unfold output at ho
      split at ho
      · cases ho
      · obtain rfl := mem_singleton.mp ho
        dsimp only
        omega
    · have hle := ih (r.take f) ho
      have htake : (r.take f).arenaOff ≤ r.arenaOff + f.numPrbc * 12 := by
        unfold take
        split
        · exact Nat.le_add_right _ _
        · exact Nat.le_refl _
      omega

end Reader

namespace Processor

/-- `handle_uplane_packet` -/
def Stores (c : Config) (s : Processor) (p : Mbuf) (j : Nat) (f : DlFragment) : Prop :=
  ((s.handleUplanePacket c p).jobs j).fragments = (s.jobs j).fragments ++ [f]

instance (c : Config) (s : Processor) (p : Mbuf) (j : Nat) (f : DlFragment) :
    Decidable (Stores c s p j f) :=
  inferInstanceAs (Decidable (_ = _))

structure FragmentSafe (c : Config) (job : DlSymbolJob) (f : DlFragment) : Prop where
  band : (f.startPrbc + f.numPrbc : Int) ≤ c.numPrb
  payload : ∀ r ∈ unpackIqReads f.compMethod f.iqWidth f.numPrbc, r.stop ≤ f.iqData.length
  arena : (prbsOf job.fragments : Int) ≤ c.dlIqArenaPrbs
  writes : ∀ (number : Nat) (maxStreams : Int),
    ∀ o ∈ (Reader.mk number maxStreams 0 0 0).outputs job.fragments,
      (o.iq + o.numPrb * 12 : Int) ≤ c.dlIqArenaPrbs * 12

theorem addDlFragment_eq_some {job job' : DlSymbolJob} {f : DlFragment} {m : Int}
    (h : job.addDlFragment f m = some job') :
    job'.fragments = job.fragments ++ [f] ∧ (prbsOf job'.fragments : Int) ≤ m ∧
      job'.absoluteSymbol = job.absoluteSymbol ∧ job'.streams = job.streams := by
  unfold DlSymbolJob.addDlFragment at h
  split at h
  · cases h
  · next hroom =>
    cases h
    refine ⟨rfl, ?_, rfl, rfl⟩
    have hprbs := prbsOf_concat job.numFragmentPrbs_eq f
    dsimp only
    omega

variable {c : Config} {j : Nat} {p : Mbuf} {s : Processor}

theorem Stores.admitted {f : DlFragment} (hst : Stores c s p j f) :
    ∃ h iq beamId, Admitted c s p h iq j ∧
      f = fragmentOf c p h iq.data beamId ∧
      (prbsOf ((s.handleUplanePacket c p).jobs j).fragments : Int) ≤ c.dlIqArenaPrbs := by
  unfold Stores at hst
  have hout := handleUplanePacket_outcome c s p
  generalize s.handleUplanePacket c p = t at hout hst ⊢
  cases hout with
  | dropped st => simp at hst
  | @stored st h iq j' k beamId job g hadm hadd =>
    obtain ⟨hfrags, hroom, -, -⟩ := addDlFragment_eq_some hadd
    by_cases hj : j = j'
    · subst hj
      simp only [setJob, Function.update_self, DlSymbolJob.modifyStream] at hst ⊢
      rw [hfrags] at hst
      refine ⟨h, iq, beamId, hadm, ?_, hroom⟩
      simpa using hst.symm
    · simp [setJob, Function.update_of_ne hj] at hst

variable {iq : Mbuf} {h : UplaneHeader}

theorem compMeth_of_static (hx : p.xranExtractIqSamples false = some (h, iq)) : h.compMeth = 0 := by
  simp only [Mbuf.xranExtractIqSamples, Option.bind_eq_bind, Option.bind_eq_some_iff,
    Bool.false_eq_true, if_false, Option.pure_def, Option.some.injEq, Prod.mk.injEq] at hx
  obtain ⟨-, -, -, -, -, -, rfl, -⟩ := hx
  rfl

theorem Admitted.band (hadm : Admitted c s p h iq j) :
    (h.startPrbu + effectiveNumPrbu c h.numPrbu : Int) ≤ c.numPrb := by
  have hstart := hadm.start
  have hnum := hadm.num
  omega

/-- A packet whose method is none, in a cell with compression: the check counts compressed PRBs. -/
def UncompressedShort (c : Config) (p : Mbuf) : Prop :=
  ∃ h iq, p.xranExtractIqSamples (c.dlCompMethod ≠ .none) = some (h, iq) ∧
    c.dlCompMethod ≠ .none ∧ h.compMeth = 0 ∧ iq.data.length < 48 * effectiveNumPrbu c h.numPrbu

theorem Admitted.payload_iff (hadm : Admitted c s p h iq j) :
    (∀ r ∈ unpackIqReads (.ofNat h.compMeth) (effectiveIqWidth h.iqWidth)
      (effectiveNumPrbu c h.numPrbu), r.stop ≤ iq.data.length) ↔ ¬ UncompressedShort c p := by
  have hshort : UncompressedShort c p ↔ c.dlCompMethod ≠ .none ∧ h.compMeth = 0 ∧
      iq.data.length < 48 * effectiveNumPrbu c h.numPrbu := by
    constructor
    · rintro ⟨h', iq', hx, hrest⟩
      rw [hadm.headers] at hx
      cases hx
      exact hrest
    · exact fun hrest => ⟨h, iq, hadm.headers, hrest⟩
  have hpay := hadm.payload
  unfold expectedBytes at hpay
  rw [hshort]
  by_cases hc : c.dlCompMethod = .none
  · have hmeth : h.compMeth = 0 := by
      have hx := hadm.headers
      rw [decide_eq_false (not_not.mpr hc)] at hx
      exact compMeth_of_static hx
    rw [if_neg (not_not.mpr hc)] at hpay
    rw [hmeth]
    refine iff_of_true (unpackIqReads_none_iff.mpr (by omega)) fun h => h.1 hc
  · rw [if_pos hc] at hpay
    by_cases hmeth : h.compMeth = 0
    · rw [hmeth]
      refine unpackIqReads_none_iff.trans ?_
      simp only [hc, ne_eq, not_false_eq_true, true_and, Nat.not_lt]
    · refine iff_of_true (fun r hr => ?_) fun h => hmeth h.2.1
      exact (unpackIqReads_stop (FhCompMethod.ofNat_ne_none hmeth) hr).trans hpay

/-- A stored fragment is safe unless its packet says none for the compression of a cell that has one
and is shorter than uncompressed samples. -/
theorem fragmentSafe_iff (c : Config) (s : Processor) (p : Mbuf) (j : Nat) (f : DlFragment)
    (hst : Stores c s p j f) :
    FragmentSafe c ((s.handleUplanePacket c p).jobs j) f ↔ ¬ UncompressedShort c p := by
  obtain ⟨h, iq, beamId, hadm, rfl, hroom⟩ := hst.admitted
  constructor
  · exact fun hsafe => hadm.payload_iff.mp hsafe.payload
  · intro hshort
    refine ⟨hadm.band, hadm.payload_iff.mpr hshort, hroom, fun number maxStreams o ho => ?_⟩
    have hle := Reader.outputs_stop _ _ ho
    dsimp only at hle
    omega

def cplaneAt12 : Mbuf where
  id := 0
  data := [0x10, 2, 0, 16, 0, 0, 0, 0x80, 0x90, 0, 0, 12, 1, 1, 0, 0, 0, 0, 0, 1, 0xFF, 0xF1, 0, 0]
  behind := fun _ => 0

def uplaneAt12 (compHdr : Byte) (payload : List Byte) : Mbuf where
  id := 1
  data := [0x10, 0, 0, 18, 0, 0, 0, 0x80, 0x90, 0, 0, 12, 0, 0, 0, 1, compHdr, 0] ++ payload
  behind := fun _ => 0

def declaredAt12 : Processor :=
  (((Processor.init.handleAbsoluteSymbolTick .narrow 11).handleCplanePacket .narrow
    cplaneAt12).toOption).getD .init

def fragmentAt12 (method : FhCompMethod) (iqWidth : Nat) (payload : List Byte) : DlFragment where
  eaxcId := 0
  beamId := 0
  startPrbc := 0
  numPrbc := 1
  compMethod := method
  iqWidth := iqWidth
  iqData := payload
  mbuf := 1

theorem stores_at12 : Stores .narrow declaredAt12 (uplaneAt12 0x11 [0, 0, 0, 0]) 2
    (fragmentAt12 .bfp 1 [0, 0, 0, 0]) := by
  decide +kernel

theorem fragmentSafe_iff_at12 : ¬ UncompressedShort .narrow (uplaneAt12 0x11 [0, 0, 0, 0]) ∧
    FragmentSafe .narrow ((declaredAt12.handleUplanePacket .narrow
      (uplaneAt12 0x11 [0, 0, 0, 0])).jobs 2) (fragmentAt12 .bfp 1 [0, 0, 0, 0]) := by
  have hshort : ¬ UncompressedShort .narrow (uplaneAt12 0x11 [0, 0, 0, 0]) := by
    rintro ⟨h, iq, hx, -, hmeth, -⟩
    obtain ⟨rfl, rfl⟩ := Prod.mk.inj (Option.some.inj hx)
    exact absurd hmeth (by decide)
  exact ⟨hshort, (fragmentSafe_iff .narrow declaredAt12 _ 2 _ stores_at12).mpr hshort⟩

/-- One PRB of one bit is stored with the four bytes of a compressed PRB; the reader of uncompressed
samples takes 48. -/
theorem not_forall_fragmentSafe : ¬ ∀ (c : Config) (s : Processor) (p : Mbuf) (j : Nat)
    (f : DlFragment), Stores c s p j f → FragmentSafe c ((s.handleUplanePacket c p).jobs j) f := by
  intro hclaim
  have hst : Stores .narrow declaredAt12 (uplaneAt12 0x10 [0, 0, 0, 0]) 2
      (fragmentAt12 .none 1 [0, 0, 0, 0]) := by
    decide +kernel
  have hpay := unpackIqReads_none_iff.mp (hclaim _ _ _ _ _ hst).payload
  exact absurd hpay (by decide)

end Processor

end OpenAir.Oru

import OpenAir.Oru.ExtensionChain
import OpenAir.Oru.Processor

namespace OpenAir.Oru

open Function

namespace Mbuf

variable {p q : Mbuf} {i n : Nat}

theorem byte_of_lt (h : i < p.data.length) : p.byte i = byteOf p.data i := by
  rw [byte, byteOf, List.getElem?_eq_getElem h]
  rfl

theorem byte_of_le (h : p.data.length ≤ i) : p.byte i = p.behind (i - p.data.length) := by
  rw [byte, List.getElem?_eq_none h]
  rfl

theorem byte_after (h : n ≤ p.data.length) : (p.after n).byte i = p.byte (n + i) := by
  have hbehind : i - (p.data.length - n) = n + i - p.data.length := by omega
  unfold byte after
  rw [List.getElem?_drop, List.length_drop, hbehind]

variable (h : p.data = q.data)

include h

theorem byte_congr (hi : i < p.data.length) : p.byte i = q.byte i := by
  rw [byte_of_lt hi, byte_of_lt (h ▸ hi), h]

theorem after_congr : (p.after n).data = (q.after n).data := by
  rw [after, after, h]

theorem be16_congr (hi : i + 2 ≤ p.data.length) : p.be16 i = q.be16 i := by
  rw [be16, be16, byte_congr h (by omega), byte_congr h (by omega)]

theorem be32_congr (hi : i + 4 ≤ p.data.length) : p.be32 i = q.be32 i := by
  rw [be32, be32, be16_congr h (by omega), be16_congr h (by omega)]

theorem adj_congr : (p.adj n = none ∧ q.adj n = none) ∨
    ∃ p' q', p.adj n = some p' ∧ q.adj n = some q' ∧ p'.data = q'.data ∧
      n + p'.data.length = p.data.length := by
  by_cases hle : n ≤ p.data.length
  · refine .inr ⟨_, _, adj_of_le hle, adj_of_le (h ▸ hle), after_congr h, ?_⟩
    rw [length_after]
    omega
  · exact .inl ⟨adj_of_lt (by omega), adj_of_lt (by rw [← h]; omega)⟩

theorem cplaneHeader_congr (hlen : 6 ≤ p.data.length) :
    p.cplaneHeader = q.cplaneHeader := by
  unfold cplaneHeader
  rw [be32_congr h (by omega), byte_congr h (show 4 < _ by omega),
    byte_congr h (show 5 < _ by omega)]

theorem udComp_congr (hi : i < p.data.length) : p.udComp i = q.udComp i := by
  rw [udComp, udComp, byte_congr h hi]

theorem sectionHeader_congr (hlen : 8 ≤ p.data.length) :
    p.sectionHeader = q.sectionHeader := by
  unfold sectionHeader
  rw [be32_congr h (show 0 + 4 ≤ _ by omega), be32_congr h (show 4 + 4 ≤ _ by omega)]

theorem uplaneHeader_congr {p₁ q₁ p₂ q₂ : Mbuf} (h₁ : p₁.data = q₁.data)
    (h₂ : p₂.data = q₂.data) (hlen : 8 ≤ p.data.length) (hlen₁ : 4 ≤ p₁.data.length)
    (hlen₂ : 4 ≤ p₂.data.length) : uplaneHeader p p₁ p₂ = uplaneHeader q q₁ q₂ := by
  unfold uplaneHeader
  rw [be16_congr h (by omega), be16_congr h₁ (by omega), be32_congr h₂ (by omega),
    byte_congr h (by omega), byte_congr h₁ (show 0 < _ by omega),
    byte_congr h₁ (show 1 < _ by omega)]

end Mbuf

def DlFragment.anonymous (f : DlFragment) : DlFragment := { f with mbuf := 0 }

theorem prbsOf_anonymous {n : Nat} {fs : List DlFragment} (h : n = prbsOf fs) :
    n = prbsOf (fs.map DlFragment.anonymous) := by
  rw [h, prbsOf, prbsOf, List.map_map]
  rfl

def DlSymbolJob.anonymous (job : DlSymbolJob) : DlSymbolJob where
  streams := job.streams
  fragments := job.fragments.map DlFragment.anonymous
  numFragmentPrbs := job.numFragmentPrbs
  absoluteSymbol := job.absoluteSymbol
  numFragmentPrbs_eq := prbsOf_anonymous job.numFragmentPrbs_eq

namespace Processor

variable {c : Config} {s t : Processor} {p q : Mbuf}

/-- The state up to the identity of the buffers in it. -/
def anonymous (s : Processor) : Processor :=
  { s with
    jobs := fun j => (s.jobs j).anonymous
    freed := s.freed.map fun _ => 0 }

def OnlyStatistics (s : Processor) (p : Mbuf) (t : Processor) : Prop :=
  ∃ st, t = { s with stats := st, freed := s.freed ++ [p.id] }

theorem anonymous_free : (s.free p).anonymous = (s.free q).anonymous := by
  simp [anonymous, free]

theorem extract_congr (e : Bool) (h : p.data = q.data) :
    (p.xranExtractIqSamples e = none ∧ q.xranExtractIqSamples e = none) ∨
    ∃ hdr iq iq', p.xranExtractIqSamples e = some (hdr, iq) ∧
      q.xranExtractIqSamples e = some (hdr, iq') ∧ iq.data = iq'.data := by
  unfold Mbuf.xranExtractIqSamples
  rcases Mbuf.adj_congr (n := 8) h with ⟨hp, hq⟩ | ⟨p₁, q₁, hp, hq, h₁, hlen⟩
  · exact .inl ⟨by rw [hp]; rfl, by rw [hq]; rfl⟩
  simp only [hp, hq, Option.bind_eq_bind, Option.bind_some]
  rcases Mbuf.adj_congr (n := 4) h₁ with ⟨hp, hq⟩ | ⟨p₂, q₂, hp, hq, h₂, hlen₁⟩
  · exact .inl ⟨by rw [hp]; rfl, by rw [hq]; rfl⟩
  simp only [hp, hq, Option.bind_some]
  rcases Mbuf.adj_congr (n := 4) h₂ with ⟨hp, hq⟩ | ⟨p₃, q₃, hp, hq, h₃, hlen₂⟩
  · simp [hp, hq]
  have hhdr := Mbuf.uplaneHeader_congr h h₁ h₂ (by omega) (by omega) (by omega)
  simp only [hp, hq, Option.bind_some, hhdr]
  cases e with
  | false => exact .inr ⟨_, _, _, rfl, rfl, h₃⟩
  | true =>
    simp only [if_true]
    rcases Mbuf.adj_congr (n := 2) h₃ with ⟨hp, hq⟩ | ⟨p₄, q₄, hp, hq, h₄, hlen₃⟩
    · exact .inl ⟨by rw [hp]; rfl, by rw [hq]; rfl⟩
    · simp only [hp, hq, Option.bind_some, Mbuf.byte_congr h₃ (show 0 < _ by omega)]
      exact .inr ⟨_, _, _, rfl, rfl, h₄⟩

theorem anonymous_setJob {j : Nat} {job job' : DlSymbolJob} (h : job.anonymous = job'.anonymous) :
    (s.setJob j job).anonymous = (s.setJob j job').anonymous := by
  have hjobs : (fun k => (update s.jobs j job k).anonymous) =
      fun k => (update s.jobs j job' k).anonymous := by
    funext k
    by_cases hk : k = j
    · subst hk
      rw [update_self, update_self, h]
    · rw [update_of_ne hk, update_of_ne hk]
  unfold anonymous setJob
  rw [hjobs]

theorem addDlFragment_congr (c : Config) (p q : Mbuf) (job : DlSymbolJob) (h : UplaneHeader)
    (iqData : List Byte) (beamId : Nat) (m : Int) :
    (job.addDlFragment (fragmentOf c p h iqData beamId) m = none ∧
      job.addDlFragment (fragmentOf c q h iqData beamId) m = none) ∨
    ∃ job₁ job₂, job.addDlFragment (fragmentOf c p h iqData beamId) m = some job₁ ∧
      job.addDlFragment (fragmentOf c q h iqData beamId) m = some job₂ ∧
      ∀ k g, (job₁.modifyStream k g).anonymous = (job₂.modifyStream k g).anonymous := by
  by_cases hfull : job.fragments.length ≥ maxDlFragmentsPerSymbol ∨
      (job.numFragmentPrbs : Int) + effectiveNumPrbu c h.numPrbu > m
  · exact .inl ⟨if_pos hfull, if_pos hfull⟩
  · refine .inr ⟨_, _, if_neg hfull, if_neg hfull, fun k g => DlSymbolJob.ext rfl ?_ rfl rfl⟩
    simp only [DlSymbolJob.anonymous, DlSymbolJob.modifyStream, List.map_append, List.map_cons,
      List.map_nil]
    rfl

theorem storeUplanePacket_congr (h : UplaneHeader) (iqData : List Byte) :
    (s.storeUplanePacket c p h iqData).anonymous =
      (s.storeUplanePacket c q h iqData).anonymous := by
  unfold storeUplanePacket storeAt
  dsimp only
  split
  · exact anonymous_free
  split
  · exact anonymous_free
  split
  · exact anonymous_free
  cases hslot : (s.observe .dlUplane _).dlSymbolRxWindow (slotOf _) with
  | none => exact anonymous_free
  | some j =>
    dsimp only
    split
    · exact anonymous_free
    cases hk : ((s.observe .dlUplane _).jobs j).findDlStreamBySection h.antId h.sectId with
    | none => exact anonymous_free
    | some k =>
      dsimp only
      -- the two fragments differ in their buffers
      rcases addDlFragment_congr c p q (s.jobs j) h iqData
        (((s.jobs j).streams[k]?.map DlStreamSlot.beamId).getD 0) c.dlIqArenaPrbs with
        ⟨hp, hq⟩ | ⟨job₁, job₂, hp, hq, heq⟩
      · simp only [observe, hp, hq]
        exact anonymous_free
      · simp only [observe, hp, hq]
        exact anonymous_setJob (heq _ _)

theorem handleUplanePacket_congr (h : p.data = q.data) :
    (s.handleUplanePacket c p).anonymous = (s.handleUplanePacket c q).anonymous := by
  unfold handleUplanePacket
  dsimp only
  rcases extract_congr (c.dlCompMethod ≠ .none) h with ⟨hp, hq⟩ | ⟨hdr, iq, iq', hp, hq, hdata⟩
  · rw [hp, hq]
    exact anonymous_free
  rw [hp, hq]
  dsimp only
  rw [hdata]
  split
  · exact anonymous_free
  split
  · exact anonymous_free
  split
  · exact anonymous_free
  split
  · exact anonymous_free
  split
  · exact anonymous_free
  exact storeUplanePacket_congr hdr iq'.data

end Processor

end OpenAir.Oru

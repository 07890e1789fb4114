import OpenAir.Oru.Step

namespace OpenAir.Oru.Processor

structure Admitted (c : Config) (s : Processor) (p : Mbuf) (h : UplaneHeader)
    (iq : Mbuf) (j : Nat) : Prop where
  headers : p.xranExtractIqSamples (c.dlCompMethod ≠ .none) = some (h, iq)
  method : c.dlCompMethod ≠ .none → h.compMeth < 4
  antenna : h.antId < maxAntennas
  start : (h.startPrbu : Int) ≤ c.numPrb
  num : (effectiveNumPrbu c h.numPrbu : Int) ≤ (c.numPrb - h.startPrbu) % 2 ^ 16
  payload : expectedBytes c h ≤ iq.data.length
  dlSymbol : c.isDlSymbol (s.jobs j).absoluteSymbol = true
  slot : s.dlSymbolRxWindow (slotOf (s.jobs j).absoluteSymbol) = some j

inductive UplaneOutcome (c : Config) (s : Processor) (p : Mbuf) : Processor → Prop
  | dropped (st : Stats) : UplaneOutcome c s p { s with stats := st, freed := s.freed ++ [p.id] }
  | stored (st : Stats) {h : UplaneHeader} {iq : Mbuf} {j k beamId : Nat} {job : DlSymbolJob}
      (f : DlStreamSlot → DlStreamSlot) (hadm : Admitted c s p h iq j)
      (hadd : (s.jobs j).addDlFragment (fragmentOf c p h iq.data beamId) c.dlIqArenaPrbs =
        some job) :
      UplaneOutcome c s p ({ s with stats := st }.setJob j (job.modifyStream k f))

theorem storeUplanePacket_outcome {c : Config} {s : Processor} {p iq : Mbuf} {h : UplaneHeader}
    {st : Stats} (hx : p.xranExtractIqSamples (c.dlCompMethod ≠ .none) = some (h, iq))
    (hm : ¬ (c.dlCompMethod ≠ .none ∧ h.compMeth ≥ 4)) (ha : ¬ h.antId ≥ maxAntennas)
    (hr : ¬ ((h.startPrbu : Int) > c.numPrb ∨
      (effectiveNumPrbu c h.numPrbu : Int) > (c.numPrb - h.startPrbu) % 2 ^ 16))
    (hp : ¬ iq.data.length < expectedBytes c h) :
    UplaneOutcome c s p ({ s with stats := st }.storeUplanePacket c p h iq.data) := by
  unfold storeUplanePacket storeAt
  dsimp only
  split
  · exact .dropped _
  split
  · exact .dropped _
  split
  · exact .dropped _
  next hdl =>
  split
  · exact .dropped _
  next j hj =>
  split
  · exact .dropped _
  next hsym =>
  split
  · exact .dropped _
  next k hk =>
  split
  · exact .dropped _
  next job hjob =>
  have hsym' : (s.jobs j).absoluteSymbol = _ := not_not.mp hsym
  refine .stored _ _ ⟨hx, fun hc => ?_, by omega, by omega, by omega, by omega, ?_, ?_⟩ hjob
  · exact Nat.lt_of_not_le fun hge => hm ⟨hc, hge⟩
  · rw [hsym']
    simpa using hdl
  · rw [hsym']
    exact hj

theorem handleUplanePacket_outcome (c : Config) (s : Processor) (p : Mbuf) :
    UplaneOutcome c s p (s.handleUplanePacket c p) := by
  unfold handleUplanePacket
  dsimp only
  split
  · exact .dropped _
  next h iq hx =>
  split
  · exact .dropped _
  split
  · exact .dropped _
  next hm =>
  split
  · exact .dropped _
  next ha =>
  split
  · exact .dropped _
  next hr =>
  split
  · exact .dropped _
  next hp =>
  exact storeUplanePacket_outcome hx hm ha hr hp

end OpenAir.Oru.Processor

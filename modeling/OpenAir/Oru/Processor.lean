import OpenAir.Oru.Packet

/-! The packet processor of the O-RU: downlink symbol jobs, their rings, and the handlers of ticks
and packets. -/

namespace OpenAir.Oru

open Function

/-- `MAX_CONCURRENT_DL_JOBS` -/
def maxDlJobs : Nat := 1023

def maxUlJobs : Nat := 1023

def ringCapacity : Nat := 1023

def maxSectionsPerDlStream : Nat := 4

def maxDlStreamsPerSymbol : Nat := 16

def maxDlFragmentsPerSymbol : Nat := 64

def maxSlotsPerFrame : Nat := 160

def Config.dlIqArenaPrbs (c : Config) : Int := maxDlStreamsPerSymbol * c.numPrb

/-- `dl_stream_slot_t` -/
structure DlStreamSlot where
  eaxcId : Nat
  beamId : Nat
  sectionIds : List Nat := []
  expectedIq : Int := 0
  receivedIq : Int := 0
  deriving DecidableEq

/-- `dl_fragment_t`.  The IQ data are what the packet has from `iq_data` on. -/
structure DlFragment where
  eaxcId : Nat
  beamId : Nat
  startPrbc : Nat
  numPrbc : Nat
  compMethod : FhCompMethod
  iqWidth : Nat
  iqData : List Byte
  mbuf : Nat
  deriving DecidableEq

def prbsOf (fragments : List DlFragment) : Nat := (fragments.map DlFragment.numPrbc).sum

theorem prbsOf_nil : 0 = prbsOf [] := rfl

theorem prbsOf_concat {fragments : List DlFragment} {n : Nat} (h : n = prbsOf fragments)
    (f : DlFragment) : n + f.numPrbc = prbsOf (fragments ++ [f]) := by
  simp [prbsOf, h]

/-- `dl_symbol_job_t` -/
@[ext]
structure DlSymbolJob where
  streams : List DlStreamSlot
  fragments : List DlFragment
  numFragmentPrbs : Nat
  absoluteSymbol : Nat
  numFragmentPrbs_eq : numFragmentPrbs = prbsOf fragments

namespace DlSymbolJob

def fresh (symbol : Nat) : DlSymbolJob where
  streams := []
  fragments := []
  numFragmentPrbs := 0
  absoluteSymbol := symbol
  numFragmentPrbs_eq := prbsOf_nil

variable (job : DlSymbolJob)

def findDlStreamBySection (eaxcId sectionId : Nat) : Option Nat :=
  job.streams.findIdx? fun s => s.eaxcId = eaxcId && s.sectionIds.contains sectionId

def findOrAddDlStream (eaxcId beamId : Nat) : Option (Nat × DlSymbolJob) :=
  match job.streams.findIdx? fun s => s.eaxcId = eaxcId && s.beamId = beamId with
  | some k => some (k, job)
  | none =>
    if job.streams.length ≥ maxDlStreamsPerSymbol then none
    else some (job.streams.length, { job with streams := job.streams ++ [{ eaxcId, beamId }] })

def addDlFragment (frag : DlFragment) (maxPrbs : Int) : Option DlSymbolJob :=
  if job.fragments.length ≥ maxDlFragmentsPerSymbol ∨
      (job.numFragmentPrbs : Int) + frag.numPrbc > maxPrbs then none
  else some { job with
    fragments := job.fragments ++ [frag]
    numFragmentPrbs := job.numFragmentPrbs + frag.numPrbc
    numFragmentPrbs_eq := prbsOf_concat job.numFragmentPrbs_eq frag }

def modifyStream (k : Nat) (f : DlStreamSlot → DlStreamSlot) : DlSymbolJob :=
  { job with streams := job.streams.modify k f }

def fullyDelivered : Bool := job.streams.all fun s => s.receivedIq = s.expectedIq

end DlSymbolJob

/-- `ul_job_t` -/
structure UlJob where
  sectionId : Nat
  compMethod : Nat
  iqWidth : Nat
  hyperFrame : Nat
  frame : Nat
  slotInFrame : Nat
  symbol : Nat
  numSymbols : Nat
  antennaId : Nat
  beamId : Nat
  startPrb : Nat
  numPrb : Int
  deriving DecidableEq

/-- `prach_job_t` -/
structure PrachJob where
  startAbsoluteSymbol : Nat
  numSymbols : Nat
  sectionId : Nat
  numPrb : Int
  startPrb : Nat
  filterId : Nat
  beamId : Nat
  compMethod : Nat
  iqWidth : Nat
  deriving DecidableEq

/-- A call of `read_dl_iq_streams` that has taken a job. -/
structure Reader where
  job : Nat
  maxStreams : Int
  next : Nat := 0
  outCount : Nat := 0
  arenaOff : Nat := 0
  deriving DecidableEq

/-- Jobs are known by their numbers; `freed`, `pushed` and `enqueueFailures` are the history: the
buffers given back, the symbols put into `dl_ready_jobs`, and the failed calls of
`rte_ring_enqueue`. -/
structure Processor where
  jobs : Nat → DlSymbolJob
  dlSymbolRxWindow : Nat → Option Nat
  wasDlSymbolCompleted : Nat → Bool
  prachJobs : Nat → Nat → Option PrachJob
  currentAbsoluteSymbol : Nat
  windowTailSymbol : Nat
  cplaneClosedTailSymbol : Nat
  dlFreeJobs : List Nat
  dlReadyJobs : List Nat
  ulFreeJobs : List Nat
  ulReadyJobs : List Nat
  ulJobs : Nat → Option UlJob
  stats : Stats
  bufs : Ext11Buffers
  readers : List Reader
  freed : List Nat
  pushed : List Nat
  enqueueFailures : Nat

namespace Processor

/-- The state that `init_packet_processor` makes. -/
def init : Processor where
  jobs := fun _ => .fresh 0
  dlSymbolRxWindow := fun _ => none
  wasDlSymbolCompleted := fun _ => false
  prachJobs := fun _ _ => none
  currentAbsoluteSymbol := 0
  windowTailSymbol := 0
  cplaneClosedTailSymbol := 0
  dlFreeJobs := List.range maxDlJobs
  dlReadyJobs := []
  ulFreeJobs := List.range maxUlJobs
  ulReadyJobs := []
  ulJobs := fun _ => none
  stats := {}
  bufs := {}
  readers := []
  freed := []
  pushed := []
  enqueueFailures := 0

variable (s : Processor)

def bump (k : Counter) : Processor := { s with stats := s.stats.bump k }

def observe (h : Hist) (diff : Int) : Processor := { s with stats := s.stats.observe h diff }

def free (p : Mbuf) : Processor := { s with freed := s.freed ++ [p.id] }

def setJob (j : Nat) (job : DlSymbolJob) : Processor := { s with jobs := update s.jobs j job }

def setWindow (k : Nat) (v : Option Nat) : Processor :=
  { s with dlSymbolRxWindow := update s.dlSymbolRxWindow k v }

def setCompleted (k : Nat) (b : Bool) : Processor :=
  { s with wasDlSymbolCompleted := update s.wasDlSymbolCompleted k b }

def setPrachJob (slot aarx : Nat) (job : PrachJob) : Processor :=
  { s with
    prachJobs := update s.prachJobs slot (update (s.prachJobs slot) aarx job) }

/-- `rte_ring_enqueue` on `dl_ready_jobs` and the reaction of both callers to a failure. -/
def enqueueReady (j : Nat) : Processor :=
  if s.dlReadyJobs.length < ringCapacity then
    { s with
      dlReadyJobs := s.dlReadyJobs ++ [j]
      pushed := s.pushed ++ [(s.jobs j).absoluteSymbol] }
  else { s with enqueueFailures := s.enqueueFailures + 1 }.bump .applicationTooSlow

def slotOf (symbol : Nat) : Nat := symbol % maxDlJobs

section Tick

variable (c : Config)

/-- One round of `release_cplane_complete_jobs`. -/
def releaseStep : Processor :=
  let symbol := s.cplaneClosedTailSymbol
  let s :=
    if c.isDlSymbol symbol then
      match s.dlSymbolRxWindow (slotOf symbol) with
      | none => s
      | some j =>
        if (s.jobs j).absoluteSymbol = symbol && (s.jobs j).fullyDelivered then
          ((s.setWindow (slotOf symbol) none).setCompleted (slotOf symbol) true).enqueueReady j
        else s
    else s
  { s with cplaneClosedTailSymbol := symbol + 1 }

def releaseCplaneCompleteJobs (symbol : Nat) : Processor :=
  (releaseStep · c)^[symbol + 1 - s.cplaneClosedTailSymbol] s

/-- One round of `push_symbol_job`; it returns when it needs a job and there is none. -/
def pushSymbolStep : Bool × Processor :=
  let symbol := s.windowTailSymbol
  if !c.isDlSymbol symbol then (true, { s with windowTailSymbol := symbol + 1 })
  else
    match s.dlSymbolRxWindow (slotOf symbol) with
    | some j =>
      -- still in the window: flushed as it is
      let s :=
        ((s.setWindow (slotOf symbol) none).setCompleted (slotOf symbol) false).enqueueReady j
      (true, { s with windowTailSymbol := symbol + 1 })
    | none =>
      if s.wasDlSymbolCompleted (slotOf symbol) then
        (true, { s.setCompleted (slotOf symbol) false with windowTailSymbol := symbol + 1 })
      else
        -- never seen on the C-plane: an empty placeholder
        match s.dlFreeJobs with
        | [] => (false, s.bump .applicationTooSlow)
        | j :: rest =>
          let s := (({ s with dlFreeJobs := rest }).setJob j (.fresh symbol)).enqueueReady j
          (true, { s with windowTailSymbol := symbol + 1 })

def pushSymbolJob (symbol : Nat) : Processor :=
  rounds (fun _ s => pushSymbolStep s c) (symbol + 1 - s.windowTailSymbol) 0 s

/-- `handle_absolute_symbol_tick` before the release. -/
def tickStart (symbol : Nat) : Processor :=
  let before := (symbol + 2 ^ 64 - 1) % 2 ^ 64
  let s :=
    if s.currentAbsoluteSymbol = 0 then
      { s with
        currentAbsoluteSymbol := before
        windowTailSymbol := before
        cplaneClosedTailSymbol := before }
    else s
  { s with currentAbsoluteSymbol := symbol }

def handleAbsoluteSymbolTick (symbol : Nat) : Processor :=
  let s := s.tickStart symbol
  let s :=
    if c.t2aMinCpSymDiff.toNat > 0 then
      s.releaseCplaneCompleteJobs c (symbol + c.t2aMinCpSymDiff.toNat - 1)
    else s
  let minT2aMin := min c.t2aMinCpSymDiff.toNat c.t2aMinUpDlSymDiff.toNat
  s.pushSymbolJob c (symbol + (minT2aMin - 1))

end Tick

section Timing

variable (c : Config)

/-- How far the symbol of a header is from the current one; frames are counted modulo 256. -/
def symbolDiff (frameId subframeId slotId symbolId : Nat) : Int :=
  let symbolInFrame := (slotId + subframeId * 2 ^ c.numerology) * symbolsPerSlot + symbolId
  let currentFrameId := s.currentAbsoluteSymbol / c.symbolsPerFrame % 256
  let frameDiff : Int := frameId - currentFrameId
  let frameDiff :=
    if frameDiff < -128 then frameDiff + 256
    else if frameDiff > 127 then frameDiff - 256 else frameDiff
  frameDiff * c.symbolsPerFrame + symbolInFrame -
    (s.currentAbsoluteSymbol % c.symbolsPerFrame : Nat)

def targetSymbol (diff : Int) : Nat := ((s.currentAbsoluteSymbol + diff) % 2 ^ 64).toNat

end Timing

def effectiveNumPrbu (c : Config) (numPrbu : Nat) : Nat :=
  (c.effectiveNumPrb numPrbu % 2 ^ 16).toNat

def expectedBytes (c : Config) (h : UplaneHeader) : Nat :=
  effectiveNumPrbu c h.numPrbu *
    if c.dlCompMethod ≠ .none then 1 + 3 * effectiveIqWidth h.iqWidth else 12 * 2 * 2

def fragmentOf (c : Config) (p : Mbuf) (h : UplaneHeader) (iqData : List Byte) (beamId : Nat) :
    DlFragment where
  eaxcId := h.antId
  beamId := beamId
  startPrbc := h.startPrbu
  numPrbc := effectiveNumPrbu c h.numPrbu
  compMethod := .ofNat h.compMeth
  iqWidth := effectiveIqWidth h.iqWidth
  iqData := iqData
  mbuf := p.id

def storeAt (c : Config) (p : Mbuf) (h : UplaneHeader) (iqData : List Byte) (target : Nat) :
    Processor :=
  if !c.isDlSymbol target then (s.bump .dlTddMismatch).free p
  else
    match s.dlSymbolRxWindow (slotOf target) with
    | none => (s.bump .uplaneErrLate).free p
    | some j =>
      if (s.jobs j).absoluteSymbol ≠ target then (s.bump .uplaneErrLate).free p
      else
        match (s.jobs j).findDlStreamBySection h.antId h.sectId with
        | none => (s.bump .uplaneMissingCplane).free p
        | some k =>
          let beamId := ((s.jobs j).streams[k]?.map DlStreamSlot.beamId).getD 0
          let frag := fragmentOf c p h iqData beamId
          match (s.jobs j).addDlFragment frag c.dlIqArenaPrbs with
          | none => (s.bump .dlFragmentsPoolExhausted).free p
          | some job =>
            s.setJob j (job.modifyStream k fun st =>
              { st with receivedIq := st.receivedIq + frag.numPrbc })

def storeUplanePacket (c : Config) (p : Mbuf) (h : UplaneHeader) (iqData : List Byte) : Processor :=
  let diff := s.symbolDiff c h.frameId h.subframeId h.slotId h.symbId
  let s := s.observe .dlUplane diff
  if diff > c.t2aMaxUpDlSymDiff.toInt then (s.bump .uplaneErrEarly).free p
  else if diff < c.t2aMinUpDlSymDiff.toInt then (s.bump .uplaneErrLate).free p
  else s.storeAt c p h iqData (s.targetSymbol diff)

def handleUplanePacket (c : Config) (p : Mbuf) : Processor :=
  let s := s.bump .totalUplaneReceived
  match p.xranExtractIqSamples (c.dlCompMethod ≠ .none) with
  | none => s.free p
  | some (h, iq) =>
    if iq.data.length = 0 then s.free p
    else if c.dlCompMethod ≠ .none ∧ h.compMeth ≥ 4 then s.free p
    else if h.antId ≥ maxAntennas then (s.bump .invalidEaxcId).free p
    else if (h.startPrbu : Int) > c.numPrb ∨
        (effectiveNumPrbu c h.numPrbu : Int) > (c.numPrb - h.startPrbu) % 2 ^ 16 then
      (s.bump .uplaneErrPrbRange).free p
    else if iq.data.length < expectedBytes c h then (s.bump .uplaneErrShortPayload).free p
    else s.storeUplanePacket c p h iq.data

section Cplane

variable (c : Config)

def declareSection (job : DlSymbolJob) (antId : Nat) (sec : SectionHeader) :
    List Counter ⊕ DlSymbolJob :=
  match job.findDlStreamBySection antId sec.sectionId with
  | some _ => .inl [.cplaneErrDup, .cplaneErrDupDl]
  | none =>
    match job.findOrAddDlStream antId sec.beamId with
    | none => .inl [.dlStreamPoolExhausted]
    | some (k, job) =>
      if ((job.streams[k]?.map fun st => st.sectionIds.length).getD 0) ≥ maxSectionsPerDlStream then
        .inl [.dlStreamSectionsExhausted]
      else
        .inr (job.modifyStream k fun st =>
          { st with
            sectionIds := st.sectionIds ++ [sec.sectionId]
            expectedIq := st.expectedIq + c.effectiveNumPrb sec.numPrbc })

def openJob (symbol : Nat) : (Counter × Processor) ⊕ (Nat × Processor) :=
  match s.dlSymbolRxWindow (slotOf symbol) with
  | none =>
    match s.dlFreeJobs with
    | [] => .inl (.applicationTooSlow, s)
    | j :: rest =>
      .inr (j, ((({ s with dlFreeJobs := rest }).setJob j (.fresh symbol)).setWindow (slotOf symbol)
        (some j)).setCompleted (slotOf symbol) false)
  | some j => if (s.jobs j).absoluteSymbol ≠ symbol then .inl (.cplaneErrLate, s) else .inr (j, s)

def dlCplaneSymbol (antId : Nat) (sec : SectionHeader) (diff : Int) (target i : Nat) :
    Bool × Processor :=
  if diff + i > c.t2aMaxCpSymDiff.toInt then (false, s.bump .cplaneErrEarly)
  else if diff + i < c.t2aMinCpSymDiff.toInt then (false, s.bump .cplaneErrLate)
  else
    match s.openJob (target + i) with
    | .inl (k, s) => (false, s.bump k)
    | .inr (j, s) =>
      match declareSection c (s.jobs j) antId sec with
      | .inl ks => (false, ks.foldl bump s)
      | .inr job => (true, s.setJob j job)

def declareFrom (sec : SectionHeader) (antId : Nat) (diff : Int) (target : Nat) : Processor :=
  if !c.isDlSymbol target then s.bump .dlTddMismatch
  else rounds (fun i s => s.dlCplaneSymbol c antId sec diff target i) sec.numSymbol 0 s

def handleDlCplanePacket (h : CplaneHeader) (sec : SectionHeader) (antId : Nat) : Processor :=
  if antId ≥ maxAntennas then s.bump .invalidEaxcId
  else
    let diff := s.symbolDiff c h.frameId h.subframeId h.slotId h.startSymbolId
    let s := s.observe .dlCplane diff
    if diff > c.t2aMaxCpSymDiff.toInt then s.bump .cplaneErrEarly
    else if diff < c.t2aMinCpSymDiff.toInt then s.bump .cplaneErrLate
    else s.declareFrom c sec antId diff (s.targetSymbol diff)

def ulJobOf (sec : SectionHeader) (ud : UdCompHeader) (antId target : Nat) : UlJob where
  sectionId := sec.sectionId
  compMethod := ud.udCompMeth
  iqWidth := effectiveIqWidth ud.udIqWidth
  hyperFrame := target / (1024 * c.symbolsPerFrame)
  frame := target / c.symbolsPerFrame % 1024
  slotInFrame := target % c.symbolsPerFrame / symbolsPerSlot
  symbol := target % symbolsPerSlot
  numSymbols := sec.numSymbol
  antennaId := antId
  beamId := sec.beamId
  startPrb := sec.startPrbc
  numPrb := c.effectiveNumPrb sec.numPrbc

def requestUl (sec : SectionHeader) (ud : UdCompHeader) (antId target : Nat) : Exec Processor :=
  if !c.isUlSymbol target then return s.bump .ulTddMismatch
  else
    match s.ulFreeJobs with
    | [] => return s.bump .applicationTooSlow
    | j :: rest => do
      assertFatal (s.ulReadyJobs.length < ringCapacity)
      return { s with
        ulFreeJobs := rest
        ulJobs := update s.ulJobs j (some (ulJobOf c sec ud antId target))
        ulReadyJobs := s.ulReadyJobs ++ [j] }

def handleUlCplanePacket (h : CplaneHeader) (ud : UdCompHeader) (sec : SectionHeader)
    (antId : Nat) : Exec Processor :=
  if sec.numSymbol = 0 then return s.bump .ulCplaneErrInvalidNumSymbols
  else
    let diff := s.symbolDiff c h.frameId h.subframeId h.slotId h.startSymbolId
    let s := s.observe .ulCplane diff
    if diff > c.t2aMaxCpSymDiff.toInt then return s.bump .cplaneErrEarly
    else if diff < c.t2aMinCpSymDiff.toInt then return s.bump .cplaneErrLate
    else s.requestUl c sec ud antId (s.targetSymbol diff)

def prachJobOf (h : CplaneHeader) (sec : SectionHeader) (ud : UdCompHeader) (target : Nat) :
    PrachJob where
  startAbsoluteSymbol := target
  numSymbols := sec.numSymbol
  sectionId := sec.sectionId
  numPrb := c.effectiveNumPrb sec.numPrbc
  startPrb := sec.startPrbc
  filterId := h.filterIndex
  beamId := sec.beamId
  compMethod := ud.udCompMeth
  iqWidth := effectiveIqWidth ud.udIqWidth

def handlePrachCplanePacket (q : Mbuf) (antId : Nat) : Processor :=
  let h := q.cplaneHeader
  if h.numOfSections ≠ 1 then s.bump .cplaneErrHdr
  else
    match q.adj 12 with
    | none => s.bump .cplaneErrHdr
    | some r =>
      let sec := r.sectionHeader
      let aarx : Int := antId - c.prachEaxcOffset
      if aarx < 0 ∨ aarx ≥ maxAntennas then s
      else
        let slotInFrame := h.slotId + h.subframeId * 2 ^ c.numerology
        let diff := s.symbolDiff c h.frameId h.subframeId h.slotId h.startSymbolId
        let s := s.observe .prachCplane diff
        let target := s.targetSymbol diff
        if slotInFrame ≥ maxSlotsPerFrame then s
        else if (s.prachJobs slotInFrame aarx.toNat).any (·.startAbsoluteSymbol = target) then
          (s.bump .cplaneErrDup).bump .cplaneErrDupPrach
        else
          s.setPrachJob slotInFrame aarx.toNat (prachJobOf c h sec (q.udComp 11) target)

def handleSection1 (q r : Mbuf) (antId : Nat) : Exec Processor := do
  let sec := r.sectionHeader
  let e ← parseSection1Extensions c (r.data.length + 1) r.data sec.ef sec.numPrbc ⟨s.stats, s.bufs⟩
  let s := { s with stats := e.stats, bufs := e.bufs }
  if q.cplaneHeader.dataDirection = 1 then
    return (s.bump .cplaneReceivedDl).handleDlCplanePacket c q.cplaneHeader sec antId
  else (s.bump .cplaneReceivedUl).handleUlCplanePacket c q.cplaneHeader (q.udComp 6) sec antId

def cplaneAntenna (p : Mbuf) : Nat := (xranDecomposeCid eaxcidConfig (p.be16 4)).2

/-- `handle_cplane_packet` up to the free, which ends each of its paths. -/
def cplaneBody (p : Mbuf) : Exec Processor :=
  let s := s.bump .totalCplane
  let h := (p.after 8).cplaneHeader
  if p.data.length < 8 then return s.bump .cplaneErrHdr
  else if h.payloadVer ≠ 1 then return s.bump .cplaneErrVer
  else if h.sectionType = 1 then
    if p.data.length < 16 then return s.bump .cplaneErrHdr
    else s.handleSection1 c (p.after 8) (p.after 16) (cplaneAntenna p)
  else if h.sectionType = 3 then
    return (s.bump .cplaneReceivedPrach).handlePrachCplanePacket c (p.after 8) (cplaneAntenna p)
  else return s.bump .cplaneReceivedOther

def handleCplanePacket (p : Mbuf) : Exec Processor := (s.cplaneBody c p).map (·.free p)

end Cplane

end Processor

end OpenAir.Oru

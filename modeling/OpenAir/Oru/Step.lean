import OpenAir.Lib.Run
import OpenAir.Oru.Processor

namespace OpenAir.Oru

/-- `dl_iq_stream_t` -/
structure DlIqStream where
  antId : Nat
  beamId : Nat
  startPrb : Nat
  numPrb : Nat
  iq : Nat
  deriving DecidableEq

namespace Reader

/-- A fragment of the job: it becomes a stream as long as the caller has room for one. -/
def take (r : Reader) (f : DlFragment) : Reader :=
  if r.outCount ≥ r.maxStreams then { r with next := r.next + 1 }
  else { r with next := r.next + 1, outCount := r.outCount + 1, arenaOff :=
    r.arenaOff + f.numPrbc * 12 }

def output (r : Reader) (f : DlFragment) : Option DlIqStream :=
  if r.outCount ≥ r.maxStreams then none
  else some
    { antId := f.eaxcId, beamId := f.beamId, startPrb := f.startPrbc, numPrb := f.numPrbc,
      iq := r.arenaOff }

def outputs (r : Reader) : List DlFragment → List DlIqStream
  | [] => []
  | f :: fs => (r.output f).toList ++ (r.take f).outputs fs

end Reader

namespace Processor

variable (s : Processor)

/-- `read_dl_iq_streams` -/
def readBegin (maxStreams : Int) : Processor :=
  match s.dlReadyJobs with
  | [] => s
  | j :: rest => { s with dlReadyJobs := rest, readers := s.readers ++ [{ job := j, maxStreams }] }

def readFragment (i : Nat) : Processor :=
  match s.readers[i]? with
  | none => s
  | some r =>
    match (s.jobs r.job).fragments[r.next]? with
    | none => s
    | some f => { s with readers := s.readers.set i (r.take f), freed := s.freed ++ [f.mbuf] }

def readEnd (i : Nat) : Exec Processor :=
  match s.readers[i]? with
  | none => return s
  | some r =>
    if r.next < (s.jobs r.job).fragments.length then return s
    else do
      assertFatal (s.dlFreeJobs.length < ringCapacity)
      return { s with readers := s.readers.eraseIdx i, dlFreeJobs := s.dlFreeJobs ++ [r.job] }

def pollUlJob : Processor :=
  match s.ulReadyJobs with
  | [] => s
  | j :: rest =>
    if s.ulFreeJobs.length < ringCapacity then
      { s with ulReadyJobs := rest, ulFreeJobs := s.ulFreeJobs ++ [j] }
    else { s with ulReadyJobs := rest, enqueueFailures := s.enqueueFailures + 1 }

end Processor

inductive Op
  | tick (symbol : Nat)
  | cplane (p : Mbuf)
  | uplane (p : Mbuf)
  | readBegin (maxStreams : Int)
  | readFragment (i : Nat)
  | readEnd (i : Nat)
  | pollUlJob

namespace Processor

def exec (c : Config) (s : Processor) : Op → Exec Processor
  | .tick symbol => return s.handleAbsoluteSymbolTick c symbol
  | .cplane p => s.handleCplanePacket c p
  | .uplane p => return s.handleUplanePacket c p
  | .readBegin maxStreams => return s.readBegin maxStreams
  | .readFragment i => return s.readFragment i
  | .readEnd i => s.readEnd i
  | .pollUlJob => return s.pollUlJob

end Processor

end OpenAir.Oru

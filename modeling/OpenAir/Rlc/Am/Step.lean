import OpenAir.Lib.Run
import OpenAir.Rlc.Am.Transmit

namespace OpenAir.Rlc.Am

inductive Op
  | recvSdu (sdu : List Byte) (sduId : Int)
  | generatePdu (size : Nat)
  | recvPdu (pdu : List Byte)
  | setTime (now : UInt64)
  | discardSdu (sduId : Int)
  | reestablishment

def Op.plain : Op → Bool
  | .reestablishment => false
  | _ => true

def Op.receives : Op → Bool
  | .recvPdu _ => true
  | .setTime _ => true
  | _ => false

structure Output where
  events : List Event := []
  pdu : List Byte := []

/-- How a call may fail to return: with the null head of `wait_list`, or stuck in a loop, an
assertion or on a bad tail pointer. -/
inductive Fault
  | nullPointer
  | stuck
  deriving DecidableEq

variable (c : Config)

def Entity.setTime (fuel : Nat) (e : Entity) (now : UInt64) : Except Fault (Entity × List Event) :=
  match e.tx.checkTPollRetransmit c now with
  | none => .error .nullPointer
  | some (tx, events) =>
    match e.rx.checkTReassembly c fuel now with
    | none => .error .stuck
    | some rx => .ok ({ tCurrent := now, rx, tx }, events)

def exec (fuel : Nat) (e : Entity) : Op → Except Fault (Entity × Output)
  | .recvSdu sdu sduId =>
    match e.tx.recvSdu c sdu sduId with
    | none => .error .stuck
    | some tx => .ok ({ e with tx }, {})
  | .generatePdu size =>
    match e.generatePdu c fuel size with
    | none => .error .stuck
    | some (e, pdu) => .ok (e, { pdu })
  | .recvPdu pdu =>
    match e.recvPdu c fuel pdu with
    | none => .error .stuck
    | some (e, events) => .ok (e, { events })
  | .setTime now =>
    match e.setTime c fuel now with
    | .error f => .error f
    | .ok (e, events) => .ok (e, { events })
  | .discardSdu sduId => .ok ({ e with tx := e.tx.discardSdu c sduId }, {})
  | .reestablishment => .ok (e.reestablishment, {})

def Step (e : Entity) (l : Op × Output) (e' : Entity) : Prop :=
  ∃ fuel, exec c fuel e l.1 = .ok (e', l.2)

def ReachableBy (good : Entity → Op → Prop) (e : Entity) : Prop :=
  ∃ ls, Run (fun s l t => Step c s l t ∧ good s l.1) (Entity.new c) ls e

def Reachable (e : Entity) : Prop := ∃ ls, Run (Step c) (Entity.new c) ls e

def execAll (fuel : Nat) : (Entity → Op → Bool) → Entity → List Op →
    Option (Entity × List (Op × Output)) := execList fun e op => (exec c fuel e op).toOption

variable {c}

theorem execAll_run {fuel : Nat} {good : Entity → Op → Bool} {e e' : Entity} {ops : List Op}
    {ls : List (Op × Output)} (h : execAll c fuel good e ops = some (e', ls)) :
    Run (fun s l t => Step c s l t ∧ good s l.1) e ls e' := by
  refine (execList_run h).mono fun s l t hs => ⟨⟨fuel, ?_⟩, hs.2⟩
  have hex := hs.1
  cases hr : exec c fuel s l.1 with
  | error => simp [hr, Except.toOption] at hex
  | ok r =>
    rw [hr] at hex
    exact congrArg Except.ok (Option.some.inj hex)

/-- What is observed after a run of calls that is evaluated. -/
theorem exists_reachable {fuel : Nat} {ops : List Op} {α : Type*}
    {f : Entity × List (Op × Output) → α} {a : α}
    (h : (execAll c fuel (fun _ _ => true) (.new c) ops).map f = some a) :
    ∃ e ls, Reachable c e ∧ f (e, ls) = a := by
  obtain ⟨⟨e, ls⟩, hrun, heq⟩ := Option.map_eq_some_iff.mp h
  exact ⟨e, ls, ⟨ls, (execAll_run hrun).mono fun _ _ _ hs => hs.1⟩, heq⟩

theorem snFieldLength_twelve : 12 = 12 ∨ 12 = 18 := .inl rfl

def Config.unitTest : Config :=
  { rxMaxsize := 100
    txMaxsize := 100
    tPollRetransmit := 45
    tReassembly := 35
    tStatusProhibit := 0
    pollPdu := -1
    pollByte := -1
    maxRetxThreshold := 8
    snFieldLength := 12
    snFieldLength_eq := snFieldLength_twelve }

end OpenAir.Rlc.Am

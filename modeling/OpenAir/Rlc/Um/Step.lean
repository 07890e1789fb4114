import OpenAir.Lib.Run
import OpenAir.Rlc.Um.Receive
import OpenAir.Rlc.Um.Transmit

namespace OpenAir.Rlc.Um

inductive Op
  | recvSdu (sdu : List Byte) (sduId : Int)
  | generatePdu (size : Nat)
  | recvPdu (pdu : List Byte)
  | setTime (now : UInt64)
  | discardSdu (sduId : Int)
  | reestablishment

def Op.receives : Op → Bool
  | .recvPdu _ => true
  | .setTime _ => true
  | _ => false

structure Output where
  deliveries : List Delivery := []
  pdu : List Byte := []

variable (c : Config)

/-- `none` when the fuel of a loop is empty, and for an exit of the program. -/
def exec (fuel : Nat) (e : Entity) : Op → Option (Entity × Output)
  | .recvSdu sdu sduId => (e.tx.recvSdu c sdu sduId).map fun tx => ({ e with tx }, {})
  | .generatePdu size =>
    (e.tx.generateTxPdu c size).map fun r => ({ e with tx := r.1 }, { pdu := r.2 })
  | .recvPdu pdu => (e.rx.recvPdu c fuel e.tCurrent pdu).map fun r =>
      ({ e with rx := r.1 }, { deliveries := r.2 })
  | .setTime now =>
    (e.rx.checkTReassembly c fuel now).map fun rx => ({ e with tCurrent := now, rx }, {})
  | .discardSdu sduId => some ({ e with tx := e.tx.discardSdu c sduId }, {})
  | .reestablishment => some (e.reestablishment, {})

def Step (e : Entity) (l : Op × Output) (e' : Entity) : Prop :=
  ∃ fuel, exec c fuel e l.1 = some (e', l.2)

def ReachableBy (good : Entity → Op → Prop) (e : Entity) : Prop :=
  ∃ ls, Run (fun s l t => Step c s l t ∧ good s l.1) (Entity.new c) ls e

def execAll (fuel : Nat) : (Entity → Op → Bool) → Entity → List Op →
    Option (Entity × List (Op × Output)) := execList (exec c fuel)

variable {c}

theorem execAll_run {fuel : Nat} {good : Entity → Op → Bool} {e e' : Entity} {ops : List Op}
    {ls : List (Op × Output)} (h : execAll c fuel good e ops = some (e', ls)) :
    Run (fun s l t => Step c s l t ∧ good s l.1) e ls e' :=
  (execList_run h).mono fun _ _ _ hs => ⟨⟨fuel, hs.1⟩, hs.2⟩

/-- What is observed after a run of calls that is evaluated. -/
theorem exists_reachableBy {fuel : Nat} {good : Entity → Op → Bool} {ops : List Op} {α : Type*}
    {f : Entity × List (Op × Output) → α} {a : α}
    (h : (execAll c fuel good (.new c) ops).map f = some a) :
    ∃ e ls, ReachableBy c (fun e op => good e op) e ∧ f (e, ls) = a := by
  obtain ⟨⟨e, ls⟩, hrun, heq⟩ := Option.map_eq_some_iff.mp h
  exact ⟨e, ls, ⟨ls, execAll_run hrun⟩, heq⟩

def Config.small (snFieldLength : Nat) (h : snFieldLength = 6 ∨ snFieldLength = 12) : Config :=
  { rxMaxsize := 100, txMaxsize := 100, tReassembly := 35, snFieldLength, snFieldLength_eq := h }

def Config.six : Config := .small 6 (.inl rfl)

def Config.twelve : Config := .small 12 (.inr rfl)

end OpenAir.Rlc.Um

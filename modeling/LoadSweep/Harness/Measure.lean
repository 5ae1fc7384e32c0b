import LoadSweep.Harness.Traffic

/-!
# `LoadSweep/Harness/Measure.lean` — measuring one cell

The workers of a cell dial first and wait at the gate. It opens when the last of them has
settled, whatever the others have come to, and from that instant the window is the same for all.
The cell is over when every worker has ended, also when one of them has died: the first index that
died is reported only then, so nothing of a cell runs on after it. The words with which a worker
died are left out of the log.
-/

set_option autoImplicit false

namespace LoadSweep

variable {m : Type → Type} [Monad m]

/-- The character that measured values consist of. -/
def measureFill : Char := 'Y'

def Cell.request (c : Cell) (key : String) : Request :=
  match c.operation with
  | .get => .get key
  | .set => .set key c.valueSize measureFill

def Cell.job (c : Cell) : Job Traffic :=
  Traffic.job c.keys c.request c.duration c.workerSeed

/-- What a worker logged after dialling, when the gate has opened. -/
def Caller.workLog (c : Caller Traffic) (target : Target) (tries index : Nat) : List LogEvent :=
  match c.stage with
  | .ended (.unserved (.error (.exhausted reason))) =>
    [{ level := .warn
       message := "worker could not connect, contributing zero ops"
       fields := [("worker", toString index),
         ("error", (RunFault.connect target.address tries reason).message)] }]
  | .ended (.served t) =>
    match t.lost with
    | some fault =>
      [{ level := .warn
         message := "connection lost, worker stopping early"
         fields := [("worker", toString index), ("error", fault.message),
           ("ops", toString t.result.ops)] }]
    | none => []
  | _ => []

/-- What a worker that has ended brings back; nothing comes back from one that died. -/
def Caller.result? (c : Caller Traffic) : Option WorkerResult :=
  match c.stage with
  | .ended (.served t) => some t.result
  | .ended (.unserved _) => some .none
  | _ => none

namespace Harness

/-- Passes on what the workers logged. -/
def passLogs (h : Harness m) (target : Target) (gate : Gate) :
    (index : Nat) → List (Caller Traffic) → Run m Unit
  | _, [] => pure ()
  | index, c :: rest => do
    let worked := if gate = .stuck then [] else c.workLog target h.policy.tries index
    Run.change (·.sayOf c.number (c.dialLog target h.policy.tries ++ worked))
    h.passLogs target gate (index + 1) rest

/-- The results by index, or the first index that died. Every death is logged. -/
def collect : (index : Nat) → List (Caller Traffic) → Run m (Except Nat (List WorkerResult))
  | _, [] => pure (.ok [])
  | index, c :: rest => do
    match c.result? with
    | some r =>
      let later ← collect (index + 1) rest
      pure (later.map (r :: ·))
    | none =>
      Run.say .error "worker task failed" [("worker", toString index)]
      let _ ← collect (index + 1) rest
      pure (.error index)

/-- Runs the workers of a cell; the results are in the order of the indices. -/
def workers (h : Harness m) (cell : Cell) : Run m (List WorkerResult) := do
  let crew ← Run.crew h fun _ => .atShutGate cell.job cell.duration cell.concurrency
  h.passLogs cell.target crew.gate 0 crew.callers
  match crew.gate with
  | .openSince opened =>
    match ← collect 0 crew.callers with
    | .error index => Run.fault (.workerDied index)
    | .ok results =>
      let now ← Run.look (·.now)
      Run.say .debug "workers joined"
        [("op", cell.operation.name), ("clients", toString cell.concurrency),
          ("elapsed", (Duration.mk (now - opened)).toText)]
      pure results
  | .shut | .stuck => Run.die

def measure (h : Harness m) (cell : Cell) : Run m Row := do
  let results ← h.workers cell
  pure (aggregate cell results)

end Harness

end LoadSweep

import LoadSweep.Key.Mode
import LoadSweep.Operation
import LoadSweep.Server.Fault

/-!
# `LoadSweep/Harness/Fault.lean` — how a run can fail

A run ends with a `RunFault` or with its result. The causes are the domain's: no connection, no
answer to the first ping, a key that could not be written, a configuration or a key space that
cannot be, a worker that died, an interrupt. The wording of each is `message`; `causes` are the
texts of what lies below it.

`Stop` is wider by one case: a run may also *die*, when the harness itself breaks one of its own
assumptions. That has no message, only a name, and nobody is left to be told: whatever the phases
before it came to is lost with the program. The world that stands beside it is what the server had
seen by then.
-/

set_option autoImplicit false

namespace LoadSweep

/-- Why a run, or one phase of it, failed. -/
inductive RunFault where
  | connect (target : String) (tries : Nat) (reason : String)
  | probe (target : String) (cause : ClientFault)
  | preload (index : Nat) (key : String) (cause : ClientFault)
  | keySpace (cause : KeyFault)
  | config (cause : ConfigFault)
  | workerDied (index : Nat)
  | cancelled
  deriving DecidableEq, Repr

namespace RunFault

def message : RunFault → String
  | .connect target tries reason =>
    "Connect failed: " ++ target ++ " after " ++ toString tries ++ " attempts (" ++ reason ++ ")"
  | .probe target cause => "PING failed: " ++ target ++ ": " ++ cause.message
  | .preload index key cause =>
    "Preload failed at key index " ++ toString index ++ " (" ++ key ++ "): " ++ cause.message
  | .keySpace cause => "KeySpace error: " ++ cause.message
  | .config cause => "Configuration error: " ++ cause.message
  | .workerDied index => "Worker " ++ toString index ++ " panicked"
  | .cancelled => "Interrupted"

/-- The texts of the causes below the failure, outermost first. -/
def causes : RunFault → List String
  | .probe _ cause | .preload _ _ cause => cause.chain
  | .keySpace cause => [cause.message]
  | .config cause => [cause.message]
  | .connect .. | .workerDied _ | .cancelled => []

end RunFault

/-- Why a phase did not come to its result. -/
inductive Stop where
  | fault (f : RunFault)
  /-- The phase itself died, and the program with it. -/
  | died
  deriving DecidableEq, Repr

end LoadSweep

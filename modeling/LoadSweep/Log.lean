/-!
# `LoadSweep/Log.lean` — what a run says about itself

A log event has a level, a fixed message and named fields that are already text. Events never
influence a run.
-/

set_option autoImplicit false

namespace LoadSweep

inductive Level where
  | debug | info | warn | error
  deriving DecidableEq, Repr

def Level.name : Level → String
  | .debug => "DEBUG"
  | .info => "INFO"
  | .warn => "WARN"
  | .error => "ERROR"

structure LogEvent where
  level : Level
  message : String
  fields : List (String × String)
  deriving DecidableEq, Repr

def LogEvent.text (e : LogEvent) : String :=
  String.intercalate " "
    (e.level.name :: e.message :: e.fields.map fun (name, value) => name ++ "=" ++ value)

end LoadSweep

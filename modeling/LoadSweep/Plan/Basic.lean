import LoadSweep.Plan.Matrix

/-!
# `LoadSweep/Plan/Basic.lean` — the plan of a run

A plan says everything about a run but how the server behaves: which server, which keys, whether
and how to load and to warm up, and which cells to measure. `validate` is the whole check; what
it accepts needs no further look before the run, except that the key space must still be built.
-/

set_option autoImplicit false

namespace LoadSweep

/-- A full run against one target. -/
structure Plan where
  target : Target
  keyCount : Nat
  keyMode : KeyMode
  matrix : Matrix
  warmup : Duration
  skipPreload : Bool
  /-- How many keys are loaded between two progress reports. -/
  reportInterval : Nat
  deriving DecidableEq, Repr

/-- The report interval that is meant when none is given. -/
def defaultReportInterval : Nat := 50000

/-- Refuses a plan without keys or without progress reports, then looks at the matrix. -/
def Plan.validate (p : Plan) : Except ConfigFault Unit :=
  if p.keyCount = 0 then .error .noKeys
  else if p.reportInterval = 0 then .error (.zero "report interval")
  else p.matrix.validate

end LoadSweep

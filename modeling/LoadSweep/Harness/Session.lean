import LoadSweep.Harness.Preload
import LoadSweep.Harness.Probe
import LoadSweep.Harness.Sweep
import LoadSweep.Harness.Warmup
import LoadSweep.Plan.Basic

/-!
# `LoadSweep/Harness/Session.lean` — a plan from beginning to end

The phases of a plan, in order: check the plan, build the keys, probe the target, load the keys,
warm up, sweep. A fault of the plan, of the keys, of the probe or of the load ends the run before
anything is measured. An interrupt is not a fault: it ends the run with the rows that are there.

Loaded values are as large as the largest value size of the sweep, so that a cell that only reads
finds values of at least the size it stands for.
-/

set_option autoImplicit false

namespace LoadSweep

variable {m : Type → Type} [Monad m]

/-- Loads the keys unless the plan skips it; whether the run may go on. -/
def Harness.load (h : Harness m) (plan : Plan) (keys : KeySpace) : Run m Bool := do
  if plan.skipPreload then
    Run.say .info "preload skipped" []
    return true
  match plan.matrix.maxValueSize with
  | none => return true
  | some valueSize =>
    let report ← h.preload plan.target keys valueSize plan.reportInterval
    return report.complete

/-- Runs a plan. -/
def Harness.session (h : Harness m) (plan : Plan) : Run m (List Row) := do
  match plan.validate with
  | .error cause => Run.fault (.config cause)
  | .ok () =>
  match KeySpace.build plan.keyCount plan.keyMode with
  | .error cause => Run.fault (.keySpace cause)
  | .ok keys =>
  Run.say .info "key space built"
    [("keys", toString keys.size), ("mode", plan.keyMode.label)]
  h.probe plan.target
  if !(← h.load plan keys) then return []
  if ← Run.look (·.token) then return []
  if !plan.warmup.isZero then
    let _ ← h.warmup plan.target keys plan.warmup
  h.sweep plan.target plan.matrix keys

end LoadSweep

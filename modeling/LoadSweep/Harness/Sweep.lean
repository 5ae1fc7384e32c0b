import LoadSweep.Harness.Measure

/-!
# `LoadSweep/Harness/Sweep.lean` — measuring the cells one by one

Cells are measured in their order, one at a time. The token is looked at twice: before a cell, so
that none starts once it is set, and after a cell, so that the row of a cell it fell into is
dropped. What remains are the rows of the cells that were over before the token was set.
-/

set_option autoImplicit false

namespace LoadSweep

variable {m : Type → Type} [Monad m]

namespace Harness

/-- Measures the cells that are left, `index` of `total` being done. -/
def sweepFrom (h : Harness m) (total : Nat) : (index : Nat) → List Cell → Run m (List Row)
  | _, [] => pure []
  | index, cell :: rest => do
    let progress := [("done", toString index), ("total", toString total)]
    if ← Run.look (·.token) then
      Run.say .warn "sweep interrupted" progress
      return []
    Run.say .info "running cell"
      [("cell", toString (index + 1)), ("total", toString total),
        ("op", cell.operation.name), ("clients", toString cell.concurrency),
        ("value_size", toString cell.valueSize), ("duration", cell.duration.toText)]
    let row ← h.measure cell
    if ← Run.look (·.token) then
      Run.say .warn "sweep interrupted, discarding partial cell" progress
      return []
    Run.say .info "cell done"
      [("ops", toString row.totalOps), ("errors", toString row.errors),
        ("ops_per_sec", row.opsPerSec.toFixed 2), ("p50", row.p50.toFixed 3 ++ "us"),
        ("p95", row.p95.toFixed 3 ++ "us"), ("p99", row.p99.toFixed 3 ++ "us")]
    let rows ← sweepFrom h total (index + 1) rest
    return row :: rows

/-- Measures the cells of a matrix. -/
def sweep (h : Harness m) (target : Target) (matrix : Matrix) (keys : KeySpace) :
    Run m (List Row) :=
  let cells := matrix.cells target keys
  h.sweepFrom cells.length 0 cells

end Harness

end LoadSweep

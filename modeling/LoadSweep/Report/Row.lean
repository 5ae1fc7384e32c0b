import LoadSweep.Number.Total
import LoadSweep.Plan.Matrix

/-!
# `LoadSweep/Report/Row.lean` — from what the workers saw to one row

A worker brings back three things: how many requests succeeded, how many failed, and a bounded
sample of latencies. A row is made from the *sums* of the counts and the *pool* of all samples;
nothing else of the division into workers reaches it. Rates are taken against the length that
was asked for, so that all cells of a sweep are divided by the same window.

A percentile is an order statistic of the pool: the sample at index `⌊p · (n-1)⌋` of the
ascending list, the product taken in doubles.
-/

set_option autoImplicit false

namespace LoadSweep

open Number

/-- What one worker observed. -/
structure WorkerResult where
  ops : Nat
  errors : Nat
  /-- Latencies in nanoseconds, in the order of the requests. -/
  latencies : Array Nat
  deriving DecidableEq, Repr, Inhabited

namespace WorkerResult

def none : WorkerResult := ⟨0, 0, #[]⟩

/-- How many latencies a worker keeps; later successes are counted but not timed. -/
def sampleCap : Nat := 2000

/-- The largest latency that a sample can hold. -/
def maxSample : Nat := UInt64.size - 1

/-- Counts a success, and keeps its latency while there is room. -/
def record (r : WorkerResult) (nanos : Nat) : WorkerResult :=
  { r with
    ops := r.ops + 1
    latencies :=
      if r.latencies.size < sampleCap then r.latencies.push (min nanos maxSample) else r.latencies }

def fail (r : WorkerResult) : WorkerResult := { r with errors := r.errors + 1 }

end WorkerResult

/-- The summary of one cell. Latencies are in microseconds. -/
structure Row where
  target : Target
  operation : Operation
  keyMode : KeyMode
  clients : Nat
  valueSize : Nat
  duration : Duration
  totalOps : Nat
  errors : Nat
  opsPerSec : Double
  opsPerSecPerClient : Double
  p50 : Double
  p95 : Double
  p99 : Double
  deriving DecidableEq, Repr

/-- Operations per second, zero for no time at all. -/
def rate (ops : Nat) (elapsed : Duration) : Double :=
  let secs := elapsed.asSecs
  if Double.zero.lt secs then (Double.ofNat ops).div secs else .zero

/-- The position of the percentile `p` in `n` ascending samples. Whatever `p` is, this is a
position when there is one at all. -/
def percentileRank (p : Double) (n : Nat) : Nat :=
  let last := n - 1
  min (((p.clamp .zero (.ofNat 1)).mul (.ofNat last)).toCounter 64) last

theorem percentileRank_lt (p : Double) {n : Nat} (h : 0 < n) : percentileRank p n < n := by
  simp only [percentileRank]
  omega

/-- The percentile `p` of ascending nanoseconds, in microseconds; zero without samples. -/
def percentile (sorted : Array Nat) (p : Double) : Double :=
  if h : 0 < sorted.size then
    have := percentileRank_lt p h
    (Double.ofNat sorted[percentileRank p sorted.size]).div (.ofNat 1000)
  else .zero

/-- All samples of all workers, ascending. -/
def pooled (results : List WorkerResult) : Array Nat :=
  ((results.flatMap fun r => r.latencies.toList).mergeSort (· ≤ ·)).toArray

/-- Folds the results of a cell into its row. -/
def aggregate (cell : Cell) (results : List WorkerResult) : Row :=
  let totalOps := total (results.map (·.ops))
  let sorted := pooled results
  let opsPerSec := rate totalOps cell.duration
  { target := cell.target
    operation := cell.operation
    keyMode := cell.keys.mode
    clients := cell.concurrency
    valueSize := cell.valueSize
    duration := cell.duration
    totalOps
    errors := total (results.map (·.errors))
    opsPerSec
    opsPerSecPerClient :=
      if 0 < cell.concurrency then opsPerSec.div (.ofNat cell.concurrency) else .zero
    p50 := percentile sorted (.ofFraction 50 100)
    p95 := percentile sorted (.ofFraction 95 100)
    p99 := percentile sorted (.ofFraction 99 100) }

end LoadSweep

import LoadSweep.Duration
import LoadSweep.Key.Space
import LoadSweep.Operation
import LoadSweep.Target

/-!
# `LoadSweep/Plan/Matrix.lean` — the cells of a sweep

A sweep visits every combination of a value size, a number of clients and an operation. The
order is fixed — value size outermost, operation innermost — because later cells read what
earlier ones wrote.

A cell fixes the seed of each of its workers: the base seed of its operation plus the worker's
index times `seedStride`, modulo 2⁶⁴. The stride is odd, so the seeds of a cell are distinct.
-/

set_option autoImplicit false

namespace LoadSweep

/-- One measured combination. -/
structure Cell where
  target : Target
  operation : Operation
  keys : KeySpace
  valueSize : Nat
  duration : Duration
  concurrency : Nat
  seed : Nat
  deriving DecidableEq

/-- The number of different seeds. -/
def seedSpan : Nat := UInt64.size

/-- The distance between the seeds of neighbouring workers. -/
def seedStride : Nat := 1337

/-- The seed of a worker of a cell that starts from `seed`. -/
def workerSeed (seed worker : Nat) : Nat := (seed + worker * seedStride) % seedSpan

def Cell.workerSeed (c : Cell) (worker : Nat) : Nat := LoadSweep.workerSeed c.seed worker

/-- The dimensions of a sweep, and the length of each cell's window. -/
structure Matrix where
  valueSizes : List Nat
  clientCounts : List Nat
  operations : List Operation
  duration : Duration
  deriving DecidableEq, Repr

namespace Matrix

/-- Refuses a sweep with an empty dimension, then one with a zero among its numbers. -/
def validate (m : Matrix) : Except ConfigFault Unit :=
  if m.valueSizes = [] then .error (.emptyList "value size")
  else if m.clientCounts = [] then .error (.emptyList "client count")
  else if m.operations = [] then .error (.emptyList "operation")
  else if 0 ∈ m.valueSizes then .error (.zero "value size")
  else if 0 ∈ m.clientCounts then .error (.zero "client count")
  else if m.duration.isZero then .error (.zero "duration")
  else .ok ()

def maxValueSize (m : Matrix) : Option Nat := m.valueSizes.max?

/-- The cells, value size first, then client count, then operation. -/
def cells (m : Matrix) (target : Target) (keys : KeySpace) : List Cell :=
  m.valueSizes.flatMap fun valueSize =>
    m.clientCounts.flatMap fun concurrency =>
      m.operations.map fun operation =>
        { target, operation, keys, valueSize, duration := m.duration, concurrency,
          seed := operation.baseSeed }

end Matrix

end LoadSweep

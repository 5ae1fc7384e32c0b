import LoadSweep.Harness.Measure

/-!
# `LoadSweep/Proofs/Sample.lean` — a run that is small enough to be evaluated

Two workers and two keys. Worker 0 is refused once and then connects; its requests succeed, fail,
succeed and lose the connection. Worker 1 dies while it dials, later than worker 0 connects, so the
window opens with its death. The theorems about the workers of a cell are shown at this one.

The theorems about several cells are shown at a sweep over two value sizes, each read and written
by one worker, against a server that answers everything within a millisecond.
-/

set_option autoImplicit false

namespace LoadSweep.Sample

def target : Target := { name := "sample", host := "localhost", port := 6379 }

def keys : KeySpace :=
  { keys := KeySpace.keysOf 2 .sequential
    mode := .sequential
    keys_pos := by rw [KeySpace.size_keysOf]; decide }

def policy : Policy := { tries := 2, timeout := .ofMillis 5, backoff := .ofMillis 1 }

def refusal : Attempt := ⟨false, .ofMillis 1, .refused (.request "not yet")⟩

/-- The script of worker 0. -/
def wavering : Script :=
  .ofLists [refusal] .plain (.plain ⟨0⟩)
    [(1, .plain (.ofMillis 1)), (1, ⟨.ofMillis 1, false, .failed (.request "busy")⟩),
      (1, .plain (.ofMillis 2)), (1, ⟨.ofMillis 1, false, .failed (.lost "gone")⟩)]
    .repeatLast

/-- The script of worker 1. -/
def dying : Script :=
  .ofLists [] ⟨false, .ofMillis 4, .dies⟩ (.plain ⟨0⟩) [] .repeatLast

def scene : Scene := { policy, script := fun k => if k = 0 then wavering else dying }

def cell : Cell :=
  { target, operation := .set, keys, valueSize := 64, duration := .ofMillis 10, concurrency := 2
    seed := Operation.set.baseSeed }

/-- Every caller is accepted, and every request succeeds. -/
def steady : Scene := { policy, script := fun _ => .plain }

/-- The token is set while the first caller tries to connect. -/
def startled : Scene :=
  { policy
    script := fun _ => { Script.plain with attempt := fun _ => ⟨true, .ofMillis 1, .accepted⟩ } }

def matrix : Matrix :=
  { valueSizes := [64, 256], clientCounts := [1], operations := [.get, .set]
    duration := .ofMillis 2 }

/-- Why a phase stopped, if it did. -/
def stop? {α : Type} : Except Stop α → Option Stop
  | .error e => some e
  | .ok _ => none

theorem error_of_stop {α : Type} {x : Except Stop α} {e : Stop} (h : stop? x = some e) :
    x = .error e := by
  cases x with
  | error => exact congrArg _ (Option.some.inj h)
  | ok => simp [stop?] at h

end LoadSweep.Sample

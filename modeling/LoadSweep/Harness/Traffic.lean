import LoadSweep.Draw.Index
import LoadSweep.Harness.Run
import LoadSweep.Report.Row

/-!
# `LoadSweep/Harness/Traffic.lean` — requests for random keys until a deadline

Warm-up and measurement are the same job: draw a key, send a request for it, count the answer,
until the deadline is reached, the token is set or the connection is lost. Both ends are looked
at *before* a request, never during one, so a request in flight is always counted. A failure that
does not end the connection is counted and passed over.

Exactly one position is drawn per request, whatever becomes of it, so the keys of a caller are
the stream of its seed and nothing else.
-/

set_option autoImplicit false

namespace LoadSweep

/-- A caller in traffic. -/
structure Traffic where
  /-- The instant, in nanoseconds, from which nothing is sent any more. -/
  deadline : Nat
  stream : Draw.Stream
  result : WorkerResult
  /-- The failure that ended the connection. -/
  lost : Option ClientFault

namespace Traffic

/-- Counts what came back for a request. -/
def count (nanos : Nat) (answer : Except ClientFault (Option String)) (t : Traffic) : Traffic :=
  match answer with
  | .ok _ => { t with result := t.result.record nanos }
  | .error fault =>
    if fault.isDisconnect then { t with lost := some fault }
    else { t with result := t.result.fail }

/-- Requests made by `request` for keys drawn with the seed of each caller, during a window that
opens with the gate. -/
def job (keys : KeySpace) (request : String → Request) (window : Duration)
    (seed : Nat → Nat) : Job Traffic where
  enter index opened :=
    { deadline := opened + window.nanos
      stream := .ofSeed (seed index)
      result := .none
      lost := none }
  ask now token t :=
    if t.lost.isSome then .stop t
    else if now < t.deadline ∧ token = false then
      let (position, stream) := Draw.draw keys.size t.stream
      match keys.key? position with
      | some key => .send (request key) { t with stream }
      | none => .die
    else .stop t
  hear sent now answer t := t.count (now - sent) answer

end Traffic

end LoadSweep

import LoadSweep.Harness.Crew
import LoadSweep.Harness.Fault
import LoadSweep.Target

/-!
# `LoadSweep/Harness/Run.lean` — phases of a run

A phase changes the world and comes to a result, or to a `Stop`; the world is kept in both cases,
for what happened did happen. `Run` is that: phases follow each other by `bind`, which passes the
world on and drops the rest after a `Stop`.

All that a phase needs from outside is somebody who runs a crew to its end. That is a `Harness`,
and the effect it has is a parameter `m`, so the phases are written once for two settings. A
`Scene` gives the one they are reasoned about: `m` is `Option`, and there is no result when a crew
does not end within a number of steps, for a server that answers in no time can keep a caller
busy for ever at one instant. The other one runs crews against a live server.
-/

set_option autoImplicit false

namespace LoadSweep

/-- Who runs the crews of a run, and how hard callers try to connect. -/
structure Harness (m : Type → Type) where
  policy : Policy
  /-- Runs a crew until nothing is left to do. -/
  perform : {σ : Type} → World → Crew σ → m (World × Crew σ)

/-- The harness that runs crews in a scene, `limit` steps each at most. -/
def Scene.harness (scene : Scene) (limit : Nat) : Harness Option where
  policy := scene.policy
  perform w crew := crew.run scene limit w

/-- A phase with a result in `α`. -/
def Run (m : Type → Type) (α : Type) : Type := World → m (World × Except Stop α)

variable {m : Type → Type} [Monad m]

namespace Run

variable {α β σ : Type}

protected def pure (a : α) : Run m α := fun w => pure (w, .ok a)

protected def bind (x : Run m α) (k : α → Run m β) : Run m β := fun w => do
  match ← x w with
  | (w, .error e) => pure (w, .error e)
  | (w, .ok a) => k a w

instance : Monad (Run m) where
  pure := Run.pure
  bind := Run.bind

/-- Ends the run with a fault. -/
def fault (f : RunFault) : Run m α := fun w => pure (w, .error (.fault f))

def die : Run m α := fun w => pure (w, .error .died)

def change (f : World → World) : Run m Unit := fun w => pure (f w, .ok ())

/-- Something about the world as it is. -/
def look (f : World → α) : Run m α := fun w => pure (w, .ok (f w))

def say (level : Level) (message : String) (fields : List (String × String)) : Run m Unit :=
  change (·.say { level, message, fields })

/-- Runs a crew to its end. -/
def crew (h : Harness m) (start : World → Crew σ) : Run m (Crew σ) := fun w => do
  let (w, crew) ← h.perform w (start w)
  pure (w, .ok crew)

end Run

/-- The events that a caller logged while it dialled. -/
def Caller.dialLog {σ : Type} (c : Caller σ) (target : Target) (tries : Nat) : List LogEvent :=
  c.reasons.reverse.mapIdx fun i reason =>
    { level := .debug
      message := "connect attempt failed"
      fields := [("target", target.address), ("attempt", toString (i + 1)),
        ("tries", toString tries), ("reason", reason)] }

/-- The fault that a caller without a connection stands for. -/
def DialFault.toRunFault (target : Target) (tries : Nat) : DialFault → RunFault
  | .cancelled => .cancelled
  | .exhausted reason => .connect target.address tries reason

/-- Runs one caller by itself, in the main course: its dial log is the run's log, its failure to
connect the run's fault, and its death the run's death. `report` is what it logs while it works,
read off the state in which it ended. -/
def Harness.alone {σ : Type} (h : Harness m) (target : Target) (job : Job σ)
    (report : σ → List LogEvent) : Run m σ := do
  let crew ← Run.crew h fun w => .atOpenGate w job 1
  match crew.callers with
  | [c] =>
    Run.change (·.sayAll (c.dialLog target h.policy.tries))
    match c.stage with
    | .ended (.served state) =>
      Run.change (·.sayAll (report state))
      pure state
    | .ended (.unserved (.error fault)) => Run.fault (fault.toRunFault target h.policy.tries)
    | .ended (.died (some state)) =>
      Run.change (·.sayAll (report state))
      Run.die
    | _ => Run.die
  | _ => Run.die

end LoadSweep

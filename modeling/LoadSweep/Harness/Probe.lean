import LoadSweep.Harness.Run

/-!
# `LoadSweep/Harness/Probe.lean` — asking a fixed list of questions

The smallest jobs send requests that are known beforehand and look at the answers afterwards.
`Harness.probe` sends one ping, before any other phase; a target that does not answer it ends
the run. `Harness.read` connects and reads some keys, whatever becomes of each read. Neither
looks at the token once it is connected: what they do is over in a moment.
-/

set_option autoImplicit false

namespace LoadSweep

variable {m : Type → Type} [Monad m]

/-- The requests still to send, and the answers so far, newest first. -/
structure Questions where
  left : List Request
  answers : List (Except ClientFault (Option String))

def Questions.job (requests : List Request) : Job Questions where
  enter _ _ := { left := requests, answers := [] }
  ask _ _ s :=
    match s.left with
    | [] => .stop s
    | r :: rest => .send r { s with left := rest }
  hear _ _ answer s := { s with answers := answer :: s.answers }

/-- Checks that the target answers a ping. -/
def Harness.probe (h : Harness m) (target : Target) : Run m Unit := do
  let s ← h.alone target (Questions.job [.ping]) fun _ => []
  match s.answers with
  | .error cause :: _ => Run.fault (.probe target.address cause)
  | _ =>
    Run.say .info "target reachable" [("name", target.name), ("target", target.address)]

/-- Connects and reads keys; the answers are in the order of the keys. -/
def Harness.read (h : Harness m) (target : Target) (keys : List String) :
    Run m (List (Except ClientFault (Option String))) := do
  let s ← h.alone target (Questions.job (keys.map .get)) fun _ => []
  pure s.answers.reverse

end LoadSweep

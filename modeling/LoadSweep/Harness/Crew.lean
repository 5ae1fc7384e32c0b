import LoadSweep.Harness.World

/-!
# `LoadSweep/Harness/Crew.lean` — callers that run side by side

A **caller** first dials: it attempts to connect, rests after a failed attempt, tries again, and
*settles* — connected, given up, or called off by the token. Then it passes the **gate** and does
its **job**: it asks, hears the answer, asks again, until it stops. Callers that are started
together form a **crew**. The workers of a measured cell share a gate that opens only when all of
them have settled; everybody else finds the gate open from the start.

A crew runs one act at a time. The next act is the earliest that is due, and of several due at
one instant the one of the caller with the smallest index; so at every instant each caller goes on
until it has to wait, in the order of the indices. An act runs from one wait to the next, which is
the grain at which callers can be told apart: nothing else of the order in which they act is
visible to the server.

The machine does not know what a job is about. `Job` has three functions: the state in which a
caller passes the gate, what it does next, and what it makes of an answer.
-/

set_option autoImplicit false

namespace LoadSweep

/-- What a caller does next with its connection. -/
inductive Move (σ : Type) where
  | send (request : Request) (state : σ)
  | stop (state : σ)
  /-- The caller breaks one of its own assumptions and dies. -/
  | die

/-- What callers do once they are connected and through the gate. -/
structure Job (σ : Type) where
  /-- The state of the caller with this index when it passes a gate that opened then. -/
  enter : (index opened : Nat) → σ
  /-- The next move, at an instant and with the token set or not. -/
  ask : (now : Nat) → (token : Bool) → σ → Move σ
  /-- What the answer to a request sent at one instant and answered at another means. -/
  hear : (sent now : Nat) → Except ClientFault (Option String) → σ → σ

/-- Why a caller settled without a connection. -/
inductive DialFault where
  | cancelled
  /-- Every attempt failed, the last one for this reason. -/
  | exhausted (reason : String)
  deriving DecidableEq, Repr

/-- How an attempt ends within the time limit. -/
inductive Verdict where
  | accepted
  | refused (reason : String)
  | dies
  deriving DecidableEq, Repr

inductive Departure (σ : Type) where
  /-- It did its job and stopped in this state. -/
  | served (state : σ)
  /-- It settled like this and made no request. -/
  | unserved (dialled : Except DialFault Unit)
  /-- It died, in this state if it had begun its job. -/
  | died (state : Option σ)

/-- Where a caller stands. -/
inductive Stage (σ : Type) where
  /-- Before its first attempt. -/
  | fresh
  /-- An attempt runs and ends then. -/
  | attempting (due : Nat) (verdict : Verdict)
  /-- It rests after a failed attempt until then, or until the token is set. -/
  | resting (due : Nat)
  /-- It has settled and stands at the gate. -/
  | settled (dialled : Except DialFault Unit)
  /-- A request was sent at one instant, and its answer arrives at another. -/
  | talking (state : σ) (sent : Nat) (due : Nat) (reply : Reply)
  | ended (how : Departure σ)

structure Caller (σ : Type) where
  /-- Its number, from its first attempt on. -/
  number : Option Nat
  /-- Why its attempts failed so far, newest first. -/
  reasons : List String
  /-- How many requests it has sent, pings apart. -/
  sent : Nat
  /-- When it settled, or died before it could. -/
  settledAt : Option Nat
  stage : Stage σ

/-- Whether callers may pass. -/
inductive Gate where
  | shut
  | openSince (opened : Nat)
  /-- It should have opened, but the clock cannot show the end of the window. -/
  | stuck
  deriving DecidableEq, Repr

/-- Callers started together. -/
structure Crew (σ : Type) where
  job : Job σ
  /-- How long the window is that opens with the gate. -/
  window : Duration
  gate : Gate
  callers : List (Caller σ)

namespace Attempt

/-- How many nanoseconds an attempt takes, and how it ends, when it may take `timeout` at most.
An end that is due exactly at the limit still counts. -/
def within (a : Attempt) (timeout : Duration) : Nat × Verdict :=
  let limit := timeout.wait
  let late : Nat × Verdict := (limit, .refused ("connect timed out after " ++ timeout.toText))
  match a.ends with
  | .hangs => late
  | .accepted => if a.takes.nanos ≤ limit then (a.takes.nanos, .accepted) else late
  | .refused fault => if a.takes.nanos ≤ limit then (a.takes.nanos, .refused fault.message) else late
  | .dies => if a.takes.nanos ≤ limit then (a.takes.nanos, .dies) else late

end Attempt

namespace Caller

variable {σ : Type}

def fresh : Caller σ :=
  { number := none, reasons := [], sent := 0, settledAt := none, stage := .fresh }

/-- The number, once there is one. -/
def who (c : Caller σ) : Nat := c.number.getD 0

def lastReason (c : Caller σ) : String := c.reasons.headD "no attempts made"

/-- The caller goes to the gate. -/
def settle (c : Caller σ) (now : Nat) (dialled : Except DialFault Unit) : Caller σ :=
  { c with settledAt := some now, stage := .settled dialled }

def depart (c : Caller σ) (how : Departure σ) : Caller σ := { c with stage := .ended how }

/-- A caller that is seen for the first time gets the next number. -/
def enrol (w : World) (c : Caller σ) : World × Caller σ :=
  match c.number with
  | some _ => (w, c)
  | none => ({ w with met := w.met + 1 }, { c with number := some w.met })

/-- Starts the next attempt, unless none is left or the token is set. -/
def attempt (scene : Scene) (w : World) (c : Caller σ) : World × Caller σ :=
  if scene.policy.tries ≤ c.reasons.length then
    (w, c.settle w.now (.error (.exhausted c.lastReason)))
  else if w.token then (w, c.settle w.now (.error .cancelled))
  else
    let (w, c) := enrol w c
    let a := (scene.script c.who).attempt c.reasons.length
    let w := w.record (.attempted c.who)
    let w := if a.cancels then w.cancel else w
    let (takes, verdict) := a.within scene.policy.timeout
    (w, { c with stage := .attempting (w.now + takes) verdict })

/-- After a failed attempt: a rest, unless it was the last. -/
def refused (scene : Scene) (w : World) (c : Caller σ) (reason : String) : World × Caller σ :=
  let w := w.record (.refused c.who reason)
  let c := { c with reasons := reason :: c.reasons }
  if c.reasons.length < scene.policy.tries then
    (w, { c with stage := .resting (w.now + scene.policy.backoff.wait) })
  else (w, c.settle w.now (.error (.exhausted reason)))

/-- Makes the next move of the job. -/
def proceed (scene : Scene) (job : Job σ) (w : World) (c : Caller σ) (state : σ) :
    World × Caller σ :=
  match job.ask w.now w.token state with
  | .stop state => (w, c.depart (.served state))
  | .die => (w.record (.died c.who), c.depart (.died (some state)))
  | .send request state =>
    let script := scene.script c.who
    let w := w.record (.asked c.who request)
    match request with
    | .ping =>
      (w, { c with stage := .talking state w.now (w.now + script.ping.takes.nanos) script.ping })
    | .get _ | .set .. =>
      let reply := script.reply c.sent
      (w, { c with
        sent := c.sent + 1
        stage := .talking state w.now (w.now + reply.takes.nanos) reply })

/-- One act: what a caller does at the instant at which it is due. -/
def act (scene : Scene) (job : Job σ) (gate : Gate) (index : Nat) (w : World) (c : Caller σ) :
    World × Caller σ :=
  match c.stage with
  | .fresh => attempt scene w c
  | .attempting _ verdict =>
    match verdict with
    | .accepted => (w.record (.connected c.who), c.settle w.now (.ok ()))
    | .refused reason => refused scene w c reason
    | .dies =>
      (w.record (.died c.who), { c.depart (.died none) with settledAt := some w.now })
  | .resting _ => if w.token then (w, c.settle w.now (.error .cancelled)) else attempt scene w c
  | .settled dialled =>
    match gate, dialled with
    | .openSince opened, .ok () => proceed scene job w c (job.enter index opened)
    | _, dialled => (w, c.depart (.unserved dialled))
  | .talking state sent _ reply =>
    let w := if reply.cancels then w.cancel else w
    let w := w.record (.answered c.who reply.answer)
    match reply.answer with
    | .done value => proceed scene job w c (job.hear sent w.now (.ok value) state)
    | .failed fault => proceed scene job w c (job.hear sent w.now (.error fault) state)
    | .dies => (w.record (.died c.who), c.depart (.died (some state)))
  | .ended _ => (w, c)

/-- The instant of the caller's next act. It has none when it has ended, and while it stands at
a gate that is shut. -/
def due (w : World) (gate : Gate) (c : Caller σ) : Option Nat :=
  match c.stage with
  | .fresh => some w.now
  | .attempting due _ => some due
  | .resting due => some (if w.token then w.now else due)
  | .settled _ => if gate = .shut then none else some w.now
  | .talking _ _ due _ => some due
  | .ended _ => none

end Caller

/-- The position and the value of the smallest number in a list with gaps, the first of equals. -/
def earliest : List (Option Nat) → Option (Nat × Nat)
  | [] => none
  | d :: rest =>
    match d, earliest rest with
    | none, none => none
    | none, some (i, u) => some (i + 1, u)
    | some t, none => some (0, t)
    | some t, some (i, u) => if t ≤ u then some (0, t) else some (i + 1, u)

namespace Crew

variable {σ : Type}

/-- `size` callers that find the gate open. -/
def atOpenGate (w : World) (job : Job σ) (size : Nat) : Crew σ :=
  { job, window := ⟨0⟩, gate := .openSince w.now, callers := List.replicate size .fresh }

/-- `size` callers before a gate that opens when all of them have settled. -/
def atShutGate (job : Job σ) (window : Duration) (size : Nat) : Crew σ :=
  { job, window, gate := .shut, callers := List.replicate size .fresh }

/-- The next act: the position of the caller, and the instant. -/
def next (w : World) (crew : Crew σ) : Option (Nat × Nat) :=
  earliest (crew.callers.map (Caller.due w crew.gate))

/-- One step: the alarm if it is due before the next act, else that act; and when nobody can act,
the gate opens. Nothing is left to do when nobody can act and the gate is not shut. -/
def step (scene : Scene) (w : World) (crew : Crew σ) : Option (World × Crew σ) :=
  match crew.next w with
  | some (i, due) =>
    if w.rings due then some (w.ring, crew)
    else
      match crew.callers[i]? with
      | none => none
      | some c =>
        let (w, c) := c.act scene crew.job crew.gate i { w with now := due }
        some (w, { crew with callers := crew.callers.set i c })
  | none =>
    match crew.gate with
    | .shut =>
      some (w, { crew with gate := if w.canShow crew.window then .openSince w.now else .stuck })
    | .openSince _ | .stuck => none

/-- Steps until nothing is left to do. There is no result when `limit` steps are not enough. -/
def run (scene : Scene) : (limit : Nat) → World → Crew σ → Option (World × Crew σ)
  | 0, _, _ => none
  | limit + 1, w, crew =>
    match crew.step scene w with
    | none => some (w, crew)
    | some (w, crew) => run scene limit w crew

end Crew

end LoadSweep

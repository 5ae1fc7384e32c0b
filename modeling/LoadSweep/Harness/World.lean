import LoadSweep.Duration
import LoadSweep.Log
import LoadSweep.Server.Request

/-!
# `LoadSweep/Harness/World.lean` — the clock, the token and the history of a run

The state that all callers of a run share is small: a clock in nanoseconds, a **token** that is
set at most once and tells everybody to stop, the number of callers the server has met, and what
happened so far. The token is set by a script, or by the **alarm**, an instant fixed in advance.

The history is kept newest first. Every entry carries its instant, and the order of entries is the
order in which things happened, also within one instant; statements such as "nothing starts once
the token is set" are statements about this list.
-/

set_option autoImplicit false

namespace LoadSweep

/-- Something that happened. The number is the caller's. -/
inductive Happening where
  | attempted (caller : Nat)
  /-- An attempt ended without a connection. -/
  | refused (caller : Nat) (reason : String)
  | connected (caller : Nat)
  | asked (caller : Nat) (request : Request)
  | answered (caller : Nat) (answer : Answer)
  | died (caller : Nat)
  | cancelled
  deriving DecidableEq, Repr

structure Entry where
  /-- In nanoseconds since the beginning, as all instants. -/
  instant : Nat
  event : Happening
  deriving DecidableEq, Repr

/-- What all callers of a run share. -/
structure World where
  now : Nat
  token : Bool
  /-- The instant at which the token will be set, if one is fixed. -/
  alarm : Option Nat
  /-- How many callers the server has met. -/
  met : Nat
  /-- Newest first. -/
  history : List Entry
  /-- What the main course of the run logged, newest first. -/
  log : List LogEvent
  /-- What each worker that logged anything logged, newest worker first. -/
  workerLogs : List (Option Nat × List LogEvent)

namespace World

/-- The beginning, with the alarm so much later. -/
def start (alarm : Option Duration) : World :=
  { now := 0
    token := false
    alarm := alarm.map (·.nanos)
    met := 0
    history := []
    log := []
    workerLogs := [] }

def record (w : World) (e : Happening) : World :=
  { w with history := ⟨w.now, e⟩ :: w.history }

/-- Sets the token; a token that is set stays as it is. -/
def cancel (w : World) : World :=
  if w.token then w else { w with token := true }.record .cancelled

/-- Whether the alarm is due at an instant. -/
def rings (w : World) (t : Nat) : Bool :=
  match w.alarm with
  | some a => decide (a ≤ t)
  | none => false

/-- The clock moves to the alarm, and the token is set. -/
def ring (w : World) : World :=
  match w.alarm with
  | some a => { w with now := max w.now a, alarm := none }.cancel
  | none => w

def sleep (w : World) (d : Duration) : World :=
  let t := w.now + d.wait
  let w := if w.rings t then w.ring else w
  { w with now := t }

def say (w : World) (e : LogEvent) : World := { w with log := e :: w.log }

def sayAll (w : World) (es : List LogEvent) : World := es.foldl say w

/-- Adds the log of a worker, if it has one. -/
def sayOf (w : World) (number : Option Nat) (es : List LogEvent) : World :=
  if es.isEmpty then w else { w with workerLogs := (number, es) :: w.workerLogs }

/-- The seconds from the beginning that the clock can show lie below this. It counts with 63
bits, and at the beginning it stands at one second at least. -/
def clockSpan : Nat := Nat.pow 2 63 - 1

def deadline (w : World) (d : Duration) : Nat := w.now + d.nanos

/-- Whether the clock can show the instant `d` from now. -/
def canShow (w : World) (d : Duration) : Bool :=
  decide (w.deadline d / Duration.nanosPerSec < clockSpan)

end World

/-- How hard to try to connect. -/
structure Policy where
  tries : Nat
  timeout : Duration
  backoff : Duration
  deriving DecidableEq, Repr

/-- The policy that is meant when none is given. -/
def Policy.standard : Policy :=
  { tries := 20, timeout := .ofSecs 2, backoff := .ofMillis 200 }

/-- What callers meet: how hard they try, and the server, a script for every caller by number. -/
structure Scene where
  policy : Policy
  script : Nat → Script

end LoadSweep

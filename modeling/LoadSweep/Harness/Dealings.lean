import LoadSweep.Harness.World

/-!
# `LoadSweep/Harness/Dealings.lean` — one caller's part of the history

The history of a run is one list for all callers. What the server saw of one of them is read off
it here: how often it tried to connect, whether it got a connection, how many pings and requests
it sent, and which requests, in their order.
-/

set_option autoImplicit false

namespace LoadSweep

/-- What the server saw of one caller. -/
structure Dealings where
  caller : Nat
  attempts : Nat
  connected : Bool
  pings : Nat
  /-- The requests other than pings, in their order. -/
  requests : List Request

namespace Dealings

def none (caller : Nat) : Dealings :=
  { caller, attempts := 0, connected := false, pings := 0, requests := [] }

/-- Adds a happening that comes *before* everything noted so far. -/
def precede (d : Dealings) (e : Happening) : Dealings :=
  match e with
  | .attempted c => if c = d.caller then { d with attempts := d.attempts + 1 } else d
  | .connected c => if c = d.caller then { d with connected := true } else d
  | .asked c .ping => if c = d.caller then { d with pings := d.pings + 1 } else d
  | .asked c request =>
    if c = d.caller then { d with requests := request :: d.requests } else d
  | .refused .. | .answered .. | .died _ | .cancelled => d

/-- A caller's part of a history, which is newest first. -/
def ofHistory (history : List Entry) (caller : Nat) : Dealings :=
  history.foldl (fun d e => d.precede e.event) (.none caller)

end Dealings

/-- The dealings of the callers that the server met from number `first` on. -/
def World.dealings (w : World) (first : Nat) : List Dealings :=
  (List.range' first (w.met - first)).map (Dealings.ofHistory w.history)

end LoadSweep

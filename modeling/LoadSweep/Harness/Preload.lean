import LoadSweep.Harness.Run
import LoadSweep.Key.Space
import LoadSweep.Report.Row

/-!
# `LoadSweep/Harness/Preload.lean` — writing every key once

The preload writes all keys in their order over one connection, and looks at the token before
each write. A failed write ends the run, since no later reading could be trusted; a token ends
the preload, which is then *incomplete*. A token that is set during the last write comes too
late to matter.

Progress is reported after every `reportEvery`-th key and after the last. The number of keys since
the previous report is worked out from the number loaded (`Progress.interval`), not counted.

What is read off the real clock is left out: the time that the preload has taken (in its report,
and in the line that says that it is complete, with the rate over that time) and the two rates of a
line of progress (overall, and since the previous report). They are logged, and nothing else reads
them.
-/

set_option autoImplicit false

namespace LoadSweep

variable {m : Type → Type} [Monad m]

open Number

/-- The character that preloaded values consist of. -/
def preloadFill : Char := 'X'

structure Progress where
  loaded : Nat
  total : Nat
  /-- How many keys were loaded since the previous report. -/
  interval : Nat
  deriving DecidableEq, Repr

/-- The share of the keys that is loaded, in percent with one decimal. -/
def Progress.percent (p : Progress) : String :=
  (((Double.ofNat 100).mul (.ofNat p.loaded)).div (.ofNat p.total)).toFixed 1 ++ "%"

/-- The line of the log, without its two rates. -/
def Progress.toLog (p : Progress) : LogEvent :=
  { level := .info
    message := "preload progress"
    fields := [("loaded", toString p.loaded), ("total", toString p.total),
      ("percent", p.percent)] }

/-- How far a preload has come. -/
structure Preload where
  loaded : Nat
  /-- Newest first. -/
  reports : List Progress
  fault : Option ClientFault
  deriving DecidableEq, Repr

namespace Preload

def nothing : Preload := { loaded := 0, reports := [], fault := none }

def advance (total every : Nat) (p : Preload) : Preload :=
  let loaded := p.loaded + 1
  { p with
    loaded
    reports :=
      if loaded % every = 0 ∨ loaded = total then
        { loaded, total, interval := (loaded - 1) % every + 1 } :: p.reports
      else p.reports }

/-- Writes the keys in order, `every` (zero counts as one) keys to a report. -/
def job (keys : KeySpace) (valueSize reportEvery : Nat) : Job Preload where
  enter _ _ := nothing
  ask _ token p :=
    if p.fault.isSome then .stop p
    else match keys.key? p.loaded with
      | none => .stop p
      | some key => if token then .stop p else .send (.set key valueSize preloadFill) p
  hear _ _ answer p :=
    match answer with
    | .ok _ => p.advance keys.size (max reportEvery 1)
    | .error fault => { p with fault := some fault }

end Preload

/-- What a preload came to, its time apart. -/
structure PreloadReport where
  loaded : Nat
  /-- Whether every key was written. -/
  complete : Bool
  deriving DecidableEq, Repr

/-- Writes every key once. -/
def Harness.preload (h : Harness m) (target : Target) (keys : KeySpace)
    (valueSize reportEvery : Nat) : Run m PreloadReport := do
  let total := keys.size
  Run.say .info "preloading (single connection)"
    [("keys", toString total), ("value_size", toString valueSize)]
  let p ← h.alone target (Preload.job keys valueSize reportEvery) fun p =>
    p.reports.reverse.map (·.toLog)
  match p.fault with
  | some cause => Run.fault (.preload p.loaded ((keys.key? p.loaded).getD "") cause)
  | none =>
    let complete := p.loaded == total
    if complete then
      Run.say .info "preload complete" [("keys", toString p.loaded)]
    else
      Run.say .warn "preload interrupted"
        [("loaded", toString p.loaded), ("total", toString total)]
    pure { loaded := p.loaded, complete }

end LoadSweep

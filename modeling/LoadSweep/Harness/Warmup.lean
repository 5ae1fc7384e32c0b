import LoadSweep.Harness.Traffic

/-!
# `LoadSweep/Harness/Warmup.lean` — traffic before the measurement

Sixteen callers read random keys for a while. Nothing that happens to one of them matters to the
run: who cannot connect, loses its connection or dies contributes what it has, or nothing. Unlike
in a measured cell the gate stands open from the start, so the deadline counts from the start of
the phase and a caller that connects late has less time, or none. The words with which a caller died
are left out of the log.
-/

set_option autoImplicit false

namespace LoadSweep

variable {m : Type → Type} [Monad m]

/-- How many callers warm a server up. -/
def warmupClients : Nat := 16

/-- The seed of the first of them; the next ones count up. -/
def warmupSeed : Nat := 0xBEEF

/-- Sends reading traffic for `duration`; the result is the number of reads that succeeded. -/
def Harness.warmup (h : Harness m) (target : Target) (keys : KeySpace)
    (duration : Duration) : Run m Nat := do
  Run.say .info "warm-up" [("clients", toString warmupClients), ("duration", duration.toText)]
  if !(← Run.look (·.canShow duration)) then Run.die
  let crew ← Run.crew h fun w =>
    .atOpenGate w (Traffic.job keys .get duration (warmupSeed + ·)) warmupClients
  let ops ← settle target crew.callers
  Run.say .info "warm-up done" [("ops", toString ops)]
  pure ops
where
  /-- Adds up what the callers counted, and passes on what they logged. -/
  settle (target : Target) : List (Caller Traffic) → Run m Nat
    | [] => pure 0
    | c :: rest => do
      Run.change (·.sayOf c.number (c.dialLog target h.policy.tries))
      match c.stage with
      | .ended (.served t) => return t.result.ops + (← settle target rest)
      | .ended (.died _) =>
        Run.say .warn "warm-up worker failed" []
        settle target rest
      | _ => settle target rest

end LoadSweep

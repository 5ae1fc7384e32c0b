import LoadSweep.Live
import LoadSweep.Program
import Std.Async.Signal

/-!
# `LoadSweep/Main.lean` — the command line

The process around a live run: the file of results is made first, the run follows, and its rows
are written when it has come to its result. An interrupt from the keyboard sets the token, so a
run that is interrupted still writes the rows it has.
-/

set_option autoImplicit false

namespace LoadSweep.CommandLine

open Std.Async

/-- The reason of the operating system behind an error. -/
def osFault (e : IO.Error) : OsFault :=
  match e with
  | .noFileOrDirectory _ code text | .interrupted _ code text
  | .alreadyExists _ code text | .invalidArgument _ code text
  | .permissionDenied _ code text | .resourceExhausted _ code text
  | .inappropriateType _ code text | .noSuchThing _ code text
  | .otherError code text | .resourceBusy code text | .resourceVanished code text
  | .unsupportedOperation code text | .hardwareFault code text
  | .unsatisfiedConstraints code text | .illegalOperation code text
  | .protocolError code text | .timeExpired code text => .ofCode code.toNat text
  | .unexpectedEof | .userError _ => .ofCode 5 "Input/output error"

/-- Does something with files; what the operating system refuses is a fault. -/
def orFault {α : Type} (action : IO α) : IO (Except OsFault α) := do
  try return .ok (← action)
  catch e => return .error (osFault e)

/-- Makes or empties the file of results and writes its header. -/
def createFile (path : String) : IO (Except SinkFault IO.FS.Handle) := do
  match ← orFault (IO.FS.Handle.mk path .write) with
  | .error e => return .error (.create path e)
  | .ok file =>
    let written ← orFault do
      file.putStr Csv.header
      file.flush
    return (written.map fun _ => file).mapError .io

def writeRows (file : IO.FS.Handle) (rows : List Row) : IO (Except SinkFault Unit) := do
  let written ← orFault do
    for row in rows do
      file.putStr row.record
    file.flush
  return written.mapError .io

/-- Prints what the process prints at its end. -/
def leave (ending : Ending) : IO UInt32 := do
  IO.print ending.output
  IO.eprint ending.errors
  return UInt32.ofNat ending.code

def say (level : Level) (message : String) (fields : List (String × String)) : IO Unit :=
  IO.eprintln ({ level, message, fields : LogEvent }).text

/-- Notes the next interrupt from the keyboard. -/
def watch (interrupted : IO.Ref Bool) : IO Unit := do
  let waiter ← Signal.Waiter.mk .sigint false
  let noted (_ : Except IO.Error Int) : IO Unit := do
    say .warn "interrupt received, stopping after the current step" []
    interrupted.set true
  let _ ← IO.mapTask noted (← waiter.wait)

/-- Runs a plan that was accepted against its target. -/
def runPlan (settings : Command.Settings) (file : IO.FS.Handle) : IO Ending := do
  let target := settings.plan.target
  let interrupted ← IO.mkRef false
  watch interrupted
  say .info "starting benchmark"
    [("name", target.name), ("target", target.address), ("out", settings.out)]
  let live : Live :=
    { target
      policy := .standard
      origin := ← IO.monoNanosNow
      interrupted }
  let (w, result) ← live.harness.session settings.plan (.start none)
  let _ ← Live.flushLog w
  match result with
  | .error stop => return .stopped stop
  | .ok rows =>
    match ← writeRows file rows with
    | .error e => return .failed e.show
    | .ok () =>
      say .info "results written" [("rows", toString rows.length), ("out", settings.out)]
      return .finished rows

end LoadSweep.CommandLine

open LoadSweep LoadSweep.CommandLine in
/-- Reads the command line, makes the file of results and runs the plan. -/
def main (words : List String) : IO UInt32 := do
  match Program.accept words with
  | .error ending => leave ending
  | .ok settings =>
    match ← createFile settings.out with
    | .error e => leave (.failed e.show)
    | .ok file => leave (← runPlan settings file)

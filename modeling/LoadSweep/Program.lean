import LoadSweep.Command.Line
import LoadSweep.File.Sink
import LoadSweep.Harness.Session
import LoadSweep.Report.Summary
import LoadSweep.Text.Quoted

/-!
# `LoadSweep/Program.lean` — the program as a whole

From a command line, the files that are there and a server, to what the process leaves behind: an
exit code, two texts and the files. The order matters. A command line or a plan that is refused
touches no file and no server; the file of results is made, with its header, before the server is
approached for the first time; rows reach it only when the whole run has come to its result, and
then the table is printed.

Errors are shown in a detailed form that names the case and its parts.
-/

set_option autoImplicit false

namespace LoadSweep

open Text

/-! ## The detailed form of errors -/

/-- A case with named parts. -/
def showParts (label : String) (parts : List (String × String)) : String :=
  let shown := parts.map fun (name, value) => name ++ ": " ++ value
  label ++ " \x7b " ++ String.intercalate ", " shown ++ " \x7d"

/-- A case with one part. -/
def showCase (label value : String) : String := label ++ "(" ++ value ++ ")"

def OsFault.show (f : OsFault) : String :=
  match f.code? with
  | some code =>
    showParts "Os" [("code", toString code), ("kind", f.kind), ("message", quote f.text)]
  | none => showParts "Error" [("kind", f.kind), ("message", quote f.text)]

def SinkFault.show : SinkFault → String
  | .emptyPath => "EmptyPath"
  | .create path cause => showParts "Create" [("path", quote path), ("source", cause.show)]
  | .io cause => showCase "Io" cause.show

def KeyFault.show : KeyFault → String
  | .empty => "Empty"
  | .zeroModulus => "ZeroModulus"
  | .unknownMode folded => showCase "UnknownMode" (quote folded)

def ConfigFault.show : ConfigFault → String
  | .noKeys => "NoKeys"
  | .emptyList what => showCase "EmptyList" (quote what)
  | .zero what => showCase "Zero" (quote what)
  | .unknownOperation text => showCase "UnknownOperation" (quote text)

def ClientFault.show : ClientFault → String
  | .wire f => showCase "Redis" f.message
  | .lost text => showCase "Disconnected" (quote text)
  | .request text => showCase "Request" (quote text)

def RunFault.show : RunFault → String
  | .connect target tries reason =>
    showParts "Connect"
      [("target", quote target), ("tries", toString tries), ("reason", quote reason)]
  | .probe target cause =>
    showParts "Probe" [("target", quote target), ("source", cause.show)]
  | .preload index key cause =>
    showParts "Preload"
      [("index", toString index), ("key", quote key), ("source", cause.show)]
  | .keySpace cause => showCase "KeySpace" cause.show
  | .config cause => showCase "Config" cause.show
  | .workerDied index => showCase "WorkerPanicked" (toString index)
  | .cancelled => "Cancelled"

/-! ## The process -/

/-- How the process ends: its exit code, and what it prints on its two outputs. -/
structure Ending where
  code : Nat
  output : String
  errors : String
  deriving DecidableEq, Repr

namespace Ending

def failed (shown : String) : Ending :=
  { code := 1, output := "", errors := "Error: " ++ shown ++ "\n" }

/-- The end of a process whose command line was not read to its end. -/
def refused (f : Command.UsageFault) : Ending :=
  match f with
  | .help | .version => { code := 0, output := f.text, errors := "" }
  | _ => { code := 2, output := "", errors := f.text }

/-- The end of a process whose run did not come to its result. -/
def stopped : Stop → Ending
  | .fault f => .failed f.show
  | .died => { code := 101, output := "", errors := "" }

/-- The end of a process whose rows are written. -/
def finished (rows : List Row) : Ending :=
  { code := 0, output := Summary.text rows, errors := "" }

end Ending

namespace Program

/-- Reads the command line and checks the plan that it asks for. Nothing is touched before. -/
def accept (words : List String) : Except Ending Command.Settings :=
  match Command.parseLine words with
  | .error f => .error (.refused f)
  | .ok settings =>
    match settings.plan.validate with
    | .error e => .error (.failed e.show)
    | .ok () => .ok settings

/-- What the process leaves behind. -/
structure Outcome where
  world : World
  ending : Ending
  files : FileTree

/-- Writes what a run came to, and ends. -/
def conclude (w : World) (sink : Sink) (files : FileTree) :
    Except Stop (List Row) → Outcome
  | .error stop => { world := w, ending := .stopped stop, files := sink.close files }
  | .ok rows =>
    match sink.writeRows files rows with
    | .error e => { world := w, ending := .failed e.show, files }
    | .ok (sink, files) => { world := w, ending := .finished rows, files := sink.close files }

/-- Runs the program in a scene. There is no outcome when some crew does not end within `limit`
steps. -/
def run (scene : Scene) (limit : Nat) (w : World) (files : FileTree) (words : List String) :
    Option Outcome :=
  match accept words with
  | .error ending => some { world := w, ending, files }
  | .ok settings =>
    match Sink.create files settings.out with
    | .error e => some { world := w, ending := .failed e.show, files }
    | .ok (sink, files) =>
      match (scene.harness limit).session settings.plan w with
      | none => none
      | some (w, result) => some (conclude w sink files result)

end Program

end LoadSweep

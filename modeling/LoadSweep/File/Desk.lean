import LoadSweep.File.Sink

/-!
# `LoadSweep/File/Desk.lean` — files, and at most one open sink

Sinks are used one after the other: making a new one closes the one before it, so what was still
pending reaches its file first. A `Desk` is the files together with the sink that is open, if one
is, and its operations keep the two in step.
-/

set_option autoImplicit false

namespace LoadSweep

/-- The files, and the sink that is open. -/
structure Desk where
  files : FileTree
  sink : Option Sink

namespace Desk

def ofFiles (files : FileTree) : Desk := { files, sink := none }

def close (d : Desk) : Desk :=
  match d.sink with
  | some sink => .ofFiles (sink.close d.files)
  | none => d

/-- Closes the sink that is open and makes a new one. -/
def create (d : Desk) (path : String) : Desk × Except SinkFault Unit :=
  let d := d.close
  match Sink.create d.files path with
  | .ok (sink, files) => ({ files, sink := some sink }, .ok ())
  | .error e => (d, .error e)

/-- Lets the open sink do something; nothing happens without one. -/
def onSink (d : Desk) (act : Sink → FileTree → Except SinkFault (Sink × FileTree)) :
    Desk × Option (Except SinkFault Unit) :=
  match d.sink with
  | none => (d, none)
  | some sink =>
    match act sink d.files with
    | .ok (sink, files) => ({ files, sink := some sink }, some (.ok ()))
    | .error e => (d, some (.error e))

def writeRow (d : Desk) (row : Row) : Desk × Option (Except SinkFault Unit) :=
  d.onSink fun sink files => sink.writeRow files row

def writeRows (d : Desk) (rows : List Row) : Desk × Option (Except SinkFault Unit) :=
  d.onSink fun sink files => sink.writeRows files rows

end Desk

end LoadSweep

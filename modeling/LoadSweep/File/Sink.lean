import LoadSweep.File.Tree
import LoadSweep.Report.Csv

/-!
# `LoadSweep/File/Sink.lean` — the file of results

A sink makes its file with the header as soon as it is created, so that a path that cannot be
written is found before anything is measured. Rows are gathered and reach the file when the sink
is flushed, or when too much has gathered; `writeRows` flushes after its last row, and closing a
sink flushes what is left. Whenever nothing is pending, the file is the header and the records of
all rows given, in their order.
-/

set_option autoImplicit false

namespace LoadSweep

/-- Why the file of results could not be made or written. -/
inductive SinkFault where
  | emptyPath
  | create (path : String) (cause : OsFault)
  | io (cause : OsFault)
  deriving DecidableEq, Repr

def SinkFault.message : SinkFault → String
  | .emptyPath => "output path is empty"
  | .create path cause => "Could not create " ++ path ++ ": " ++ cause.message
  | .io cause => "IO error: " ++ cause.message

structure Sink where
  path : String
  place : Place
  /-- How many bytes have reached the file. -/
  offset : Nat
  /-- What was written and has not reached it yet. -/
  pending : String
  deriving DecidableEq, Repr

namespace Sink

def capacity : Nat := 8192

/-- Brings everything pending to the file. -/
def flush (s : Sink) (t : FileTree) : Except SinkFault (Sink × FileTree) :=
  match t.write s.place s.offset s.pending with
  | .error e => .error (.io e)
  | .ok t => .ok ({ s with offset := s.offset + s.pending.utf8ByteSize, pending := "" }, t)

/-- Adds text to what is pending, making room first if there is not enough. -/
def add (s : Sink) (t : FileTree) (text : String) : Except SinkFault (Sink × FileTree) :=
  if s.pending.utf8ByteSize + text.utf8ByteSize ≤ capacity then
    .ok ({ s with pending := s.pending ++ text }, t)
  else
    match s.flush t with
    | .error e => .error e
    | .ok (s, t) => .ok ({ s with pending := text }, t)

/-- Makes or empties the file and writes the header. -/
def create (t : FileTree) (path : String) : Except SinkFault (Sink × FileTree) :=
  if path = "" then .error .emptyPath
  else match t.openFile path with
    | .error e => .error (.create path e)
    | .ok (t, place) =>
      flush { path, place, offset := 0, pending := Csv.header } t

def writeRow (s : Sink) (t : FileTree) (row : Row) : Except SinkFault (Sink × FileTree) :=
  s.add t row.record

def writeRows (s : Sink) (t : FileTree) : List Row → Except SinkFault (Sink × FileTree)
  | [] => s.flush t
  | row :: rest =>
    match s.writeRow t row with
    | .error e => .error e
    | .ok (s, t) => writeRows s t rest

/-- The files after the sink is closed. What cannot be written any more is lost silently. -/
def close (s : Sink) (t : FileTree) : FileTree :=
  match s.flush t with
  | .ok (_, t) => t
  | .error _ => t

end Sink

end LoadSweep

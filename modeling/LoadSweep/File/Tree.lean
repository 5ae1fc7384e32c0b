/-!
# `LoadSweep/File/Tree.lean` — directories and files

Opening a file for writing can fail in a handful of ways, and each has a number and a text of its
own that users see. This module is the part of a file system that decides between them: a tree of
directories and files, paths that are walked component by component from a working directory, and
devices that take no bytes.

The walk reports the *first* component that is wrong: a name that is too long, something that is
not there, something that is no directory and yet has a component after it.
-/

set_option autoImplicit false

namespace LoadSweep

/-- Why the operating system refuses. -/
inductive OsFault where
  | notFound
  | notDirectory
  | isDirectory
  | nameTooLong
  | noSpace
  /-- The path holds a NUL character and is not given to the operating system at all. -/
  | nulInPath
  /-- Some other reason, by its number, kind and text. -/
  | other (number : Nat) (name description : String)
  deriving DecidableEq, Repr

namespace OsFault

def code? : OsFault → Option Nat
  | .notFound => some 2
  | .notDirectory => some 20
  | .isDirectory => some 21
  | .nameTooLong => some 36
  | .noSpace => some 28
  | .nulInPath => none
  | .other number _ _ => some number

/-- The fault with a number; `description` is the text of a number that is not known here. -/
def ofCode (number : Nat) (description : String) : OsFault :=
  match number with
  | 2 => .notFound
  | 20 => .notDirectory
  | 21 => .isDirectory
  | 36 => .nameTooLong
  | 28 => .noSpace
  | n => .other n "Other" description

def text : OsFault → String
  | .notFound => "No such file or directory"
  | .notDirectory => "Not a directory"
  | .isDirectory => "Is a directory"
  | .nameTooLong => "File name too long"
  | .noSpace => "No space left on device"
  | .nulInPath => "file name contained an unexpected NUL byte"
  | .other _ _ description => description

def kind : OsFault → String
  | .notFound => "NotFound"
  | .notDirectory => "NotADirectory"
  | .isDirectory => "IsADirectory"
  | .nameTooLong => "InvalidFilename"
  | .noSpace => "StorageFull"
  | .nulInPath => "InvalidInput"
  | .other _ name _ => name

def message (f : OsFault) : String :=
  match f.code? with
  | some code => f.text ++ " (os error " ++ toString code ++ ")"
  | none => f.text

end OsFault

inductive Node where
  | directory
  | file (text : String)
  /-- A device that takes no bytes. -/
  | full
  deriving DecidableEq, Repr

/-- A place: the names on the way from the root, outermost first. -/
abbrev Place := List String

/-- Directories and files, and the working directory. -/
structure FileTree where
  here : Place
  nodes : List (Place × Node)
  deriving DecidableEq, Repr

namespace FileTree

/-- The longest name of a file, in bytes. -/
def maxName : Nat := 255

/-- Paths are shorter than this, in bytes. -/
def maxPath : Nat := 4096

/-- An empty working directory, and the device that is always full. -/
def empty : FileTree :=
  { here := ["work"]
    nodes := [(["work"], .directory), (["dev"], .directory), (["dev", "full"], .full)] }

/-- What stands at a place; the root is always a directory. -/
def node? (t : FileTree) (place : Place) : Option Node :=
  if place = [] then some .directory else (t.nodes.find? (·.1 == place)).map (·.2)

/-- Puts something at a place, instead of what stood there. -/
def put (t : FileTree) (place : Place) (node : Node) : FileTree :=
  if t.nodes.any (·.1 == place) then
    { t with nodes := t.nodes.map fun p => if p.1 == place then (place, node) else p }
  else { t with nodes := t.nodes ++ [(place, node)] }

def components (path : String) : List String :=
  (path.splitOn "/").filter (· ≠ "")

/-- Where the walk along a path begins. -/
def origin (t : FileTree) (path : String) : Place :=
  if path.startsWith "/" then [] else t.here

/-- One step of a walk into a directory. -/
def enter (t : FileTree) (place : Place) (name : String) : Except OsFault Place :=
  match t.node? place with
  | none => .error .notFound
  | some (.file _) | some .full => .error .notDirectory
  | some .directory =>
    if name = "." then .ok place
    else if name = ".." then .ok place.dropLast
    else if maxName < name.utf8ByteSize then .error .nameTooLong
    else .ok (place ++ [name])

/-- The place that a list of components leads to. All but the last must lead to directories. -/
def walk (t : FileTree) : Place → List String → Except OsFault Place
  | place, [] => .ok place
  | place, name :: rest =>
    match t.enter place name with
    | .error e => .error e
    | .ok next => walk t next rest

def locate (t : FileTree) (path : String) : Except OsFault Place :=
  if path.contains '\x00' then .error .nulInPath
  else if maxPath ≤ path.utf8ByteSize then .error .nameTooLong
  else if path = "" then .error .notFound
  else t.walk (t.origin path) (components path)

/-- Whether a path can only mean a directory. -/
def meansDirectory (path : String) : Bool :=
  path.endsWith "/" ||
    match (components path).getLast? with
    | none => true
    | some name => name == "." || name == ".."

/-- Opens the file of a path for writing: it is made if it is not there, and emptied if it is. -/
def openFile (t : FileTree) (path : String) : Except OsFault (FileTree × Place) :=
  match t.locate path with
  | .error e => .error e
  | .ok place =>
    if meansDirectory path then .error .isDirectory
    else match t.node? place with
      | some .directory => .error .isDirectory
      | some .full => .ok (t, place)
      | some (.file _) | none => .ok (t.put place (.file ""), place)

/-- A text with another written over it from a byte offset on; a gap is filled with NULs. -/
def overwrite (old : String) (offset : Nat) (new : String) : String :=
  if old.utf8ByteSize = offset then old ++ new
  else
    let before := old.toUTF8.toList.take offset
    let gap := List.replicate (offset - before.length) 0
    let after := old.toUTF8.toList.drop (offset + new.utf8ByteSize)
    let bytes := (before ++ gap ++ new.toUTF8.toList ++ after).toByteArray
    (String.fromUTF8? bytes).getD new

/-- Writes to the open file at a place, from a byte offset on. -/
def write (t : FileTree) (place : Place) (offset : Nat) (text : String) :
    Except OsFault FileTree :=
  if text = "" then .ok t
  else match t.node? place with
    | some (.file old) => .ok (t.put place (.file (overwrite old offset text)))
    | some .full => .error .noSpace
    | some .directory | none => .error .notFound

/-- Saves a text in the file of a path, where that is possible. -/
def save (t : FileTree) (path text : String) : FileTree :=
  match t.openFile path with
  | .error _ => t
  | .ok (t, place) =>
    match t.write place 0 text with
    | .error _ => t
    | .ok t => t

def read? (t : FileTree) (path : String) : Option String :=
  match t.locate path with
  | .error _ => none
  | .ok place =>
    match t.node? place with
    | some (.file text) => if path.endsWith "/" then none else some text
    | _ => none

/-- Makes a directory at a path, and those on the way to it. -/
def makeDirectory (t : FileTree) (path : String) : FileTree :=
  let rec go (t : FileTree) : Place → List String → FileTree
    | _, [] => t
    | place, name :: rest =>
      let next := place ++ [name]
      let t := if (t.node? next).isSome then t else t.put next .directory
      go t next rest
  go t (t.origin path) ((components path).filter (· ≠ "."))

/-- The files directly in the working directory, by name. -/
def listing (t : FileTree) : List (String × String) :=
  let files := t.nodes.filterMap fun (place, node) =>
    match node with
    | .file text =>
      match place.getLast? with
      | some name => if place == t.here ++ [name] then some (name, text) else none
      | none => none
    | _ => none
  files.mergeSort fun a b => decide (a.1 ≤ b.1)

end FileTree

end LoadSweep

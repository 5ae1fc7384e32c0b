import LoadSweep.Command.Fault
import LoadSweep.Command.Number

/-!
# `LoadSweep/Command/Line.lean` — reading a command line

Words are read from left to right. A word that begins with two dashes names an option, with its
value after an equals sign or in the next word; a word that begins with one dash is a short
option, so it is never taken as the value of the option before it. After a lone `--` nothing is an
option any more, and since no argument stands by itself, every further word is a fault.

The value of an option is not looked at when it is read but when the next known option, or the end
of the line, is reached. A fault in the *shape* of the line therefore comes before a fault in the
value just before it. `Reading.pending` is what has been read and not been looked at.

List options add their values to those they already have; any other option may stand once.
-/

set_option autoImplicit false

namespace LoadSweep.Command

/-- What the options set so far; nothing stands for an option that was not used. -/
structure Given where
  name : Option String := none
  host : Option String := none
  port : Option Nat := none
  keys : Option Nat := none
  keyMode : Option KeyMode := none
  values : Option (List Nat) := none
  clients : Option (List Nat) := none
  ops : Option (List Operation) := none
  duration : Option Nat := none
  warmupSec : Option Nat := none
  out : Option String := none
  skipPreload : Bool := false
  reportInterval : Option Nat := none

/-- The settings, those that were not given being standard. -/
def Given.settings (g : Given) : Settings :=
  let d := Settings.standard
  { name := g.name.getD d.name
    host := g.host.getD d.host
    port := g.port.getD d.port
    keys := g.keys.getD d.keys
    keyMode := g.keyMode.getD d.keyMode
    values := g.values.getD d.values
    clients := g.clients.getD d.clients
    ops := g.ops.getD d.ops
    duration := g.duration.getD d.duration
    warmupSec := g.warmupSec.getD d.warmupSec
    out := g.out.getD d.out
    skipPreload := g.skipPreload
    reportInterval := g.reportInterval.getD d.reportInterval }

/-- How far a command line has been read. -/
structure Reading where
  given : Given
  /-- The options that were looked at, in the order of their first use, as messages name them. -/
  used : List String
  /-- An option that waits to be looked at, with its value if there was one. -/
  pending : Option (Setting × Option String)
  /-- Whether a lone `--` was read. -/
  closed : Bool

/-! ## Values -/

/-- The value for an option that may stand once. -/
def once {α : Type} (s : Setting) (value : String) (old : Option α)
    (parse : String → Except String α) : Except UsageFault (Option α) :=
  if old.isSome then .error (.repeated s.usage)
  else match parse value with
    | .ok a => .ok (some a)
    | .error message => .error (.badValue s.usage value message)

/-- Reads texts one after the other, until the first that is wrong. -/
def readAll {α : Type} (s : Setting) (parse : String → Except String α) :
    List String → Except UsageFault (List α)
  | [] => .ok []
  | text :: rest =>
    match parse text with
    | .error message => .error (.badValue s.usage text message)
    | .ok a => (readAll s parse rest).map (a :: ·)

/-- The values for a list option, after those it already has. -/
def several {α : Type} (s : Setting) (value : String) (old : Option (List α))
    (parse : String → Except String α) : Except UsageFault (Option (List α)) :=
  (readAll s parse (value.splitOn ",")).map fun new => some (old.getD [] ++ new)

def parseCount (s : String) : Except String Nat := (parseUnsigned s).mapError (·.message)

def parsePort : String → Except String Nat := parseRanged 65535

def parseMode (s : String) : Except String KeyMode := (KeyMode.parse s).mapError (·.message)

def parseOperation (s : String) : Except String Operation :=
  (Operation.parse s).mapError (·.message)

/-- Sets what an option and its value say. -/
def Given.set (g : Given) (s : Setting) (value : String) : Except UsageFault Given :=
  match s with
  | .name => (once s value g.name .ok).map fun v => { g with name := v }
  | .host => (once s value g.host .ok).map fun v => { g with host := v }
  | .port => (once s value g.port parsePort).map fun v => { g with port := v }
  | .keys => (once s value g.keys parseCount).map fun v => { g with keys := v }
  | .keyMode => (once s value g.keyMode parseMode).map fun v => { g with keyMode := v }
  | .values => (several s value g.values parseCount).map fun v => { g with values := v }
  | .clients => (several s value g.clients parseCount).map fun v => { g with clients := v }
  | .ops => (several s value g.ops parseOperation).map fun v => { g with ops := v }
  | .duration => (once s value g.duration parseCount).map fun v => { g with duration := v }
  | .warmupSec => (once s value g.warmupSec parseCount).map fun v => { g with warmupSec := v }
  | .out =>
    if value = "" ∧ g.out.isNone then .error (.valueMissing s.usage)
    else (once s value g.out .ok).map fun v => { g with out := v }
  | .reportInterval =>
    (once s value g.reportInterval parseCount).map fun v => { g with reportInterval := v }

/-! ## Words -/

namespace Reading

def start : Reading := { given := {}, used := [], pending := none, closed := false }

/-- Notes that an option was used. -/
def use (r : Reading) (usage : String) : Reading :=
  { r with used := UsageFault.including r.used usage }

def look (r : Reading) (s : Setting) (value : String) : Except UsageFault Reading :=
  (r.given.set s value).map fun given => { r with given }.use s.usage

/-- Looks at the option that waits for it. -/
def settle (r : Reading) : Except UsageFault Reading :=
  match r.pending with
  | none => .ok r
  | some (s, none) => .error (.valueMissing s.usage)
  | some (s, some value) => { r with pending := none }.look s value

/-- The options used when a fault in the shape of the line is met: one that waits counts if there
is nothing wrong with it. -/
def usedSoFar (r : Reading) : List String :=
  match r.settle with
  | .ok r => r.used
  | .error _ => r.used

/-- An option with a value after an equals sign, or without one. -/
def readLong (r : Reading) (word : String) (value : Option String) :
    Except UsageFault Reading :=
  match Setting.ofWord? word with
  | some s => do
    let r ← r.settle
    match value with
    | some value => r.look s value
    | none => .ok { r with pending := some (s, none) }
  | none =>
    if word = skipWord ∨ word = "help" ∨ word = "version" then
      match value with
      | some value => .error (.valueUnasked ("--" ++ word) value r.used)
      | none => do
        let r ← r.settle
        if word = "help" then .error .help
        else if word = "version" then .error .version
        else if r.given.skipPreload then .error (.repeated ("--" ++ word))
        else .ok ({ r with given := { r.given with skipPreload := true } }.use ("--" ++ word))
    else
      .error (.unknownArgument ("--" ++ word) r.usedSoFar (mostSimilar word knownWords))

/-- A short option; only the first letter of several can matter, since a known one ends the
reading and an unknown one is a fault. -/
def readShort (r : Reading) (letter : Char) : Except UsageFault Reading :=
  if letter = 'h' then r.settle.bind fun _ => .error .help
  else if letter = 'V' then r.settle.bind fun _ => .error .version
  else .error (.unknownArgument (String.ofList ['-', letter]) [] none)

/-- A text cut at its first equals sign. -/
def cutAtEquals (cs : List Char) : String × Option String :=
  let head := cs.takeWhile (· ≠ '=')
  match cs.dropWhile (· ≠ '=') with
  | [] => (String.ofList head, none)
  | _ :: value => (String.ofList head, some (String.ofList value))

def read (r : Reading) (word : String) : Except UsageFault Reading :=
  if r.closed then .error (.unknownArgument word [] none)
  else match word.toList with
    | ['-', '-'] => .ok { r with closed := true }
    | '-' :: '-' :: cs =>
      let (name, value) := cutAtEquals cs
      r.readLong name value
    | '-' :: letter :: _ => r.readShort letter
    | _ =>
      match r.pending with
      | some (s, none) => .ok { r with pending := some (s, some word) }
      | _ => .error (.unknownArgument word [] none)

/-- Reads words, and settles what waits at the end. -/
def readAll (r : Reading) : List String → Except UsageFault Settings
  | [] => r.settle.map fun r => r.given.settings
  | word :: rest =>
    match r.read word with
    | .error e => .error e
    | .ok r => readAll r rest

end Reading

def parseLine (words : List String) : Except UsageFault Settings :=
  Reading.start.readAll words

end LoadSweep.Command

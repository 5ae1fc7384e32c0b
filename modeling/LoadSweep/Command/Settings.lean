import LoadSweep.Plan.Basic

/-!
# `LoadSweep/Command/Settings.lean` — the options and what they set

Twelve options take a value and one is a switch. Every option has a name, a word that stands for
its value in messages, a line of help, and a value that is meant when it is left out. Three of
them are lists: their values may be separated by commas, and the option may be repeated.

`Settings` is a command line that has been read, and `Settings.plan` the run it asks for.
-/

set_option autoImplicit false

namespace LoadSweep.Command

/-- The options that take a value. -/
inductive Setting where
  | name | host | port | keys | keyMode | values | clients | ops | duration | warmupSec | out
  | reportInterval
  deriving DecidableEq, Repr

namespace Setting

def all : List Setting :=
  [.name, .host, .port, .keys, .keyMode, .values, .clients, .ops, .duration, .warmupSec, .out,
    .reportInterval]

def word : Setting → String
  | .name => "name"
  | .host => "host"
  | .port => "port"
  | .keys => "keys"
  | .keyMode => "key-mode"
  | .values => "values"
  | .clients => "clients"
  | .ops => "ops"
  | .duration => "duration"
  | .warmupSec => "warmup-sec"
  | .out => "out"
  | .reportInterval => "report-interval"

/-- The option as messages name it: its word in dashes, and a stand-in for its value. -/
def usage (s : Setting) : String :=
  let standIn := String.ofList (s.word.toList.map fun c => if c = '-' then '_' else c.toUpper)
  "--" ++ s.word ++ " <" ++ standIn ++ ">"

def ofWord? (word : String) : Option Setting := all.find? (·.word == word)

/-- Every setting is found under its own word. -/
theorem ofWord?_word (s : Setting) : ofWord? s.word = some s := by
  cases s <;> decide

end Setting

/-- The switch that leaves the preload out. -/
def skipWord : String := "skip-preload"

/-- A command line that has been read. -/
structure Settings where
  name : String
  host : String
  port : Nat
  keys : Nat
  keyMode : KeyMode
  values : List Nat
  clients : List Nat
  ops : List Operation
  duration : Nat
  warmupSec : Nat
  out : String
  skipPreload : Bool
  reportInterval : Nat
  deriving DecidableEq, Repr

def Settings.standard : Settings :=
  { name := "redis"
    host := "127.0.0.1"
    port := 6379
    keys := 1000000
    keyMode := .standard
    values := [64, 256, 1024]
    clients := [16, 32, 64]
    ops := [.get, .set]
    duration := 30
    warmupSec := 10
    out := "results.csv"
    skipPreload := false
    reportInterval := defaultReportInterval }

def Settings.plan (s : Settings) : Plan :=
  { target := { name := s.name, host := s.host, port := s.port }
    keyCount := s.keys
    keyMode := s.keyMode
    matrix :=
      { valueSizes := s.values
        clientCounts := s.clients
        operations := s.ops
        duration := .ofSecs s.duration }
    warmup := .ofSecs s.warmupSec
    skipPreload := s.skipPreload
    reportInterval := s.reportInterval }

end LoadSweep.Command

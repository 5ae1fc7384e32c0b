import LoadSweep.Command.Settings

/-!
# `LoadSweep/Command/Help.lean` — the help text

The help lists every option with what it means and the value it has when it is left out. The
short and the long form of the request for help print the same text.
-/

set_option autoImplicit false

namespace LoadSweep.Command

def programName : String := "kvbench"

/-- What `--version` prints. -/
def versionText : String := programName ++ " 0.1.0\n"

/-- The line that shows how the program is called. -/
def usageLine (rest : String) : String := "Usage: " ++ programName ++ " " ++ rest

/-- The meaning of a setting; some speak for themselves. -/
def Setting.help? : Setting → Option String
  | .name => some "Server label written to every result row"
  | .keys => some "Number of keys to build and preload"
  | .keyMode => some "`sequential` (key:1..=N) or `decimal` (key:<i mod 2^31>)"
  | .values => some "Value sizes in bytes"
  | .clients => some "Client counts"
  | .duration => some "Seconds per matrix cell"
  | .reportInterval => some "Keys between preload progress lines"
  | .host | .port | .ops | .warmupSec | .out => none

/-- Numbers or names separated by commas. -/
def commaList (texts : List String) : String := String.intercalate "," texts

def Settings.typed (s : Settings) : Setting → String
  | .name => s.name
  | .host => s.host
  | .port => toString s.port
  | .keys => toString s.keys
  | .keyMode => s.keyMode.label
  | .values => commaList (s.values.map toString)
  | .clients => commaList (s.clients.map toString)
  | .ops => commaList (s.ops.map (·.name))
  | .duration => toString s.duration
  | .warmupSec => toString s.warmupSec
  | .out => s.out
  | .reportInterval => toString s.reportInterval

/-- An option in the help: the option on one line, and on the next what is said of it. -/
def helpEntry (option meaning : String) : String :=
  option ++ "\n          " ++ meaning ++ "\n"

def Setting.helpEntry (s : Setting) : String :=
  let standard := "[default: " ++ Settings.standard.typed s ++ "]"
  Command.helpEntry ("      " ++ s.usage)
    (match s.help? with
      | some text => text ++ " " ++ standard
      | none => standard)

def helpText : String :=
  "Throughput and tail-latency sweeps against a Redis-protocol key-value server\n\n"
    ++ usageLine "[OPTIONS]" ++ "\n\nOptions:\n"
    ++ String.join ((Setting.all.filter (· ≠ .reportInterval)).map (·.helpEntry))
    ++ helpEntry ("      --" ++ skipWord) ""
    ++ Setting.reportInterval.helpEntry
    ++ helpEntry "  -h, --help" "Print help"
    ++ helpEntry "  -V, --version" "Print version"

end LoadSweep.Command

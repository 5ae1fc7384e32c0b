import LoadSweep.Number.Fixed
import LoadSweep.Report.Row

/-!
# `LoadSweep/Report/Csv.lean` — rows as comma-separated records

A record is its fields joined by commas and ended by a line feed. A field that holds a comma, a
double quote or a line feed is enclosed in double quotes, and a quote inside it is written twice.
A lone carriage return is *not* a reason to quote: readers that end a record at it will see more
records than were written.

The columns are fixed: `header` names them and `Row.fields` fills them, fifteen of each.
-/

set_option autoImplicit false

namespace LoadSweep

open Number

namespace Csv

/-- Whether a field must be enclosed in quotes. -/
def needsQuotes (field : List Char) : Bool :=
  field.any fun c => c == ',' || c == '"' || c == '\n'

/-- A text with every double quote written twice. -/
def doubleQuotes : List Char → List Char
  | [] => []
  | c :: rest => if c = '"' then '"' :: '"' :: doubleQuotes rest else c :: doubleQuotes rest

def field (text : List Char) : List Char :=
  if needsQuotes text then '"' :: (doubleQuotes text ++ ['"']) else text

/-- A record as it is written, without its line feed. -/
def fields : List (List Char) → List Char
  | [] => []
  | [f] => field f
  | f :: rest => field f ++ ',' :: fields rest

def record (texts : List String) : String :=
  String.ofList (fields (texts.map String.toList) ++ ['\n'])

def columns : List String :=
  ["server", "host", "port", "op", "key_dist", "clients", "value_size", "seconds", "ops",
    "ops_per_sec", "ops_per_sec_per_client", "errors", "p50_us", "p95_us", "p99_us"]

def header : String := record columns

end Csv

/-- The fields of a row, by column. -/
def Row.fields (r : Row) : List String :=
  [r.target.name, r.target.host, toString r.target.port, r.operation.name, r.keyMode.label,
    toString r.clients, toString r.valueSize, toString r.duration.secs, toString r.totalOps,
    r.opsPerSec.toFixed 2, r.opsPerSecPerClient.toFixed 2, toString r.errors,
    r.p50.toFixed 3, r.p95.toFixed 3, r.p99.toFixed 3]

def Row.record (r : Row) : String := Csv.record r.fields

end LoadSweep

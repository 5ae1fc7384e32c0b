import LoadSweep.Number.Fixed
import LoadSweep.Report.Row
import LoadSweep.Text.Align

/-!
# `LoadSweep/Report/Summary.lean` — rows as a table on the terminal

One line of titles and one line per row. Numbers stand at the right end of their columns. The
name of the operation is written as it is, without being brought to the width of its column, so
the lines of the rows are shorter than the line of the titles by what the name falls short of it.
-/

set_option autoImplicit false

namespace LoadSweep.Summary

open Number Text

/-- The width of the column of operations. -/
def operationWidth : Nat := 5

/-- The widths of the columns of numbers. -/
def widths : List Nat := [8, 10, 14, 10, 10, 10]

/-- Texts at the right ends of their columns, a space before each. -/
def columns (texts : List String) : String :=
  String.join ((widths.zip texts).map fun (width, text) => " " ++ alignRight width text)

def titles : String :=
  alignLeft operationWidth "op"
    ++ columns ["clients", "value", "ops/sec", "p50 us", "p95 us", "p99 us"]

def line (r : Row) : String :=
  r.operation.name
    ++ columns [toString r.clients, toString r.valueSize, r.opsPerSec.toFixed 2,
      r.p50.toFixed 3, r.p95.toFixed 3, r.p99.toFixed 3]

/-- The table, with the blank line and the heading before it. -/
def text (rows : List Row) : String :=
  "\n=== Benchmark Summary ===\n" ++ titles ++ "\n"
    ++ String.join (rows.map fun r => line r ++ "\n")

end LoadSweep.Summary

/-!
# `LoadSweep/Text/Align.lean` — texts in columns

A column has a width in characters. A text that is wider keeps its whole length and pushes what
follows to the right: nothing is ever cut.
-/

set_option autoImplicit false

namespace LoadSweep.Text

/-- A text at the right end of a column of `width` characters. -/
def alignRight (width : Nat) (s : String) : String :=
  String.ofList (List.replicate (width - s.length) ' ') ++ s

/-- A text at the left end of a column of `width` characters. -/
def alignLeft (width : Nat) (s : String) : String :=
  s ++ String.ofList (List.replicate (width - s.length) ' ')

end LoadSweep.Text

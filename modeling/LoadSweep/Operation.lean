import LoadSweep.Text.Blank

/-!
# `LoadSweep/Operation.lean` — reading and writing cells

A cell of a sweep measures one kind of request. The two kinds start their random streams from
different base seeds, so that a reading cell and a writing cell of one sweep do not walk the
same keys.

What can be wrong with a configuration is `ConfigFault`. It stands here because a name that is
no operation is one of its cases; the other cases are found by `LoadSweep/Plan/Matrix.lean` and
`LoadSweep/Plan/Basic.lean`.
-/

set_option autoImplicit false

namespace LoadSweep

inductive Operation where
  | get
  | set
  deriving DecidableEq, Repr, Inhabited

/-- Why a configuration is refused. -/
inductive ConfigFault where
  | noKeys
  /-- A list that must have an entry has none. -/
  | emptyList (what : String)
  /-- A number that must be positive is zero. -/
  | zero (what : String)
  /-- The text, as it was given, names no operation. -/
  | unknownOperation (text : String)
  deriving DecidableEq, Repr

def ConfigFault.message : ConfigFault → String
  | .noKeys => "key count must be greater than 0"
  | .emptyList what => "at least one " ++ what ++ " is required"
  | .zero what => what ++ " must be greater than 0"
  | .unknownOperation text => "Unknown operation: " ++ text

namespace Operation

/-- The seed from which the seeds of a cell's workers are counted. -/
def baseSeed : Operation → Nat
  | .get => 0xC0FFEE
  | .set => 0xC0FFEE ^^^ 0x1234

def name : Operation → String
  | .get => "get"
  | .set => "set"

/-- Reads an operation by name. Blanks around the name and the case of ASCII letters do not
matter; what names none is reported as it was given. -/
def parse (s : String) : Except ConfigFault Operation :=
  let folded := Text.fold s
  if folded = "get" then .ok .get
  else if folded = "set" ∨ folded = "put" then .ok .set
  else .error (.unknownOperation s)

end Operation

end LoadSweep

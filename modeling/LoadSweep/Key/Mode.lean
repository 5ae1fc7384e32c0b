import LoadSweep.Text.Blank

/-!
# `LoadSweep/Key/Mode.lean` — how the keys of a run are numbered

There are two ways to number keys, and both are functions of the number of keys alone, so two
runs with the same settings write the same keys. The label of a mode is what result rows carry;
it does not say which modulus was used.

What can be wrong with a key space is one type, `KeyFault`, for parsing a mode and for building
the keys alike.
-/

set_option autoImplicit false

namespace LoadSweep

/-- How the keys are numbered. -/
inductive KeyMode where
  /-- The numbers from one up to the count. -/
  | sequential
  /-- The numbers from zero, each reduced by the modulus; past it the keys repeat. -/
  | decimal (modulus : Nat)
  deriving DecidableEq, Repr, Inhabited

/-- Why there is no key space. -/
inductive KeyFault where
  | empty
  | zeroModulus
  /-- The text, trimmed and lowered, names no mode. -/
  | unknownMode (folded : String)
  deriving DecidableEq, Repr

def KeyFault.message : KeyFault → String
  | .empty => "Invalid key count: count must be greater than 0"
  | .zeroModulus => "Invalid decimal modulus: modulus must be greater than 0"
  | .unknownMode folded => "Unknown key mode: " ++ folded

namespace KeyMode

/-- The modulus that is meant when none is given. -/
def defaultModulus : Nat := Nat.pow 2 31

/-- The mode that is meant when none is given. -/
def standard : KeyMode := .sequential

/-- The name written next to results. -/
def label : KeyMode → String
  | .sequential => "sequential"
  | .decimal _ => "decimal"

/-- Reads a mode by name. Blanks around the name and the case of ASCII letters do not matter,
and what does not name a mode is reported in the form in which it was compared. -/
def parse (s : String) : Except KeyFault KeyMode :=
  let name := Text.fold s
  if name = "sequential" ∨ name = "seq" then .ok .sequential
  else if name = "decimal" ∨ name = "masstree" then .ok (.decimal defaultModulus)
  else .error (.unknownMode name)

end KeyMode

end LoadSweep

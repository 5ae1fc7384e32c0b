/-!
# `LoadSweep/Command/Number.lean` — integers on the command line

An integer is an optional sign and ASCII digits, nothing around them and nothing between them.
What is wrong with a text is found from left to right, so a number that is already too large is
reported as that even if a stray character follows, and a stray character first if it comes
first. A minus sign is a sign only where negative numbers exist at all.
-/

set_option autoImplicit false

namespace LoadSweep.Command

/-- What is wrong with the text of an integer. -/
inductive NumberFault where
  | empty
  | invalidDigit
  | tooLarge
  | tooSmall
  deriving DecidableEq, Repr

def NumberFault.message : NumberFault → String
  | .empty => "cannot parse integer from empty string"
  | .invalidDigit => "invalid digit found in string"
  | .tooLarge => "number too large to fit in target type"
  | .tooSmall => "number too small to fit in target type"

/-- Reads digits after those that gave `n`; numbers above `top` are reported as `beyond`. -/
def readDigits (top : Nat) (beyond : NumberFault) : Nat → List Char → Except NumberFault Nat
  | n, [] => .ok n
  | n, c :: rest =>
    if !c.isDigit then .error .invalidDigit
    else
      let m := n * 10 + (c.toNat - '0'.toNat)
      if top < m then .error beyond else readDigits top beyond m rest

/-- Digits, at least one of them. -/
def readMagnitude (top : Nat) (beyond : NumberFault) (cs : List Char) : Except NumberFault Nat :=
  if cs = [] then .error .invalidDigit else readDigits top beyond 0 cs

/-- A number from 0 to 2⁶⁴ - 1. -/
def parseUnsigned (s : String) : Except NumberFault Nat :=
  let top := UInt64.size - 1
  match s.toList with
  | [] => .error .empty
  | '+' :: rest => readMagnitude top .tooLarge rest
  | cs => readMagnitude top .tooLarge cs

/-- A number from -2⁶³ to 2⁶³ - 1. -/
def parseSigned (s : String) : Except NumberFault Int :=
  match s.toList with
  | [] => .error .empty
  | '+' :: rest => (readMagnitude (Nat.pow 2 63 - 1) .tooLarge rest).map Int.ofNat
  | '-' :: rest => (readMagnitude (Nat.pow 2 63) .tooSmall rest).map fun n => -Int.ofNat n
  | cs => (readMagnitude (Nat.pow 2 63 - 1) .tooLarge cs).map Int.ofNat

/-- A number from 0 to `top`; outside, the message names the number and the range. -/
def parseRanged (top : Nat) (s : String) : Except String Nat :=
  match parseSigned s with
  | .error e => .error e.message
  | .ok n =>
    if 0 ≤ n ∧ n ≤ top then .ok n.toNat
    else .error (toString n ++ " is not in 0..=" ++ toString top)

end LoadSweep.Command

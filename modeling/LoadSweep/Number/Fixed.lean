import LoadSweep.Number.Double

/-!
# `LoadSweep/Number/Fixed.lean` — numbers as text with fixed decimal places

A double is printed by scaling its exact binary value by a power of ten and rounding once, so
the digits are those of the value itself and not of some shorter decimal near it. A half goes
to the even last digit. There is never an exponent; the sign of a negative zero, or of a value
that rounds to zero, is kept.
-/

set_option autoImplicit false

namespace LoadSweep.Number

/-- `n` written with at least `width` digits, filled with zeros from the left. -/
def padDigits (width n : Nat) : String :=
  let s := toString n
  String.ofList (List.replicate (width - s.length) '0') ++ s

/-- A count of `10^places`-ths in positional notation. -/
def placesText (places n : Nat) : String :=
  if places = 0 then toString n
  else toString (n / Nat.pow 10 places) ++ "." ++ padDigits places (n % Nat.pow 10 places)

/-- A value with `places` digits after the point. -/
def Double.toFixed (places : Nat) : Double → String
  | .nan => "NaN"
  | .infinite s => if s then "-inf" else "inf"
  | .finite s u =>
    (if s then "-" else "")
      ++ placesText places (roundHalfEven (u * Nat.pow 10 places) Double.unitsPerOne)

end LoadSweep.Number

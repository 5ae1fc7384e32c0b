/-!
# `LoadSweep/Number/Rounding.lean` — a quotient rounded to the nearest integer

Everything that is rounded in this library is rounded once, from an exact quotient of natural
numbers: a real number to binary64 (`LoadSweep/Number/Double.lean`), a binary64 value to a fixed
number of decimal places (`LoadSweep/Number/Fixed.lean`). Both go to the nearest, and a quotient
exactly between two integers goes to the even one. That is `roundHalfEven`, and the lemmas say
that it is the quotient cut off or one more, and keeps the order of what it rounds.
-/

set_option autoImplicit false

namespace LoadSweep.Number

/-- `num / den` rounded to the nearest integer, a half to the even neighbour. -/
def roundHalfEven (num den : Nat) : Nat :=
  let q := num / den
  let twice := 2 * (num % den)
  if twice < den then q
  else if den < twice then q + 1
  else q + q % 2

/-- The rounded quotient is never below the quotient rounded down. -/
theorem div_le_roundHalfEven (num den : Nat) : num / den ≤ roundHalfEven num den := by
  simp only [roundHalfEven]
  split
  · exact Nat.le_refl _
  · split <;> omega

/-- And never more than one above it. -/
theorem roundHalfEven_le (num den : Nat) : roundHalfEven num den ≤ num / den + 1 := by
  simp only [roundHalfEven]
  split
  · omega
  · split <;> omega

/-- Rounding keeps the order of two quotients of one denominator. -/
theorem roundHalfEven_mono {a b : Nat} (den : Nat) (h : a ≤ b) :
    roundHalfEven a den ≤ roundHalfEven b den := by
  have hq : a / den ≤ b / den := Nat.div_le_div_right h
  rcases Nat.eq_or_lt_of_le hq with same | above
  · have ha := Nat.div_add_mod a den
    have hb := Nat.div_add_mod b den
    rw [same] at ha
    have hr : a % den ≤ b % den := by omega
    simp only [roundHalfEven, same]
    grind
  · calc roundHalfEven a den ≤ a / den + 1 := roundHalfEven_le a den
      _ ≤ b / den := above
      _ ≤ roundHalfEven b den := div_le_roundHalfEven b den

end LoadSweep.Number

import LoadSweep.Number.Rounding

/-!
# `LoadSweep/Number/Double.lean` — IEEE binary64 by its values

Rates and latencies are doubles, and every digit of them is part of a result row. A finite
double is a whole number of **units** of 2⁻¹⁰⁷⁴, the least positive one, so a finite value is
stored as a sign and that number. Two facts make this the convenient form:

* the value of a finite double is exact in it, so "the correctly rounded result of an
  operation" is *rounding one exact quotient of naturals* (`nearest`) and nothing else;
* comparing, cutting to an integer and printing are operations on `Nat`.

Only what the reports need is here: conversion from integers, sum, product, quotient,
comparison, the integer part, and the 64-bit pattern in both directions.
-/

set_option autoImplicit false

namespace LoadSweep.Number

/-- A binary64 value. The payload of a NaN is not kept. -/
inductive Double where
  | nan
  | infinite (negative : Bool)
  /-- `units` times 2⁻¹⁰⁷⁴, with a sign that zero has too. -/
  | finite (negative : Bool) (units : Nat)
  deriving DecidableEq, Repr, Inhabited

namespace Double

/-- How many units one is: 2¹⁰⁷⁴. -/
def unitsPerOne : Nat := Nat.pow 2 1074

/-- The first number of units beyond the finite range: 2¹⁰²⁴ in units. -/
def limit : Nat := Nat.pow 2 2098

theorem unitsPerOne_pos : 0 < unitsPerOne := by decide +kernel

theorem limit_pos : 0 < limit := by decide +kernel

/-- The last binary place that survives when a quotient of whole part `q` is rounded to 53
significant bits; 0 for everything small enough to be exact or subnormal. -/
def lastPlace (q : Nat) : Nat := q.log2 - 52

/-- `num / den`, as a number of units, rounded to 53 significant bits. -/
def nearest (num den : Nat) : Nat :=
  let e := lastPlace (num / den)
  roundHalfEven num (den * Nat.pow 2 e) * Nat.pow 2 e

/-- The double nearest to `num / den` units; past the finite range it is an infinity. -/
def ofUnits (negative : Bool) (num den : Nat) : Double :=
  let u := nearest num den
  if u < limit then .finite negative u else .infinite negative

def ofFraction (num den : Nat) : Double := ofUnits false (num * unitsPerOne) den

def ofNat (n : Nat) : Double := ofFraction n 1

def zero : Double := .finite false 0

/-- Correctly rounded sum of two values of the same sign; opposite signs are subtracted, and
an exact zero difference is positive. -/
def add : Double → Double → Double
  | .nan, _ | _, .nan => .nan
  | .infinite s, .infinite t => if s = t then .infinite s else .nan
  | .infinite s, .finite .. => .infinite s
  | .finite .., .infinite t => .infinite t
  | .finite s a, .finite t b =>
    if s = t then ofUnits s (a + b) 1
    else if a = b then zero
    else if b < a then ofUnits s (a - b) 1
    else ofUnits t (b - a) 1

def mul : Double → Double → Double
  | .nan, _ | _, .nan => .nan
  | .infinite s, .infinite t => .infinite (s != t)
  | .infinite s, .finite t b => if b = 0 then .nan else .infinite (s != t)
  | .finite s a, .infinite t => if a = 0 then .nan else .infinite (s != t)
  | .finite s a, .finite t b => ofUnits (s != t) (a * b) unitsPerOne

def div : Double → Double → Double
  | .nan, _ | _, .nan => .nan
  | .infinite _, .infinite _ => .nan
  | .infinite s, .finite t _ => .infinite (s != t)
  | .finite s _, .infinite t => .finite (s != t) 0
  | .finite s a, .finite t b =>
    if b = 0 then (if a = 0 then .nan else .infinite (s != t))
    else ofUnits (s != t) (a * unitsPerOne) b

/-- Strict order. A NaN is below and above nothing, and the two zeros are equal. -/
def lt : Double → Double → Bool
  | .nan, _ | _, .nan => false
  | .infinite s, .infinite t => s && !t
  | .infinite s, .finite .. => s
  | .finite .., .infinite t => !t
  | .finite s a, .finite t b =>
    match s, t with
    | false, false => decide (a < b)
    | true, true => decide (b < a)
    | true, false => decide (0 < a + b)
    | false, true => false

/-- A value brought into `[lo, hi]`; a NaN stays. -/
def clamp (x lo hi : Double) : Double :=
  if x.lt lo then lo else if hi.lt x then hi else x

/-- The integer part, as a counter of `bits` bits holds it: nothing below zero, saturating at
the top, and 0 for a NaN. -/
def toCounter (bits : Nat) : Double → Nat
  | .nan => 0
  | .infinite s => if s then 0 else Nat.pow 2 bits - 1
  | .finite s u => if s then 0 else min (u / unitsPerOne) (Nat.pow 2 bits - 1)

/-! ## The 64-bit pattern

Eleven bits of exponent `e` and fifty-two of fraction `f`. Exponent 0 is `f` units; exponent
`e` from 1 to 2046 is `(2⁵² + f) · 2^(e-1)` units; exponent 2047 is an infinity or a NaN. -/

/-- The value of a pattern, given as a natural number below 2⁶⁴. -/
def ofBits (bits : Nat) : Double :=
  let negative := bits / Nat.pow 2 63 % 2 == 1
  let e := bits / Nat.pow 2 52 % Nat.pow 2 11
  let f := bits % Nat.pow 2 52
  if e = 2047 then (if f = 0 then .infinite negative else .nan)
  else if e = 0 then .finite negative f
  else .finite negative ((Nat.pow 2 52 + f) * Nat.pow 2 (e - 1))

/-- The pattern of a number of units. -/
def unitsToBits (u : Nat) : Nat :=
  if u < Nat.pow 2 52 then u
  else
    let e := lastPlace u
    (e + 1) * Nat.pow 2 52 + (u / Nat.pow 2 e - Nat.pow 2 52)

/-- The pattern of a value; a NaN is the quiet one without payload. -/
def toBits : Double → Nat
  | .nan => 2047 * Nat.pow 2 52 + Nat.pow 2 51
  | .infinite s => (if s then Nat.pow 2 63 else 0) + 2047 * Nat.pow 2 52
  | .finite s u => (if s then Nat.pow 2 63 else 0) + unitsToBits u

end Double

end LoadSweep.Number

import LoadSweep.Number.Fixed

/-!
# `LoadSweep/Duration.lean` — lengths of time

A duration is a whole number of nanoseconds. There are two ways to use one, and the difference
between them is kept here: a *wait* ends on a whole millisecond and is rounded up to it (`wait`),
while a *deadline* is compared as it is, to the nanosecond, and never rounded.

`toText` is the short form of the log lines: the largest unit that is not zero, and the fraction
without trailing zeros.
-/

set_option autoImplicit false

namespace LoadSweep

open Number

structure Duration where
  nanos : Nat
  deriving DecidableEq, Repr, Inhabited

namespace Duration

def nanosPerSec : Nat := 1000000000

def nanosPerMilli : Nat := 1000000

def ofSecs (n : Nat) : Duration := ⟨n * nanosPerSec⟩

def ofMillis (n : Nat) : Duration := ⟨n * nanosPerMilli⟩

def secs (d : Duration) : Nat := d.nanos / nanosPerSec

def subsecNanos (d : Duration) : Nat := d.nanos % nanosPerSec

def isZero (d : Duration) : Bool := d.nanos == 0

/-- The nanoseconds after which a wait of this length is over: the whole milliseconds, rounded
up. -/
def wait (d : Duration) : Nat := (d.nanos + (nanosPerMilli - 1)) / nanosPerMilli * nanosPerMilli

/-- A wait is never shorter than the duration … -/
theorem nanos_le_wait (d : Duration) : d.nanos ≤ d.wait := by
  simp only [wait, nanosPerMilli]; omega

/-- Seconds as a double: the whole seconds and the rest are converted apart and added. -/
def asSecs (d : Duration) : Double :=
  (Double.ofNat d.secs).add ((Double.ofNat d.subsecNanos).div (Double.ofNat nanosPerSec))

/-- The digits of a fraction of `10^places`-ths without the zeros at their end. -/
def fractionDigits (places n : Nat) : List Char :=
  ((padDigits places n).toList.reverse.dropWhile (· == '0')).reverse

/-- `whole` and `part` `10^places`-ths, the point left out when nothing follows it. -/
def unitText (whole places part : Nat) (unit : String) : String :=
  if part = 0 then toString whole ++ unit
  else toString whole ++ "." ++ String.ofList (fractionDigits places part) ++ unit

/-- The short form, in the largest unit that is not zero. -/
def toText (d : Duration) : String :=
  let n := d.nanos
  if nanosPerSec ≤ n then unitText d.secs 9 d.subsecNanos "s"
  else if nanosPerMilli ≤ n then unitText (n / nanosPerMilli) 6 (n % nanosPerMilli) "ms"
  else if 1000 ≤ n then unitText (n / 1000) 3 (n % 1000) "µs"
  else unitText n 0 0 "ns"

end Duration

end LoadSweep

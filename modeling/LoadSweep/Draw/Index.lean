import LoadSweep.Draw.Words

/-!
# `LoadSweep/Draw/Index.lean` — positions drawn evenly

To draw one of `n` positions, a word `v` of 64 bits is multiplied by `n`; the high half of the
product is a position. Some words would favour some positions, and these are passed over: they
are the ones whose low half lies beyond the largest multiple of `n` of the form `n · 2ᵏ` that
fits. At least half of all words are taken, so a draw reads two words on average at worst.

A drawn position is below `n` whatever the word was (`draw_lt`); evenness is all that the passing
over is for, and nothing depends on how many words it costs. It therefore stops after `patience`
words and takes the last one as it is.
-/

set_option autoImplicit false

namespace LoadSweep.Draw

def wordSpan : Nat := UInt64.size

/-- Low halves up to this one are taken. -/
def zone (n : Nat) : Nat := n * Nat.pow 2 (63 - n.log2) - 1

def positionOf (n v : Nat) : Nat := v % wordSpan * n / wordSpan

theorem positionOf_lt {n : Nat} (h : 0 < n) (v : Nat) : positionOf n v < n := by
  unfold positionOf
  have hv : v % wordSpan < wordSpan := Nat.mod_lt _ (by decide)
  rw [Nat.div_lt_iff_lt_mul (by decide), Nat.mul_comm n]
  exact Nat.mul_lt_mul_of_pos_right hv h

/-- How many words a draw looks at before it takes one as it is. -/
def patience : Nat := 4096

/-- Reads words until one is taken, `fuel` of them at most being passed over. -/
def drawWithin : Nat → Nat → Stream → Nat × Stream
  | 0, n, s =>
    let (v, s) := s.next
    (positionOf n v, s)
  | fuel + 1, n, s =>
    let (v, s) := s.next
    if v * n % wordSpan ≤ zone n then (positionOf n v, s) else drawWithin fuel n s

/-- Draws one of the positions below `n`. -/
def draw (n : Nat) (s : Stream) : Nat × Stream := drawWithin patience n s

theorem drawWithin_lt {n : Nat} (h : 0 < n) (fuel : Nat) (s : Stream) :
    (drawWithin fuel n s).1 < n := by
  induction fuel generalizing s with
  | zero => exact positionOf_lt h _
  | succ fuel ih =>
    simp only [drawWithin]
    split
    · exact positionOf_lt h _
    · exact ih _

/-- A drawn position is one of the positions. -/
theorem draw_lt {n : Nat} (h : 0 < n) (s : Stream) : (draw n s).1 < n :=
  drawWithin_lt h _ s

end LoadSweep.Draw

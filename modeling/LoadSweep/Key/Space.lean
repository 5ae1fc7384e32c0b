import LoadSweep.Key.Mode
import LoadSweep.Number.Total
import Std.Data.TreeSet.Basic

/-!
# `LoadSweep/Key/Space.lean` — the keys of a run

A key space is the ordered list of the keys that a run may touch, built once and only read
afterwards. It is never empty: `build` refuses a count of zero, and the proof is a field, so
that drawing a position from a key space needs no case of its own.
-/

set_option autoImplicit false

namespace LoadSweep

/-- What every key begins with. -/
def keyHead : String := "key:"

/-- The key of a number. -/
def keyText (n : Nat) : String := keyHead ++ toString n

/-- The keys of a run, in order, and the mode that numbered them. -/
structure KeySpace where
  keys : Array String
  mode : KeyMode
  keys_pos : 0 < keys.size
  deriving DecidableEq

namespace KeySpace

/-- The number of the key at position `i`. -/
def numberAt : KeyMode → Nat → Nat
  | .sequential, i => i + 1
  | .decimal modulus, i => i % modulus

/-- The keys at the positions below `count`. -/
def keysOf (count : Nat) (mode : KeyMode) : Array String :=
  (Array.range count).map fun i => keyText (numberAt mode i)

theorem size_keysOf (count : Nat) (mode : KeyMode) : (keysOf count mode).size = count := by
  simp [keysOf]

/-- Builds the keys. A count of zero is reported before a modulus of zero. -/
def build (count : Nat) (mode : KeyMode) : Except KeyFault KeySpace :=
  if h : count = 0 then .error .empty
  else if mode = .decimal 0 then .error .zeroModulus
  else .ok
    { keys := keysOf count mode
      mode := mode
      keys_pos := by rw [size_keysOf]; omega }

def size (k : KeySpace) : Nat := k.keys.size

def isEmpty (k : KeySpace) : Bool := k.keys.isEmpty

/-- How many different keys there are. -/
def distinct (k : KeySpace) : Nat :=
  (k.keys.foldl (fun seen key => seen.insert key) (∅ : Std.TreeSet String)).size

/-- How many bytes the keys have together. -/
def byteSize (k : KeySpace) : Nat := Number.total (k.keys.toList.map (·.utf8ByteSize))

/-- The key at a position, if the position is one. -/
def key? (k : KeySpace) (i : Nat) : Option String := k.keys[i]?

end KeySpace

end LoadSweep

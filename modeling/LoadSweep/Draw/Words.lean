/-!
# `LoadSweep/Draw/Words.lean` — a reproducible stream of 64-bit words

A seed of 64 bits fixes a stream of words once and for all, on every machine. The seed is
stretched to a 256-bit key by a small congruential generator with a permuted output, and the key
runs the ChaCha block function with twelve rounds, a zero nonce, and the block number as
counter. Each block gives eight words, the low half of a word before the high half.

`Stream` keeps the words of the current block that are still unread; `Stream.next` reads one.
-/

set_option autoImplicit false

namespace LoadSweep.Draw

/-! ## From a seed to a key -/

/-- One step of the congruential generator. -/
def stretchStep (s : UInt64) : UInt64 := s * 6364136223846793005 + 11634580027462260723

/-- A word turned right by `n` places. -/
def rotateRight (x : UInt32) (n : UInt32) : UInt32 :=
  if n % 32 = 0 then x else (x >>> (n % 32)) ||| (x <<< (32 - n % 32))

/-- A word turned left by `n` places. -/
def rotateLeft (x : UInt32) (n : UInt32) : UInt32 := rotateRight x (32 - n)

/-- The output for a state: its high bits folded down and turned by its five highest bits. -/
def stretchOutput (s : UInt64) : UInt32 :=
  rotateRight (((s >>> 18) ^^^ s) >>> 27).toUInt32 (s >>> 59).toUInt32

/-- The next `n` outputs after a state. -/
def stretch : Nat → UInt64 → List UInt32
  | 0, _ => []
  | n + 1, s =>
    let s := stretchStep s
    stretchOutput s :: stretch n s

/-! ## The block function -/

/-- The sixteen words the block function works on. -/
abbrev Grid := Vector UInt32 16

/-- One quarter round, on the words at four positions. -/
def quarter (g : Grid) (a b c d : Fin 16) : Grid :=
  let g := g.set a (g[a] + g[b])
  let g := g.set d (rotateLeft (g[d] ^^^ g[a]) 16)
  let g := g.set c (g[c] + g[d])
  let g := g.set b (rotateLeft (g[b] ^^^ g[c]) 12)
  let g := g.set a (g[a] + g[b])
  let g := g.set d (rotateLeft (g[d] ^^^ g[a]) 8)
  let g := g.set c (g[c] + g[d])
  g.set b (rotateLeft (g[b] ^^^ g[c]) 7)

/-- Two rounds: the four columns, then the four diagonals. -/
def doubleRound (g : Grid) : Grid :=
  let g := quarter g 0 4 8 12
  let g := quarter g 1 5 9 13
  let g := quarter g 2 6 10 14
  let g := quarter g 3 7 11 15
  let g := quarter g 0 5 10 15
  let g := quarter g 1 6 11 12
  let g := quarter g 2 7 8 13
  quarter g 3 4 9 14

/-- The grid before the rounds: four constants, the key, the block number and a zero nonce. -/
def startGrid (key : List UInt32) (block : Nat) : Grid :=
  let k (i : Nat) : UInt32 := key.getD i 0
  #v[0x61707865, 0x3320646e, 0x79622d32, 0x6b206574,
    k 0, k 1, k 2, k 3, k 4, k 5, k 6, k 7,
    UInt32.ofNat (block % UInt32.size), UInt32.ofNat (block / UInt32.size % UInt32.size), 0, 0]

/-- The sixteen output words of a block. -/
def blockGrid (key : List UInt32) (block : Nat) : Grid :=
  let start := startGrid key block
  let mixed := Nat.repeat doubleRound 6 start
  Vector.zipWith (· + ·) start mixed

/-- Neighbouring words joined in pairs, the low half first. -/
def joinPairs : List UInt32 → List Nat
  | low :: high :: rest => (low.toNat + high.toNat * UInt32.size) :: joinPairs rest
  | _ => []

def blockWords (key : List UInt32) (block : Nat) : List Nat :=
  joinPairs (blockGrid key block).toList

/-! ## The stream -/

/-- A position in the stream of a key. -/
structure Stream where
  key : List UInt32
  /-- The block that is read next. -/
  block : Nat
  /-- The unread words of the block before it. -/
  unread : List Nat
  deriving DecidableEq, Repr

def Stream.ofSeed (seed : Nat) : Stream :=
  { key := stretch 8 (UInt64.ofNat seed), block := 0, unread := [] }

def Stream.next (s : Stream) : Nat × Stream :=
  match s.unread with
  | w :: rest => (w, { s with unread := rest })
  | [] =>
    match blockWords s.key s.block with
    | w :: rest => (w, { s with block := s.block + 1, unread := rest })
    | [] => (0, { s with block := s.block + 1 })

end LoadSweep.Draw

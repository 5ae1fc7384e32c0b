import LoadSweep.Command.Help
import LoadSweep.Number.Double

/-!
# `LoadSweep/Command/Fault.lean` — what is wrong with a command line

A command line is read until its first fault. Asking for help or for the version ends the reading
too and is told apart from the faults only by what is printed, and where. Of an option that is
unknown the most similar known one is suggested, if one is similar enough.
-/

set_option autoImplicit false

namespace LoadSweep.Command

open Number

/-- Why a command line was not read to its end. -/
inductive UsageFault where
  | help
  | version
  /-- No such option, or a word that no option asked for. `used` are the options before it, and
  `similar` an option that may have been meant, both as messages name options. -/
  | unknownArgument (argument : String) (used : List String) (similar : Option String)
  /-- An option that may stand once was repeated. -/
  | repeated (argument : String)
  | valueMissing (argument : String)
  | badValue (argument value message : String)
  /-- A value for an option that takes none. `used` are the options before it. -/
  | valueUnasked (argument value : String) (used : List String)
  deriving DecidableEq, Repr

/-! ## Similar words -/

/-- Pairs the characters of `a` with equal ones of `b` not farther away than `reach`, each used
once. `i` is the position of the first of `a`; the characters of `b` carry their positions, and
the result is what was paired of `a` and of `b`. -/
def pairUp (reach : Nat) : Nat → List Char → List (Nat × Char) → List Char × List (Nat × Char)
  | _, [], _ => ([], [])
  | i, c :: a, b =>
    match b.find? fun (j, d) => d == c && decide (i ≤ j + reach) && decide (j ≤ i + reach) with
    | some p =>
      let (cs, ps) := pairUp reach (i + 1) a (b.filter (· ≠ p))
      (c :: cs, p :: ps)
    | none => pairUp reach (i + 1) a b

/-- How similar two words are, from zero to one: the mean of the share of characters of each word
that have a partner in the other, and of the share of partners in the same order. -/
def similarity (a b : String) : Double :=
  let m := a.length
  let n := b.length
  let (cs, ps) := pairUp (max m n / 2 - 1) 0 a.toList (b.toList.mapIdx fun j d => (j, d))
  let ds := (ps.mergeSort fun p q => decide (p.1 ≤ q.1)).map (·.2)
  let moved := ((cs.zip ds).filter fun (c, d) => c ≠ d).length / 2
  let share (part whole : Nat) : Double := (Double.ofNat part).div (.ofNat whole)
  let paired := cs.length
  if paired = 0 then .zero
  else (((share paired m).add (share paired n)).add (share (paired - moved) paired)).div (.ofNat 3)

/-- Words that are more similar than this may have been meant. -/
def similarEnough : Double := .ofFraction 7 10

/-- The most similar of some words, if one is similar enough; the last of equals. -/
def mostSimilar (word : String) (known : List String) : Option String :=
  let close := known.filter fun k => similarEnough.lt (similarity word k)
  close.foldl (fun best k =>
    match best with
    | none => some k
    | some b => if (similarity word k).lt (similarity word b) then best else some k) none

/-- The words of all options, in the order of the help. -/
def knownWords : List String :=
  (Setting.all.filter (· ≠ .reportInterval)).map (·.word)
    ++ [skipWord, Setting.reportInterval.word, "help", "version"]

/-- An option as messages name it. -/
def usageOfWord (word : String) : String :=
  match Setting.ofWord? word with
  | some s => s.usage
  | none => "--" ++ word

/-! ## Texts -/

namespace UsageFault

/-- Adds an option to those that were used, unless it is one of them. -/
def including (used : List String) (option : String) : List String :=
  if option ∈ used then used else used ++ [option]

/-- How the program is called with the options that were used. -/
def usageOf (used : List String) : String :=
  usageLine (if used = [] then "[OPTIONS]" else String.intercalate " " used)

/-- What is wrong, and what helps. -/
def detail : UsageFault → String
  | .help | .version => ""
  | .unknownArgument argument used similar =>
    "unexpected argument '" ++ argument ++ "' found\n\n"
      ++ (match similar with
        | some word => "  tip: a similar argument exists: '--" ++ word ++ "'\n\n"
        | none => "")
      ++ usageOf (similar.elim used fun word => including used (usageOfWord word))
  | .repeated argument =>
    "the argument '" ++ argument ++ "' cannot be used multiple times\n\n" ++ usageOf []
  | .valueMissing argument =>
    "a value is required for '" ++ argument ++ "' but none was supplied"
  | .badValue argument value message =>
    "invalid value '" ++ value ++ "' for '" ++ argument ++ "': " ++ message
  | .valueUnasked argument value used =>
    "unexpected value '" ++ value ++ "' for '" ++ argument
      ++ "' found; no more were expected\n\n" ++ usageOf (including used argument)

def text : UsageFault → String
  | .help => helpText
  | .version => versionText
  | f => "error: " ++ f.detail ++ "\n\nFor more information, try '--help'.\n"

end UsageFault

end LoadSweep.Command

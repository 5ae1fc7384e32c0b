/-!
# `LoadSweep/Text/Blank.lean` — blank characters and ASCII case

Names typed by a person are compared after two clean-ups: blanks are cut off at both ends, and
the twenty-six ASCII capitals are lowered. The two use different alphabets on purpose. A blank
is any character with the Unicode property `White_Space`, so a pasted no-break space does no
harm; a capital is ASCII only, so no letter outside ASCII ever turns into an accepted name.

`isBlank` is the whole property, written as its ten ranges, and `trim` works on lists of
characters, where "cut at both ends" is two uses of `List.dropWhile`.
-/

set_option autoImplicit false

namespace LoadSweep.Text

/-- The characters with the Unicode property `White_Space`. -/
def isBlank (c : Char) : Bool :=
  let n := c.toNat
  (9 ≤ n && n ≤ 13) || n == 0x20 || n == 0x85 || n == 0xA0 || n == 0x1680
    || (0x2000 ≤ n && n ≤ 0x200A) || n == 0x2028 || n == 0x2029 || n == 0x202F
    || n == 0x205F || n == 0x3000

def trimChars (cs : List Char) : List Char :=
  ((cs.dropWhile isBlank).reverse.dropWhile isBlank).reverse

def trim (s : String) : String :=
  String.ofList (trimChars s.toList)

/-- One ASCII capital lowered; every other character is kept. -/
def lowerChar (c : Char) : Char :=
  if 'A' ≤ c ∧ c ≤ 'Z' then Char.ofNat (c.toNat + 32) else c

/-- The ASCII capitals of a text lowered. -/
def lower (s : String) : String :=
  String.ofList (s.toList.map lowerChar)

/-- The form in which typed names are compared. -/
def fold (s : String) : String :=
  lower (trim s)

end LoadSweep.Text

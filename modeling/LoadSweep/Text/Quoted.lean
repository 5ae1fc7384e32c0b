/-!
# `LoadSweep/Text/Quoted.lean` — texts in double quotes

The detailed form of an error shows texts in double quotes. A quote and a backslash inside are
preceded by a backslash; tab, line feed, carriage return and NUL have letters of their own; any
other control character is shown by its number in hexadecimal. Everything else stands for itself.
-/

set_option autoImplicit false

namespace LoadSweep.Text

/-- Whether a character is a control character. -/
def isControl (c : Char) : Bool :=
  c.toNat < 0x20 || (0x7F ≤ c.toNat && c.toNat < 0xA0)

/-- A character as it is shown between quotes. -/
def quoteChar (c : Char) : String :=
  match c with
  | '"' => "\\\""
  | '\\' => "\\\\"
  | '\t' => "\\t"
  | '\n' => "\\n"
  | '\r' => "\\r"
  | '\x00' => "\\0"
  | c =>
    if isControl c then
      "\\u\x7b" ++ String.ofList (Nat.toDigits 16 c.toNat) ++ "\x7d"
    else String.ofList [c]

def quote (s : String) : String :=
  "\"" ++ String.join (s.toList.map quoteChar) ++ "\""

end LoadSweep.Text

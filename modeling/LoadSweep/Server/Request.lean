import LoadSweep.Server.Script
import LoadSweep.Server.Wire

/-!
# `LoadSweep/Server/Request.lean` — what callers ask for

A caller thinks of a request as a key, and of a value as a length and a character that fills it.
On the wire both are bytes (`Request.command`), and what comes back there is an answer again
(`Wire.Outcome.answer`): a failure that costs the connection, or one that does not.
-/

set_option autoImplicit false

namespace LoadSweep

/-- A request on a connection. -/
inductive Request where
  | ping
  | get (key : String)
  /-- Writes a value of `size` equal characters. -/
  | set (key : String) (size : Nat) (fill : Char)
  deriving DecidableEq, Repr

/-- A request as a short text: the key, and of a value its length and what it consists of. -/
def Request.text : Request → String
  | .ping => "PING"
  | .get key => "GET " ++ key
  | .set key size fill =>
    "SET " ++ key ++ " " ++ toString size ++ "x"
      ++ if size = 0 then "" else String.ofList [fill]

def Request.command : Request → Wire.Command
  | .ping => .ping
  | .get key => .get key.toUTF8.toList
  | .set key size fill =>
    .set key.toUTF8.toList (List.replicate size (UInt8.ofNat fill.toNat))

/-- What an outcome on the wire means to a caller. -/
def Wire.Outcome.answer : Wire.Outcome → Answer
  | .ok | .miss => .done none
  | .value bytes => .done (some ((String.fromUTF8? bytes.toByteArray).getD ""))
  | .failed disconnect => .failed (.wire (if disconnect then .hungUp else .signalled))

end LoadSweep

/-!
# `LoadSweep/Target.lean` — the server under test

A target has a name, which labels rows, and an address. Only the address is printed when a
target is mentioned in a message.
-/

set_option autoImplicit false

namespace LoadSweep

structure Target where
  name : String
  host : String
  port : Nat
  deriving DecidableEq, Repr, Inhabited

def Target.address (t : Target) : String := t.host ++ ":" ++ toString t.port

end LoadSweep

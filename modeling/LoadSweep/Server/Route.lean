import LoadSweep.Server.Script

/-!
# `LoadSweep/Server/Route.lean` — servers at the end of a route

Between a caller and a server there is a route, and without one every attempt fails alike, the
same way each time and in no time. `Route.script` puts a route before a server.

`Station` is a server that is described by a few numbers: what it answers to a ping, which of the
writes of a preload it refuses, and how many further requests a connection gets before it is
closed.
-/

set_option autoImplicit false

namespace LoadSweep

/-- Whether there is a way to the server. -/
inductive Route where
  | clear
  | unreachable
  deriving DecidableEq, Repr

/-- A server as it is seen at the end of a route. -/
def Route.script (r : Route) (server : Nat → Script) (caller : Nat) : Script :=
  match r with
  | .clear => server caller
  | .unreachable =>
    { server caller with attempt := fun _ => ⟨false, ⟨0⟩, .refused (.wire .unreachable)⟩ }

/-- What a station answers to a ping. -/
inductive PingAnswer where
  | pong
  | error
  | close
  deriving DecidableEq, Repr

/-- A server described by a few numbers. -/
structure Station where
  ping : PingAnswer
  /-- The preload write that is refused, counted from one; zero refuses none. -/
  setErrorAt : Nat
  /-- How many other requests a connection gets answered before it is closed. -/
  opsPerConnection : Nat
  /-- Every so many requests one is refused; zero refuses none. -/
  errorEvery : Nat
  deriving DecidableEq, Repr

namespace Station

/-- The failure of a request that the station refuses. -/
def refusal : Answer := .failed (.wire .signalled)

/-- The failure of a request on a connection that the station closes. -/
def closing : Answer := .failed (.wire .hungUp)

/-- How the station treats the caller that writes all keys. -/
def preloadReply (s : Station) (j : Nat) : Reply :=
  ⟨.ofMillis 1, false, if j + 1 = s.setErrorAt then refusal else .done none⟩

/-- How it treats everybody else's requests. -/
def reply (s : Station) (j : Nat) : Reply :=
  let m := j + 1
  ⟨.ofMillis 1, false,
    if s.opsPerConnection < m then closing
    else if s.errorEvery ≠ 0 ∧ m % s.errorEvery = 0 then refusal
    else .done none⟩

/-- The station's script for a caller, `loader` being the one that writes all keys. -/
def script (s : Station) (loader : Option Nat) (caller : Nat) : Script :=
  { attempt := fun _ => .plain
    ping := ⟨⟨0⟩, false,
      match s.ping with
      | .pong => .done none
      | .error => refusal
      | .close => closing⟩
    reply := if loader = some caller then s.preloadReply else s.reply }

end Station

end LoadSweep

import LoadSweep.Duration
import LoadSweep.Number.Total
import LoadSweep.Server.Fault

/-!
# `LoadSweep/Server/Script.lean` — how a server behaves towards one caller

A caller meets the server in two ways: it tries to connect, and it sends requests. A **script**
says, for every attempt and every request, how long it takes, how it ends, and whether the run is
interrupted on the way. Scripts are functions of the attempt's or request's number, so a statement
about all scripts is a statement about all servers; `Script.ofLists` makes one from finite lists.

No end is waited for longer than thirty years (`Duration.longestWait`). A script may ask for more;
what counts is the time that is left of it (`Attempt.takes`, `Reply.takes`), and so the nanoseconds
of a request always fit into 64 bits.

The instant of an interrupt differs on purpose: an attempt interrupts the run when it *starts*,
a request when its answer *arrives*.
-/

set_option autoImplicit false

namespace LoadSweep

inductive AttemptEnd where
  | accepted
  | refused (fault : ClientFault)
  /-- It never ends by itself. -/
  | hangs
  /-- It kills the caller. -/
  | dies
  deriving DecidableEq, Repr

structure Attempt where
  /-- Whether the run is interrupted when the attempt starts. -/
  cancels : Bool
  /-- The time that the server means to let pass from the start to the end. -/
  time : Duration
  ends : AttemptEnd
  deriving DecidableEq, Repr

/-- What comes back for a request. -/
inductive Answer where
  /-- Success; a read may bring a value. -/
  | done (value : Option String)
  | failed (fault : ClientFault)
  /-- It kills the caller. -/
  | dies
  deriving DecidableEq, Repr

/-- One request as the server treats it. -/
structure Reply where
  /-- The time that the server means to let pass from the request to the answer. -/
  time : Duration
  /-- Whether the run is interrupted when the answer arrives. -/
  cancels : Bool
  answer : Answer
  deriving DecidableEq, Repr

/-- The server's behaviour towards one caller. Attempts and requests are numbered from zero;
pings are not counted among the requests. -/
structure Script where
  attempt : Nat → Attempt
  ping : Reply
  reply : Nat → Reply

namespace Duration

/-- Nobody waits longer for a server than this. -/
def longestWait : Duration := .ofSecs (30 * 365 * 24 * 60 * 60)

/-- The duration, or the longest wait if that is shorter. -/
def waited (d : Duration) : Duration := ⟨min d.nanos longestWait.nanos⟩

theorem waited_le (d : Duration) : d.waited.nanos ≤ longestWait.nanos := Nat.min_le_right _ _

end Duration

namespace Attempt

/-- The time from the start to the end. -/
def takes (a : Attempt) : Duration := a.time.waited

/-- An attempt that succeeds at once. -/
def plain : Attempt := ⟨false, ⟨0⟩, .accepted⟩

end Attempt

namespace Reply

/-- The time from the request to the answer. -/
def takes (r : Reply) : Duration := r.time.waited

/-- A success after some time. -/
def plain (time : Duration) : Reply := ⟨time, false, .done none⟩

/-- The entry at a place of a list in which every reply stands as often as its number says. -/
def atPlace : List (Nat × Reply) → Nat → Option Reply
  | [], _ => none
  | (n, r) :: rest, i => if i < n then some r else atPlace rest (i - n)

end Reply

/-- What follows the end of a list of replies. -/
inductive AfterLast where
  | startOver
  | repeatLast
  deriving DecidableEq, Repr

/-- The script of finite lists: `attempts` and then `rest` for ever, `replies` (each as often as
its number says) and then what `after` says. An empty list of replies answers every request with
success after a millisecond. -/
def Script.ofLists (attempts : List Attempt) (rest : Attempt) (ping : Reply)
    (replies : List (Nat × Reply)) (after : AfterLast) : Script :=
  let size := Number.total (replies.map (·.1))
  { attempt := fun k => attempts.getD k rest
    ping := ping
    reply := fun j =>
      let place := match after with
        | .startOver => j % size
        | .repeatLast => min j (size - 1)
      (Reply.atPlace replies place).getD (.plain (.ofMillis 1)) }

/-- A server that accepts every caller and answers every request. -/
def Script.plain : Script :=
  { attempt := fun _ => .plain, ping := .plain ⟨0⟩, reply := fun _ => .plain (.ofMillis 1) }

end LoadSweep

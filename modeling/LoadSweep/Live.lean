import LoadSweep.Harness.Run
import Std.Async.DNS
import Std.Async.TCP
import Std.Async.Timer

/-!
# `LoadSweep/Live.lean` — crews against a live server

A scene answers two questions of the machine in `LoadSweep/Harness/Crew.lean`: how does an attempt
to connect end, and what comes back for a request. Here a server at the end of a socket answers
them. A caller acts as it does in a scene; whenever an act has started an attempt or sent a
request, it is carried out, and what really happened, and how long it took, is put into the
caller's stage (`Live.carryOut`). Every decision stays with the machine: when to try again, when
to give up, when to stop.

Callers run in threads of their own and are waited for twice, before the gate opens and at the
end.
-/

set_option autoImplicit false

namespace LoadSweep

open Std.Async

/-! ## Connections -/

/-- A connection, and the bytes that came and were not read yet. -/
structure Line where
  socket : TCP.Socket.Client
  unread : List UInt8

namespace Line

/-- The addresses of a target's host. -/
def addresses (target : Target) : Async (Array Std.Net.IPAddr) :=
  match Std.Net.IPv4Addr.ofString target.host with
  | some address => return #[.v4 address]
  | none => DNS.getAddrInfo target.host (toString target.port)

/-- Connects to the first address of a target's host. -/
def connect (target : Target) : Async Line := do
  let port := UInt16.ofNat target.port
  let found ← addresses target
  let socket ← TCP.Socket.Client.mk
  match found.toList.head? with
  | some (.v4 addr) => socket.connect (.v4 { addr, port })
  | some (.v6 addr) => socket.connect (.v6 { addr, port })
  | none => throw (IO.userError "the host has no address")
  socket.noDelay
  return { socket, unread := [] }

/-- Reads the next reply; there is none when the connection is of no further use. -/
partial def receive (l : Line) : Async (Option (Wire.Value × Line)) := do
  match Wire.Value.read (l.unread.length + 1) l.unread with
  | .whole value rest => return some (value, { l with unread := rest })
  | .malformed => return none
  | .needsMore =>
    match ← l.socket.recv? 65536 with
    | some bytes => receive { l with unread := l.unread ++ bytes.toList }
    | none => return none

/-- Sends a request and waits for what comes back. -/
def ask (l : Line) (request : Request) : Async (Answer × Line) := do
  l.socket.send request.command.bytes.toByteArray
  match ← l.receive with
  | some (value, l) => return ((request.command.take value).answer, l)
  | none => return ((Wire.Outcome.failed true).answer, l)

end Line

/-- A failure of the transport, by its text. -/
def transportFault (e : IO.Error) : ClientFault :=
  .wire (.transport (.other "Io") (toString e))

/-! ## Callers -/

/-- A live server, and what callers that approach it share. -/
structure Live where
  target : Target
  policy : Policy
  /-- The reading of the machine's clock at the beginning. -/
  origin : Nat
  /-- Whether the run was interrupted. -/
  interrupted : IO.Ref Bool

namespace Live

variable {σ : Type}

def now (live : Live) : IO Nat := return (← IO.monoNanosNow) - live.origin

/-- The scene in which callers act; its answers are replaced by what really happens. -/
def scene (live : Live) : Scene := { policy := live.policy, script := fun _ => .plain }

/-- Tries to connect for as long as an attempt may take. -/
def attempt (live : Live) : IO (AttemptEnd × Option Line) := do
  let limit := Std.Time.Millisecond.Offset.ofNat
    (live.policy.timeout.wait / Duration.nanosPerMilli)
  let connecting : Async (Option Line) := some <$> Line.connect live.target
  let waiting : Async (Option Line) := do
    sleep limit
    return none
  try
    match ← (Async.race connecting waiting).block with
    | some line => return (.accepted, some line)
    | none => return (.hangs, none)
  catch e => return (.refused (transportFault e), none)

/-- Sends a request over a connection. -/
def ask (line : Option Line) (request : Request) : IO (Answer × Option Line) := do
  match line with
  | none => return ((Wire.Outcome.failed true).answer, none)
  | some line =>
    try
      let (answer, line) ← (line.ask request).block
      return (answer, some line)
    catch e => return (.failed (transportFault e), none)

/-- Carries out what a caller's act has begun. -/
def carryOut (live : Live) (w : World) (c : Caller σ) (line : Option Line) :
    IO (Caller σ × Option Line) := do
  match c.stage, w.history with
  | .attempting .., _ =>
    let (ends, line) ← live.attempt
    let attempt : Attempt := { cancels := false, time := ⟨(← live.now) - w.now⟩, ends }
    let (takes, verdict) := attempt.within live.policy.timeout
    return ({ c with stage := .attempting (w.now + takes) verdict }, line)
  | .talking state sent _ _, ⟨_, .asked _ request⟩ :: _ =>
    let (answer, line) ← ask line request
    let now ← live.now
    let reply : Reply := { time := ⟨now - sent⟩, cancels := false, answer }
    return ({ c with stage := .talking state sent now reply }, line)
  | _, _ => return (c, line)

/-- Lets a caller act until it stands at a shut gate or has ended. -/
partial def pursue (live : Live) (job : Job σ) (gate : Gate) (index : Nat) (w : World)
    (c : Caller σ) (line : Option Line) : IO (Caller σ × Option Line) := do
  let w := { w with now := ← live.now, history := [] }
  let w := if ← live.interrupted.get then w.cancel else w
  match c.due w gate with
  | none => return (c, line)
  | some due =>
    if w.now < due then
      IO.sleep (UInt32.ofNat (min 20 ((due - w.now) / Duration.nanosPerMilli + 1)))
      live.pursue job gate index w c line
    else
      let (w, c) := c.act live.scene job gate index w
      let (c, line) ← live.carryOut w c line
      live.pursue job gate index w c line

/-- Runs actions side by side and waits for all of them. -/
def together {α : Type} (actions : List (IO α)) : IO (List α) := do
  let tasks ← actions.mapM fun action => IO.asTask action .dedicated
  tasks.mapM fun task => IO.ofExcept task.get

/-! ## Crews -/

/-- Prints what was logged since the last time. -/
def flushLog (w : World) : IO World := do
  let events := w.log.reverse ++ w.workerLogs.reverse.flatMap (·.2)
  for event in events do
    if event.level ≠ .debug then IO.eprintln event.text
  return { w with log := [], workerLogs := [] }

/-- The world after a crew has acted. -/
def catchUp (live : Live) (w : World) : IO World := do
  let w := { w with now := ← live.now }
  return if ← live.interrupted.get then w.cancel else w

/-- Runs a crew to its end. -/
def perform (live : Live) (w : World) (crew : Crew σ) : IO (World × Crew σ) := do
  let w ← live.catchUp (← flushLog w)
  let first : List (Caller σ × Option Line) ← together (crew.callers.mapIdx fun i c =>
    live.pursue crew.job crew.gate i w { c with number := some (w.met + i) } none)
  let crew := { crew with callers := first.map Prod.fst }
  let w ← live.catchUp { w with met := w.met + crew.callers.length }
  match crew.gate with
  | .openSince _ | .stuck => return (w, crew)
  | .shut =>
    match crew.step live.scene w with
    | none => return (w, crew)
    | some (w, crew) =>
      let last : List (Caller σ × Option Line) ← together (first.mapIdx fun i (c, line) =>
        live.pursue crew.job crew.gate i w c line)
      return (← live.catchUp w, { crew with callers := last.map Prod.fst })

/-- The harness that runs crews against a live server. -/
def harness (live : Live) : Harness IO where
  policy := live.policy
  perform w crew := live.perform w crew

end Live

end LoadSweep

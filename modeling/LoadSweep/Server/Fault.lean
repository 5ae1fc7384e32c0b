/-!
# `LoadSweep/Server/Fault.lean` — what can go wrong with a connection

One distinction drives every loop over a connection: does this failure end the connection, or
only the one request? `ClientFault.isDisconnect` answers it. A failure of the transport ends the
connection unless it is a timeout, since a late answer may still be followed by good ones; a
reply that cannot be read leaves the stream unusable and ends it too; an error the *server*
reports in a well-formed reply ends nothing.
-/

set_option autoImplicit false

namespace LoadSweep

/-- The kind of a transport failure, as far as it matters: was it only slow? -/
inductive IoKind where
  | timedOut
  | wouldBlock
  | other (name : String)
  deriving DecidableEq, Repr

def IoKind.ofName : String → IoKind
  | "TimedOut" => .timedOut
  | "WouldBlock" => .wouldBlock
  | name => .other name

/-- The kinds of error that a server itself reports. -/
inductive ServerKind where
  | responseError | execAbort | busyLoading | noScript | moved | ask | tryAgain
  | clusterDown | crossSlot | masterDown | readOnly | notBusy | noSub | noPerm
  deriving DecidableEq, Repr

def ServerKind.all : List ServerKind :=
  [.responseError, .execAbort, .busyLoading, .noScript, .moved, .ask, .tryAgain,
    .clusterDown, .crossSlot, .masterDown, .readOnly, .notBusy, .noSub, .noPerm]

def ServerKind.name : ServerKind → String
  | .responseError => "ResponseError"
  | .execAbort => "ExecAbort"
  | .busyLoading => "BusyLoading"
  | .noScript => "NoScript"
  | .moved => "Moved"
  | .ask => "Ask"
  | .tryAgain => "TryAgain"
  | .clusterDown => "ClusterDown"
  | .crossSlot => "CrossSlot"
  | .masterDown => "MasterDown"
  | .readOnly => "ReadOnly"
  | .notBusy => "NotBusy"
  | .noSub => "NoSub"
  | .noPerm => "NoPerm"

def ServerKind.ofName? (name : String) : Option ServerKind :=
  ServerKind.all.find? (·.name == name)

/-- The kind of a failure that is described rather than caught from the transport. -/
inductive FaultKind where
  | io
  | parse
  | authenticationFailed
  | clusterConnectionNotFound
  | server (kind : ServerKind)
  /-- The remaining kinds: they fail one request and are told apart by name only. -/
  | other (name : String)
  deriving DecidableEq, Repr

def FaultKind.ofName (name : String) : FaultKind :=
  match name with
  | "Io" => .io
  | "Parse" => .parse
  | "AuthenticationFailed" => .authenticationFailed
  | "ClusterConnectionNotFound" => .clusterConnectionNotFound
  | _ => match ServerKind.ofName? name with
    | some k => .server k
    | none => .other name

def FaultKind.text : FaultKind → String
  | .io => "Io"
  | .parse => "Parse"
  | .authenticationFailed => "AuthenticationFailed"
  | .clusterConnectionNotFound => "ClusterConnectionNotFound"
  | .server k => "Server(" ++ k.name ++ ")"
  | .other name => name

/-- A failure met while speaking the wire protocol. -/
inductive WireFault where
  | transport (kind : IoKind) (text : String)
  | described (kind : FaultKind) (description : String) (detail : Option String)
  deriving DecidableEq, Repr

def WireFault.message : WireFault → String
  | .transport _ text => text
  | .described kind description detail =>
    description ++ " - " ++ kind.text ++
      match detail with
      | some d => ": " ++ d
      | none => ""

/-- Does the failure end the connection? -/
def WireFault.isDisconnect : WireFault → Bool
  | .transport .timedOut _ | .transport .wouldBlock _ => false
  | .transport (.other _) _ => true
  | .described kind _ _ =>
    match kind with
    | .io | .parse | .authenticationFailed | .clusterConnectionNotFound => true
    | .server _ | .other _ => false

/-- The server answered with an error. -/
def WireFault.signalled : WireFault :=
  .described (.server .responseError) "An error was signalled by the server" none

/-- The other end closed the connection, or sent what cannot be read. -/
def WireFault.hungUp : WireFault :=
  .transport (.other "UnexpectedEof") "unexpected end of file"

/-- There is no way to the server. -/
def WireFault.unreachable : WireFault :=
  .transport (.other "NetworkUnreachable") "Network is unreachable (os error 101)"

/-- Why a request, or an attempt to connect, failed. -/
inductive ClientFault where
  | wire (fault : WireFault)
  | lost (text : String)
  /-- The one request failed and the connection is sound. -/
  | request (text : String)
  deriving DecidableEq, Repr

namespace ClientFault

def message : ClientFault → String
  | .wire f => "Redis error: " ++ f.message
  | .lost text => "Connection lost: " ++ text
  | .request text => "Request failed: " ++ text

def isDisconnect : ClientFault → Bool
  | .wire f => f.isDisconnect
  | .lost _ => true
  | .request _ => false

/-- The texts of the failure and of what caused it, outermost first. A transport failure is
wrapped twice. -/
def chain (f : ClientFault) : List String :=
  f.message :: match f with
    | .wire (.transport _ text) => [text, text]
    | .wire w => [w.message]
    | .lost _ | .request _ => []

end ClientFault

end LoadSweep

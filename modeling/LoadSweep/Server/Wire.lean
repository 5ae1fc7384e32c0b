/-!
# `LoadSweep/Server/Wire.lean` — replies as bytes

A reply on the wire begins with a byte that says what it is: a line of text, a line that reports
an error, a number, a text of known length, or a list of replies of known length; two lengths of
minus one both mean "nothing". `Value.read` takes one reply off a buffer and tells apart the three
things that can happen: a whole reply, a beginning that needs more bytes, and bytes that no reply
begins with. The last two both cost the connection, but only once it is certain that no more
bytes come.

`Exchange` is a connection in use: what each request makes of the reply it gets.
-/

set_option autoImplicit false

namespace LoadSweep.Wire

inductive Value where
  | nothing
  | line (bytes : List UInt8)
  | fault (bytes : List UInt8)
  | number (n : Int)
  | text (bytes : List UInt8)
  | list (values : List Value)
  deriving Repr, Inhabited

/-- What a buffer begins with. -/
inductive Begins (α : Type) where
  | whole (value : α) (rest : List UInt8)
  | needsMore
  | malformed

/-- A line without its end, and what follows it. -/
def takeLine : List UInt8 → Begins (List UInt8)
  | [] => .needsMore
  | [_] => .needsMore
  | a :: b :: rest =>
    if a = 13 ∧ b = 10 then .whole [] rest
    else match takeLine (b :: rest) with
      | .whole bytes rest => .whole (a :: bytes) rest
      | .needsMore => .needsMore
      | .malformed => .malformed

def lineDigits : Nat → List UInt8 → Option Nat
  | n, [] => some n
  | n, b :: rest =>
    if 48 ≤ b ∧ b ≤ 57 then lineDigits (n * 10 + (b.toNat - 48)) rest else none

/-- A line as a number of 64 bits with a sign. -/
def lineNumber (bytes : List UInt8) : Option Int :=
  let span := Int.ofNat (Nat.pow 2 63)
  let checked (n : Int) : Option Int := if -span ≤ n ∧ n < span then some n else none
  match bytes with
  | [] => none
  | [43] | [45] => none
  | 43 :: rest => (lineDigits 0 rest).bind fun n => checked n
  | 45 :: rest => (lineDigits 0 rest).bind fun n => checked (-n)
  | bytes => (lineDigits 0 bytes).bind fun n => checked n

def isText (bytes : List UInt8) : Bool := (String.fromUTF8? bytes.toByteArray).isSome

mutual

/-- Takes one reply off a buffer. Every list costs one unit of `depth`. -/
def Value.read : (depth : Nat) → List UInt8 → Begins Value
  | _, [] => .needsMore
  | 0, _ => .malformed
  | depth + 1, kind :: rest =>
    match takeLine rest with
    | .needsMore => .needsMore
    | .malformed => .malformed
    | .whole bytes rest =>
      if kind = 43 then (if isText bytes then .whole (.line bytes) rest else .malformed)
      else if kind = 45 then (if isText bytes then .whole (.fault bytes) rest else .malformed)
      else match lineNumber bytes with
        | none => .malformed
        | some n =>
          if kind = 58 then .whole (.number n) rest
          else if kind = 36 then
            if n = -1 then .whole .nothing rest
            else if n < 0 then .malformed
            else
              let size := n.toNat
              if rest.length < size + 2 then .needsMore
              else if rest.drop size |>.take 2 |> (· == [13, 10]) then
                .whole (.text (rest.take size)) (rest.drop (size + 2))
              else .malformed
          else if kind = 42 then
            if n = -1 then .whole .nothing rest
            else if n < 0 then .malformed
            else match Value.readMany depth n.toNat rest with
              | .whole values rest => .whole (.list values) rest
              | .needsMore => .needsMore
              | .malformed => .malformed
          else .malformed
  termination_by depth => (depth, 0)

/-- Takes several replies off a buffer. -/
def Value.readMany : (depth count : Nat) → List UInt8 → Begins (List Value)
  | _, 0, buffer => .whole [] buffer
  | depth, count + 1, buffer =>
    match Value.read depth buffer with
    | .needsMore => .needsMore
    | .malformed => .malformed
    | .whole value rest =>
      match Value.readMany depth count rest with
      | .whole values rest => .whole (value :: values) rest
      | .needsMore => .needsMore
      | .malformed => .malformed
  termination_by depth count => (depth, count + 1)

end

/-! ## Requests and what they make of a reply -/

/-- A request; keys and values are bytes. -/
inductive Command where
  | ping
  | get (key : List UInt8)
  | set (key value : List UInt8)
  deriving DecidableEq, Repr

def Command.words : Command → List (List UInt8)
  | .ping => ["PING".toUTF8.toList]
  | .get key => ["GET".toUTF8.toList, key]
  | .set key value => ["SET".toUTF8.toList, key, value]

def lineBytes (text : String) : List UInt8 := text.toUTF8.toList ++ [13, 10]

/-- A request as it is written: the number of its words, and each word after its length. -/
def Command.bytes (c : Command) : List UInt8 :=
  lineBytes ("*" ++ toString c.words.length)
    ++ c.words.flatMap fun word =>
      lineBytes ("$" ++ toString word.length) ++ word ++ [13, 10]

/-- What a request comes to. -/
inductive Outcome where
  | ok
  | miss
  | value (bytes : List UInt8)
  | failed (disconnect : Bool)
  deriving DecidableEq, Repr

/-- The bytes that a list of numbers stands for. -/
def bytesOf : List Value → Option (List UInt8)
  | [] => some []
  | .number n :: rest =>
    if 0 ≤ n ∧ n < 256 then (bytesOf rest).map (UInt8.ofNat n.toNat :: ·) else none
  | _ :: _ => none

/-- What a request makes of a whole reply. A reply that is of no use to it counts as a loss of
the connection, although the connection goes on. -/
def Command.take (c : Command) (v : Value) : Outcome :=
  match c, v with
  | _, .fault _ => .failed false
  | .ping, .line _ | .ping, .text _ | .ping, .number _ => .ok
  | .ping, _ => .failed true
  | .set .., _ => .ok
  | .get _, .text bytes => .value bytes
  | .get _, .nothing => .miss
  | .get _, .list values =>
    match bytesOf values with
    | some bytes => .value bytes
    | none => .failed true
  | .get _, _ => .failed true

/-- What the other end does with one request. -/
inductive Response where
  | bytes (bytes : List UInt8)
  /-- It sends bytes and closes the connection. -/
  | last (bytes : List UInt8)
  deriving DecidableEq, Repr

structure Exchange where
  /-- What the other end has still prepared; after that it closes without answering. -/
  responses : List Response
  /-- Bytes that were sent and not read yet. -/
  buffer : List UInt8
  /-- Whether requests still reach the other end. -/
  alive : Bool

/-- Drops the whole replies that nobody asked for; whether the rest can still become one. -/
def settle : (fuel : Nat) → List UInt8 → List UInt8 × Bool
  | 0, buffer => (buffer, true)
  | fuel + 1, buffer =>
    match Value.read (buffer.length + 1) buffer with
    | .whole _ rest => settle fuel rest
    | .needsMore => (buffer, true)
    | .malformed => (buffer, false)

namespace Exchange

/-- Sends a request and takes its reply; whether the other end read the request. -/
def send (x : Exchange) (c : Command) : Outcome × Bool × Exchange :=
  if !x.alive then (.failed true, false, x)
  else match x.responses with
    | [] => (.failed true, true, { x with alive := false })
    | response :: responses =>
      let (bytes, closes) := match response with
        | .bytes bytes => (bytes, false)
        | .last bytes => (bytes, true)
      let buffer := x.buffer ++ bytes
      match Value.read (buffer.length + 1) buffer with
      | .whole value rest =>
        let (buffer, sound) := settle rest.length rest
        (c.take value, true, { responses, buffer, alive := sound && !closes })
      | .needsMore | .malformed =>
        (.failed true, true, { responses, buffer := [], alive := false })

/-- Sends requests one after the other: what they come to, and those that were read. -/
def sendAll (x : Exchange) : List Command → List Outcome × List Command
  | [] => ([], [])
  | c :: rest =>
    let (outcome, read, x) := x.send c
    let (outcomes, commands) := sendAll x rest
    (outcome :: outcomes, if read then c :: commands else commands)

end Exchange

end LoadSweep.Wire

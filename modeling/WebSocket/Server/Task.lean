import WebSocket.Connection.Receive
import WebSocket.Server.Handle

/-!
The task that drives one connection: what it keeps between two steps, and when which step may come
next.

While it drives, a task waits for several things at once: bytes of the peer, room for its own bytes,
a message in its queue, a close request, and its deadline. It stops reading and taking messages as
long as too many bytes wait to be written. When the connection is closed it leaves the registry,
writes what is left for a limited time, and reports the end.
-/

namespace WebSocket

/-- A point in time, in nanoseconds since the server began. -/
abbrev Time := Nat

/-- Where a task stands. -/
inductive Stage where
  | spawned
  | driving
  /-- The connection is closed; what is left is written until the given time. -/
  | draining (limit : Time)
  /-- Nothing is written any more; the application is told what it does not know yet. -/
  | ending
  | finished
  /-- The run of the task has ended in the middle of a step. -/
  | abandoned
  deriving DecidableEq

/-- One task. -/
structure Task where
  id : ConnectionId
  connection : Connection
  /-- Bytes that were taken from the connection and not yet by the network. -/
  writing : Bytes
  deadline : Option Time
  /-- The phase for which the deadline was set. -/
  timed : Phase
  undelivered : List Event
  /-- Whether the application has yet to be told of the end. -/
  reporting : Bool
  stage : Stage

namespace Task

def readChunk : Nat := 8 * 1024

def new (id : ConnectionId) (options : Options) : Task where
  id := id
  connection := .new options
  writing := []
  deadline := none
  timed := .connecting
  undelivered := []
  reporting := false
  stage := .spawned

def unwritten (t : Task) : Nat :=
  t.writing.length + t.connection.outbound.length

/-- Whether so many bytes wait that the task takes no more work. -/
def backlogged (t : Task) : Bool :=
  t.connection.options.backpressureBoundary ≤ t.unwritten

/-- When the connection will have been as it is for too long, seen from `now`. -/
def freshDeadline (t : Task) (now : Time) : Option Time :=
  t.connection.timeout.map fun d => now + d.nanoseconds

/-- Takes the next bytes from the connection once the last ones are written. -/
def load (t : Task) : Task :=
  if t.writing.isEmpty then
    let (bytes, c) := t.connection.takeOutbound
    { t with writing := bytes.getD [], connection := c }
  else t

/-- Whether the task looks at its peer, its queue, its close requests and its deadline. -/
def isWaiting (t : Task) : Bool :=
  t.stage = .driving && t.undelivered.isEmpty

def canRead (t : Task) : Bool :=
  t.isWaiting && !t.backlogged

def canWrite (t : Task) : Bool :=
  !t.writing.isEmpty &&
    match t.stage with
    | .driving => t.undelivered.isEmpty
    | .draining _ => true
    | _ => false

/-- Whether everything is written that was left when the connection was closed. -/
def isDrained (t : Task) : Bool :=
  match t.stage with
  | .draining _ => t.writing.isEmpty
  | _ => false

def canTake (t : Task) : Bool :=
  t.isWaiting && !t.backlogged

/-- When the task stops to wait for what has not happened. -/
def limit? (t : Task) : Option Time :=
  match t.stage with
  | .driving => if t.undelivered.isEmpty then t.deadline else none
  | .draining limit => some limit
  | _ => none

def isDue (t : Task) (now : Time) : Bool :=
  t.limit?.any (· ≤ now)

def canDeliver (t : Task) : Bool :=
  match t.stage with
  | .driving => !t.undelivered.isEmpty
  | .ending => true
  | _ => false

/-- Hands a message to the connection. One that is not open drops it. -/
def put (t : Task) (message : Outbound) : Task :=
  let result := match message with
    | .text text => t.connection.sendText text
    | .encoded bytes => t.connection.sendEncoded bytes
  { t with connection := result.toOption.getD t.connection }

/-- Hands over what waits in the queue for as long as the network keeps up, and drops the rest. -/
def putAll (t : Task) (messages : List Outbound) : Task :=
  messages.foldl (fun t message => if t.backlogged then t else t.put message) t

end Task

end WebSocket

import WebSocket.Server.Basic
import WebSocket.Server.Link

/-!
A server together with an in-memory network. Clients connect, write, pause and go away, and time
passes only when it is told to; in between, the server does whatever it can until nothing moves.

The listener and the tasks take turns. Whoever waited and can go on gets in line, and whoever is at
the head of the line takes one step after another until it has to wait. When nobody is in line, the
clients read what has arrived, and that may let others go on. All who can go on at the same moment
get in line by the time at which they are due; of those with the same time, the one that has waited
longest goes first.
-/

namespace WebSocket

/-- What the next attempt to accept a connection comes to. -/
inductive Arrival where
  | client (number : Nat)
  | failure

/-- Somebody who takes a turn. -/
inductive Actor where
  | listener
  | task (id : ConnectionId)
  deriving DecidableEq

/-- A server and its network. -/
structure Loopback where
  server : Server
  /-- The connections of the clients, in the order in which they connected. -/
  links : List Link
  /-- Which client each task serves. -/
  served : List (ConnectionId × Nat)
  arrivals : List Arrival
  /-- When the next connection may be accepted. -/
  acceptFrom : Time
  /-- Those who can go on, in the order of their turns. -/
  line : List Actor
  /-- Those who wait, the one that has waited longest first. -/
  waiting : List Actor

namespace Loopback

/-- How long a server waits after it has failed to accept a connection. -/
def acceptPause : Duration := .ofMilliseconds 100

def new (options : Options) (application : Application) : Loopback where
  server := .new options application
  links := []
  served := []
  arrivals := []
  acceptFrom := 0
  line := []
  waiting := [.listener]

def updateLink (w : Loopback) (client : Nat) (f : Link → Link) : Loopback :=
  { w with links := w.links.modify client f }

def link? (w : Loopback) (id : ConnectionId) : Option (Nat × Link) := do
  let client ← w.served.lookup id
  return (client, ← w.links[client]?)

def act? (w : Loopback) (action : Action) : Option Loopback :=
  (w.server.act action).map ({ w with server := · })

def acceptNext? (w : Loopback) : Option Loopback :=
  if w.server.now < w.acceptFrom then none
  else
    match w.arrivals with
    | [] => none
    | .failure :: rest =>
      some { w with
        arrivals := rest, acceptFrom := w.server.now + acceptPause.nanoseconds }
    | .client number :: rest =>
      let id := w.server.registry.nextId.1
      ({ w with
        arrivals := rest
        served := w.served ++ [(id, number)]
        waiting := w.waiting ++ [Actor.task id] }).act? .accept

def taskAndLink? (w : Loopback) (id : ConnectionId) : Option (Task × Nat × Link) := do
  return (← w.server.task? id, ← w.link? id)

/-- A task reads what its client has sent, or learns that nothing follows. -/
def readFrom? (w : Loopback) (t : Task) (client : Nat) (link : Link) : Option Loopback := do
  let chunk := link.toServer.take Task.readChunk
  if chunk.isEmpty then
    if link.inputEnded then w.act? (.hangUp t.id) else none
  else
    let w ← w.act? (.read t.id chunk)
    return w.updateLink client fun l => { l with toServer := l.toServer.drop Task.readChunk }

/-- The network takes bytes of a task, or refuses them because the client has gone. -/
def writeTo? (w : Loopback) (t : Task) (client : Nat) (link : Link) : Option Loopback := do
  if link.dropped then w.act? (.breakOff t.id)
  else
    let count := link.room t.writing.length
    let w ← w.act? (.write t.id count)
    return w.updateLink client (·.push (t.writing.take count))

/-- A task tells the application something. At the end of a task its client sees the end of the
stream first. -/
def deliverOf? (w : Loopback) (id : ConnectionId) : Option Loopback := do
  let (t, client, _) ← w.taskAndLink? id
  let after ← w.act? (.deliver id)
  if t.stage = .ending then
    return (after.updateLink client Link.endOutput).updateLink client Link.close
  else return after

/-- The first possible step of a task. Whoever has begun to tell the application something finishes
that first, and that the time is up counts only when there is nothing else to do. -/
def moveOf? (w : Loopback) (id : ConnectionId) : Option Loopback := do
  let (t, client, link) ← w.taskAndLink? id
  w.deliverOf? id
    <|> w.act? (.start id)
    <|> w.readFrom? t client link
    <|> w.writeTo? t client link
    <|> w.act? (.drained id)
    <|> w.act? (.take id)
    <|> w.act? (.wake id)
    <|> w.act? (.expire id)

def stepOf? (w : Loopback) : Actor → Option Loopback
  | .listener => w.acceptNext?
  | .task id => w.moveOf? id

/-- Since when somebody who can go on has been due: since its time was up, or only now. -/
def dueOf (w : Loopback) : Actor → Time
  | .listener => min w.acceptFrom w.server.now
  | .task id => (((w.server.task? id).bind Task.limit?).map (min · w.server.now)).getD w.server.now

def enlist (w : Loopback) : Loopback :=
  let (able, waiting) := w.waiting.partition fun actor => (w.stepOf? actor).isSome
  { w with
    line := w.line ++ able.mergeSort fun a b => w.dueOf a ≤ w.dueOf b, waiting := waiting }

def readAll (w : Loopback) : Loopback :=
  { w with links := w.links.map Link.deliver }

/-- What happens next: the head of the line takes a step or begins to wait, or the clients read. -/
def step? (w : Loopback) : Option Loopback :=
  match w.line with
  | [] => if w.links.any Link.isReadable then some w.readAll.enlist else none
  | actor :: rest =>
    match w.stepOf? actor with
    | some after => some after.enlist
    | none => some { w with line := rest, waiting := w.waiting ++ [actor] }

/-- Takes steps until none is possible, but no more than `fuel`. -/
def settleFor : Nat → Loopback → Loopback
  | 0, w => w
  | fuel + 1, w =>
    match w.step? with
    | none => w
    | some w => settleFor fuel w

/-- More steps than a run can take whose bytes fit into memory. -/
def enoughSteps : Nat := 0x1000000000000

def settle (w : Loopback) : Loopback :=
  settleFor enoughSteps w.enlist

def connect (w : Loopback) (window : Option Nat) : Loopback :=
  { w with
    links := w.links ++ [.new window], arrivals := w.arrivals ++ [.client w.links.length] }

def failAccept (w : Loopback) : Loopback :=
  { w with arrivals := w.arrivals ++ [.failure] }

def request (w : Loopback) (request : Request) : Reply × Loopback :=
  let (reply, r) := w.server.registry.perform request
  (reply, { w with server := { w.server with registry := r } })

def wait (w : Loopback) (duration : Duration) : Loopback :=
  (w.act? (.wait duration)).getD w

def takeReceived (w : Loopback) : List Bytes × Loopback :=
  (w.links.map Link.received, { w with links := w.links.map fun l => l.takeReceived.2 })

end Loopback

end WebSocket

import WebSocket.Server.Task

/-!
A server as a machine: the registry, the tasks, the clock, and every step that can come next. A run
of the server is any sequence of steps that are possible one after another; nothing is said here
about their order.
-/

namespace WebSocket

/-- A running server. -/
structure Server where
  options : Options
  application : Application
  registry : Registry
  /-- All tasks, in the order in which their connections were accepted. -/
  tasks : List Task
  now : Time
  calls : List Call

/-- A step of a server. -/
inductive Action where
  | accept
  | request (request : Request)
  | wait (duration : Duration)
  | start (id : ConnectionId)
  | read (id : ConnectionId) (data : Bytes)
  /-- A task finds that its peer sends nothing any more, or that the network fails. -/
  | hangUp (id : ConnectionId)
  | write (id : ConnectionId) (count : Nat)
  /-- The network takes no bytes of a task any more. -/
  | breakOff (id : ConnectionId)
  | take (id : ConnectionId)
  | wake (id : ConnectionId)
  | expire (id : ConnectionId)
  /-- A task has written everything that was left. -/
  | drained (id : ConnectionId)
  | deliver (id : ConnectionId)
  deriving DecidableEq

namespace Server

def new (options : Options) (application : Application) : Server where
  options := options
  application := application
  registry := .empty
  tasks := []
  now := 0
  calls := []

def task? (s : Server) (id : ConnectionId) : Option Task :=
  s.tasks.find? (·.id = id)

def setTask (s : Server) (t : Task) : Server :=
  { s with tasks := s.tasks.map fun other => if other.id = t.id then t else other }

/-- A task reports phase and scheme of its connection. -/
def sync (s : Server) (t : Task) : Server :=
  let r := match t.connection.scheme with
    | some scheme => s.registry.setScheme t.id scheme
    | none => s.registry
  { s with registry := r.setPhase t.id t.connection.phase }

/-- The application is told something, and its requests are carried out. -/
def notify (s : Server) (id : ConnectionId) (notice : Notice) : Server :=
  let (replies, r) := s.registry.performAll (s.application.respond id notice)
  { s with registry := r, calls := s.calls ++ [⟨id, notice, s.registry.size, replies⟩] }

/-- The network has a new connection: it is listed, and gets a task. -/
def accept (s : Server) : Server :=
  let (id, r) := s.registry.nextId
  { s with
    registry := r.insert id (.new (max s.options.maxQueued 1))
    tasks := s.tasks ++ [.new id s.options] }

def start (s : Server) (t : Task) : Server :=
  let t := { t with connection := t.connection.accept, stage := .driving }
  let t := { t with deadline := t.freshDeadline s.now, timed := t.connection.phase }
  (s.sync t).setTask t

/-- A task whose connection is closed leaves the registry, and writes what is left. -/
def leave (s : Server) (t : Task) : Server :=
  let r := (s.registry.setPhase t.id .closed).remove t.id
  let stage := Stage.draining (s.now + t.connection.options.closeTimeout.nanoseconds)
  { s with registry := r.2 }.setTask { t with stage := stage, undelivered := [] }.load

/-- The end of a step: a closing handshake that is over ends the connection, and a new phase starts
a new deadline. -/
def complete (s : Server) (t : Task) : Server :=
  let (event, c) := t.connection.finish
  let t := { t with connection := c, reporting := t.reporting || event.isSome }
  let s := s.sync t
  let t := if c.phase = t.timed then t
    else { t with timed := c.phase, deadline := t.freshDeadline s.now }
  if c.phase = .closed then s.leave t else s.setTask t.load

/-- The end of a step that has read something: bytes of the peer start a new deadline for an
established connection. -/
def completeRead (s : Server) (t : Task) : Server :=
  s.complete
    (if t.connection.phase = .established then { t with deadline := t.freshDeadline s.now } else t)

def read (s : Server) (t : Task) (data : Bytes) : Server :=
  match t.connection.receive data with
  | (.events events, c) =>
    let t := { t with connection := c, undelivered := events }
    let s := s.sync t
    if events.isEmpty then s.completeRead t else s.setTask t
  | (.failed _, c) => s.leave { t with connection := c }
  | (.abandoned, c) =>
    { s with registry := s.registry.update t.id Peer.stopReceiving }.setTask
      { t with connection := c, stage := .abandoned }

/-- A task wakes up, and closes its connection if that is still asked for. Before that it hands
over the messages that wait. -/
def wake (s : Server) (t : Task) : Server :=
  let (_, r) := s.registry.takeWakeUp t.id
  match r.takeCloseRequest t.id with
  | (none, r) => { s with registry := r }.complete t
  | (some code, r) =>
    let waiting := ((r.peer? t.id).map Peer.queue).getD []
    let r := r.update t.id fun p => { p with queue := [] }
    let t := t.putAll waiting
    { s with registry := r }.complete { t with connection := t.connection.close code }

def take (s : Server) (t : Task) : Option Server :=
  match s.registry.take t.id with
  | (.message message, r) => some ({ s with registry := r }.complete (t.put message))
  | _ => none

def stopWriting (s : Server) (t : Task) : Server :=
  let (events, c) := t.connection.onDisconnect
  s.setTask { t with connection := c, undelivered := events, stage := .ending }

def expire (s : Server) (t : Task) : Server :=
  if t.stage = .driving then
    match t.connection.onTimeout with
    | (.error _, c) => s.leave { t with connection := c }
    | (.ok _, c) => s.complete { t with connection := c }
  else s.stopWriting t

/-- A task is at its end: it takes no more messages, and the application is told of the end of a
connection that had opened. -/
def finish (s : Server) (t : Task) : Server :=
  let s := if t.reporting then s.notify t.id .closed else s
  { s with registry := s.registry.update t.id Peer.stopReceiving }.setTask
    { t with stage := .finished }

/-- A task tells the application of the next event. That the connection has closed is told later,
when it has left the registry. -/
def deliver (s : Server) (t : Task) : Server :=
  match t.undelivered with
  | [] => s.finish t
  | event :: rest =>
    let t := { t with undelivered := rest, reporting := t.reporting || event = Event.closed }
    let s := match event with
      | .opened => s.notify t.id .opened
      | .message text => s.notify t.id (.message text)
      | .closed => s
    if rest.isEmpty && t.stage = .driving then s.completeRead t else s.setTask t

/-- A step of the task of a connection, if it is possible. -/
def onTask (s : Server) (id : ConnectionId) (possible : Task → Bool)
    (step : Task → Option Server) : Option Server :=
  match s.task? id with
  | none => none
  | some t => if possible t then step t else none

def act (s : Server) : Action → Option Server
  | .accept => some s.accept
  | .request request => some { s with registry := (s.registry.perform request).2 }
  | .wait duration => some { s with now := s.now + duration.nanoseconds }
  | .start id => s.onTask id (·.stage = .spawned) fun t => some (s.start t)
  | .read id data =>
    s.onTask id (fun t => t.canRead && !data.isEmpty && data.length ≤ Task.readChunk)
      fun t => some (s.read t data)
  | .hangUp id => s.onTask id Task.canRead fun t => some (s.leave t)
  | .write id count =>
    s.onTask id (fun t => t.canWrite && 0 < count && count ≤ t.writing.length) fun t =>
      let t := { t with writing := t.writing.drop count }
      some (if t.stage = .driving then s.complete t else s.setTask t.load)
  | .breakOff id =>
    s.onTask id Task.canWrite fun t =>
      some (if t.stage = .driving then s.leave t else s.stopWriting t)
  | .take id => s.onTask id Task.canTake s.take
  | .wake id =>
    s.onTask id (fun t => t.isWaiting && (s.registry.peer? id).any Peer.woken) fun t =>
      some (s.wake t)
  | .expire id => s.onTask id (·.isDue s.now) fun t => some (s.expire t)
  | .drained id => s.onTask id Task.isDrained fun t => some (s.stopWriting t)
  | .deliver id => s.onTask id Task.canDeliver fun t => some (s.deliver t)

/-- The state after some steps, if all of them are possible one after another. -/
def run (s : Server) (actions : List Action) : Option Server :=
  actions.foldlM act s

end Server

end WebSocket

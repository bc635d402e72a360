import WebSocket.Registry.Peer

namespace WebSocket

/-- All connections, and the number that was given out last. -/
structure Registry where
  lastNumber : UInt64
  /-- At most one entry for each identifier. -/
  peers : List (ConnectionId × Peer)

namespace Registry

def empty : Registry := ⟨0, []⟩

/-- Gives out the next identifier, beginning with the number one. -/
def nextId (r : Registry) : ConnectionId × Registry :=
  (⟨r.lastNumber + 1⟩, { r with lastNumber := r.lastNumber + 1 })

/-- What is shared with the task of a connection, listed or not. -/
def peer? (r : Registry) (id : ConnectionId) : Option Peer :=
  r.peers.lookup id

def listed? (r : Registry) (id : ConnectionId) : Option Peer :=
  (r.peer? id).filter Peer.listed

def update (r : Registry) (id : ConnectionId) (f : Peer → Peer) : Registry :=
  { r with peers := r.peers.map fun (other, peer) => (other, if other = id then f peer else peer) }

/-- Lists a connection, in place of any with the same identifier. -/
def insert (r : Registry) (id : ConnectionId) (peer : Peer) : Registry :=
  { r with peers := (id, peer) :: r.peers.filter (·.1 ≠ id) }

def entries (r : Registry) : List (ConnectionId × Peer) :=
  r.peers.filter (·.2.listed)

/-- The identifiers of all listed connections, in ascending order. -/
def ids (r : Registry) : List ConnectionId :=
  (r.entries.map (·.1)).mergeSort fun a b => a.number ≤ b.number

def size (r : Registry) : Nat := r.entries.length

def remove (r : Registry) (id : ConnectionId) : Bool × Registry :=
  ((r.listed? id).isSome, r.update id Peer.unlist)

/-- Hands a message to the task of one connection. Only established connections take messages. A
connection whose task is gone is forgotten, and one whose queue is full is evicted. -/
def send (r : Registry) (id : ConnectionId) (message : Outbound) : Except Error Unit × Registry :=
  match r.listed? id with
  | none => (.error (.unknownConnection id), r)
  | some peer =>
    if peer.isStale then (.error .connectionClosed, r.update id Peer.unlist)
    else if peer.phase ≠ .established then (.error .connectionClosed, r)
    else
      let (accepted, peer) := peer.deliver message
      (if accepted then .ok () else .error .connectionClosed, r.update id fun _ => peer)

def close (r : Registry) (id : ConnectionId) (code : CloseCode) : Except Error Unit × Registry :=
  match r.listed? id with
  | none => (.error (.unknownConnection id), r)
  | some peer =>
    if peer.isStale then (.error .connectionClosed, r.update id Peer.unlist)
    else (.ok (), r.update id (Peer.requestClose · code))

/-- A text framed for each scheme that was met so far. -/
structure Encodings where
  rfc6455 : Option Bytes
  legacy : Option Bytes

namespace Encodings

def none : Encodings := ⟨.none, .none⟩

def get (known : Encodings) : Scheme → Option Bytes
  | .rfc6455 => known.rfc6455
  | .legacy => known.legacy

def set (known : Encodings) (scheme : Scheme) (bytes : Option Bytes) : Encodings :=
  match scheme with
  | .rfc6455 => { known with rfc6455 := bytes }
  | .legacy => { known with legacy := bytes }

/-- The text framed for a scheme, the first time it is needed and no more. -/
def encode (known : Encodings) (scheme : Scheme) (text : String) : Option Bytes × Encodings :=
  match known.get scheme with
  | some bytes => (some bytes, known)
  | .none =>
    let bytes := (scheme.encode (.text (Utf8.encode text))).toOption
    (bytes, known.set scheme bytes)

end Encodings

/-- What a broadcast does at one connection: the connection afterwards, and whether it took the
text. -/
def broadcastTo (text : String) (known : Encodings) (peer : Peer) : Encodings × Peer × Bool :=
  if !peer.listed then (known, peer, false)
  else if peer.isStale then (known, peer.unlist, false)
  else if peer.phase ≠ .established then (known, peer, false)
  else
    match peer.scheme with
    | none => (known, peer, false)
    | some scheme =>
      match known.encode scheme text with
      | (none, known) => (known, peer, false)
      | (some bytes, known) =>
        let (accepted, peer) := peer.deliver (.encoded bytes)
        (known, peer, accepted)

/-- Goes through the connections in their order. The connections that were passed are in `done`,
the latest first, with the number of those that took the text. -/
def broadcastOnto (text : String) (known : Encodings) (sent : Nat)
    (done : List (ConnectionId × Peer)) :
    List (ConnectionId × Peer) → Nat × List (ConnectionId × Peer)
  | [] => (sent, done.reverse)
  | (id, peer) :: rest =>
    let (known, peer, accepted) := broadcastTo text known peer
    broadcastOnto text known (if accepted then sent + 1 else sent) ((id, peer) :: done) rest

/-- Sends a text to every established connection; says how many took it. It is framed once for
each scheme. Connections whose task is gone are forgotten, and those whose queue is full are
evicted. -/
def broadcast (r : Registry) (text : String) : Nat × Registry :=
  let (sent, peers) := broadcastOnto text .none 0 [] r.peers
  (sent, { r with peers := peers })

/-- What the task of a connection finds in its queue. -/
inductive Taken where
  | message (message : Outbound)
  | empty
  /-- Nothing waits, and nothing can come any more. -/
  | disconnected
  | gone
  deriving DecidableEq

def take (r : Registry) (id : ConnectionId) : Taken × Registry :=
  match r.peer? id with
  | none => (.gone, r)
  | some peer =>
    if !peer.receiving then (.gone, r)
    else
      match peer.queue with
      | message :: rest => (.message message, r.update id fun p => { p with queue := rest })
      | [] => (if peer.listed then .empty else .disconnected, r)

def takeCloseRequest (r : Registry) (id : ConnectionId) : Option CloseCode × Registry :=
  match r.peer? id with
  | none => (none, r)
  | some peer =>
    let (code, peer) := peer.takeCloseRequest
    (code, r.update id fun _ => peer)

/-- Takes the wake-up that is stored for a connection, if there is one. -/
def takeWakeUp (r : Registry) (id : ConnectionId) : Bool × Registry :=
  match r.peer? id with
  | none => (false, r)
  | some peer =>
    let (woken, peer) := peer.takeWakeUp
    (woken, r.update id fun _ => peer)

def setPhase (r : Registry) (id : ConnectionId) (phase : Phase) : Registry :=
  r.update id fun p => { p with phase := phase }

def setScheme (r : Registry) (id : ConnectionId) (scheme : Scheme) : Registry :=
  r.update id fun p => { p with scheme := some scheme }

end Registry

end WebSocket

import WebSocket.Connection.Basic

/-!
What the rest of the server shares with the task of one connection: the queue of messages for it,
a copy of its phase and scheme, and the request to close it.

A close request goes past the queue, so a connection whose queue is full can still be closed. The
first request wins, and any number of requests wakes the task once.
-/

namespace WebSocket

/-- A message that waits for the task of a connection. -/
inductive Outbound where
  | text (text : String)
  /-- Bytes that are framed for the scheme of the connection already. -/
  | encoded (bytes : Bytes)
  deriving DecidableEq

/-- What is shared about one connection. -/
structure Peer where
  phase : Phase
  scheme : Option Scheme
  /-- The number of the close code that was asked for; zero for none. -/
  closeNumber : UInt16
  /-- Whether a wake-up is stored for the task. -/
  woken : Bool
  /-- Messages for the task, in the order in which they were accepted. -/
  queue : List Outbound
  capacity : Nat
  /-- Whether the task still takes messages. -/
  receiving : Bool
  listed : Bool

namespace Peer

def new (capacity : Nat) : Peer where
  phase := .connecting
  scheme := none
  closeNumber := 0
  woken := false
  queue := []
  capacity := capacity
  receiving := true
  listed := true

/-- Whether the task is gone or the connection has ended. -/
def isStale (peer : Peer) : Bool :=
  !peer.receiving || peer.phase = .closed

def requestClose (peer : Peer) (code : CloseCode) : Peer :=
  { peer with
    closeNumber := if peer.closeNumber = 0 then code.number else peer.closeNumber
    woken := true }

def takeCloseRequest (peer : Peer) : Option CloseCode × Peer :=
  (if peer.closeNumber = 0 then none else some (.ofNumber peer.closeNumber),
    { peer with closeNumber := 0 })

def takeWakeUp (peer : Peer) : Bool × Peer :=
  (peer.woken, { peer with woken := false })

def unlist (peer : Peer) : Peer :=
  { peer with listed := false }

/-- The task takes no more messages, and those that wait are lost. -/
def stopReceiving (peer : Peer) : Peer :=
  { peer with receiving := false, queue := [] }

def hasRoom (peer : Peer) : Bool :=
  peer.queue.length < peer.capacity

def push (peer : Peer) (message : Outbound) : Peer :=
  { peer with queue := peer.queue ++ [message] }

/-- A connection that is too slow leaves the registry and is closed. -/
def evict (peer : Peer) : Peer :=
  (peer.requestClose .policy).unlist

/-- Hands a message to an established connection, or evicts it when its queue is full; says whether
the message was accepted. -/
def deliver (peer : Peer) (message : Outbound) : Bool × Peer :=
  if peer.hasRoom then (true, peer.push message) else (false, peer.evict)

end Peer

end WebSocket

import WebSocket.Bytes

namespace WebSocket

/-- Both directions of a network connection between a client and the server. -/
structure Link where
  toServer : Bytes
  /-- Whether nothing follows what is on its way to the server. -/
  inputEnded : Bool
  /-- Whether the server does not read any more. -/
  unheard : Bool
  toClient : Bytes
  /-- How many bytes may be on their way to the client; none for any number. -/
  window : Option Nat
  outputEnded : Bool
  paused : Bool
  dropped : Bool
  received : Bytes
  /-- Whether the client knows that nothing more will come. -/
  sawEnd : Bool

namespace Link

def new (window : Option Nat) : Link where
  toServer := []
  inputEnded := false
  unheard := false
  toClient := []
  window := window
  outputEnded := false
  paused := false
  dropped := false
  received := []
  sawEnd := false

/-- Whether the client has something to read, and be it the end. -/
def isReadable (l : Link) : Bool :=
  !l.paused && !l.dropped && (!l.toClient.isEmpty || (l.outputEnded && !l.sawEnd))

def deliver (l : Link) : Link :=
  if l.paused || l.dropped then l
  else { l with
    received := l.received ++ l.toClient, toClient := [], sawEnd := l.sawEnd || l.outputEnded }

/-- How many of some bytes the network takes at once. -/
def room (l : Link) (wanted : Nat) : Nat :=
  match l.window with
  | none => wanted
  | some window => min wanted (window - l.toClient.length)

def push (l : Link) (bytes : Bytes) : Link :=
  { l with toClient := l.toClient ++ bytes }

def endOutput (l : Link) : Link :=
  { l with outputEnded := true }

def close (l : Link) : Link :=
  { l with unheard := true, toServer := [] }

/-- The client writes bytes; a server that is gone does not get them. -/
def send (l : Link) (bytes : Bytes) : Link :=
  if l.unheard || l.inputEnded then l else { l with toServer := l.toServer ++ bytes }

def endInput (l : Link) : Link :=
  { l with inputEnded := true }

def pause (l : Link) : Link :=
  { l with paused := true }

def resume (l : Link) : Link :=
  { l with paused := false }

/-- The client goes away; what it has not read is lost. -/
def drop (l : Link) : Link :=
  { l with dropped := true, inputEnded := true, toClient := [], sawEnd := true }

def takeReceived (l : Link) : Bytes × Link :=
  (l.received, { l with received := [] })

end Link

end WebSocket

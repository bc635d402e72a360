import WebSocket.Duration
import WebSocket.Handshake.Request

namespace WebSocket

/-- The settings of a server and of the connections it takes. -/
structure Options where
  /-- The largest payload of a frame, and of a message put together from fragments. -/
  maxPayload : Nat
  /-- How many bytes may wait for a complete request or frame, if the server says so. -/
  maxReadBuffer : Option Nat
  maxHandshake : Nat
  /-- How long a request may take; none for as long as it likes. -/
  handshakeTimeout : Option Duration
  /-- How long an open connection may stay silent; none for as long as it likes. -/
  idleTimeout : Option Duration
  closeTimeout : Duration
  maxQueued : Nat
  /-- From how many unwritten bytes on a connection takes no more work. -/
  backpressureBoundary : Nat
  checkUtf8 : Bool
  allowLegacy : Bool
  deriving DecidableEq

def defaultMaxPayload : Nat := 100 * 1024

def maxHeadSize : Nat := 14

def maxSize : Nat := UInt64.size - 1

namespace Options

def standard : Options where
  maxPayload := defaultMaxPayload
  maxReadBuffer := none
  maxHandshake := Handshake.defaultMaxHead
  handshakeTimeout := some (.ofSeconds 10)
  idleTimeout := none
  closeTimeout := .ofSeconds 5
  maxQueued := 1024
  backpressureBoundary := 256 * 1024
  checkUtf8 := true
  allowLegacy := true

/-- The settings with room for `count` waiting messages, and for one at least. -/
def withMaxQueued (options : Options) (count : Nat) : Options :=
  { options with maxQueued := max count 1 }

/-- How many bytes may wait to be understood: what the server says, or room for the largest frame;
and always room for a whole request head. -/
def readLimit (options : Options) : Nat :=
  max (max (options.maxReadBuffer.getD (min (options.maxPayload + maxHeadSize) maxSize))
    options.maxHandshake) Handshake.defaultMaxHead

def negotiator (options : Options) : Handshake.Negotiator :=
  ⟨options.maxHandshake, options.allowLegacy⟩

end Options

end WebSocket

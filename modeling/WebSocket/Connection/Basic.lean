import WebSocket.Accumulator
import WebSocket.Framing
import WebSocket.Handshake.Response
import WebSocket.Options

/-!
The state of one connection and what its owner can do with it: send, close, look at what waits for
the network, and tear down. What the peer sends is taken in by `Connection.receive`.

A connection never goes back: `connecting`, `handshaking`, `established`, `closing`, `closed`. Once
it is closing, nothing more is queued for the network.
-/

namespace WebSocket

/-- How far a connection has come. -/
inductive Phase where
  | connecting
  | handshaking
  | established
  | closing
  | closed
  deriving DecidableEq

/-- What the application should hear about. -/
inductive Event where
  | opened
  | message (text : String)
  | closed
  deriving DecidableEq

/-- The protocol state of one connection. -/
structure Connection where
  options : Options
  phase : Phase
  buffer : Accumulator
  /-- What the handshake agreed on. -/
  scheme : Option Scheme
  /-- How frames are written and read, from the handshake on. -/
  codec : Option Codec
  outbound : Bytes
  pending : List Event
  /-- The kind of the message that is being put together from fragments. -/
  fragment : Option OpCode
  accumulated : Bytes
  peerClosed : Bool
  opened : Bool
  /-- Whether `Event.closed` was handed out, or waits in `pending`. -/
  closedReported : Bool

namespace Connection

def new (options : Options) : Connection where
  options := options
  phase := .connecting
  buffer := .empty options.readLimit
  scheme := none
  codec := none
  outbound := []
  pending := []
  fragment := none
  accumulated := []
  peerClosed := false
  opened := false
  closedReported := false

/-- Whether a client has to mask its frames; yes until the handshake says otherwise. -/
def requiresMasking (c : Connection) : Bool :=
  c.scheme.all Scheme.requiresMasking

/-- The network has taken the connection: it waits for a request. -/
def accept (c : Connection) : Connection :=
  if c.phase = .connecting then { c with phase := .handshaking } else c

def write (c : Connection) (bytes : Bytes) : Connection :=
  { c with outbound := c.outbound ++ bytes }

def queue (c : Connection) (frame : Frame) : Except Error Connection :=
  match c.codec with
  | none => .error .connectionClosed
  | some codec => (codec.encode frame).map c.write

theorem queue_eq {c : Connection} {codec : Codec} (hcodec : c.codec = some codec) (frame : Frame) :
    c.queue frame = (codec.scheme.encode frame).map c.write := by
  simp only [queue, hcodec, Codec.encode_eq]

theorem eq_write_of_queue {c after : Connection} {frame : Frame} (h : c.queue frame = .ok after) :
    ∃ bytes, after = c.write bytes := by
  unfold queue at h
  split at h
  · simp at h
  · rename_i codec hcodec
    cases hencode : codec.encode frame with
    | error e => simp [hencode, Except.map] at h
    | ok bytes =>
      simp only [hencode, Except.map, Except.ok.injEq] at h
      exact ⟨bytes, h.symm⟩

def sendText (c : Connection) (text : String) : Except Error Connection :=
  if c.phase = .established then c.queue (.text (Utf8.encode text)) else .error .connectionClosed

def sendEncoded (c : Connection) (bytes : Bytes) : Except Error Connection :=
  if c.phase = .established then .ok (c.write bytes) else .error .connectionClosed

/-- Starts to close the connection. An established one queues a close frame and waits for the
answer; one that never opened is closed at once. -/
def close (c : Connection) (code : CloseCode) : Connection :=
  match c.phase with
  | .established => { (c.queue (.close code [])).toOption.getD c with phase := .closing }
  | .connecting | .handshaking => { c with phase := .closed }
  | .closing | .closed => c

/-- The connection breaks an error off. An established one tells its peer, if the error comes from
the peer's data. -/
def fail (c : Connection) (e : Error) : Connection :=
  let told := if c.phase = .established then
      match e.closeCode? with
      | some code => (c.queue (.close code (Utf8.encode e.message))).toOption.getD c
      | none => c
    else c
  { told with phase := .closed }

def reportClosed (c : Connection) : Option Event × Connection :=
  if c.opened && !c.closedReported then (some .closed, { c with closedReported := true })
  else (none, c)

/-- Ends a closing handshake that the peer began. One that began here still waits for the peer. -/
def finish (c : Connection) : Option Event × Connection :=
  if c.phase = .closing && c.peerClosed then { c with phase := .closed }.reportClosed
  else (none, c)

/-- Tears the connection down, and hands out the events that nobody was told about. -/
def onDisconnect (c : Connection) : List Event × Connection :=
  let (closed, after) := { c with phase := .closed }.reportClosed
  (c.pending ++ closed.toList, { after with pending := [] })

def takeOutbound (c : Connection) : Option Bytes × Connection :=
  if c.outbound.isEmpty then (none, c) else (some c.outbound, { c with outbound := [] })

def timeout (c : Connection) : Option Duration :=
  match c.phase with
  | .connecting | .handshaking => c.options.handshakeTimeout
  | .established => c.options.idleTimeout
  | .closing => some c.options.closeTimeout
  | .closed => none

/-- The time is up. An unanswered close just ends; everything else is an error. -/
def onTimeout (c : Connection) : Except Error Unit × Connection :=
  match c.phase with
  | .connecting | .handshaking => (.error .handshakeTimeout, c.fail .handshakeTimeout)
  | .established => (.error .idleTimeout, c.fail .idleTimeout)
  | .closing | .closed => (.ok (), { c with phase := .closed })

end Connection

end WebSocket

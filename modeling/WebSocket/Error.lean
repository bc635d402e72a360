import WebSocket.CloseCode
import WebSocket.Text.Decimal
import WebSocket.Text.Words

namespace WebSocket

/-- Identifies a connection within one server. -/
structure ConnectionId where
  number : UInt64
  deriving DecidableEq

namespace ConnectionId

def display (id : ConnectionId) : String :=
  "#" ++ toString id.number.toNat

/-- Reads `#3` as well as `3`, with blanks around it. -/
def parse (text : List Char) : Except Text.DecimalError ConnectionId :=
  (Text.readNat UInt64.size ((Text.trim text).dropWhile (· == '#'))).map
    fun n => ⟨UInt64.ofNat n⟩

end ConnectionId

/-- Why an operation on a connection failed. -/
inductive Error where
  /-- The request carries neither a key nor the two older keys. -/
  | missingKey
  /-- The request asks for a protocol version with another accept key. -/
  | unsupportedVersion
  /-- One of the two older keys yields no 32-bit number. -/
  | invalidLegacyKey
  /-- The request head is too long, or holds what a response may not repeat. -/
  | malformedRequest
  | handshakeTimeout
  | idleTimeout
  /-- A message began before the one before it was complete. -/
  | invalidFragment
  | invalidContinuation
  /-- A text or the reason of a close frame is not UTF-8. -/
  | invalidUtf8
  | connectionClosed
  | unknownConnection (id : ConnectionId)
  /-- A close frame whose payload is a single byte. -/
  | invalidCloseFrame
  | invalidCloseCode
  | reservedBits
  | fragmentedControl
  | oversizedControl
  | frameTooLarge
  | readBufferFull
  | invalidOpCode (byte : UInt8)
  /-- A frame of the older framing that begins with an unknown byte. -/
  | invalidLegacyFrame (byte : UInt8)
  | unmaskedFrame
  | unsupportedFrame
  deriving DecidableEq

namespace Error

def message : Error → String
  | .missingKey => "Sec-WebSocket-Key header is missing"
  | .unsupportedVersion => "Sec-WebSocket-Version must be 8 or 13"
  | .invalidLegacyKey => "Invalid legacy handshake key"
  | .malformedRequest => "Malformed upgrade request"
  | .handshakeTimeout => "Handshake timed out"
  | .idleTimeout => "Connection idle timeout"
  | .invalidFragment => "Invalid fragment"
  | .invalidContinuation => "Invalid continuation frame"
  | .invalidUtf8 => "Invalid UTF-8"
  | .connectionClosed => "Connection is closed"
  | .unknownConnection id => "Unknown connection " ++ id.display
  | .invalidCloseFrame => "Invalid close frame"
  | .invalidCloseCode => "Invalid close code"
  | .reservedBits => "Reserved bits are not zero"
  | .fragmentedControl => "Control frame must not be fragmented"
  | .oversizedControl => "Control frame too large"
  | .frameTooLarge => "Frame too large"
  | .readBufferFull => "Read buffer full"
  | .invalidOpCode byte => "Invalid opcode (byte=" ++ toString byte.toNat ++ ")"
  | .invalidLegacyFrame byte => "Invalid legacy frame (byte=" ++ toString byte.toNat ++ ")"
  | .unmaskedFrame => "Client frame is not masked"
  | .unsupportedFrame => "Frame not supported by this framing"

/-- The close code that tells the peer of an open connection what it did wrong; none when the
error does not come from its data. -/
def closeCode? : Error → Option CloseCode
  | .invalidUtf8 => some .invalid
  | .frameTooLarge | .readBufferFull => some .size
  | .idleTimeout => some .away
  | .invalidFragment | .invalidContinuation | .invalidCloseFrame | .invalidCloseCode
  | .reservedBits | .fragmentedControl | .oversizedControl | .invalidOpCode _
  | .invalidLegacyFrame _ | .unmaskedFrame => some .protocol
  | _ => none

end Error

end WebSocket

import WebSocket.Framing.Legacy
import WebSocket.Framing.Standard

namespace WebSocket

/-- What a connection agreed on in its handshake. -/
inductive Scheme where
  /-- One key answered by its SHA-1 accept key; frames with headers, masked by the client. -/
  | rfc6455
  /-- Two keys and a challenge answered by an MD5 digest; texts between two marker bytes. -/
  | legacy
  deriving DecidableEq

/-- The framing in use on one connection, with the limits under which frames are read. -/
inductive Codec where
  | standard (decoder : Standard.Decoder)
  | legacy (maxPayload : Nat)
  deriving DecidableEq

namespace Scheme

def requiresMasking : Scheme → Bool
  | .rfc6455 => true
  | .legacy => false

def encode (scheme : Scheme) (frame : Frame) : Except Error Bytes :=
  match scheme with
  | .rfc6455 => .ok (Standard.encode frame)
  | .legacy => Legacy.encode frame

end Scheme

namespace Codec

/-- The codec of a server whose clients speak `scheme`. -/
def new (scheme : Scheme) (maxPayload : Nat) : Codec :=
  match scheme with
  | .rfc6455 => .standard ⟨maxPayload, scheme.requiresMasking⟩
  | .legacy => .legacy maxPayload

def scheme : Codec → Scheme
  | .standard _ => .rfc6455
  | .legacy _ => .legacy

@[simp] theorem scheme_new (scheme : Scheme) (maxPayload : Nat) :
    (new scheme maxPayload).scheme = scheme := by
  cases scheme <;> rfl

def encode (codec : Codec) (frame : Frame) : Except Error Bytes :=
  match codec with
  | .standard _ => .ok (Standard.encode frame)
  | .legacy _ => Legacy.encode frame

def decode (codec : Codec) (bytes : Bytes) : Decoded :=
  match codec with
  | .standard decoder => Standard.decode decoder bytes
  | .legacy maxPayload => Legacy.decode maxPayload bytes

theorem encode_eq (codec : Codec) (frame : Frame) :
    codec.encode frame = codec.scheme.encode frame := by
  cases codec <;> rfl

theorem length_lt_of_decode {codec : Codec} {bytes : Bytes} {frame : Frame} {rest : Bytes}
    (h : codec.decode bytes = .frame frame rest) : rest.length + 2 ≤ bytes.length := by
  cases codec with
  | standard => exact Standard.length_lt_of_decode h
  | legacy => exact Legacy.length_lt_of_decode h

end Codec

def Scheme.decode (scheme : Scheme) (maxPayload : Nat) (bytes : Bytes) : Decoded :=
  (Codec.new scheme maxPayload).decode bytes

end WebSocket

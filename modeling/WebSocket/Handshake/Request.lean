import WebSocket.Framing
import WebSocket.Handshake.Header

namespace WebSocket.Handshake

/-- A complete upgrade request. -/
structure Request where
  head : Bytes
  scheme : Scheme
  /-- The eight bytes behind the head of an older request; empty for the standard one. -/
  challenge : Bytes
  deriving DecidableEq

def keyHeader : Bytes := Utf8.encode "Sec-WebSocket-Key"

/-- The names of the two headers with the keys of an older request. -/
def keyHeader1 : Bytes := Utf8.encode "Sec-WebSocket-Key1"

@[inherit_doc keyHeader1]
def keyHeader2 : Bytes := Utf8.encode "Sec-WebSocket-Key2"

def versionHeader : Bytes := Utf8.encode "Sec-WebSocket-Version"

def isSupportedVersion (version : Bytes) : Bool :=
  version == Utf8.encode "8" || version == Utf8.encode "13"

def challengeLength : Nat := 8

/-- The scheme that a head asks for. A head with both older keys and without a version asks for
the older scheme, if that is allowed. -/
def detectScheme (allowLegacy : Bool) (head : Bytes) : Except Error Scheme :=
  let version := headerValue? head versionHeader
  let legacyKeys := (headerValue? head keyHeader1).isSome && (headerValue? head keyHeader2).isSome
  if version.isNone && legacyKeys && allowLegacy then .ok .legacy
  else
    match headerValue? head keyHeader with
    | none | some [] => .error .missingKey
    | some (_ :: _) =>
      if version.all isSupportedVersion then .ok .rfc6455 else .error .unsupportedVersion

namespace Request

def header? (request : Request) (name : Bytes) : Option Bytes :=
  headerValue? request.head name

def firstLine (request : Request) : Bytes :=
  match Bytes.find? lineEnd request.head with
  | some position => request.head.take position
  | none => request.head

/-- What the request line asks for: its second word, or a slash where there is none. -/
def path (request : Request) : Bytes :=
  if Utf8.isValid request.firstLine then
    match Ascii.words request.firstLine with
    | _ :: target :: _ => target
    | _ => [0x2F]
  else [0x2F]

def size (request : Request) : Nat :=
  request.head.length + headEnd.length + request.challenge.length

end Request

/-- The rules by which a server takes requests. -/
structure Negotiator where
  maxHead : Nat
  allowLegacy : Bool

def defaultMaxHead : Nat := 8 * 1024

namespace Negotiator

def standard : Negotiator := ⟨defaultMaxHead, true⟩

/-- Reads as much of a request as there is; none while the head or the challenge is incomplete. -/
def parse (negotiator : Negotiator) (raw : Bytes) : Except Error (Option Request) :=
  match Bytes.find? headEnd raw with
  | none => if negotiator.maxHead < raw.length then .error .malformedRequest else .ok none
  | some position =>
    if negotiator.maxHead < position + headEnd.length then .error .malformedRequest
    else
      let head := raw.take position
      match detectScheme negotiator.allowLegacy head with
      | .error e => .error e
      | .ok .rfc6455 => .ok (some ⟨head, .rfc6455, []⟩)
      | .ok .legacy =>
        match Bytes.splitExactly? challengeLength (raw.drop (position + headEnd.length)) with
        | none => .ok none
        | some (challenge, _) => .ok (some ⟨head, .legacy, challenge⟩)

end Negotiator

end WebSocket.Handshake

import WebSocket.Digest
import WebSocket.Handshake.Request

namespace WebSocket.Handshake

def render (lines : List Bytes) (body : Bytes) : Bytes :=
  lines.flatMap (· ++ lineEnd) ++ lineEnd ++ body

/-- What is sent before a connection with a rejected request is closed. -/
def refusal : Bytes :=
  render [Utf8.encode "HTTP/1.1 400 Bad Request", Utf8.encode "Connection: close",
    Utf8.encode "Content-Length: 0"] []

def standardLines (key : Bytes) : List Bytes :=
  [Utf8.encode "HTTP/1.1 101 Switching Protocols", Utf8.encode "Upgrade: websocket",
    Utf8.encode "Connection: Upgrade", Utf8.encode "Sec-WebSocket-Accept: " ++ Digest.acceptKey key]

/-- A value of the request that may stand in a response: it holds no control byte but tabs. -/
def echoable (value : Bytes) : Except Error Bytes :=
  if value.any fun b => Ascii.isControl b && b != 0x09 then .error .malformedRequest
  else .ok value

/-- The line that repeats where the request came from, if it says so. -/
def originLine (request : Request) : Except Error (List Bytes) :=
  match request.header? (Utf8.encode "Origin") with
  | none => .ok []
  | some origin => do
    return [Utf8.encode "Sec-WebSocket-Origin: " ++ (← echoable origin)]

/-- The line that repeats what the request asks for, if it names a host. -/
def locationLine (request : Request) : Except Error (List Bytes) :=
  match request.header? (Utf8.encode "Host") with
  | none => .ok []
  | some host => do
    return [Utf8.encode "Sec-WebSocket-Location: "
      ++ (← echoable (Utf8.encode "ws://" ++ host ++ request.path))]

/-- What the digest in the body of an older answer is taken of: both key numbers and the
challenge. -/
def challengeText (number1 number2 : Nat) (challenge : Bytes) : Bytes :=
  Bytes.bigEndian 4 number1 ++ Bytes.bigEndian 4 number2 ++ challenge

def respondStandard (request : Request) : Except Error Bytes :=
  match request.header? keyHeader with
  | none => .error .missingKey
  | some key => .ok (render (standardLines key) [])

def respondLegacy (request : Request) : Except Error Bytes :=
  match request.header? keyHeader1, request.header? keyHeader2 with
  | some key1, some key2 => do
    let number1 ← keyNumber key1
    let number2 ← keyNumber key2
    let origin ← originLine request
    let location ← locationLine request
    return render
      ([Utf8.encode "HTTP/1.1 101 Web Socket Protocol Handshake", Utf8.encode "Upgrade: WebSocket",
        Utf8.encode "Connection: Upgrade"] ++ origin ++ location)
      (Digest.md5 (challengeText number1 number2 request.challenge))
  | _, _ => .error .missingKey

def respond (request : Request) : Except Error Bytes :=
  match request.scheme with
  | .rfc6455 => respondStandard request
  | .legacy => respondLegacy request

/-- An accepted upgrade. -/
structure Upgrade where
  response : Bytes
  scheme : Scheme
  /-- How many bytes of the input the request took up; the bytes behind are frames. -/
  consumed : Nat
  deriving DecidableEq

/-- What came of looking at the bytes received so far. -/
inductive Outcome where
  | accepted (upgrade : Upgrade)
  | rejected (error : Error)
  | incomplete
  deriving DecidableEq

def Negotiator.negotiate (negotiator : Negotiator) (raw : Bytes) : Outcome :=
  match negotiator.parse raw with
  | .error e => .rejected e
  | .ok none => .incomplete
  | .ok (some request) =>
    match respond request with
    | .ok response => .accepted ⟨response, request.scheme, request.size⟩
    | .error e => .rejected e

theorem length_le_consumed {negotiator : Negotiator} {raw : Bytes} {u : Upgrade}
    (h : negotiator.negotiate raw = .accepted u) : headEnd.length ≤ u.consumed := by
  unfold Negotiator.negotiate at h
  split at h
  · simp at h
  · simp at h
  · split at h
    · simp only [Outcome.accepted.injEq] at h
      subst h
      simp only [Request.size]
      omega
    · simp at h

theorem ne_nil_of_accepted {negotiator : Negotiator} {raw : Bytes} {u : Upgrade}
    (h : negotiator.negotiate raw = .accepted u) : raw ≠ [] := by
  rintro rfl
  simp [Negotiator.negotiate, Negotiator.parse, Bytes.find?, Bytes.findFrom?, headEnd,
    lineEnd] at h

end WebSocket.Handshake

import WebSocket.Error

namespace WebSocket

/-- The kind of a frame. -/
inductive OpCode where
  | continuation
  | text
  | binary
  | close
  | ping
  | pong
  deriving DecidableEq

namespace OpCode

/-- Close, ping and pong frames control the connection; the others carry messages. -/
def isControl : OpCode → Bool
  | .close | .ping | .pong => true
  | .continuation | .text | .binary => false

def byte : OpCode → UInt8
  | .continuation => 0
  | .text => 1
  | .binary => 2
  | .close => 8
  | .ping => 9
  | .pong => 10

def ofByte (byte : UInt8) : Except Error OpCode :=
  match byte.toNat with
  | 0 => .ok .continuation
  | 1 => .ok .text
  | 2 => .ok .binary
  | 8 => .ok .close
  | 9 => .ok .ping
  | 10 => .ok .pong
  | _ => .error (.invalidOpCode byte)

end OpCode

end WebSocket

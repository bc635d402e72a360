import WebSocket.Mask
import WebSocket.OpCode
import WebSocket.Text.Utf8

namespace WebSocket

/-- One frame. -/
structure Frame where
  fin : Bool
  rsv1 : Bool
  rsv2 : Bool
  rsv3 : Bool
  opcode : OpCode
  mask : Option MaskKey
  payload : Bytes
  deriving DecidableEq

namespace Frame

def maxControlPayload : Nat := 125

def plain (fin : Bool) (opcode : OpCode) (payload : Bytes) : Frame :=
  { fin, rsv1 := false, rsv2 := false, rsv3 := false, opcode, mask := none, payload }

def text (payload : Bytes) : Frame := plain true .text payload

def binary (payload : Bytes) : Frame := plain true .binary payload

def ping (payload : Bytes) : Frame := plain true .ping payload

def pong (payload : Bytes) : Frame := plain true .pong payload

def closeRaw (payload : Bytes) : Frame := plain true .close payload

def close (code : CloseCode) (reason : Bytes) : Frame :=
  closeRaw (Bytes.bigEndian 2 code.number.toNat ++ reason)

def withMask (frame : Frame) (key : MaskKey) : Frame :=
  { frame with mask := some key }

def isMasked (frame : Frame) : Bool :=
  frame.mask.isSome

def isUtf8 (frame : Frame) : Bool :=
  Utf8.isValid frame.payload

def closeCode? (frame : Frame) : Option CloseCode :=
  match frame.payload with
  | high :: low :: _ => some (.ofNumber (UInt16.ofNat (Bytes.toNat [high, low])))
  | _ => none

def closeReason? (frame : Frame) : Option String :=
  match frame.payload with
  | _ :: _ :: reason => if Utf8.isValid reason then some (Utf8.decode reason) else none
  | _ => none

end Frame

end WebSocket

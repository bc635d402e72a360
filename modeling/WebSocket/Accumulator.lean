import WebSocket.Bytes
import WebSocket.Error

namespace WebSocket

/-- Bytes that wait to be understood, and how many there may be. -/
structure Accumulator where
  contents : Bytes
  limit : Nat

namespace Accumulator

def empty (limit : Nat) : Accumulator := ⟨[], limit⟩

def size (buffer : Accumulator) : Nat := buffer.contents.length

def room (buffer : Accumulator) : Nat := buffer.limit - buffer.size

def append (buffer : Accumulator) (chunk : Bytes) : Except Error Accumulator :=
  if buffer.limit < buffer.size + chunk.length then .error .readBufferFull
  else .ok { buffer with contents := buffer.contents ++ chunk }

def find? (buffer : Accumulator) (pattern : Bytes) : Option Nat :=
  Bytes.find? pattern buffer.contents

/-- The bytes from `start` on, `count` of them or as many as there are. -/
def slice (buffer : Accumulator) (start count : Nat) : Bytes :=
  (buffer.contents.drop start).take count

/-- Takes away the bytes from `start` on, `count` of them or as many as there are. -/
def removeRange (buffer : Accumulator) (start count : Nat) : Accumulator :=
  { buffer with contents := buffer.contents.take start ++ buffer.contents.drop (start + count) }

def clear (buffer : Accumulator) : Accumulator :=
  { buffer with contents := [] }

end Accumulator

end WebSocket

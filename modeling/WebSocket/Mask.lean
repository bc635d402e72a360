import WebSocket.Bytes

namespace WebSocket

/-- The four bytes that mask a payload. -/
structure MaskKey where
  k0 : UInt8
  k1 : UInt8
  k2 : UInt8
  k3 : UInt8
  deriving DecidableEq

namespace MaskKey

def bytes (key : MaskKey) : Bytes :=
  [key.k0, key.k1, key.k2, key.k3]

/-- The byte of the key that masks position `i` of a payload. -/
def byte (key : MaskKey) (i : Nat) : UInt8 :=
  match i % 4 with
  | 0 => key.k0
  | 1 => key.k1
  | 2 => key.k2
  | _ => key.k3

def word (key : MaskKey) (order : ByteOrder) : UInt32 :=
  order.word key.k0 key.k1 key.k2 key.k3

end MaskKey

namespace Mask

/-- Combines each byte with the byte of the key at its position modulo four. -/
def byByte (key : MaskKey) (data : Bytes) : Bytes :=
  data.mapIdx fun i b => b ^^^ key.byte i

/-- Masks whole words as long as four bytes are left, then the remainder byte for byte; `done`
holds what is masked already, last byte first. -/
def byWordOnto (order : ByteOrder) (key : MaskKey) (done : Bytes) : Bytes → Bytes
  | a :: b :: c :: d :: rest =>
    let masked := order.bytes (order.word a b c d ^^^ key.word order)
    byWordOnto order key (masked.reverse ++ done) rest
  | rest => done.reverse ++ byByte key rest

/-- Masks four bytes at a time, on a machine that keeps the bytes of a word in the given order. -/
def byWord (order : ByteOrder) (key : MaskKey) (data : Bytes) : Bytes :=
  byWordOnto order key [] data

def apply (key : MaskKey) (data : Bytes) : Bytes :=
  byWord .little key data

end Mask

end WebSocket

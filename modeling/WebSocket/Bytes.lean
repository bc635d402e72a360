namespace WebSocket

/-- What travels over the wire, first byte first. -/
abbrev Bytes := List UInt8

namespace Bytes

/-- The first `n` bytes and the rest; none when there are fewer. Looks no further than `n` bytes,
however long the string is. -/
def splitExactly? (n : Nat) (bytes : Bytes) : Option (Bytes × Bytes) :=
  let front := bytes.take n
  if front.length = n then some (front, bytes.drop n) else none

theorem eq_append_of_splitExactly? {n : Nat} {bytes front rest : Bytes}
    (h : splitExactly? n bytes = some (front, rest)) :
    bytes = front ++ rest ∧ front.length = n := by
  simp only [splitExactly?] at h
  split at h
  · rename_i hlength
    simp only [Option.some.injEq, Prod.mk.injEq] at h
    obtain ⟨rfl, rfl⟩ := h
    exact ⟨(List.take_append_drop n bytes).symm, hlength⟩
  · simp at h

def findFrom? (pattern : Bytes) (start : Nat) : Bytes → Option Nat
  | [] => if pattern.isEmpty then some start else none
  | b :: rest =>
    if pattern.isPrefixOf (b :: rest) then some start else findFrom? pattern (start + 1) rest

/-- The least position at which `pattern` occurs; the empty pattern occurs at the front. -/
def find? (pattern bytes : Bytes) : Option Nat :=
  findFrom? pattern 0 bytes

/-- A number written in `width` bytes, most significant byte first. Higher digits are dropped. -/
def bigEndian : Nat → Nat → Bytes
  | 0, _ => []
  | width + 1, n => bigEndian width (n / 256) ++ [UInt8.ofNat n]

def toNat (bytes : Bytes) : Nat :=
  bytes.foldl (fun n b => n * 256 + b.toNat) 0

end Bytes

/-- The order in which a 32-bit word keeps its bytes. -/
inductive ByteOrder where
  | big
  | little
  deriving DecidableEq

namespace ByteOrder

def word (order : ByteOrder) (a b c d : UInt8) : UInt32 :=
  match order with
  | .big => a.toUInt32 <<< 24 ||| b.toUInt32 <<< 16 ||| c.toUInt32 <<< 8 ||| d.toUInt32
  | .little => d.toUInt32 <<< 24 ||| c.toUInt32 <<< 16 ||| b.toUInt32 <<< 8 ||| a.toUInt32

def bytes (order : ByteOrder) (w : UInt32) : Bytes :=
  match order with
  | .big => [(w >>> 24).toUInt8, (w >>> 16).toUInt8, (w >>> 8).toUInt8, w.toUInt8]
  | .little => [w.toUInt8, (w >>> 8).toUInt8, (w >>> 16).toUInt8, (w >>> 24).toUInt8]

end ByteOrder

end WebSocket

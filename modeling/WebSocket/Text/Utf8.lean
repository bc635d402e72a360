import WebSocket.Bytes

/-!
UTF-8. Writing turns each character into one to four bytes. Reading is one pass of a small machine
over the bytes; it yields the characters, and a gap for every part that is no character. A part
that breaks off ends just before the first byte that cannot belong to it, so the longest possible
beginning of a character makes one gap.
-/

namespace WebSocket.Utf8

/-- The bytes of one character: seven bits in one byte, or a head byte and six bits in each of up
to three more. -/
def encodeChar (c : Char) : Bytes :=
  let n := c.toNat
  if n < 0x80 then [UInt8.ofNat n]
  else if n < 0x800 then [UInt8.ofNat (0xC0 + n / 64), UInt8.ofNat (0x80 + n % 64)]
  else if n < 0x10000 then
    [UInt8.ofNat (0xE0 + n / 4096), UInt8.ofNat (0x80 + n / 64 % 64), UInt8.ofNat (0x80 + n % 64)]
  else
    [UInt8.ofNat (0xF0 + n / 262144), UInt8.ofNat (0x80 + n / 4096 % 64),
      UInt8.ofNat (0x80 + n / 64 % 64), UInt8.ofNat (0x80 + n % 64)]

def encode (text : String) : Bytes :=
  text.toList.flatMap encodeChar

/-- What a scan knows between two bytes. -/
structure Scan where
  /-- What was read so far, latest first: a character, or a gap. -/
  done : List (Option Char)
  bits : Nat
  /-- How many bytes the character that has begun still lacks; zero between characters. -/
  owed : Nat
  low : UInt8
  high : UInt8

namespace Scan

def start : Scan := ⟨[], 0, 0, 0x80, 0xBF⟩

def push (s : Scan) (c : Option Char) : Scan :=
  { start with done := c :: s.done }

def expect (s : Scan) (bits owed : Nat) (low high : UInt8) : Scan :=
  { done := s.done, bits := bits, owed := owed, low := low, high := high }

/-- The first byte of a character. The narrower ranges after `E0`, `ED`, `F0` and `F4` leave out
spellings that are too long, surrogates, and numbers above the last character. -/
def head (s : Scan) (b : UInt8) : Scan :=
  let n := b.toNat
  if n < 0x80 then s.push (some (Char.ofNat n))
  else if n < 0xC2 then s.push none
  else if n < 0xE0 then s.expect (n - 0xC0) 1 0x80 0xBF
  else if n = 0xE0 then s.expect 0 2 0xA0 0xBF
  else if n = 0xED then s.expect 0xD 2 0x80 0x9F
  else if n < 0xF0 then s.expect (n - 0xE0) 2 0x80 0xBF
  else if n = 0xF0 then s.expect 0 3 0x90 0xBF
  else if n < 0xF4 then s.expect (n - 0xF0) 3 0x80 0xBF
  else if n = 0xF4 then s.expect 4 3 0x80 0x8F
  else s.push none

def next (s : Scan) (b : UInt8) : Scan :=
  if s.owed = 0 then s.head b
  else if s.low ≤ b ∧ b ≤ s.high then
    let bits := s.bits * 64 + (b.toNat - 0x80)
    if s.owed = 1 then s.push (some (Char.ofNat bits))
    else s.expect bits (s.owed - 1) 0x80 0xBF
  else (s.push none).head b

/-- The end of the bytes: a character that has begun stays a gap. -/
def finish (s : Scan) : List (Option Char) :=
  (if s.owed = 0 then s.done else none :: s.done).reverse

end Scan

/-- The characters of a byte string, with a gap for each part that is no character. -/
def scan (bytes : Bytes) : List (Option Char) :=
  (bytes.foldl Scan.next Scan.start).finish

def isValid (bytes : Bytes) : Bool :=
  (scan bytes).all Option.isSome

/-- The text of a byte string; each gap is read as the replacement character. -/
def decode (bytes : Bytes) : String :=
  String.ofList ((scan bytes).map (·.getD '\uFFFD'))

end WebSocket.Utf8

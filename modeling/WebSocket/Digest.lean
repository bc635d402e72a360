import WebSocket.Bytes
import WebSocket.Text.Utf8

namespace WebSocket.Digest

/-- Turns a word left: bits that leave at the top come back at the bottom. -/
def rotateLeft (w n : UInt32) : UInt32 :=
  w <<< n ||| w >>> (32 - n)

/-- The length of a message in bits, as eight bytes in the given order. -/
def bitLength (order : ByteOrder) (message : Bytes) : Bytes :=
  let bits := Bytes.bigEndian 8 (message.length * 8)
  match order with
  | .big => bits
  | .little => bits.reverse

/-- The message, a one bit, as many zero bits as it takes, and the length: a multiple of 64 bytes. -/
def padded (order : ByteOrder) (message : Bytes) : Bytes :=
  message ++ 0x80 :: List.replicate ((119 - message.length % 64) % 64) 0 ++ bitLength order message

def blockWords (order : ByteOrder) (data : Array UInt8) (i : Nat) : Array UInt32 :=
  (Array.range 16).map fun j =>
    let first := 64 * i + 4 * j
    order.word (data.getD first 0) (data.getD (first + 1) 0) (data.getD (first + 2) 0)
      (data.getD (first + 3) 0)

def blocks (order : ByteOrder) (message : Bytes) : List (Array UInt32) :=
  let data := (padded order message).toArray
  (List.range (data.size / 64)).map (blockWords order data)

/-- The four words that MD5 carries from block to block. -/
structure Md5State where
  a : UInt32
  b : UInt32
  c : UInt32
  d : UInt32

namespace Md5State

def start : Md5State :=
  ⟨0x67452301, 0xEFCDAB89, 0x98BADCFE, 0x10325476⟩

def bytes (s : Md5State) : Bytes :=
  [s.a, s.b, s.c, s.d].flatMap (ByteOrder.bytes .little)

def add (s t : Md5State) : Md5State :=
  ⟨s.a + t.a, s.b + t.b, s.c + t.c, s.d + t.d⟩

end Md5State

/-- The constant of round `i`: the first 32 bits after the point of the sine of `i + 1` radians,
without its sign. -/
def md5Sines : Array UInt32 :=
  #[
    0xd76aa478, 0xe8c7b756, 0x242070db, 0xc1bdceee,
    0xf57c0faf, 0x4787c62a, 0xa8304613, 0xfd469501,
    0x698098d8, 0x8b44f7af, 0xffff5bb1, 0x895cd7be,
    0x6b901122, 0xfd987193, 0xa679438e, 0x49b40821,
    0xf61e2562, 0xc040b340, 0x265e5a51, 0xe9b6c7aa,
    0xd62f105d, 0x02441453, 0xd8a1e681, 0xe7d3fbc8,
    0x21e1cde6, 0xc33707d6, 0xf4d50d87, 0x455a14ed,
    0xa9e3e905, 0xfcefa3f8, 0x676f02d9, 0x8d2a4c8a,
    0xfffa3942, 0x8771f681, 0x6d9d6122, 0xfde5380c,
    0xa4beea44, 0x4bdecfa9, 0xf6bb4b60, 0xbebfbc70,
    0x289b7ec6, 0xeaa127fa, 0xd4ef3085, 0x04881d05,
    0xd9d4d039, 0xe6db99e5, 0x1fa27cf8, 0xc4ac5665,
    0xf4292244, 0x432aff97, 0xab9423a7, 0xfc93a039,
    0x655b59c3, 0x8f0ccc92, 0xffeff47d, 0x85845dd1,
    0x6fa87e4f, 0xfe2ce6e0, 0xa3014314, 0x4e0811a1,
    0xf7537e82, 0xbd3af235, 0x2ad7d2bb, 0xeb86d391]

/-- How far round `i` turns: four amounts for each sixteen rounds, over and over. -/
def md5Turns : Array UInt32 :=
  #[7, 12, 17, 22, 5, 9, 14, 20, 4, 11, 16, 23, 6, 10, 15, 21]

/-- Round number `i` over a block. The mixing function and the order in which the words of the
block are used change every sixteen rounds. -/
def Md5State.round (block : Array UInt32) (s : Md5State) (i : Nat) : Md5State :=
  let (f, g) :=
    if i < 16 then ((s.b &&& s.c) ||| (~~~s.b &&& s.d), i)
    else if i < 32 then ((s.d &&& s.b) ||| (~~~s.d &&& s.c), 5 * i + 1)
    else if i < 48 then (s.b ^^^ s.c ^^^ s.d, 3 * i + 5)
    else (s.c ^^^ (s.b ||| ~~~s.d), 7 * i)
  let sum := s.a + f + md5Sines.getD i 0 + block.getD (g % 16) 0
  ⟨s.d, s.b + rotateLeft sum (md5Turns.getD (i / 16 * 4 + i % 4) 0), s.b, s.c⟩

def md5Block (s : Md5State) (block : Array UInt32) : Md5State :=
  s.add ((List.range 64).foldl (Md5State.round block) s)

def md5 (message : Bytes) : Bytes :=
  ((blocks .little message).foldl md5Block Md5State.start).bytes

/-- The five words that SHA-1 carries from block to block. -/
structure Sha1State where
  a : UInt32
  b : UInt32
  c : UInt32
  d : UInt32
  e : UInt32

namespace Sha1State

def start : Sha1State :=
  ⟨0x67452301, 0xEFCDAB89, 0x98BADCFE, 0x10325476, 0xC3D2E1F0⟩

def bytes (s : Sha1State) : Bytes :=
  [s.a, s.b, s.c, s.d, s.e].flatMap (ByteOrder.bytes .big)

def add (s t : Sha1State) : Sha1State :=
  ⟨s.a + t.a, s.b + t.b, s.c + t.c, s.d + t.d, s.e + t.e⟩

/-- Round number `i`, with the word that the schedule holds for it. The mixing function and its
constant change every twenty rounds. -/
def round (s : Sha1State) (i : Nat) (w : UInt32) : Sha1State :=
  let (f, k) :=
    if i < 20 then ((s.b &&& s.c) ||| (~~~s.b &&& s.d), 0x5A827999)
    else if i < 40 then (s.b ^^^ s.c ^^^ s.d, 0x6ED9EBA1)
    else if i < 60 then ((s.b &&& s.c) ||| (s.b &&& s.d) ||| (s.c &&& s.d), 0x8F1BBCDC)
    else (s.b ^^^ s.c ^^^ s.d, 0xCA62C1D6)
  ⟨rotateLeft s.a 5 + f + s.e + k + w, s.a, rotateLeft s.b 30, s.c, s.d⟩

end Sha1State

/-- The eighty words of a block: its own sixteen, then each the turned sum of four before it. -/
def sha1Schedule (block : Array UInt32) : Array UInt32 :=
  (List.range' 16 64).foldl
    (fun w i => w.push (rotateLeft
      (w.getD (i - 3) 0 ^^^ w.getD (i - 8) 0 ^^^ w.getD (i - 14) 0 ^^^ w.getD (i - 16) 0) 1))
    block

def sha1Block (s : Sha1State) (block : Array UInt32) : Sha1State :=
  let w := sha1Schedule block
  s.add ((List.range 80).foldl (fun t i => t.round i (w.getD i 0)) s)

def sha1 (message : Bytes) : Bytes :=
  ((blocks .big message).foldl sha1Block Sha1State.start).bytes

/-- The letters of Base64, as bytes: capitals, small letters, digits, plus and slash. -/
def base64Letter (n : Nat) : UInt8 :=
  if n < 26 then UInt8.ofNat (n + 65)
  else if n < 52 then UInt8.ofNat (n - 26 + 97)
  else if n < 62 then UInt8.ofNat (n - 52 + 48)
  else if n = 62 then 43
  else 47

def base64Pad : UInt8 := 61

def base64 : Bytes → Bytes
  | [] => []
  | [a] =>
    let n := a.toNat * 16
    [base64Letter (n / 64), base64Letter (n % 64), base64Pad, base64Pad]
  | [a, b] =>
    let n := (a.toNat * 256 + b.toNat) * 4
    [base64Letter (n / 4096), base64Letter (n / 64 % 64), base64Letter (n % 64), base64Pad]
  | a :: b :: c :: rest =>
    let n := (a.toNat * 256 + b.toNat) * 256 + c.toNat
    base64Letter (n / 262144) :: base64Letter (n / 4096 % 64) :: base64Letter (n / 64 % 64)
      :: base64Letter (n % 64) :: base64 rest

def acceptGuid : Bytes :=
  Utf8.encode "258EAFA5-E914-47DA-95CA-C5AB0DC85B11"

/-- The accept key of a request key: the Base64 text of the SHA-1 digest of key and identifier. -/
def acceptKey (key : Bytes) : Bytes :=
  base64 (sha1 (key ++ acceptGuid))

end WebSocket.Digest

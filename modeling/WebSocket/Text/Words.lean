import WebSocket.Bytes

namespace WebSocket

def joinFront {α : Type} (isSeparator : α → Bool) (x : α) : List (List α) → List (List α)
  | [] => if isSeparator x then [[], []] else [[x]]
  | piece :: pieces => if isSeparator x then [] :: piece :: pieces else (x :: piece) :: pieces

/-- The pieces between the separators: one more than there are separators, and never none. -/
def splitWhere {α : Type} (isSeparator : α → Bool) (xs : List α) : List (List α) :=
  xs.foldr (joinFront isSeparator) [[]]

namespace Text

def isBlank (c : Char) : Bool :=
  let n := c.toNat
  (0x09 ≤ n && n ≤ 0x0D) || n == 0x20 || n == 0x85 || n == 0xA0 || n == 0x1680
    || (0x2000 ≤ n && n ≤ 0x200A) || n == 0x2028 || n == 0x2029 || n == 0x202F || n == 0x205F
    || n == 0x3000

def trimStart (cs : List Char) : List Char :=
  cs.dropWhile isBlank

def trimEnd (cs : List Char) : List Char :=
  (cs.reverse.dropWhile isBlank).reverse

def trim (cs : List Char) : List Char :=
  trimEnd (trimStart cs)

def words (cs : List Char) : List (List Char) :=
  (splitWhere isBlank cs).filter (!·.isEmpty)

end Text

namespace Ascii

def isBlank (b : UInt8) : Bool :=
  b == 0x20 || b == 0x09 || b == 0x0A || b == 0x0C || b == 0x0D

def trim (bytes : Bytes) : Bytes :=
  ((bytes.dropWhile isBlank).reverse.dropWhile isBlank).reverse

def words (bytes : Bytes) : List Bytes :=
  (splitWhere isBlank bytes).filter (!·.isEmpty)

def isDigit (b : UInt8) : Bool :=
  0x30 ≤ b && b ≤ 0x39

/-- A capital letter as a small one; every other byte as it is. -/
def toLower (b : UInt8) : UInt8 :=
  if 0x41 ≤ b && b ≤ 0x5A then b + 0x20 else b

def equalFold (a b : Bytes) : Bool :=
  a.map toLower == b.map toLower

def isControl (b : UInt8) : Bool :=
  b < 0x20 || b == 0x7F

end Ascii

end WebSocket

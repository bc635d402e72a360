import WebSocket.Error
import WebSocket.Text.Words
import WebSocket.Text.Utf8

namespace WebSocket.Handshake

def lineEnd : Bytes := [0x0D, 0x0A]

/-- The blank line that ends a head, with the end of the line before it. -/
def headEnd : Bytes := lineEnd ++ lineEnd

/-- The bytes in front of the blank line; everything if there is no blank line. -/
def headOf (raw : Bytes) : Bytes :=
  match Bytes.find? headEnd raw with
  | some position => raw.take position
  | none => raw

/-- The lines of a head after the request line. A line ends at its line feed. -/
def headerLines (head : Bytes) : List Bytes :=
  (splitWhere (· == 0x0A) head).drop 1

def stripReturn (line : Bytes) : Bytes :=
  if line.getLast? = some 0x0D then line.dropLast else line

/-- Name and value of a header line, each without blanks around it; none for a line without a
colon. -/
def nameValue? (line : Bytes) : Option (Bytes × Bytes) :=
  match (stripReturn line).dropWhile (· != 0x3A) with
  | [] => none
  | _ :: value => some (Ascii.trim ((stripReturn line).takeWhile (· != 0x3A)), Ascii.trim value)

/-- The value of a header line, if the line has the given name and its value is UTF-8. -/
def valueIn? (name line : Bytes) : Option Bytes :=
  match nameValue? line with
  | some (lineName, value) =>
    if Ascii.equalFold lineName name && Utf8.isValid value then some value else none
  | none => none

/-- The value of the first header with the given name. A header whose value is not UTF-8 is passed
over, and what follows the blank line is no header. -/
def headerValue? (raw name : Bytes) : Option Bytes :=
  (headerLines (headOf raw)).findSome? (valueIn? name)

def keyDigits (value : Bytes) : List Char :=
  (value.filter Ascii.isDigit).map fun b => Char.ofNat b.toNat

def keySpaces (value : Bytes) : Nat :=
  value.countP (· == 0x20)

/-- The number of a key, below 2^32. The digits have to spell a number of 64 bits that the count
of spaces divides. -/
def keyNumber (value : Bytes) : Except Error Nat :=
  match Text.readNat UInt64.size (keyDigits value) with
  | .error _ => .error .invalidLegacyKey
  | .ok number =>
    let spaces := keySpaces value
    if spaces = 0 ∨ number % spaces ≠ 0 ∨ UInt32.size ≤ number / spaces then .error .invalidLegacyKey
    else .ok (number / spaces)

end WebSocket.Handshake

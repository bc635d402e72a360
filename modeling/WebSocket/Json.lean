import WebSocket.Text.Shortest

namespace WebSocket

/-- A JSON value. -/
inductive Json where
  | null
  | bool (value : Bool)
  /-- A whole number, from `-2^63` up to `2^64 - 1`. -/
  | integer (value : Int)
  | float (value : Float)
  | string (value : String)
  | array (items : List Json)
  | object (members : List (String × Json))
  deriving Inhabited

namespace Json

/-- Puts a member in its place; a later member takes the place of an earlier one with its key. -/
def insertMember (key : String) (value : Json) : List (String × Json) → List (String × Json)
  | [] => [(key, value)]
  | (other, old) :: rest =>
    if key < other then (key, value) :: (other, old) :: rest
    else if key = other then (key, value) :: rest
    else (other, old) :: insertMember key value rest

def hexDigit (n : Nat) : Char :=
  Char.ofNat (if n < 10 then n + 48 else n + 87)

/-- A character inside a string: quotes, backslashes and control characters are escaped. -/
def escape (c : Char) : List Char :=
  match c with
  | '"' => ['\\', '"']
  | '\\' => ['\\', '\\']
  | '\n' => ['\\', 'n']
  | '\r' => ['\\', 'r']
  | '\t' => ['\\', 't']
  | '\x08' => ['\\', 'b']
  | '\x0c' => ['\\', 'f']
  | c =>
    if c.toNat < 0x20 then ['\\', 'u', '0', '0', hexDigit (c.toNat / 16), hexDigit (c.toNat % 16)]
    else [c]

def quote (text : String) : String :=
  String.ofList ('"' :: text.toList.flatMap escape ++ ['"'])

def zeros (n : Nat) : String :=
  String.ofList (List.replicate n '0')

/-- Digits with the point behind the first `place` of them, where `place` can lie outside. Up to
sixteen digits in front of the point, and up to four zeros right behind it, are written out; other
numbers are written with one digit in front of the point and a power of ten, which always has a
sign. -/
def decimalText (digits : List Char) (place : Int) : String :=
  let count : Int := digits.length
  let text := String.ofList
  if count ≤ place ∧ place ≤ 16 then text digits ++ zeros (place - count).toNat ++ ".0"
  else if 0 < place ∧ place ≤ 16 then
    text (digits.take place.toNat) ++ "." ++ text (digits.drop place.toNat)
  else if -5 < place ∧ place ≤ 0 then "0." ++ zeros (-place).toNat ++ text digits
  else
    let exponent := (if 0 < place then "e+" else "e-") ++ toString (place - 1).natAbs
    match digits with
    | [d] => text [d] ++ exponent
    | d :: rest => text [d] ++ "." ++ text rest ++ exponent
    | [] => ""

/-- A number that is not whole, or too large. -/
def floatText (x : Float) : String :=
  let sign := if 0x8000000000000000 ≤ x.toBits then "-" else ""
  if x == 0 then sign ++ "0.0"
  else
    let (d, e) := Text.shortest x
    let digits := Nat.toDigits 10 d
    sign ++ decimalText digits (digits.length + e)

mutual

def compact : Json → String
  | null => "null"
  | bool true => "true"
  | bool false => "false"
  | integer n => toString n
  | float x => floatText x
  | string s => quote s
  | array items => "[" ++ ",".intercalate (compactItems items) ++ "]"
  | object members => "\x7b" ++ ",".intercalate (compactMembers members) ++ "\x7d"

def compactItems : List Json → List String
  | [] => []
  | item :: rest => compact item :: compactItems rest

def compactMembers : List (String × Json) → List String
  | [] => []
  | (key, value) :: rest => (quote key ++ ":" ++ compact value) :: compactMembers rest

end

/-- The beginning of a line that is indented by so many levels. -/
def newLine (level : Nat) : String :=
  String.ofList ('\n' :: List.replicate (2 * level) ' ')

/-- Pieces on lines of their own between two brackets; nothing but the brackets if there are no
pieces. -/
def spread (level : Nat) (opening closing : String) (pieces : List String) : String :=
  if pieces.isEmpty then opening ++ closing
  else
    opening ++ newLine (level + 1) ++ (("," ++ newLine (level + 1)).intercalate pieces)
      ++ newLine level ++ closing

mutual

/-- The text of a value spread over lines, where the value itself is indented by `level`. -/
def prettyAt (level : Nat) : Json → String
  | null => "null"
  | bool true => "true"
  | bool false => "false"
  | integer n => toString n
  | float x => floatText x
  | string s => quote s
  | array items => spread level "[" "]" (prettyItems (level + 1) items)
  | object members => spread level "\x7b" "\x7d" (prettyMembers (level + 1) members)

def prettyItems (level : Nat) : List Json → List String
  | [] => []
  | item :: rest => prettyAt level item :: prettyItems level rest

def prettyMembers (level : Nat) : List (String × Json) → List String
  | [] => []
  | (key, value) :: rest =>
    (quote key ++ ": " ++ prettyAt level value) :: prettyMembers level rest

end

def pretty (value : Json) : String :=
  prettyAt 0 value

def isSpace (c : Char) : Bool :=
  c = ' ' || c = '\n' || c = '\t' || c = '\r'

def skipSpace (cs : List Char) : List Char :=
  cs.dropWhile isSpace

def hexValue? (c : Char) : Option Nat :=
  if c.isDigit then some (c.toNat - 48)
  else if 'a' ≤ c ∧ c ≤ 'f' then some (c.toNat - 87)
  else if 'A' ≤ c ∧ c ≤ 'F' then some (c.toNat - 55)
  else none

def hex4? (a b c d : Char) : Option Nat := do
  return (((← hexValue? a) * 16 + (← hexValue? b)) * 16 + (← hexValue? c)) * 16 + (← hexValue? d)

def unescape? : Char → Option Char
  | '"' => some '"'
  | '\\' => some '\\'
  | '/' => some '/'
  | 'b' => some '\x08'
  | 'f' => some '\x0c'
  | 'n' => some '\n'
  | 'r' => some '\r'
  | 't' => some '\t'
  | _ => none

/-- The two halves of a character beyond 16 bits, put together. -/
def joinHalves? (high low : Nat) : Option Char :=
  if 0xD800 ≤ high ∧ high < 0xDC00 ∧ 0xDC00 ≤ low ∧ low < 0xE000 then
    some (Char.ofNat (0x10000 + (high - 0xD800) * 0x400 + (low - 0xDC00)))
  else none

/-- A character of 16 bits that is no half. -/
def wholeChar? (n : Nat) : Option Char :=
  if 0xD800 ≤ n ∧ n < 0xE000 then none else some (Char.ofNat n)

/-- The characters of a string up to its closing quote, and the text behind the quote; `done` holds
the characters that were read, last first. -/
def readString (done : List Char) : List Char → Option (String × List Char)
  | [] => none
  | '"' :: rest => some (String.ofList done.reverse, rest)
  | '\\' :: 'u' :: a :: b :: c :: d :: '\\' :: 'u' :: e :: f :: g :: h :: rest =>
    match hex4? a b c d with
    | none => none
    | some high =>
      match wholeChar? high with
      | some whole => readString (whole :: done) ('\\' :: 'u' :: e :: f :: g :: h :: rest)
      | none =>
        match (hex4? e f g h).bind (joinHalves? high) with
        | some joined => readString (joined :: done) rest
        | none => none
  | '\\' :: 'u' :: a :: b :: c :: d :: rest =>
    match (hex4? a b c d).bind wholeChar? with
    | some whole => readString (whole :: done) rest
    | none => none
  | '\\' :: c :: rest =>
    match unescape? c with
    | some c => readString (c :: done) rest
    | none => none
  | c :: rest => if c.toNat < 0x20 then none else readString (c :: done) rest

/-- Appends digits to a number as long as it stays below 2^64; also says how many were appended. -/
def appendDigits (n taken : Nat) : List Char → Nat × Nat
  | [] => (n, taken)
  | c :: rest =>
    let longer := n * 10 + (c.toNat - 48)
    if longer < UInt64.size then appendDigits longer (taken + 1) rest else (n, taken)

def powerOfTen (n : Nat) : Float := Float.ofScientific 1 false n

/-- A double times a power of ten; none if it grows beyond all doubles. A power below `10 ^ -308` is
divided by in steps, and three steps turn every 64-bit number into zero. -/
def scale? (steps : Nat) (f : Float) (exponent : Int) : Option Float :=
  if 308 < exponent then if f == 0 then some f else none
  else if 0 ≤ exponent then
    let product := f * powerOfTen exponent.toNat
    if product.isInf then none else some product
  else if -308 ≤ exponent then some (f / powerOfTen (-exponent).toNat)
  else
    match steps with
    | 0 => some f
    | steps + 1 =>
      if f == 0 then some f else scale? steps (f / powerOfTen 308) (exponent + 308)

/-- A number that has a point or an exponent, or that is too large to be whole. -/
def floatOf? (negative : Bool) (significand : Nat) (exponent : Int) : Option Json :=
  (scale? 3 (Float.ofNat significand) exponent).map fun f => float (if negative then -f else f)

/-- A whole number; beyond 64 bits, and for a zero with a minus sign, a double. -/
def wholeOf? (negative : Bool) (significand : Nat) : Option Json :=
  if !negative then some (integer significand)
  else if 0 < significand ∧ significand ≤ 0x8000000000000000 then some (integer (-significand))
  else floatOf? true significand 0

def readExponent : List Char → Option (Int × List Char)
  | '+' :: rest => readExponentDigits false rest
  | '-' :: rest => readExponentDigits true rest
  | rest => readExponentDigits false rest
where
  /-- The digits of an exponent; there has to be one at least. -/
  readExponentDigits (negative : Bool) (cs : List Char) : Option (Int × List Char) :=
    let digits := cs.takeWhile Char.isDigit
    let n : Int := digits.foldl (fun n c => n * 10 + (c.toNat - 48)) 0
    if digits.isEmpty then none
    else some (if negative then -n else n, cs.dropWhile Char.isDigit)

/-- What follows the whole part of a number: the exponent, if there is one. -/
def readScaled (negative : Bool) (significand : Nat) (places : Int) (cs : List Char) :
    Option (Json × List Char) :=
  match cs with
  | c :: rest =>
    if c = 'e' ∨ c = 'E' then do
      let (exponent, rest) ← readExponent rest
      return (← floatOf? negative significand (places + exponent), rest)
    else (floatOf? negative significand places).map (·, cs)
  | [] => (floatOf? negative significand places).map (·, [])

def readUnsigned (negative : Bool) (cs : List Char) : Option (Json × List Char) :=
  let digits := cs.takeWhile Char.isDigit
  let rest := cs.dropWhile Char.isDigit
  if digits.isEmpty ∨ (digits.head? = some '0' ∧ 1 < digits.length) then none
  else
    let (significand, taken) := appendDigits 0 0 digits
    let dropped : Int := digits.length - taken
    match rest with
    | '.' :: more =>
      let decimals := more.takeWhile Char.isDigit
      if decimals.isEmpty then none
      else
        let (significand, appended) := appendDigits significand 0 decimals
        readScaled negative significand (dropped - appended) (more.dropWhile Char.isDigit)
    | 'e' :: _ | 'E' :: _ => readScaled negative significand dropped rest
    | _ =>
      if dropped = 0 then (wholeOf? negative significand).map (·, rest)
      else (floatOf? negative significand dropped).map (·, rest)

def readNumber : List Char → Option (Json × List Char)
  | '-' :: rest => readUnsigned true rest
  | cs => readUnsigned false cs

mutual

/-- A value at the front of a text, and the text behind it. Every nested value takes a character at
least and two calls at most, so `fuel` only has to be twice as large as the text is long. -/
def readValue (fuel depth : Nat) (cs : List Char) : Option (Json × List Char) :=
  match fuel with
  | 0 => none
  | fuel + 1 =>
    match skipSpace cs with
    | 'n' :: 'u' :: 'l' :: 'l' :: rest => some (null, rest)
    | 't' :: 'r' :: 'u' :: 'e' :: rest => some (bool true, rest)
    | 'f' :: 'a' :: 'l' :: 's' :: 'e' :: rest => some (bool false, rest)
    | '"' :: rest => (readString [] rest).map fun (s, rest) => (string s, rest)
    | '[' :: rest =>
      if depth ≤ 1 then none
      else
        match skipSpace rest with
        | ']' :: rest => some (array [], rest)
        | rest => readItems fuel (depth - 1) [] rest
    | '\x7b' :: rest =>
      if depth ≤ 1 then none
      else
        match skipSpace rest with
        | '\x7d' :: rest => some (object [], rest)
        | rest => readMembers fuel (depth - 1) [] rest
    | rest => readNumber rest

/-- The items of an array up to its closing bracket; `done` holds the earlier ones, last first. -/
def readItems (fuel depth : Nat) (done : List Json) (cs : List Char) :
    Option (Json × List Char) :=
  match fuel with
  | 0 => none
  | fuel + 1 =>
    match readValue fuel depth cs with
    | none => none
    | some (item, rest) =>
      match skipSpace rest with
      | ',' :: rest => readItems fuel depth (item :: done) rest
      | ']' :: rest => some (array (item :: done).reverse, rest)
      | _ => none

/-- The members of an object up to its closing bracket; `done` holds the earlier ones. -/
def readMembers (fuel depth : Nat) (done : List (String × Json)) (cs : List Char) :
    Option (Json × List Char) :=
  match fuel with
  | 0 => none
  | fuel + 1 =>
    match skipSpace cs with
    | '"' :: rest =>
      match readString [] rest with
      | none => none
      | some (key, rest) =>
        match skipSpace rest with
        | ':' :: rest =>
          match readValue fuel depth rest with
          | none => none
          | some (value, rest) =>
            match skipSpace rest with
            | ',' :: rest => readMembers fuel depth (insertMember key value done) rest
            | '\x7d' :: rest => some (object (insertMember key value done), rest)
            | _ => none
        | _ => none
    | _ => none

end

/-- How deep values may nest, and one more. -/
def depthLimit : Nat := 128

def parse? (text : String) : Option Json :=
  let cs := text.toList
  match readValue (2 * cs.length + 2) depthLimit cs with
  | some (value, rest) => if (skipSpace rest).isEmpty then some value else none
  | none => none

end Json

end WebSocket

import WebSocket.Text.Words
import WebSocket.Text.Decimal

namespace WebSocket

/-- A length of time. -/
structure Duration where
  nanoseconds : Nat
  deriving DecidableEq

namespace Duration

def ofMilliseconds (n : Nat) : Duration := ⟨n * 1000000⟩

def ofSeconds (n : Nat) : Duration := ofMilliseconds (n * 1000)

def toMilliseconds (d : Duration) : Nat := d.nanoseconds / 1000000

/-- What an amount of time is counted in. -/
inductive Grain where
  | seconds
  | nanoseconds
  deriving DecidableEq

def Grain.split (grain : Grain) (n : Nat) : Nat × Nat :=
  match grain with
  | .seconds => (n, 0)
  | .nanoseconds => (0, n)

/-- A unit of time. -/
structure TimeUnit where
  grain : Grain
  count : Nat
  /-- The grain that a fraction of the unit has to be a whole number of, and how many of them make
  one unit; none if the unit has no fractions. -/
  fraction : Option (Grain × Nat)

/-- The names of the units. A month is 30.44 days and a year is 365.25 days. -/
def unitNames : List (List String × TimeUnit) :=
  let small (n : Nat) : TimeUnit := ⟨.nanoseconds, n, some (.nanoseconds, n)⟩
  let medium (n : Nat) : TimeUnit := ⟨.seconds, n, some (.nanoseconds, n * 1000000000)⟩
  let large (n : Nat) : TimeUnit := ⟨.seconds, n, some (.seconds, n)⟩
  [(["nanos", "nsec", "ns"], ⟨.nanoseconds, 1, none⟩),
   (["usec", "us", "µs"], small 1000),
   (["millis", "msec", "ms"], small 1000000),
   (["seconds", "second", "secs", "sec", "s"], medium 1),
   (["minutes", "minute", "min", "mins", "m"], medium 60),
   (["hours", "hour", "hr", "hrs", "h"], large 3600),
   (["days", "day", "d"], large 86400),
   (["weeks", "week", "wk", "wks", "w"], large 604800),
   (["months", "month", "M"], large 2630016),
   (["years", "year", "yr", "yrs", "y"], large 31557600)]

def unit? (name : List Char) : Option TimeUnit :=
  (unitNames.find? fun (names, _) => names.contains (String.ofList name)).map (·.2)

/-- Every number on the way has to be below 2^64. -/
def bounded? (n : Nat) : Option Nat :=
  if n < UInt64.size then some n else none

def add? (total : Duration) (amount : Nat × Nat) : Option Duration := do
  let nanoseconds ← bounded? (total.nanoseconds % 1000000000 + amount.2)
  let seconds ←
    bounded? (total.nanoseconds / 1000000000 + amount.1 + nanoseconds / 1000000000)
  some ⟨seconds * 1000000000 + nanoseconds % 1000000000⟩

def isUnitLetter (c : Char) : Bool :=
  c.isAlpha || c = 'µ'

/-- Whether a character can stand in a number: blanks between digits are passed over. -/
def isNumberPart (c : Char) : Bool :=
  c.isDigit || Text.isBlank c

def number? (piece : List Char) : Option Nat :=
  (Text.readDigits UInt64.size (piece.filter Char.isDigit)).toOption

/-- The digits behind a point, as numerator and denominator; there has to be one at least. -/
def decimals? (piece : List Char) : Option (Nat × Nat) := do
  let digits := piece.filter Char.isDigit
  if digits.isEmpty then none
  let denominator ← bounded? (Nat.pow 10 digits.length)
  let numerator ← number? piece
  some (numerator, denominator)

/-- A fraction of a unit, if it is a whole number of the grains that fractions are counted in. -/
def fraction? (u : TimeUnit) (numerator denominator : Nat) : Option (Nat × Nat) := do
  let (grain, count) ← u.fraction
  let parts ← bounded? (numerator * count)
  if parts % denominator = 0 then some (grain.split (parts / denominator)) else none

/-- Adds the number with its unit that stands at the front of a text which begins with a digit; the
text behind the unit is left. -/
def term? (total : Duration) (cs : List Char) : Option (Duration × List Char) := do
  let whole ← number? (cs.takeWhile isNumberPart)
  let (decimals, rest) ←
    match cs.dropWhile isNumberPart with
    | '.' :: rest => do
      let decimals ← decimals? (rest.takeWhile isNumberPart)
      some (some decimals, rest.dropWhile isNumberPart)
    | rest => some (none, rest)
  let u ← unit? (rest.takeWhile isUnitLetter)
  let total ← total.add? (u.grain.split (← bounded? (whole * u.count)))
  let total ←
    match decimals with
    | none => some total
    | some (numerator, denominator) => total.add? (← fraction? u numerator denominator)
  some (total, rest.dropWhile isUnitLetter)

/-- Adds all numbers with their units. Each takes a character at least, so `fuel` only has to be as
large as the text is long. -/
def terms? (fuel : Nat) (total : Duration) (cs : List Char) : Option Duration :=
  match fuel, Text.trimStart cs with
  | _, [] => some total
  | 0, _ => none
  | fuel + 1, c :: rest => do
    if !c.isDigit then none
    let (total, rest) ← term? total (c :: rest)
    terms? fuel total rest

/-- The length of time that a text stands for. A bare zero needs no unit. -/
def parse? (text : List Char) : Option Duration :=
  if text = ['0'] then some ⟨0⟩
  else if (Text.trimStart text).isEmpty then none
  else terms? text.length ⟨0⟩ text

end Duration

end WebSocket

/-!
The shortest decimal number that reads back as a given double: with as few digits as possible, and
of those the one that is nearest to the double.

A double is `m * 2 ^ q`. Every real number between the middles of the gaps to its neighbours rounds
to it, the middles themselves if `m` is even. For one digit, two digits, and so on up to seventeen,
the two neighbours of the double on the grid of such decimal numbers are tried.
-/

namespace WebSocket.Text

/-- A positive double without its sign, `mantissa * 2 ^ exponent`. -/
structure Binary where
  mantissa : Nat
  exponent : Int
  /-- Whether the gap below is half as wide as the gap above. -/
  narrowBelow : Bool

def Binary.ofFloat (x : Float) : Binary :=
  let exponent := (x.toBits >>> 52 &&& 0x7FF).toNat
  let fraction := (x.toBits &&& 0xFFFFFFFFFFFFF).toNat
  if exponent = 0 then ⟨fraction, -1074, false⟩
  else ⟨0x10000000000000 + fraction, (exponent : Int) - 1075, fraction = 0 && 1 < exponent⟩

def power (base : Nat) (exponent : Int) : Nat := Nat.pow base exponent.toNat

/-- Compares `a * 2 ^ p` with `b * 10 ^ e`. -/
def compareScaled (a : Nat) (p : Int) (b : Nat) (e : Int) : Ordering :=
  compare (a * power 2 p * power 10 (-e)) (b * power 10 e * power 2 (-p))

/-- Whether `d * 10 ^ e` reads back as the double. -/
def Binary.readsBack (x : Binary) (d : Nat) (e : Int) : Bool :=
  let closed := x.mantissa % 2 = 0
  let low := compareScaled (4 * x.mantissa - if x.narrowBelow then 1 else 2) (x.exponent - 2) d e
  let high := compareScaled (4 * x.mantissa + 2) (x.exponent - 2) d e
  (low = .lt || (closed && low = .eq)) && (high = .gt || (closed && high = .eq))

/-- How many digits stand in front of the point; zero or less for a number below one tenth. -/
def Binary.magnitude (x : Binary) : Int :=
  let above := x.mantissa * power 2 x.exponent
  let below := power 2 (-x.exponent)
  let guess : Int := ((Nat.toDigits 10 above).length : Int) - (Nat.toDigits 10 below).length
  if compareScaled x.mantissa x.exponent 1 guess = .lt then guess else guess + 1

/-- The decimal number with `count` digits that is nearest to the double among those that read
back; as digits and exponent. -/
def Binary.withDigits? (x : Binary) (count : Nat) : Option (Nat × Int) :=
  let e := x.magnitude - count
  let scaled := x.mantissa * power 2 x.exponent * power 10 (-e)
  let unit := power 2 (-x.exponent) * power 10 e
  let d := scaled / unit
  match x.readsBack d e, x.readsBack (d + 1) e with
  | false, false => none
  | true, false => some (d, e)
  | false, true => some (d + 1, e)
  | true, true =>
    match compare (2 * (scaled % unit)) unit with
    | .lt => some (d, e)
    | .gt => some (d + 1, e)
    | .eq => some (if d % 2 = 0 then d else d + 1, e)

/-- Drops the zeros at the end of a number, at most `fuel` of them. -/
def dropZeros : Nat → Nat × Int → Nat × Int
  | 0, n => n
  | fuel + 1, (d, e) => if d ≠ 0 ∧ d % 10 = 0 then dropZeros fuel (d / 10, e + 1) else (d, e)

/-- The shortest decimal number that reads back as a positive double: its digits, of which the last
is not zero, and its exponent. -/
def shortest (x : Float) : Nat × Int :=
  let b := Binary.ofFloat x
  dropZeros 17 (((List.range 17).findSome? fun i => b.withDigits? (i + 1)).getD (b.mantissa, 0))

end WebSocket.Text

namespace WebSocket.Text

/-- Why a text is no number. -/
inductive DecimalError where
  | empty
  | invalidDigit
  | tooLarge
  deriving DecidableEq

def DecimalError.message : DecimalError → String
  | .empty => "cannot parse integer from empty string"
  | .invalidDigit => "invalid digit found in string"
  | .tooLarge => "number too large to fit in target type"

def digitValue? (c : Char) : Option Nat :=
  if c.isDigit then some (c.toNat - 48) else none

def appendDigit (bound n : Nat) (c : Char) : Except DecimalError Nat :=
  match digitValue? c with
  | none => .error .invalidDigit
  | some d => if n * 10 + d < bound then .ok (n * 10 + d) else .error .tooLarge

/-- The number that the digits spell, if it is below the bound. -/
def readDigits (bound : Nat) (digits : List Char) : Except DecimalError Nat :=
  digits.foldlM (appendDigit bound) 0

def readNat (bound : Nat) : List Char → Except DecimalError Nat
  | [] => .error .empty
  | ['+'] => .error .invalidDigit
  | '+' :: digits => readDigits bound digits
  | digits => readDigits bound digits

end WebSocket.Text

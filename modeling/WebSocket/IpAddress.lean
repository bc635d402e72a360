import WebSocket.Text.Words

namespace WebSocket

/-- Where a server listens. -/
inductive IpAddress where
  | v4 (bytes : List Nat)
  | v6 (groups : List Nat)
  deriving DecidableEq

namespace IpAddress

def hexValue? (c : Char) : Option Nat :=
  if c.isDigit then some (c.toNat - 48)
  else if 'a' ≤ c ∧ c ≤ 'f' then some (c.toNat - 87)
  else if 'A' ≤ c ∧ c ≤ 'F' then some (c.toNat - 55)
  else none

def byte? (cs : List Char) : Option Nat :=
  let n := cs.foldl (fun n c => n * 10 + (c.toNat - 48)) 0
  if !cs.isEmpty && cs.length ≤ 3 && cs.all Char.isDigit && n < 256
      && (cs.length = 1 || cs.head? ≠ some '0') then some n
  else none

def group? (cs : List Char) : Option Nat :=
  if cs.isEmpty || 4 < cs.length then none
  else cs.foldlM (fun n c => (hexValue? c).map (n * 16 + ·)) 0

def v4? (cs : List Char) : Option (List Nat) := do
  let bytes ← (splitWhere (· = '.') cs).mapM byte?
  if bytes.length = 4 then some bytes else none

/-- Groups with colons between them; no groups if there is no text. With `allowBytes` the last
piece may be four bytes, which make two groups. -/
def groups? (allowBytes : Bool) (cs : List Char) : Option (List Nat) :=
  if cs.isEmpty then some []
  else
    let pieces := splitWhere (· = ':') cs
    match allowBytes, pieces.getLast?.bind v4? with
    | true, some [a, b, c, d] =>
      (pieces.dropLast.mapM group?).map (· ++ [a * 256 + b, c * 256 + d])
    | _, _ => pieces.mapM group?

/-- What stands in front of the first two colons in a row, and what stands behind them. -/
def splitGap? (done : List Char) : List Char → Option (List Char × List Char)
  | ':' :: ':' :: rest => some (done.reverse, rest)
  | c :: rest => splitGap? (c :: done) rest
  | [] => none

/-- Eight groups, or fewer around a gap that stands for one zero group at least. -/
def v6? (cs : List Char) : Option (List Nat) :=
  match splitGap? [] cs with
  | none => do
    let groups ← groups? true cs
    if groups.length = 8 then some groups else none
  | some (front, back) => do
    let front ← groups? false front
    let back ← groups? true back
    if front.length + back.length < 8 then
      some (front ++ List.replicate (8 - front.length - back.length) 0 ++ back)
    else none

def parse? (cs : List Char) : Option IpAddress :=
  match v4? cs with
  | some bytes => some (.v4 bytes)
  | none => (v6? cs).map .v6

def groupText (n : Nat) : String :=
  String.ofList (Nat.toDigits 16 n)

def v4Text (bytes : List Nat) : String :=
  ".".intercalate (bytes.map toString)

def zeroRun (groups : List Nat) : Nat :=
  (groups.takeWhile (· = 0)).length

/-- The place and the length of the longest run of zeros, the first of several. -/
def longestZeros (groups : List Nat) : Nat × Nat :=
  (List.range groups.length).foldl (fun (place, length) i =>
    let run := zeroRun (groups.drop i)
    if length < run then (i, run) else (place, length)) (0, 0)

def groupsText (groups : List Nat) : String :=
  ":".intercalate (groups.map groupText)

/-- Eight groups in their shortest form: the longest run of at least two zeros is left out. An
address of four bytes behind a group of ones is written with points. -/
def v6Text (groups : List Nat) : String :=
  match groups with
  | [0, 0, 0, 0, 0, 0xFFFF, high, low] =>
    "::ffff:" ++ v4Text [high / 256, high % 256, low / 256, low % 256]
  | _ =>
    let (place, length) := longestZeros groups
    if 1 < length then
      groupsText (groups.take place) ++ "::" ++ groupsText (groups.drop (place + length))
    else groupsText groups

def display : IpAddress → String
  | .v4 bytes => v4Text bytes
  | .v6 groups => v6Text groups

end IpAddress

end WebSocket

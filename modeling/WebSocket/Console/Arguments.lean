import WebSocket.IpAddress
import WebSocket.Options

/-!
The arguments with which a server is started. An argument names an option: a long name behind two
dashes, or one-letter names in a row behind one dash. An option that takes a value finds it behind
an equals sign, behind its letter, or in the next argument.

The arguments are read from left to right, and the first fault decides. A value that stands in an
argument of its own is looked at only when the next option, or the end, has come.
-/

namespace WebSocket.Console

/-- What the arguments ask for. -/
structure Settings where
  bind : IpAddress
  port : Nat
  maxPayload : Nat
  handshakeTimeout : Duration
  idleTimeout : Option Duration
  maxQueued : Nat
  noLegacy : Bool
  echo : Bool
  json : Bool
  verbose : Bool
  deriving DecidableEq

/-- Why the arguments cannot be used. -/
inductive UsageError where
  /-- There is no such option, or an argument that belongs to none. -/
  | unknownArgument
  | missingValue
  | invalidValue
  | givenTwice
  | unneededValue
  | help
  deriving DecidableEq

def UsageError.message : UsageError → String
  | .unknownArgument => "there is no such argument"
  | .missingValue => "an option lacks its value"
  | .invalidValue => "a value cannot be read"
  | .givenTwice => "an option is given twice"
  | .unneededValue => "an option takes no value"
  | .help => "usage: serve [-b <address>] [-p <port>] [--max-payload <bytes>] "
      ++ "[--handshake-timeout <time>] [--idle-timeout <time>] [--max-queued <count>] "
      ++ "[--no-legacy] [--echo] [--json] [-v]"

/-- What an argument can name. -/
inductive OptionName where
  | bind
  | port
  | maxPayload
  | handshakeTimeout
  | idleTimeout
  | maxQueued
  | noLegacy
  | echo
  | json
  | verbose
  | help
  deriving DecidableEq

namespace OptionName

def ofLong? (name : List Char) : Option OptionName :=
  [("bind", bind), ("port", port), ("max-payload", maxPayload),
    ("handshake-timeout", handshakeTimeout), ("idle-timeout", idleTimeout),
    ("max-queued", maxQueued), ("no-legacy", noLegacy), ("echo", echo), ("json", json),
    ("verbose", verbose), ("help", help)].lookup (String.ofList name)

def ofLetter? : Char → Option OptionName
  | 'b' => some bind
  | 'p' => some port
  | 'v' => some verbose
  | 'h' => some help
  | _ => none

def takesValue : OptionName → Bool
  | bind | port | maxPayload | handshakeTimeout | idleTimeout | maxQueued => true
  | noLegacy | echo | json | verbose | help => false

end OptionName

namespace Settings

def standard : Settings where
  bind := .v4 [0, 0, 0, 0]
  port := 8080
  maxPayload := defaultMaxPayload
  handshakeTimeout := .ofSeconds 10
  idleTimeout := none
  maxQueued := 1024
  noLegacy := false
  echo := false
  json := false
  verbose := false

def options (s : Settings) : Options :=
  { (Options.standard.withMaxQueued s.maxQueued) with
    maxPayload := s.maxPayload
    handshakeTimeout := some s.handshakeTimeout
    idleTimeout := s.idleTimeout
    allowLegacy := !s.noLegacy }

/-- A port. It may be written with a sign; the one port with a minus sign is zero. -/
def readPort? : List Char → Option Nat
  | '-' :: c :: digits => (Text.readDigits 1 (c :: digits)).toOption
  | text => (Text.readNat UInt16.size text).toOption

/-- The settings with an option set to the value that a text stands for. -/
def set? (s : Settings) (name : OptionName) (value : List Char) : Option Settings :=
  match name with
  | .bind => (IpAddress.parse? value).map ({ s with bind := · })
  | .port => (readPort? value).map ({ s with port := · })
  | .maxPayload => (Text.readNat UInt64.size value).toOption.map ({ s with maxPayload := · })
  | .handshakeTimeout => (Duration.parse? value).map ({ s with handshakeTimeout := · })
  | .idleTimeout => (Duration.parse? value).map fun d => { s with idleTimeout := some d }
  | .maxQueued => (Text.readNat UInt64.size value).toOption.map ({ s with maxQueued := · })
  | .noLegacy => some { s with noLegacy := true }
  | .echo => some { s with echo := true }
  | .json => some { s with json := true }
  | .verbose => some { s with verbose := true }
  | .help => some s

end Settings

/-- How far the arguments have been read. -/
structure Reading where
  settings : Settings
  given : List OptionName
  /-- An option that looks for its value in an argument of its own, with the value once it has
  come. -/
  pending : Option (OptionName × Option (List Char))
  ended : Bool

namespace Reading

def start : Reading := ⟨.standard, [], none, false⟩

def give (r : Reading) (name : OptionName) (value : List Char) : Except UsageError Reading :=
  if r.given.contains name then .error .givenTwice
  else
    match r.settings.set? name value with
    | none => .error .invalidValue
    | some settings => .ok { r with settings := settings, given := name :: r.given }

def settle (r : Reading) : Except UsageError Reading :=
  match r.pending with
  | none => .ok r
  | some (_, none) => .error .missingValue
  | some (name, some value) => { r with pending := none }.give name value

def flag (r : Reading) (name : OptionName) : Except UsageError Reading := do
  let r ← r.settle
  if name = .help then throw .help
  r.give name []

/-- Sets an option to the value given with it; without one, the option looks for its value in the
next argument. -/
def option (r : Reading) (name : OptionName) (value : Option (List Char)) :
    Except UsageError Reading := do
  let r ← r.settle
  match value with
  | some value => r.give name value
  | none => return { r with pending := some (name, none) }

/-- An argument behind two dashes: a long name, with its value behind an equals sign. -/
def long (r : Reading) (arg : List Char) : Except UsageError Reading :=
  let value := match arg.dropWhile (· ≠ '=') with
    | [] => none
    | _ :: value => some value
  match OptionName.ofLong? (arg.takeWhile (· ≠ '=')) with
  | none => .error .unknownArgument
  | some name =>
    if name.takesValue then r.option name value
    else if value.isSome then .error .unneededValue
    else r.flag name

/-- An argument behind one dash: letters of options. The value of an option stands right behind its
letter, or behind an equals sign. -/
def letters (r : Reading) : List Char → Except UsageError Reading
  | [] => .ok r
  | c :: rest =>
    match OptionName.ofLetter? c with
    | none => .error .unknownArgument
    | some name =>
      if name.takesValue then
        r.option name (match rest with
          | [] => none
          | '=' :: value => some value
          | value => some value)
      else do
        let r ← r.flag name
        letters r rest

/-- An argument that names no option: the value that an option looks for. -/
def plain (r : Reading) (arg : List Char) : Except UsageError Reading :=
  match r.ended, r.pending with
  | false, some (name, none) => .ok { r with pending := some (name, some arg) }
  | _, _ => .error .unknownArgument

def next (r : Reading) (arg : List Char) : Except UsageError Reading :=
  if r.ended then r.plain arg
  else
    match arg with
    | ['-', '-'] => .ok { r with ended := true }
    | '-' :: '-' :: name => r.long name
    | '-' :: c :: rest => r.letters (c :: rest)
    | _ => r.plain arg

end Reading

def readArguments (args : List String) : Except UsageError Settings := do
  let r ← args.foldlM (fun r arg => Reading.next r arg.toList) .start
  return (← r.settle).settings

end WebSocket.Console

import WebSocket.Error

namespace WebSocket.Console

/-- What a line asks for. -/
inductive Command where
  | broadcast (text : String)
  | send (id : ConnectionId) (text : String)
  | kick (id : ConnectionId)
  | list
  | nothing
  deriving DecidableEq

/-- Why a line cannot be understood. -/
inductive CommandError where
  | sendUsage
  | kickUsage
  | unknown (text : String)
  | invalidId (text : String) (cause : Text.DecimalError)
  deriving DecidableEq

def CommandError.message : CommandError → String
  | .sendUsage => "usage: @<id> <text>"
  | .kickUsage => "usage: /kick <id>"
  | .unknown text => "unknown command: /" ++ text
  | .invalidId text cause => "invalid connection id: " ++ text ++ ": " ++ cause.message

/-- What stands in front of the last two slashes of a line, last character first; the line is given
last character first too. -/
def beforeSlashes? : List Char → Option (List Char)
  | '/' :: '/' :: before => some before
  | _ :: rest => beforeSlashes? rest
  | [] => none

/-- The line without a comment at its end. Two slashes behind a colon belong to an address. -/
def stripComment (line : List Char) : List Char :=
  match beforeSlashes? line.reverse with
  | none => line
  | some before => if before.head? = some ':' then line else before.reverse

def readId (text : List Char) : Except CommandError ConnectionId :=
  match ConnectionId.parse text with
  | .ok id => .ok id
  | .error cause => .error (.invalidId (String.ofList text) cause)

/-- What follows an at sign: an identifier, a blank, and a text. -/
def readSend (rest : List Char) : Except CommandError Command :=
  match rest.dropWhile (!Text.isBlank ·) with
  | [] => .error .sendUsage
  | _ :: text =>
    (readId (rest.takeWhile (!Text.isBlank ·))).map
      fun id => .send id (String.ofList (Text.trimStart text))

/-- What follows a slash: the name of a command, and what it is about. -/
def readSlash (rest : List Char) : Except CommandError Command :=
  match Text.words rest with
  | [name] =>
    if name = "list".toList then .ok .list
    else if name = "kick".toList then .error .kickUsage
    else .error (.unknown (String.ofList rest))
  | name :: id :: _ =>
    if name = "kick".toList then (readId id).map .kick
    else .error (.unknown (String.ofList rest))
  | [] => .error (.unknown (String.ofList rest))

/-- What a line asks for, once comment and blanks around it are gone. -/
def readTrimmed : List Char → Except CommandError Command
  | [] => .ok .nothing
  | '@' :: rest => readSend rest
  | '/' :: rest => readSlash rest
  | line => .ok (.broadcast (String.ofList line))

def Command.parse (line : String) : Except CommandError Command :=
  readTrimmed (Text.trim (stripComment line.toList))

end WebSocket.Console

import WebSocket.Console.Command
import WebSocket.Json
import WebSocket.Server.Handle

namespace WebSocket.Console

/-- The application behind the console. With `echo`, it sends every message back. -/
def application (echo : Bool) : Application :=
  if echo then .echo else .silent

/-- The error of a request about a connection, if there is one. -/
def complaint (id : ConnectionId) : Except Error Unit → Option String
  | .ok _ => none
  | .error e => some (id.display ++ ": " ++ e.message)

def execute (r : Registry) : Command → Option String × Registry
  | .nothing => (none, r)
  | .broadcast text =>
    let (count, r) := r.broadcast text
    (some ("<sent to " ++ toString count ++ ">"), r)
  | .send id text =>
    let (result, r) := r.send id (.text text)
    (complaint id result, r)
  | .kick id =>
    let (result, r) := r.close id .normal
    (complaint id result, r)
  | .list =>
    (some (if r.ids.isEmpty then "<no connections>"
      else " ".intercalate (r.ids.map ConnectionId.display)), r)

def answer (r : Registry) (line : String) : Option String × Registry :=
  match Command.parse line with
  | .ok command => execute r command
  | .error e => (some e.message, r)

/-- How a message is shown. With `json`, one that is JSON is spread over lines. -/
def showMessage (json : Bool) (text : String) : String :=
  if json then ((Json.parse? text).map Json.pretty).getD text else text

def describe (json : Bool) (id : ConnectionId) : Notice → String
  | .opened => id.display ++ " <connected>"
  | .message text => id.display ++ " " ++ showMessage json text
  | .closed => id.display ++ " <disconnected>"

end WebSocket.Console

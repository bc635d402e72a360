import WebSocket.Registry.Basic

namespace WebSocket

/-- A request to a running server. -/
inductive Request where
  | send (id : ConnectionId) (text : String)
  | broadcast (text : String)
  | disconnect (id : ConnectionId)
  deriving DecidableEq

/-- What came of a request. -/
inductive Reply where
  | done (result : Except Error Unit)
  | reached (count : Nat)

def Registry.perform (r : Registry) : Request → Reply × Registry
  | .send id text =>
    let (result, r) := r.send id (.text text)
    (.done result, r)
  | .broadcast text =>
    let (count, r) := r.broadcast text
    (.reached count, r)
  | .disconnect id =>
    let (result, r) := r.close id .normal
    (.done result, r)

def Registry.performAll (r : Registry) : List Request → List Reply × Registry
  | [] => ([], r)
  | request :: rest =>
    let (reply, r) := r.perform request
    let (replies, r) := r.performAll rest
    (reply :: replies, r)

/-- What an application is told about a connection. -/
inductive Notice where
  | opened
  | message (text : String)
  | closed
  deriving DecidableEq

/-- An application: the requests that it makes when it is told something. -/
structure Application where
  respond : ConnectionId → Notice → List Request

namespace Application

def silent : Application := ⟨fun _ _ => []⟩

def echo : Application where
  respond
    | id, .message text => [.send id text]
    | _, _ => []

/-- Sends every message to everybody, and tells everybody who comes and goes. -/
def relay : Application where
  respond
    | id, .opened => [.broadcast (id.display ++ " joined")]
    | _, .message text => [.broadcast text]
    | id, .closed => [.broadcast (id.display ++ " left")]

end Application

/-- A call of the application. -/
structure Call where
  id : ConnectionId
  notice : Notice
  /-- How many connections were listed when the call began. -/
  registered : Nat
  replies : List Reply

end WebSocket

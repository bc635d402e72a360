import WebSocket.Console.Arguments
import WebSocket.Console.Operator
import WebSocket.Server.Loopback

namespace WebSocket.Console

/-- Shows what the server has to say about the calls of the last lines. -/
def showCalls (settings : Settings) (calls : List Call) : IO Unit :=
  calls.forM fun call => IO.println (describe settings.json call.id call.notice)

/-- Reads the lines of the operator until there are no more. -/
partial def converse (settings : Settings) (input : IO.FS.Stream) (w : Loopback) : IO Unit := do
  let line ← input.getLine
  if line.isEmpty then return
  let (shown, registry) := answer w.server.registry line
  shown.forM IO.println
  let w := { w with server := { w.server with registry := registry, calls := [] } }.settle
  showCalls settings w.server.calls
  converse settings input w

/-- Starts a server, or says why the arguments do not allow it. -/
def serve (args : List String) : IO UInt32 := do
  match readArguments args with
  | .error .help =>
    IO.println UsageError.help.message
    return 0
  | .error e =>
    IO.eprintln e.message
    return 2
  | .ok settings =>
    converse settings (← IO.getStdin)
      (.new settings.options (application settings.echo))
    return 0

end WebSocket.Console

def main : List String → IO UInt32
  | "serve" :: args | "s" :: args => WebSocket.Console.serve args
  | _ => do
    IO.eprintln WebSocket.Console.UsageError.help.message
    return 2

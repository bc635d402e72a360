import WebSocket.Frame

namespace WebSocket

/-- The outcome of reading one frame. Only a frame takes bytes away; in every other case the whole
input is still there. -/
inductive Decoded where
  | incomplete
  | frame (frame : Frame) (rest : Bytes)
  | refused (error : Error)
  /-- The announced size of the frame is no 64-bit number: it cannot be computed, and the run of
  the decoder ends there. -/
  | unaddressable
  deriving DecidableEq

/-- Work on a buffer from which bytes are taken. What was taken before a failure stays away; a run
that breaks off in the middle has no result. -/
abbrev Reading := ExceptT Error (StateT Bytes Option)

namespace Reading

variable {α β : Type} {work : Reading α} {next : α → Reading β} {buffer left front : Bytes}

/-- What the work comes to on a buffer, and the bytes that it leaves there. -/
def on (work : Reading α) (buffer : Bytes) : Option (Except Error α × Bytes) :=
  work.run.run buffer

def breakOff : Reading α :=
  ExceptT.lift failure

/-- Takes `n` bytes away. A run that asks for more than there are breaks off. -/
def splitTo (n : Nat) : Reading Bytes := do
  let buffer ← get
  if n ≤ buffer.length then
    set (buffer.drop n)
    return buffer.take n
  else breakOff

def advance (n : Nat) : Reading Unit := do
  let _ ← splitTo n

theorem on_get_bind (next : Bytes → Reading β) (buffer : Bytes) :
    ((get : Reading Bytes) >>= next).on buffer = (next buffer).on buffer := rfl

theorem on_bind_of_ok {a : α} (h : work.on buffer = some (.ok a, left)) :
    (work >>= next).on buffer = (next a).on left := by
  change (work.run.run buffer).bind _ = _
  rw [show work.run.run buffer = some (.ok a, left) from h]
  rfl

theorem on_splitTo {n : Nat} (h : front.length = n) (rest : Bytes) :
    (splitTo n).on (front ++ rest) = some (.ok front, rest) := by
  subst h
  rw [splitTo, on_get_bind, if_pos (by simp)]
  change some (Except.ok ((front ++ rest).take front.length), (front ++ rest).drop front.length) = _
  rw [List.take_left, List.drop_left]

theorem on_advance {n : Nat} (h : front.length = n) (rest : Bytes) :
    (advance n).on (front ++ rest) = some (.ok (), rest) :=
  on_bind_of_ok (on_splitTo h rest)

end Reading

end WebSocket

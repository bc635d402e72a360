import WebSocket.Connection.Basic

namespace WebSocket

/-- How far a connection got with what it was given. -/
inductive Progress where
  | going (connection : Connection)
  /-- A rule was broken, and the connection is as it was when that came out. -/
  | failed (error : Error) (connection : Connection)

namespace Connection

/-- A whole message has arrived. Behind a close frame it is passed over. -/
def onMessage (c : Connection) (opcode : OpCode) (payload : Bytes) : Progress :=
  if c.phase ≠ .established then .going c
  else if opcode = .text && c.options.checkUtf8 && !Utf8.isValid payload then
    .failed .invalidUtf8 c
  else .going { c with pending := c.pending ++ [.message (Utf8.decode payload)] }

/-- The first frame of a message: all of it, or the first fragment. -/
def onData (c : Connection) (frame : Frame) : Progress :=
  if c.fragment.isSome then .failed .invalidFragment c
  else if frame.fin then c.onMessage frame.opcode frame.payload
  else .going { c with
    fragment := some frame.opcode, accumulated := c.accumulated ++ frame.payload }

def onContinuation (c : Connection) (frame : Frame) : Progress :=
  match c.fragment with
  | none => .failed .invalidContinuation c
  | some opcode =>
    if c.options.maxPayload < c.accumulated.length + frame.payload.length then
      .failed .frameTooLarge c
    else if frame.fin then
      { c with fragment := none, accumulated := [] }.onMessage opcode
        (c.accumulated ++ frame.payload)
    else .going { c with accumulated := c.accumulated ++ frame.payload }

/-- What is wrong with the payload of a close frame: a single byte is no code, the reason has to
be UTF-8, and the code has to be one that may stand on the wire. -/
def closeFault? (frame : Frame) : Option Error :=
  if frame.payload.isEmpty then none
  else
    match frame.closeCode? with
    | none => some .invalidCloseFrame
    | some code =>
      if frame.closeReason?.isNone then some .invalidUtf8
      else if code.isAllowed then none
      else some .invalidCloseCode

/-- A close frame: the first one is sent back as it is, the second one ends the connection. -/
def onClose (c : Connection) (frame : Frame) : Progress :=
  match closeFault? frame with
  | some e => .failed e c
  | none =>
    let c := { c with peerClosed := true }
    match c.phase with
    | .established =>
      match c.queue (.closeRaw frame.payload) with
      | .error e => .failed e c
      | .ok c => .going { c with phase := .closing }
    | .closing =>
      let (event, c) := { c with phase := .closed }.reportClosed
      .going { c with pending := c.pending ++ event.toList }
    | _ => .going c

def onFrame (c : Connection) (frame : Frame) : Progress :=
  match frame.opcode with
  | .text | .binary => c.onData frame
  | .continuation => c.onContinuation frame
  | .ping =>
    if c.phase = .established then
      match c.queue (.pong frame.payload) with
      | .error e => .failed e c
      | .ok c => .going c
    else .going c
  | .pong => .going c
  | .close => c.onClose frame

def withBuffered (c : Connection) (bytes : Bytes) : Connection :=
  { c with buffer := { c.buffer with contents := bytes } }

/-- The upgrade was accepted: the answer is queued, the request leaves the buffer, and frames are
read from now on. -/
def upgrade (c : Connection) (u : Handshake.Upgrade) : Connection :=
  { c.write u.response with
    buffer := c.buffer.removeRange 0 u.consumed
    scheme := some u.scheme
    codec := some (.new u.scheme c.options.maxPayload)
    phase := .established
    opened := true
    pending := c.pending ++ [.opened] }

/-- One step with what is buffered. -/
inductive Round where
  | waiting
  /-- A request or a frame was taken from the buffer and acted on. -/
  | progress (progress : Progress)
  | refused (error : Error) (connection : Connection)
  /-- The bytes at the front announce a frame whose size is no number of 64 bits. -/
  | abandoned

def round (c : Connection) : Round :=
  match c.phase with
  | .connecting | .closed => .waiting
  | .handshaking =>
    match c.options.negotiator.negotiate c.buffer.contents with
    | .incomplete => .waiting
    | .rejected e => .refused e (c.write Handshake.refusal)
    | .accepted u => .progress (.going (c.upgrade u))
  | .established | .closing =>
    match c.codec with
    | none => .waiting
    | some codec =>
      match codec.decode c.buffer.contents with
      | .incomplete => .waiting
      | .refused e => .refused e c
      | .unaddressable => .abandoned
      | .frame frame rest => .progress ((c.withBuffered rest).onFrame frame)

theorem buffer_of_onMessage {c after : Connection} {opcode : OpCode} {payload : Bytes}
    (h : c.onMessage opcode payload = .going after) : after.buffer = c.buffer := by
  unfold onMessage at h
  split at h
  · simp only [Progress.going.injEq] at h
    rw [← h]
  · split at h
    · simp at h
    · simp only [Progress.going.injEq] at h
      rw [← h]

theorem buffer_of_onData {c after : Connection} {frame : Frame}
    (h : c.onData frame = .going after) : after.buffer = c.buffer := by
  unfold onData at h
  split at h
  · simp at h
  · split at h
    · exact buffer_of_onMessage h
    · simp only [Progress.going.injEq] at h
      rw [← h]

theorem buffer_of_onContinuation {c after : Connection} {frame : Frame}
    (h : c.onContinuation frame = .going after) : after.buffer = c.buffer := by
  unfold onContinuation at h
  split at h
  · simp at h
  · split at h
    · simp at h
    · split at h
      · exact (buffer_of_onMessage h).trans rfl
      · simp only [Progress.going.injEq] at h
        rw [← h]

theorem buffer_of_onClose {c after : Connection} {frame : Frame}
    (h : c.onClose frame = .going after) : after.buffer = c.buffer := by
  unfold onClose at h
  split at h
  · simp at h
  · simp only at h
    split at h
    · split at h
      · simp at h
      · rename_i queued hqueue
        obtain ⟨bytes, rfl⟩ := eq_write_of_queue hqueue
        simp only [Progress.going.injEq] at h
        rw [← h, write]
    · simp only [reportClosed, Progress.going.injEq] at h
      rw [← h]
      split <;> rfl
    · simp only [Progress.going.injEq] at h
      rw [← h]

theorem buffer_of_onFrame {c after : Connection} {frame : Frame}
    (h : c.onFrame frame = .going after) : after.buffer = c.buffer := by
  unfold onFrame at h
  split at h
  · exact buffer_of_onData h
  · exact buffer_of_onData h
  · exact buffer_of_onContinuation h
  · split at h
    · split at h
      · simp at h
      · rename_i queued hqueue
        obtain ⟨bytes, rfl⟩ := eq_write_of_queue hqueue
        simp only [Progress.going.injEq] at h
        rw [← h, write]
    · simp only [Progress.going.injEq] at h
      rw [← h]
  · simp only [Progress.going.injEq] at h
    rw [← h]
  · exact buffer_of_onClose h

/-- A step that takes something from the buffer makes it shorter. -/
theorem size_lt_of_round {c after : Connection} (h : c.round = .progress (.going after)) :
    after.buffer.size < c.buffer.size := by
  unfold round at h
  split at h
  · simp at h
  · simp at h
  · split at h
    · simp at h
    · simp at h
    · rename_i u hu
      simp only [Round.progress.injEq, Progress.going.injEq] at h
      subst h
      have hconsumed := Handshake.length_le_consumed hu
      have hpos := List.length_pos_iff.2 (Handshake.ne_nil_of_accepted hu)
      simp only [Handshake.headEnd, Handshake.lineEnd, List.length_append, List.length_cons,
        List.length_nil] at hconsumed
      simp only [upgrade, Accumulator.removeRange, Accumulator.size, List.take_zero,
        List.nil_append, List.length_drop]
      omega
  all_goals
    split at h
    · simp at h
    · split at h
      · simp at h
      · simp at h
      · simp at h
      · rename_i frame rest hdecode
        simp only [Round.progress.injEq] at h
        have hlength := Codec.length_lt_of_decode hdecode
        rw [buffer_of_onFrame h]
        simp only [withBuffered, Accumulator.size]
        omega

/-- What came of acting on everything that is buffered. -/
inductive Processed where
  | waiting (connection : Connection)
  | failed (error : Error) (connection : Connection)
  | abandoned (connection : Connection)

/-- Takes requests and frames from the buffer as long as there are any. -/
def process (c : Connection) : Processed :=
  match _ : c.round with
  | .waiting => .waiting c
  | .refused e after => .failed e after
  | .abandoned => .abandoned c
  | .progress (.failed e after) => .failed e after
  | .progress (.going after) => after.process
termination_by c.buffer.size
decreasing_by exact size_lt_of_round (by assumption)

/-- What the owner of a connection learns from handing in a chunk. -/
inductive Received where
  /-- All of it was taken in; these are the events that came of it. -/
  | events (events : List Event)
  /-- The connection is closed because of an error. Events from before the error wait for
  `Connection.onDisconnect`. -/
  | failed (error : Error)
  /-- The run ended in the middle; the connection cannot be used any more. -/
  | abandoned
  deriving DecidableEq

/-- The buffer is full and still holds nothing complete. -/
def overflow (c : Connection) : Connection :=
  (if c.phase = .handshaking then c.write Handshake.refusal else c).fail .readBufferFull

def takePending (c : Connection) : Received × Connection :=
  (.events c.pending, { c with pending := [] })

/-- Takes in bytes, as many at a time as the buffer has room for. -/
def absorb (c : Connection) (data : Bytes) : Received × Connection :=
  if _ : data = [] then c.takePending
  else if c.phase = .closed then c.takePending
  else if _ : c.buffer.room = 0 then (.failed .readBufferFull, c.overflow)
  else
    match c.buffer.append (data.take c.buffer.room) with
    | .error e => (.failed e, c.fail e)
    | .ok buffer =>
      match process { c with buffer := buffer } with
      | .waiting after => after.absorb (data.drop c.buffer.room)
      | .failed e after => (.failed e, after.fail e)
      | .abandoned after => (.abandoned, { after with phase := .closed })
termination_by data.length
decreasing_by
  have := List.length_pos_iff.2 ‹¬data = []›
  simp only [List.length_drop]
  omega

/-- Takes in a chunk of what the peer sends. How the bytes are cut into chunks makes no
difference. -/
def receive (c : Connection) (data : Bytes) : Received × Connection :=
  c.accept.absorb data

end Connection

end WebSocket

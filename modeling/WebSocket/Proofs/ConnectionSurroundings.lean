import WebSocket.Connection.Receive
import WebSocket.Proofs.FrameStability
import WebSocket.Proofs.NegotiationStability

/-!
A connection does the same whatever waits around it: events and bytes that were queued earlier stay
in front, and bytes that arrive later stay behind what it takes from its buffer.
-/

namespace WebSocket

/-- The same progress of another connection. -/
def Progress.map (f : Connection → Connection) : Progress → Progress
  | .going c => .going (f c)
  | .failed e c => .failed e (f c)

def Connection.Round.map (f : Connection → Connection) : Round → Round
  | .waiting => .waiting
  | .progress p => .progress (p.map f)
  | .refused e c => .refused e (f c)
  | .abandoned => .abandoned

def Connection.Processed.map (f : Connection → Connection) : Processed → Processed
  | .waiting c => .waiting (f c)
  | .failed e c => .failed e (f c)
  | .abandoned c => .abandoned (f c)

/-- Goes on with a connection that still waits for bytes. -/
def Connection.Processed.andThen (next : Connection → Processed) : Processed → Processed
  | .waiting c => next c
  | .failed e c => .failed e c
  | .abandoned c => .abandoned c

namespace Connection

/-- The connection with `events` and `sent` queued before its own, and with `more` bytes behind
those it has not understood yet. -/
def around (events : List Event) (sent more : Bytes) (c : Connection) : Connection :=
  { c with
    buffer := { c.buffer with contents := c.buffer.contents ++ more }
    pending := events ++ c.pending
    outbound := sent ++ c.outbound }

section

variable (events : List Event) (sent more : Bytes) (c : Connection)

@[simp] theorem around_options : (c.around events sent more).options = c.options := rfl

@[simp] theorem around_phase : (c.around events sent more).phase = c.phase := rfl

@[simp] theorem around_codec : (c.around events sent more).codec = c.codec := rfl

@[simp] theorem around_fragment : (c.around events sent more).fragment = c.fragment := rfl

@[simp] theorem around_pending : (c.around events sent more).pending = events ++ c.pending := rfl

@[simp] theorem around_outbound : (c.around events sent more).outbound = sent ++ c.outbound := rfl

@[simp] theorem around_contents :
    (c.around events sent more).buffer.contents = c.buffer.contents ++ more := rfl

@[simp] theorem around_limit : (c.around events sent more).buffer.limit = c.buffer.limit := rfl

end

variable (events : List Event) (sent more : Bytes)

theorem write_around (c : Connection) (bytes : Bytes) :
    (c.around events sent more).write bytes = (c.write bytes).around events sent more := by
  simp [write, around]

theorem queue_around (c : Connection) (frame : Frame) :
    (c.around events sent more).queue frame =
      (c.queue frame).map (around events sent more) := by
  simp only [queue, around_codec]
  cases c.codec with
  | none => rfl
  | some codec =>
      cases hencode : codec.encode frame with
      | error e => simp [hencode, Except.map]
      | ok bytes => simp [hencode, Except.map, write_around]

theorem reportClosed_around (c : Connection) :
    (c.around events sent more).reportClosed =
      (c.reportClosed.1, c.reportClosed.2.around events sent more) := by
  cases hopened : c.opened <;> cases hreported : c.closedReported <;>
    simp [reportClosed, around, hopened, hreported]

theorem accept_around (c : Connection) :
    (c.around events sent more).accept = c.accept.around events sent more := by
  by_cases hphase : c.phase = .connecting <;> simp [accept, hphase, around]

theorem fail_around (c : Connection) (e : Error) :
    (c.around events sent more).fail e = (c.fail e).around events sent more := by
  by_cases hphase : c.phase = .established
  · cases hcode : e.closeCode? with
    | none => simp [fail, hphase, hcode, around]
    | some code =>
        simp only [fail, around_phase, hphase, hcode, queue_around, if_true]
        cases c.queue (.close code (Utf8.encode e.message)) <;> rfl
  · simp [fail, hphase, around]

theorem sendText_around (c : Connection) (text : String) :
    (c.around events sent more).sendText text =
      (c.sendText text).map (around events sent more) := by
  by_cases hphase : c.phase = .established
  · simp only [sendText, around_phase, hphase, if_true, queue_around]
  · simp [sendText, hphase, Except.map]

theorem sendEncoded_around (c : Connection) (bytes : Bytes) :
    (c.around events sent more).sendEncoded bytes =
      (c.sendEncoded bytes).map (around events sent more) := by
  by_cases hphase : c.phase = .established
  · simp [sendEncoded, hphase, write_around, Except.map]
  · simp [sendEncoded, hphase, Except.map]

theorem close_around (c : Connection) (code : CloseCode) :
    (c.around events sent more).close code = (c.close code).around events sent more := by
  cases hphase : c.phase with
  | established =>
      simp only [close, around_phase, hphase, queue_around]
      cases c.queue (.close code []) <;> rfl
  | connecting | handshaking => simp [close, hphase, around]
  | closing | closed => simp [close, hphase]

theorem onTimeout_around (c : Connection) :
    (c.around events sent more).onTimeout =
      (c.onTimeout.1, c.onTimeout.2.around events sent more) := by
  cases hphase : c.phase with
  | connecting | handshaking | established => simp [onTimeout, hphase, fail_around]
  | closing | closed => simp [onTimeout, hphase, around]

theorem finish_around (c : Connection) :
    (c.around events sent more).finish =
      (c.finish.1, c.finish.2.around events sent more) := by
  by_cases hending : (c.phase = .closing && c.peerClosed) = true
  · unfold finish
    rw [if_pos hending]
    refine (if_pos hending).trans ?_
    exact reportClosed_around events sent more { c with phase := .closed }
  · unfold finish
    rw [if_neg hending]
    exact if_neg hending

theorem onDisconnect_around (c : Connection) :
    (c.around events sent more).onDisconnect =
      (events ++ c.onDisconnect.1,
        { c.onDisconnect.2.around events sent more with pending := [] }) := by
  cases hopened : c.opened <;> cases hreported : c.closedReported <;>
    simp [onDisconnect, reportClosed, around, hopened, hreported]

theorem onMessage_around (c : Connection) (opcode : OpCode) (payload : Bytes) :
    (c.around events sent more).onMessage opcode payload =
      (c.onMessage opcode payload).map (around events sent more) := by
  unfold onMessage
  by_cases hphase : c.phase ≠ .established
  · rw [if_pos hphase, if_pos (show (c.around events sent more).phase ≠ .established from hphase)]
    rfl
  rw [if_neg hphase, if_neg (show ¬(c.around events sent more).phase ≠ .established from hphase)]
  by_cases hinvalid : (opcode = .text && c.options.checkUtf8 && !Utf8.isValid payload) = true
  · rw [if_pos hinvalid]
    exact if_pos hinvalid
  · rw [if_neg hinvalid]
    refine (if_neg hinvalid).trans ?_
    simp [Progress.map, around]

theorem onData_around (c : Connection) (frame : Frame) :
    (c.around events sent more).onData frame =
      (c.onData frame).map (around events sent more) := by
  simp only [onData, onMessage_around, around_fragment]
  split
  · rfl
  split
  · rfl
  · rfl

theorem onContinuation_around (c : Connection) (frame : Frame) :
    (c.around events sent more).onContinuation frame =
      (c.onContinuation frame).map (around events sent more) := by
  cases hfragment : c.fragment with
  | none => simp [onContinuation, hfragment, Progress.map]
  | some opcode =>
      simp only [onContinuation, around_fragment, hfragment]
      by_cases hlarge : c.options.maxPayload < c.accumulated.length + frame.payload.length
      · rw [if_pos hlarge]
        exact if_pos hlarge
      rw [if_neg hlarge]
      refine (if_neg hlarge).trans ?_
      split
      · exact onMessage_around events sent more { c with fragment := none, accumulated := [] }
          opcode (c.accumulated ++ frame.payload)
      · rfl

theorem onClose_around (c : Connection) (frame : Frame) :
    (c.around events sent more).onClose frame =
      (c.onClose frame).map (around events sent more) := by
  unfold onClose
  cases closeFault? frame with
  | some e => rfl
  | none =>
      cases hphase : c.phase with
      | connecting | handshaking | closed => simp only [around_phase, hphase]; rfl
      | established =>
          have hqueue : ({ c.around events sent more with peerClosed := true } : Connection).queue
              (.closeRaw frame.payload) =
              (({ c with peerClosed := true } : Connection).queue (.closeRaw frame.payload)).map
                (around events sent more) :=
            queue_around events sent more { c with peerClosed := true } _
          simp only [around_phase, hphase] at hqueue ⊢
          rw [hqueue]
          cases Connection.queue { c with phase := .established, peerClosed := true }
            (.closeRaw frame.payload) <;> rfl
      | closing =>
          have hreport := reportClosed_around events sent more
            { c with peerClosed := true, phase := .closed }
          simp only [around, hphase] at hreport ⊢
          rw [hreport]
          simp [Progress.map, around]

theorem onFrame_around (c : Connection) (frame : Frame) :
    (c.around events sent more).onFrame frame =
      (c.onFrame frame).map (around events sent more) := by
  simp only [onFrame, onData_around, onContinuation_around, onClose_around, queue_around,
    around_phase]
  cases frame.opcode with
  | ping =>
      simp only
      split
      · cases c.queue (.pong frame.payload) <;> rfl
      · rfl
  | pong => rfl
  | _ => rfl

theorem upgrade_around (c : Connection) {u : Handshake.Upgrade}
    (h : u.consumed ≤ c.buffer.contents.length) :
    (c.around events sent more).upgrade u = (c.upgrade u).around events sent more := by
  have hdrop : (c.buffer.contents ++ more).drop u.consumed =
      c.buffer.contents.drop u.consumed ++ more := List.drop_append_of_le_length h
  simp [upgrade, around, write, Accumulator.removeRange, hdrop]

/-- A step that does not wait for more bytes is the same with more bytes behind. -/
theorem round_around (c : Connection) (h : c.round ≠ .waiting ∨ more = []) :
    (c.around events sent more).round = c.round.map (around events sent more) := by
  have hframes : ∀ codec : Codec, codec.decode c.buffer.contents ≠ .incomplete ∨ more = [] →
      codec.decode (c.buffer.contents ++ more) =
        (codec.decode c.buffer.contents).behind more := by
    intro codec hdecode
    rcases hdecode with hdecode | rfl
    · exact Codec.decode_append hdecode more
    · rw [List.append_nil]
      cases codec.decode c.buffer.contents <;> simp [Decoded.behind]
  unfold round at h ⊢
  cases hphase : c.phase with
  | connecting | closed => simp only [around_phase, hphase]; rfl
  | handshaking =>
      simp only [around_phase, around_options, around_contents, hphase] at h ⊢
      cases hnegotiate : c.options.negotiator.negotiate c.buffer.contents with
      | incomplete =>
          rw [hnegotiate] at h
          obtain rfl : more = [] := by simpa using h
          rw [List.append_nil, hnegotiate]
          rfl
      | rejected e =>
          rw [Handshake.Negotiator.negotiate_append_of_rejected hnegotiate more]
          simp only [write_around]
          rfl
      | accepted u =>
          rw [Handshake.Negotiator.negotiate_append_of_accepted hnegotiate more]
          simp only [upgrade_around events sent more c
            (Handshake.Negotiator.consumed_le_of_accepted hnegotiate)]
          rfl
  | established | closing =>
      simp only [around_phase, around_contents, around_codec, hphase] at h ⊢
      cases hcodec : c.codec with
      | none => rfl
      | some codec =>
          simp only [hcodec] at h ⊢
          have hincomplete : codec.decode c.buffer.contents ≠ .incomplete ∨ more = [] := by
            refine h.imp_left fun hwaiting hdecode => ?_
            simp [hdecode] at hwaiting
          rw [hframes codec hincomplete]
          cases codec.decode c.buffer.contents with
          | frame f rest =>
              simp only [Decoded.behind, Round.map]
              exact congrArg Round.progress
                (onFrame_around events sent more (c.withBuffered rest) f)
          | _ => rfl

theorem process_eq (c : Connection) :
    c.process = match c.round with
      | .waiting => .waiting c
      | .refused e after => .failed e after
      | .abandoned => .abandoned c
      | .progress (.failed e after) => .failed e after
      | .progress (.going after) => after.process := by
  rw [process]
  split <;> simp [*]

/-- Taking everything from a longer buffer is taking everything from its front, and then from the
rest. -/
theorem process_around (c : Connection) :
    (c.around events sent more).process =
      (c.process.map (around events sent more)).andThen process := by
  fun_induction process c with
  | case1 c hround => rfl
  | case2 c e after hround =>
      rw [process_eq, round_around events sent more c (by simp [hround]), hround]
      rfl
  | case3 c hround =>
      rw [process_eq, round_around events sent more c (by simp [hround]), hround]
      rfl
  | case4 c e after hround =>
      rw [process_eq, round_around events sent more c (by simp [hround]), hround]
      rfl
  | case5 c after hround ih =>
      rw [process_eq, round_around events sent more c (by simp [hround]), hround]
      exact ih

theorem round_of_process {c after : Connection} (h : c.process = .waiting after) :
    after.round = .waiting := by
  fun_induction process c with
  | case1 c hround =>
      cases h
      exact hround
  | case2 c e after hround => simp at h
  | case3 c hround => simp at h
  | case4 c e after hround => simp at h
  | case5 c after hround ih => exact ih h

theorem process_of_round {c : Connection} (h : c.round = .waiting) : c.process = .waiting c := by
  rw [process_eq, h]

theorem process_around_nil (c : Connection) :
    (c.around events sent []).process = c.process.map (around events sent []) := by
  rw [process_around]
  cases hprocess : c.process with
  | failed e after => rfl
  | abandoned after => rfl
  | waiting after =>
      have hround : (after.around events sent []).round = .waiting := by
        rw [round_around events sent [] after (.inr rfl), round_of_process hprocess]
        rfl
      exact process_of_round hround

end Connection

end WebSocket

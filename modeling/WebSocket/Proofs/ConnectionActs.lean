import WebSocket.Connection.Receive
import Mathlib.Logic.Basic

namespace WebSocket.Connection

/-- What a whole message can come to. -/
inductive Delivered (c : Connection) (opcode : OpCode) (payload : Bytes) : Progress → Prop where
  /-- Behind a close frame it is passed over. -/
  | dropped (hphase : c.phase ≠ .established) : Delivered c opcode payload (.going c)
  | garbled (hphase : c.phase = .established) (hopcode : opcode = .text)
      (hcheck : c.options.checkUtf8 = true) (hinvalid : Utf8.isValid payload = false) :
      Delivered c opcode payload (.failed .invalidUtf8 c)
  | handed (hphase : c.phase = .established)
      (hvalid : opcode = .text → c.options.checkUtf8 = true → Utf8.isValid payload = true) :
      Delivered c opcode payload
        (.going { c with pending := c.pending ++ [.message (Utf8.decode payload)] })

theorem delivered (c : Connection) (opcode : OpCode) (payload : Bytes) :
    Delivered c opcode payload (c.onMessage opcode payload) := by
  unfold onMessage
  split
  · rename_i hphase
    exact .dropped hphase
  rename_i hphase
  rw [not_not] at hphase
  split
  · rename_i hinvalid
    simp only [Bool.and_eq_true, decide_eq_true_eq, Bool.not_eq_true'] at hinvalid
    exact .garbled hphase hinvalid.1.1 hinvalid.1.2 hinvalid.2
  · rename_i hvalid
    refine .handed hphase fun hopcode hcheck => ?_
    simpa [hopcode, hcheck] using hvalid

/-- What a frame can come to. -/
inductive Acted (c : Connection) (f : Frame) : Progress → Prop where
  | ignored (hopcode : f.opcode = .pong ∨ f.opcode = .ping ∧ c.phase ≠ .established) :
      Acted c f (.going c)
  | answered {after : Connection} (hopcode : f.opcode = .ping) (hphase : c.phase = .established)
      (hqueue : c.queue (.pong f.payload) = .ok after) : Acted c f (.going after)
  | unanswered {e : Error} (hopcode : f.opcode = .ping) (hphase : c.phase = .established)
      (hqueue : c.queue (.pong f.payload) = .error e) : Acted c f (.failed e c)
  | interleaved (hopcode : f.opcode = .text ∨ f.opcode = .binary)
      (hfragment : c.fragment.isSome = true) : Acted c f (.failed .invalidFragment c)
  | begun (hopcode : f.opcode = .text ∨ f.opcode = .binary) (hfragment : c.fragment = none)
      (hfin : f.fin = false) :
      Acted c f (.going { c with
        fragment := some f.opcode, accumulated := c.accumulated ++ f.payload })
  | single {p : Progress} (hopcode : f.opcode = .text ∨ f.opcode = .binary)
      (hfragment : c.fragment = none) (hfin : f.fin = true)
      (hdelivered : Delivered c f.opcode f.payload p) : Acted c f p
  | orphaned (hopcode : f.opcode = .continuation) (hfragment : c.fragment = none) :
      Acted c f (.failed .invalidContinuation c)
  | oversized (hopcode : f.opcode = .continuation) (hfragment : c.fragment.isSome = true)
      (hlarge : c.options.maxPayload < c.accumulated.length + f.payload.length) :
      Acted c f (.failed .frameTooLarge c)
  | continued {opcode : OpCode} (hopcode : f.opcode = .continuation)
      (hfragment : c.fragment = some opcode)
      (hfits : c.accumulated.length + f.payload.length ≤ c.options.maxPayload)
      (hfin : f.fin = false) :
      Acted c f (.going { c with accumulated := c.accumulated ++ f.payload })
  | completed {opcode : OpCode} {p : Progress} (hopcode : f.opcode = .continuation)
      (hfragment : c.fragment = some opcode)
      (hfits : c.accumulated.length + f.payload.length ≤ c.options.maxPayload)
      (hfin : f.fin = true)
      (hdelivered : Delivered { c with fragment := none, accumulated := [] } opcode
        (c.accumulated ++ f.payload) p) : Acted c f p
  | misclosed {e : Error} (hopcode : f.opcode = .close) (hfault : closeFault? f = some e) :
      Acted c f (.failed e c)
  | echoed {after : Connection} (hopcode : f.opcode = .close) (hfault : closeFault? f = none)
      (hphase : c.phase = .established)
      (hqueue : c.queue (.closeRaw f.payload) = .ok after) :
      Acted c f (.going { after with peerClosed := true, phase := .closing })
  | unechoed {e : Error} (hopcode : f.opcode = .close) (hfault : closeFault? f = none)
      (hphase : c.phase = .established)
      (hqueue : c.queue (.closeRaw f.payload) = .error e) :
      Acted c f (.failed e { c with peerClosed := true })
  | ended (hopcode : f.opcode = .close) (hfault : closeFault? f = none)
      (hphase : c.phase = .closing) :
      Acted c f (.going (
        let (event, after) := { c with peerClosed := true, phase := .closed }.reportClosed
        { after with pending := after.pending ++ event.toList }))
  | late (hopcode : f.opcode = .close) (hfault : closeFault? f = none)
      (hphase : c.phase ≠ .established) (hphase' : c.phase ≠ .closing) :
      Acted c f (.going { c with peerClosed := true })

theorem acted_onData {c : Connection} {f : Frame}
    (hopcode : f.opcode = .text ∨ f.opcode = .binary) : Acted c f (c.onData f) := by
  unfold onData
  split
  · rename_i hfragment
    exact .interleaved hopcode hfragment
  rename_i hfragment
  simp only [Bool.not_eq_true, Option.isSome_eq_false_iff, Option.isNone_iff_eq_none] at hfragment
  split
  · rename_i hfin
    exact .single hopcode hfragment hfin (delivered c f.opcode f.payload)
  · rename_i hfin
    exact .begun hopcode hfragment (by simpa using hfin)

theorem acted_onContinuation {c : Connection} {f : Frame} (hopcode : f.opcode = .continuation) :
    Acted c f (c.onContinuation f) := by
  unfold onContinuation
  split
  · rename_i hfragment
    exact .orphaned hopcode hfragment
  rename_i opcode hfragment
  split
  · rename_i hlarge
    exact .oversized hopcode (by simp [hfragment]) hlarge
  rename_i hfits
  split
  · rename_i hfin
    exact .completed hopcode hfragment (by omega) hfin (delivered _ _ _)
  · rename_i hfin
    exact .continued hopcode hfragment (by omega) (by simpa using hfin)

theorem queue_peerClosed (c : Connection) (f : Frame) :
    ({ c with peerClosed := true } : Connection).queue f =
      (c.queue f).map fun after => { after with peerClosed := true } := by
  cases hcodec : c.codec with
  | none => simp [queue, hcodec, Except.map]
  | some codec =>
      cases hencode : codec.encode f with
      | error e => simp [queue, hcodec, hencode, Except.map]
      | ok bytes => simp [queue, hcodec, hencode, Except.map, write]

theorem acted_onClose {c : Connection} {f : Frame} (hopcode : f.opcode = .close) :
    Acted c f (c.onClose f) := by
  unfold onClose
  split
  · rename_i e hfault
    exact .misclosed hopcode hfault
  rename_i hfault
  simp only [queue_peerClosed]
  split
  · rename_i hphase
    cases hqueue : c.queue (.closeRaw f.payload) with
    | error e => exact .unechoed hopcode hfault hphase hqueue
    | ok after =>
        have hechoed := Acted.echoed hopcode hfault hphase hqueue
        exact hechoed
  · rename_i hphase
    exact .ended hopcode hfault hphase
  · rename_i hphase hphase'
    exact .late hopcode hfault hphase hphase'

theorem acted (c : Connection) (f : Frame) : Acted c f (c.onFrame f) := by
  unfold onFrame
  split
  · rename_i hopcode
    exact acted_onData (.inl hopcode)
  · rename_i hopcode
    exact acted_onData (.inr hopcode)
  · rename_i hopcode
    exact acted_onContinuation hopcode
  · rename_i hopcode
    split
    · rename_i hphase
      split
      · rename_i e hqueue
        exact .unanswered hopcode hphase hqueue
      · rename_i after hqueue
        exact .answered hopcode hphase hqueue
    · rename_i hphase
      exact .ignored (.inr ⟨hopcode, hphase⟩)
  · rename_i hopcode
    exact .ignored (.inl hopcode)
  · rename_i hopcode
    exact acted_onClose hopcode

/-- The phases in which frames are read. -/
def Framed (c : Connection) : Prop :=
  c.phase = .established ∨ c.phase = .closing

section

variable {c : Connection} {codec : Codec} (hframed : c.Framed) (hcodec : c.codec = some codec)

include hframed hcodec

theorem round_of_incomplete (hdecode : codec.decode c.buffer.contents = .incomplete) :
    c.round = .waiting := by
  rcases hframed with hphase | hphase <;> simp only [round, hphase, hcodec, hdecode]

theorem round_of_refused {e : Error} (hdecode : codec.decode c.buffer.contents = .refused e) :
    c.round = .refused e c := by
  rcases hframed with hphase | hphase <;> simp only [round, hphase, hcodec, hdecode]

theorem round_of_frame {f : Frame} {rest : Bytes}
    (hdecode : codec.decode c.buffer.contents = .frame f rest) :
    c.round = .progress ((c.withBuffered rest).onFrame f) := by
  rcases hframed with hphase | hphase <;> simp only [round, hphase, hcodec, hdecode]

end

/-- What one step with the buffer can come to. -/
inductive Rounded (c : Connection) : Round → Prop where
  | waiting : Rounded c .waiting
  | upgraded {u : Handshake.Upgrade} (hphase : c.phase = .handshaking)
      (hnegotiate : c.options.negotiator.negotiate c.buffer.contents = .accepted u) :
      Rounded c (.progress (.going (c.upgrade u)))
  | rejected {e : Error} (hphase : c.phase = .handshaking)
      (hnegotiate : c.options.negotiator.negotiate c.buffer.contents = .rejected e) :
      Rounded c (.refused e (c.write Handshake.refusal))
  | acted {codec : Codec} {f : Frame} {rest : Bytes} {p : Progress} (hframed : c.Framed)
      (hcodec : c.codec = some codec) (hdecode : codec.decode c.buffer.contents = .frame f rest)
      (hacted : Acted (c.withBuffered rest) f p) : Rounded c (.progress p)
  | refused {codec : Codec} {e : Error} (hframed : c.Framed) (hcodec : c.codec = some codec)
      (hdecode : codec.decode c.buffer.contents = .refused e) : Rounded c (.refused e c)
  | abandoned {codec : Codec} (hframed : c.Framed) (hcodec : c.codec = some codec)
      (hdecode : codec.decode c.buffer.contents = .unaddressable) : Rounded c .abandoned

theorem rounded_of_framed {c : Connection} (hframed : c.Framed) :
    Rounded c (match c.codec with
      | none => .waiting
      | some codec =>
        match codec.decode c.buffer.contents with
        | .incomplete => .waiting
        | .refused e => .refused e c
        | .unaddressable => .abandoned
        | .frame f rest => .progress ((c.withBuffered rest).onFrame f)) := by
  cases hcodec : c.codec with
  | none => exact .waiting
  | some codec =>
      simp only
      split
      · exact .waiting
      · rename_i e hdecode
        exact .refused hframed hcodec hdecode
      · rename_i hdecode
        exact .abandoned hframed hcodec hdecode
      · rename_i f rest hdecode
        exact .acted hframed hcodec hdecode (acted _ f)

theorem rounded (c : Connection) : Rounded c c.round := by
  unfold round
  split
  · exact .waiting
  · exact .waiting
  · rename_i hphase
    split
    · exact .waiting
    · rename_i e hnegotiate
      exact .rejected hphase hnegotiate
    · rename_i u hnegotiate
      exact .upgraded hphase hnegotiate
  · rename_i hphase
    exact rounded_of_framed (.inl hphase)
  · rename_i hphase
    exact rounded_of_framed (.inr hphase)

end WebSocket.Connection

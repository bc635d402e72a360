import WebSocket.Proofs.ChunkIndependence
import WebSocket.Proofs.FrameRoundTrip

/-!
Messages from end to end: what a client sends as messages, in any fragments and with pings and
pongs in between, an open connection hands out as the same messages, and answers each ping.
-/

namespace WebSocket

/-- A ping or a pong, as a client sends it. -/
structure Signal where
  isPing : Bool
  key : MaskKey
  payload : Bytes

/-- A part of a message, and the signals that a client sends in front of it. -/
structure Fragment where
  signals : List Signal
  key : MaskKey
  payload : Bytes

/-- A message, and how a client cuts it into fragments. -/
structure Message where
  isText : Bool
  first : Fragment
  others : List Fragment

def Signal.frame (s : Signal) : Frame :=
  (if s.isPing then Frame.ping s.payload else Frame.pong s.payload).withMask s.key

def Fragment.frames (opcode : OpCode) (fin : Bool) (f : Fragment) : List Frame :=
  f.signals.map Signal.frame ++ [(Frame.plain fin opcode f.payload).withMask f.key]

namespace Message

def opcode (m : Message) : OpCode :=
  if m.isText then .text else .binary

theorem opcode_cases (m : Message) : m.opcode = .text ∨ m.opcode = .binary := by
  cases htext : m.isText <;> simp [opcode, htext]

theorem opcode_isControl (m : Message) : m.opcode.isControl = false := by
  rcases m.opcode_cases with hopcode | hopcode <;> rw [hopcode] <;> rfl

/-- The frames of the fragments behind the first; the last one is final. -/
def continuations : List Fragment → List Frame
  | [] => []
  | f :: fs => f.frames .continuation fs.isEmpty ++ continuations fs

def frames (m : Message) : List Frame :=
  m.first.frames m.opcode m.others.isEmpty ++ continuations m.others

def payload (m : Message) : Bytes :=
  m.first.payload ++ m.others.flatMap Fragment.payload

def event (m : Message) : Event :=
  .message (Utf8.decode m.payload)

def signals (m : Message) : List Signal :=
  m.first.signals ++ m.others.flatMap Fragment.signals

end Message

/-- The bytes of frames that stand one behind the other. -/
def wire (frames : List Frame) : Bytes :=
  frames.flatMap Standard.encode

/-- A pong for each ping, with the same payload. -/
def answers (frames : List Frame) : List Frame :=
  frames.filterMap fun f => if f.opcode = .ping then some (.pong f.payload) else none

@[simp] theorem wire_nil : wire [] = [] := rfl

@[simp] theorem wire_cons (f : Frame) (fs : List Frame) :
    wire (f :: fs) = Standard.encode f ++ wire fs := rfl

@[simp] theorem wire_append (fs gs : List Frame) : wire (fs ++ gs) = wire fs ++ wire gs := by
  simp [wire]

@[simp] theorem answers_append (fs gs : List Frame) :
    answers (fs ++ gs) = answers fs ++ answers gs := by
  simp [answers]

/-- A frame that a server with these options has to accept from a client. -/
structure Frame.Sent (options : Options) (f : Frame) : Prop where
  lawful : f.Lawful
  masked : f.isMasked = true
  small : f.payload.length ≤ options.maxPayload

/-- A signal that a server with these options accepts: its payload is no longer than that of any
control frame, and than that of any frame. -/
def Signal.Fits (options : Options) (s : Signal) : Prop :=
  s.payload.length ≤ min Frame.maxControlPayload options.maxPayload

/-- A message that a server with these options accepts, whichever way it is cut. -/
structure Message.Fits (options : Options) (m : Message) : Prop where
  signals : ∀ s ∈ m.signals, s.Fits options
  size : m.payload.length ≤ options.maxPayload
  valid : m.isText = true → options.checkUtf8 = true → Utf8.isValid m.payload = true

namespace Connection

/-- An open connection in the standard framing that has understood all it was given, with room for
every frame that it accepts. -/
structure Ready (c : Connection) : Prop where
  phase : c.phase = .established
  codec : c.codec = some (.new .rfc6455 c.options.maxPayload)
  empty : c.buffer.contents = []
  roomy : c.options.maxPayload + maxHeadSize ≤ c.buffer.limit

/-- The connection after it has told `events` and queued `sent`, with a message of which it knows
this much. -/
def heard (c : Connection) (events : List Event) (sent : List Frame) (fragment : Option OpCode)
    (accumulated : Bytes) : Connection :=
  { c with
    pending := c.pending ++ events
    outbound := c.outbound ++ wire sent
    fragment := fragment
    accumulated := accumulated }

theorem ready_heard {c : Connection} (h : c.Ready) (events : List Event) (sent : List Frame)
    (fragment : Option OpCode) (accumulated : Bytes) :
    (c.heard events sent fragment accumulated).Ready :=
  ⟨h.phase, h.codec, h.empty, h.roomy⟩

@[simp] theorem pending_heard_nil (c : Connection) (sent : List Frame) (fragment : Option OpCode)
    (accumulated : Bytes) : (c.heard [] sent fragment accumulated).pending = c.pending :=
  List.append_nil _

theorem heard_heard (c : Connection) (events events' : List Event) (sent sent' : List Frame)
    (fragment fragment' : Option OpCode) (accumulated accumulated' : Bytes) :
    (c.heard events sent fragment accumulated).heard events' sent' fragment' accumulated' =
      c.heard (events ++ events') (sent ++ sent') fragment' accumulated' := by
  simp [heard]

/-- Acting on frames one after another leads from one connection to another. -/
inductive Heeds : Connection → List Frame → Connection → Prop where
  | nil {c : Connection} (h : c.Ready) : Heeds c [] c
  | cons {c d e : Connection} {f : Frame} {fs : List Frame} (h : c.Ready) (hsent : f.Sent c.options)
      (hact : c.onFrame (.plain f.fin f.opcode f.payload) = .going d) (hrest : Heeds d fs e) :
      Heeds c (f :: fs) e

variable {c d e : Connection}

theorem Heeds.append {fs gs : List Frame} (h : Heeds c fs d) (h' : Heeds d gs e) :
    Heeds c (fs ++ gs) e := by
  induction h with
  | nil => exact h'
  | cons hready hsent hact hrest ih => exact .cons hready hsent hact (ih h')

theorem Heeds.single {f : Frame} (h : c.Ready) (h' : d.Ready) (hsent : f.Sent c.options)
    (hact : c.onFrame (.plain f.fin f.opcode f.payload) = .going d) : Heeds c [f] d :=
  .cons h hsent hact (.nil h')

theorem Heeds.ready {fs : List Frame} (h : Heeds c fs d) : c.Ready ∧ d.Ready := by
  induction h with
  | nil h => exact ⟨h, h⟩
  | cons h _ _ _ ih => exact ⟨h, ih.2⟩

theorem round_of_empty (h : c.buffer.contents = []) : c.round = .waiting := by
  unfold round
  split
  · rfl
  · rfl
  · rw [h]
    simp [Handshake.Negotiator.negotiate, Handshake.Negotiator.parse, Bytes.find?, Bytes.findFrom?,
      Handshake.headEnd, Handshake.lineEnd]
  · split
    · rfl
    · rename_i codec _
      rw [h]
      cases codec <;> rfl
  · split
    · rfl
    · rename_i codec _
      rw [h]
      cases codec <;> rfl

/-- What came of a step behind which nothing is left. -/
def processed : Progress → Processed
  | .going c => .waiting c
  | .failed e c => .failed e c

theorem process_of_onFrame {f : Frame} (hround : c.round = .progress (d.onFrame f))
    (hempty : d.buffer.contents = []) : c.process = processed (d.onFrame f) := by
  rw [process_eq, hround]
  cases hact : d.onFrame f with
  | failed e after => rfl
  | going after =>
      have hafter : after.buffer.contents = [] := by rw [buffer_of_onFrame hact, hempty]
      simp only [process_of_round (round_of_empty hafter), processed]

theorem room_of_ready (h : c.Ready) : c.options.maxPayload + maxHeadSize ≤ c.buffer.room := by
  have hroomy := h.roomy
  simp only [Accumulator.room, Accumulator.size, h.empty, List.length_nil]
  omega

theorem round_of_ready (h : c.Ready) (bytes : Bytes) :
    (c.around [] [] bytes).round =
      match Standard.decode ⟨c.options.maxPayload, true⟩ bytes with
      | .incomplete => .waiting
      | .refused e => .refused e (c.around [] [] bytes)
      | .unaddressable => .abandoned
      | .frame f rest => .progress (((c.around [] [] bytes).withBuffered rest).onFrame f) := by
  unfold round
  cases hdecode : Standard.decode ⟨c.options.maxPayload, true⟩ bytes <;>
    simp only [around_phase, h.phase, around_codec, h.codec, around_contents, h.empty,
      List.nil_append, Codec.new, Codec.decode, Scheme.requiresMasking, hdecode]

theorem intake_frame (h : c.Ready) {f : Frame} (hsent : f.Sent c.options) :
    c.intake (Standard.encode f) = processed (c.onFrame (.plain f.fin f.opcode f.payload)) := by
  have hlength := Standard.length_encode_le f
  have hfits : (Standard.encode f).length ≤ c.buffer.room := by
    have hroom := room_of_ready h
    have hsmall := hsent.small
    omega
  have hpos : Standard.encode f ≠ [] := by simp [Standard.encode, Standard.head]
  have hopen : c.phase ≠ .closed := by simp [h.phase]
  have hdecode := Standard.decode_encode ⟨c.options.maxPayload, true⟩ hsent.lawful
    (fun _ => hsent.masked) hsent.small []
  rw [List.append_nil] at hdecode
  -- Nothing else is buffered: the step takes just this frame, and leaves nothing behind.
  have hsame : (c.around [] [] (Standard.encode f)).withBuffered [] = c := by
    rcases c with ⟨_, _, ⟨contents, _⟩, _, _, _, _, _, _, _, _, _⟩
    obtain rfl : contents = [] := h.empty
    rfl
  have hround := round_of_ready h (Standard.encode f)
  simp only [hdecode, hsame] at hround
  rw [intake_of_le_room hpos hopen hfits, process_of_onFrame hround h.empty]

/-- Frames are taken in as they are acted on, with anything behind them. -/
theorem intake_frames {fs : List Frame} (h : Heeds c fs d) (more : Bytes) :
    (c.intake (wire fs ++ more)).sealed = (d.intake more).sealed := by
  induction h with
  | nil => rfl
  | cons hready hsent hact hrest ih =>
      rw [wire_cons, List.append_assoc, intake_append, intake_frame hready hsent, hact]
      exact ih

theorem sent_signal {options : Options} {s : Signal} (h : s.Fits options) :
    s.frame.Sent options := by
  unfold Signal.Fits Frame.maxControlPayload at h
  cases hping : s.isPing <;> simp only [Signal.frame, hping]
  all_goals
    refine ⟨⟨rfl, rfl, rfl, fun _ => ⟨rfl, ?_⟩, ?_⟩, rfl, ?_⟩
    · change s.payload.length ≤ Frame.maxControlPayload
      unfold Frame.maxControlPayload
      omega
    · change s.payload.length + maxHeadSize ≤ maxSize
      unfold maxHeadSize maxSize UInt64.size
      omega
    · change s.payload.length ≤ options.maxPayload
      omega

theorem sent_data {options : Options} (haddress : options.maxPayload + maxHeadSize ≤ maxSize)
    (fin : Bool) {opcode : OpCode} (key : MaskKey) {payload : Bytes}
    (hdata : opcode.isControl = false) (hsmall : payload.length ≤ options.maxPayload) :
    ((Frame.plain fin opcode payload).withMask key).Sent options := by
  refine ⟨⟨rfl, rfl, rfl, fun hcontrol => ?_, ?_⟩, rfl, hsmall⟩
  · simp [Frame.plain, Frame.withMask, hdata] at hcontrol
  · change payload.length + maxHeadSize ≤ maxSize
    omega

theorem heeds_signal (h : c.Ready) {s : Signal} (hfits : s.Fits c.options) :
    Heeds c [s.frame] (c.heard [] (answers [s.frame]) c.fragment c.accumulated) := by
  refine .single h (ready_heard h _ _ _ _) (sent_signal hfits) ?_
  cases hping : s.isPing with
  | false =>
      simp [Signal.frame, hping, Frame.withMask, Frame.pong, Frame.plain, onFrame, answers, heard]
  | true =>
      simp [Signal.frame, hping, Frame.withMask, Frame.ping, Frame.pong, Frame.plain, onFrame,
        answers, heard, h.phase, queue, h.codec, Codec.new, Codec.encode, Except.map, write]

theorem heeds_signals (h : c.Ready) {signals : List Signal}
    (hfits : ∀ s ∈ signals, s.Fits c.options) :
    Heeds c (signals.map Signal.frame)
      (c.heard [] (answers (signals.map Signal.frame)) c.fragment c.accumulated) := by
  induction signals generalizing c with
  | nil =>
      have hsame : c.heard [] [] c.fragment c.accumulated = c := by simp [heard]
      simp only [List.map_nil, answers, List.filterMap_nil, hsame]
      exact .nil h
  | cons s signals ih =>
      have hfirst := heeds_signal h (hfits s (by simp))
      have hrest := ih hfirst.ready.2 fun s hs => hfits s (by simp [hs])
      rw [heard_heard] at hrest
      rw [List.map_cons, ← List.singleton_append, answers_append]
      exact hfirst.append hrest

theorem answers_frames (f : Fragment) {opcode : OpCode} (hdata : opcode.isControl = false)
    (fin : Bool) : answers (f.frames opcode fin) = answers (f.signals.map Signal.frame) := by
  have hping : opcode ≠ .ping := by
    rintro rfl
    simp [OpCode.isControl] at hdata
  simp [Fragment.frames, answers, Frame.plain, Frame.withMask, hping]

theorem heeds_fragment (haddress : c.options.maxPayload + maxHeadSize ≤ maxSize) (h : c.Ready)
    {f : Fragment} {opcode : OpCode} {fin : Bool} (hdata : opcode.isControl = false)
    (hsignals : ∀ s ∈ f.signals, s.Fits c.options)
    (hsmall : f.payload.length ≤ c.options.maxPayload) {events : List Event}
    {fragment : Option OpCode} {accumulated : Bytes}
    (hact : ∀ sent : List Frame,
      (c.heard [] sent c.fragment c.accumulated).onFrame (.plain fin opcode f.payload) =
        .going (c.heard events sent fragment accumulated)) :
    Heeds c (f.frames opcode fin)
      (c.heard events (answers (f.frames opcode fin)) fragment accumulated) := by
  rw [answers_frames f hdata]
  exact (heeds_signals h hsignals).append (.single (ready_heard h _ _ _ _) (ready_heard h _ _ _ _)
    (sent_data haddress fin f.key hdata hsmall) (hact _))

theorem onMessage_of_valid (hphase : c.phase = .established) {opcode : OpCode} {payload : Bytes}
    (hvalid : opcode = .text → c.options.checkUtf8 = true → Utf8.isValid payload = true) :
    c.onMessage opcode payload =
      .going { c with pending := c.pending ++ [.message (Utf8.decode payload)] } := by
  have hdelivered := delivered c opcode payload
  generalize c.onMessage opcode payload = p at hdelivered ⊢
  cases hdelivered with
  | dropped hphase' => exact absurd hphase hphase'
  | garbled _ hopcode hcheck hinvalid => simp [hvalid hopcode hcheck] at hinvalid
  | handed => rfl

theorem onFrame_data {opcode : OpCode} (hopcode : opcode = .text ∨ opcode = .binary) (fin : Bool)
    (payload : Bytes) :
    c.onFrame (.plain fin opcode payload) = c.onData (.plain fin opcode payload) := by
  rcases hopcode with rfl | rfl <;> rfl

theorem heeds_first (haddress : c.options.maxPayload + maxHeadSize ≤ maxSize) (h : c.Ready)
    (hfragment : c.fragment = none) (hempty : c.accumulated = []) {m : Message}
    (hsignals : ∀ s ∈ m.first.signals, s.Fits c.options)
    (hsmall : m.first.payload.length ≤ c.options.maxPayload) :
    Heeds c (m.first.frames m.opcode false)
      (c.heard [] (answers (m.first.frames m.opcode false)) (some m.opcode) m.first.payload) := by
  refine heeds_fragment haddress h m.opcode_isControl hsignals hsmall fun sent => ?_
  rw [onFrame_data m.opcode_cases]
  simp only [onData, heard, hfragment, Option.isSome_none, Bool.false_eq_true, if_false,
    Frame.plain, hempty, List.nil_append]

theorem heeds_continuation (haddress : c.options.maxPayload + maxHeadSize ≤ maxSize)
    (h : c.Ready) {opcode : OpCode} (hfragment : c.fragment = some opcode) {f : Fragment}
    (hsignals : ∀ s ∈ f.signals, s.Fits c.options)
    (hsmall : c.accumulated.length + f.payload.length ≤ c.options.maxPayload) :
    Heeds c (f.frames .continuation false)
      (c.heard [] (answers (f.frames .continuation false)) (some opcode)
        (c.accumulated ++ f.payload)) := by
  refine heeds_fragment haddress h rfl hsignals (by omega) fun sent => ?_
  change (c.heard [] sent c.fragment c.accumulated).onContinuation _ = _
  simp only [onContinuation, heard, hfragment, Frame.plain]
  rw [if_neg (by omega), if_neg (by simp)]

theorem heeds_continuations (haddress : c.options.maxPayload + maxHeadSize ≤ maxSize)
    (h : c.Ready) {opcode : OpCode} (hfragment : c.fragment = some opcode)
    (others : List Fragment) (hothers : others ≠ [])
    (hsignals : ∀ s ∈ others.flatMap Fragment.signals, s.Fits c.options)
    (hsize : (c.accumulated ++ others.flatMap Fragment.payload).length ≤ c.options.maxPayload)
    (hvalid : opcode = .text → c.options.checkUtf8 = true →
      Utf8.isValid (c.accumulated ++ others.flatMap Fragment.payload) = true) :
    Heeds c (Message.continuations others)
      (c.heard [.message (Utf8.decode (c.accumulated ++ others.flatMap Fragment.payload))]
        (answers (Message.continuations others)) none []) := by
  induction others generalizing c with
  | nil => exact absurd rfl hothers
  | cons f fs ih =>
      simp only [List.flatMap_cons, List.length_append] at hsignals hsize
      have hsmall : c.accumulated.length + f.payload.length ≤ c.options.maxPayload := by omega
      have hfirst : ∀ s ∈ f.signals, s.Fits c.options := by
        intro s hs
        exact hsignals s (List.mem_append_left _ hs)
      have hlater : ∀ s ∈ fs.flatMap Fragment.signals, s.Fits c.options := by
        intro s hs
        exact hsignals s (List.mem_append_right _ hs)
      cases hlast : fs with
      | nil =>
          subst hlast
          simp only [Message.continuations, List.isEmpty_nil, List.append_nil,
            List.flatMap_cons, List.flatMap_nil] at hvalid ⊢
          refine heeds_fragment haddress h rfl hfirst (by omega) fun sent => ?_
          change (c.heard [] sent c.fragment c.accumulated).onContinuation _ = _
          simp only [onContinuation, heard, hfragment, Frame.plain]
          rw [if_neg (by omega), if_pos trivial]
          refine (onMessage_of_valid (c := c.heard [] sent none []) h.phase hvalid).trans ?_
          simp [heard]
      | cons g gs =>
          rw [← hlast]
          have hmore : fs ≠ [] := by simp [hlast]
          have hbegun := heeds_continuation haddress h hfragment hfirst hsmall
          have hsize' : (c.accumulated ++ f.payload ++ fs.flatMap Fragment.payload).length ≤
              c.options.maxPayload := by
            simp only [List.length_append]
            omega
          have hvalid' : opcode = .text → c.options.checkUtf8 = true →
              Utf8.isValid (c.accumulated ++ f.payload ++ fs.flatMap Fragment.payload) =
                true := by
            rwa [List.append_assoc]
          have hrest := ih (c := c.heard [] (answers (f.frames .continuation false)) (some opcode)
            (c.accumulated ++ f.payload)) haddress hbegun.ready.2 rfl hmore hlater hsize' hvalid'
          rw [heard_heard] at hrest
          have hopen : fs.isEmpty = false := by simp [hlast]
          rw [Message.continuations, hopen, answers_append, List.flatMap_cons, ← List.append_assoc]
          exact hbegun.append hrest

/-- A message that fits is handed out, whichever way it is cut. -/
theorem heeds_message (haddress : c.options.maxPayload + maxHeadSize ≤ maxSize) (h : c.Ready)
    (hfragment : c.fragment = none) (hempty : c.accumulated = []) {m : Message}
    (hfits : m.Fits c.options) :
    Heeds c m.frames (c.heard [m.event] (answers m.frames) none []) := by
  have htext : m.opcode = .text → m.isText = true := by
    cases hkind : m.isText <;> simp [Message.opcode, hkind]
  have hsignals : ∀ s ∈ m.first.signals, s.Fits c.options := by
    intro s hs
    exact hfits.signals s (List.mem_append_left _ hs)
  have hlater : ∀ s ∈ m.others.flatMap Fragment.signals, s.Fits c.options := by
    intro s hs
    exact hfits.signals s (List.mem_append_right _ hs)
  have hsize := hfits.size
  simp only [Message.payload, List.length_append] at hsize
  cases hothers : m.others with
  | nil =>
      have hpayload : m.payload = m.first.payload := by simp [Message.payload, hothers]
      rw [Message.frames, hothers, Message.continuations, List.append_nil, Message.event, hpayload]
      refine heeds_fragment haddress h m.opcode_isControl hsignals (by omega) fun sent => ?_
      rw [onFrame_data m.opcode_cases]
      simp only [onData, heard, hfragment, hempty, Option.isSome_none, Bool.false_eq_true, if_false,
        Frame.plain, List.isEmpty_nil, if_true]
      refine (onMessage_of_valid (c := c.heard [] sent none []) h.phase ?_).trans ?_
      · rw [← hpayload]
        exact fun hopcode => hfits.valid (htext hopcode)
      · simp [heard]
  | cons f fs =>
      have hbegun := heeds_first haddress h hfragment hempty hsignals (by omega)
      have hrest := heeds_continuations (c := c.heard [] (answers (m.first.frames m.opcode false))
        (some m.opcode) m.first.payload) haddress hbegun.ready.2 rfl m.others
        (by simp [hothers]) hlater hfits.size (fun hopcode => hfits.valid (htext hopcode))
      rw [heard_heard] at hrest
      have hopen : m.others.isEmpty = false := by simp [hothers]
      rw [Message.frames, hopen, answers_append]
      exact hbegun.append hrest

theorem heeds_messages (haddress : c.options.maxPayload + maxHeadSize ≤ maxSize) (h : c.Ready)
    (hfragment : c.fragment = none) (hempty : c.accumulated = []) {messages : List Message}
    (hfits : ∀ m ∈ messages, m.Fits c.options) :
    Heeds c (messages.flatMap Message.frames)
      (c.heard (messages.map Message.event) (answers (messages.flatMap Message.frames)) none
        []) := by
  induction messages generalizing c with
  | nil =>
      have hsame : c.heard [] [] c.fragment c.accumulated = c := by simp [heard]
      rw [hfragment, hempty] at hsame
      simp only [List.flatMap_nil, List.map_nil, answers, List.filterMap_nil, hsame]
      exact .nil h
  | cons m messages ih =>
      have hfirst := heeds_message haddress h hfragment hempty (hfits m (by simp))
      have hrest := ih (c := c.heard [m.event] (answers m.frames) none []) haddress
        hfirst.ready.2 rfl rfl fun m' hm' => hfits m' (by simp [hm'])
      rw [heard_heard] at hrest
      rw [List.flatMap_cons, answers_append, List.map_cons]
      exact hfirst.append hrest

/-- Taking in `bytes` fails because something is too large, and until then `told` waits for the
application. -/
def Overflows (c : Connection) (told : List Event) (bytes : Bytes) : Prop :=
  ∃ d : Connection, (c.intake bytes).sealed = (Processed.failed .frameTooLarge d).sealed ∧
    d.pending = told ∧ d.opened = c.opened ∧ d.closedReported = c.closedReported

theorem overflows_heard {events : List Event} {sent fs : List Frame} {fragment : Option OpCode}
    {accumulated : Bytes} (h : Heeds c fs (c.heard events sent fragment accumulated))
    {told : List Event} {more : Bytes}
    (hmore : (c.heard events sent fragment accumulated).Overflows told more) :
    c.Overflows told (wire fs ++ more) := by
  obtain ⟨d, hintake, hrest⟩ := hmore
  exact ⟨d, (intake_frames h more).trans hintake, hrest⟩

theorem overflows_of_large (h : c.Ready) {f : Frame} (hlawful : f.Lawful)
    (hmasked : f.isMasked = true) (hlarge : c.options.maxPayload < f.payload.length)
    (more : Bytes) : c.Overflows c.pending (Standard.encode f ++ more) := by
  have hroom : (Standard.head f).length ≤ c.buffer.room := by
    have hready := room_of_ready h
    have hlength := Standard.length_head_le f
    omega
  have hdecode := Standard.decode_head_of_large ⟨c.options.maxPayload, true⟩ hlawful
    (fun _ => hmasked) hlarge []
  rw [List.append_nil] at hdecode
  have hround := round_of_ready h (Standard.head f)
  simp only [hdecode] at hround
  refine ⟨c.around [] [] (Standard.head f), ?_, rfl, rfl, rfl⟩
  rw [Standard.encode, List.append_assoc, intake_append_of_le_room (by simp [Standard.head])
    (by simp [h.phase]) hroom, process_eq, hround]
  rfl

theorem overflows_of_sum (h : c.Ready) {f : Frame} (hsent : f.Sent c.options)
    (hopcode : f.opcode = .continuation) (hfragment : c.fragment.isSome = true)
    (hlarge : c.options.maxPayload < c.accumulated.length + f.payload.length) (more : Bytes) :
    c.Overflows c.pending (Standard.encode f ++ more) := by
  have hact : c.onFrame (.plain f.fin f.opcode f.payload) = .failed .frameTooLarge c := by
    obtain ⟨opcode, hopcode'⟩ := Option.isSome_iff_exists.mp hfragment
    simp only [onFrame, Frame.plain, hopcode, onContinuation, hopcode']
    exact if_pos hlarge
  refine ⟨c, ?_, rfl, rfl, rfl⟩
  rw [intake_append, intake_frame h hsent, hact]
  rfl

theorem overflows_fragment (haddress : c.options.maxPayload + maxHeadSize ≤ maxSize)
    (h : c.Ready) {f : Fragment} {opcode : OpCode} {fin : Bool} (hdata : opcode.isControl = false)
    (hsignals : ∀ s ∈ f.signals, s.Fits c.options)
    (hsize : f.payload.length + maxHeadSize ≤ maxSize)
    (hlarge : c.options.maxPayload < f.payload.length ∨
      opcode = .continuation ∧ c.fragment.isSome = true ∧
        c.options.maxPayload < c.accumulated.length + f.payload.length) (more : Bytes) :
    c.Overflows c.pending (wire (f.frames opcode fin) ++ more) := by
  have hready := ready_heard h [] (answers (f.signals.map Signal.frame)) c.fragment c.accumulated
  have hlast : (c.heard [] (answers (f.signals.map Signal.frame)) c.fragment
      c.accumulated).Overflows c.pending
      (Standard.encode ((Frame.plain fin opcode f.payload).withMask f.key) ++ more) := by
    by_cases halone : c.options.maxPayload < f.payload.length
    · have hlawful : ((Frame.plain fin opcode f.payload).withMask f.key).Lawful :=
        ⟨rfl, rfl, rfl, fun hcontrol => by
          simp [Frame.plain, Frame.withMask, hdata] at hcontrol, hsize⟩
      have hover := overflows_of_large hready hlawful rfl halone more
      rwa [pending_heard_nil] at hover
    · obtain ⟨hopcode, hfragment, hsum⟩ := hlarge.resolve_left halone
      have hsmall : f.payload.length ≤ c.options.maxPayload := by omega
      have hsent := sent_data haddress fin f.key hdata hsmall
      have hover := overflows_of_sum hready hsent hopcode hfragment hsum more
      rwa [pending_heard_nil] at hover
  rw [Fragment.frames, wire_append, List.append_assoc]
  have hover := overflows_heard (heeds_signals h hsignals) hlast
  simpa [wire] using hover

theorem overflows_continuations (haddress : c.options.maxPayload + maxHeadSize ≤ maxSize)
    (h : c.Ready) {opcode : OpCode} (hfragment : c.fragment = some opcode)
    (others : List Fragment) (hsignals : ∀ s ∈ others.flatMap Fragment.signals, s.Fits c.options)
    (hsizes : ∀ f ∈ others, f.payload.length + maxHeadSize ≤ maxSize)
    (hbefore : c.accumulated.length ≤ c.options.maxPayload)
    (hlarge : c.options.maxPayload <
      (c.accumulated ++ others.flatMap Fragment.payload).length) (more : Bytes) :
    c.Overflows c.pending (wire (Message.continuations others) ++ more) := by
  induction others generalizing c with
  | nil =>
      simp only [List.flatMap_nil, List.append_nil] at hlarge
      omega
  | cons f fs ih =>
      have hfirst : ∀ s ∈ f.signals, s.Fits c.options := by
        intro s hs
        exact hsignals s (List.mem_append_left _ hs)
      have hlater : ∀ s ∈ fs.flatMap Fragment.signals, s.Fits c.options := by
        intro s hs
        exact hsignals s (List.mem_append_right _ hs)
      rw [Message.continuations, wire_append, List.append_assoc]
      -- This fragment is the one that is too much, or one behind it is.
      by_cases hsum : c.options.maxPayload < c.accumulated.length + f.payload.length
      · exact overflows_fragment haddress h rfl hfirst (hsizes f (by simp))
          (.inr ⟨rfl, by simp [hfragment], hsum⟩) _
      · have hopen : fs.isEmpty = false := by
          cases fs with
          | nil =>
              simp only [List.flatMap_cons, List.flatMap_nil, List.append_nil,
                List.length_append] at hlarge
              omega
          | cons g gs => rfl
        rw [hopen]
        have hbegun := heeds_continuation haddress h hfragment hfirst (Nat.le_of_not_lt hsum)
        refine overflows_heard hbegun ?_
        have hsizes' : ∀ g ∈ fs, g.payload.length + maxHeadSize ≤ maxSize := by
          intro g hg
          exact hsizes g (List.mem_cons_of_mem _ hg)
        have hbefore' : (c.accumulated ++ f.payload).length ≤ c.options.maxPayload := by
          rw [List.length_append]
          omega
        have hlarge' : c.options.maxPayload <
            (c.accumulated ++ f.payload ++ fs.flatMap Fragment.payload).length := by
          rwa [List.append_assoc]
        have hrest := ih (c := c.heard [] (answers (f.frames .continuation false)) (some opcode)
          (c.accumulated ++ f.payload)) haddress hbegun.ready.2 rfl hlater hsizes' hbefore' hlarge'
        rwa [pending_heard_nil] at hrest

/-- A message that is too large is refused, whichever way it is cut. -/
theorem overflows_message (haddress : c.options.maxPayload + maxHeadSize ≤ maxSize) (h : c.Ready)
    (hfragment : c.fragment = none) (hempty : c.accumulated = []) {m : Message}
    (hsignals : ∀ s ∈ m.signals, s.Fits c.options)
    (hsizes : ∀ f ∈ m.first :: m.others, f.payload.length + maxHeadSize ≤ maxSize)
    (hlarge : c.options.maxPayload < m.payload.length) :
    c.Overflows c.pending (wire m.frames) := by
  have hfirst : ∀ s ∈ m.first.signals, s.Fits c.options := by
    intro s hs
    exact hsignals s (List.mem_append_left _ hs)
  have hlater : ∀ s ∈ m.others.flatMap Fragment.signals, s.Fits c.options := by
    intro s hs
    exact hsignals s (List.mem_append_right _ hs)
  have hsizes' : ∀ f ∈ m.others, f.payload.length + maxHeadSize ≤ maxSize := by
    intro f hf
    exact hsizes f (List.mem_cons_of_mem _ hf)
  rw [Message.frames, wire_append]
  by_cases halone : c.options.maxPayload < m.first.payload.length
  · exact overflows_fragment haddress h m.opcode_isControl hfirst (hsizes m.first (by simp))
      (.inl halone) _
  · have hopen : m.others.isEmpty = false := by
      cases hothers : m.others with
      | nil =>
          simp only [Message.payload, hothers, List.flatMap_nil, List.append_nil] at hlarge
          exact absurd hlarge halone
      | cons f fs => rfl
    rw [hopen]
    have hbegun := heeds_first haddress h hfragment hempty hfirst (Nat.le_of_not_lt halone)
    refine overflows_heard hbegun ?_
    have hrest := overflows_continuations (c := c.heard []
      (answers (m.first.frames m.opcode false)) (some m.opcode) m.first.payload) haddress
      hbegun.ready.2 rfl m.others hlater hsizes' (Nat.le_of_not_lt halone) hlarge []
    rwa [pending_heard_nil, List.append_nil] at hrest

end Connection

/-- A complete request of a client that wants the standard framing, and the answer to it. -/
structure Opening (options : Options) (request : Bytes) (u : Handshake.Upgrade) : Prop where
  accepted : options.negotiator.negotiate request = .accepted u
  standard : u.scheme = .rfc6455
  complete : u.consumed = request.length

namespace Connection

variable {options : Options} {request : Bytes} {u : Handshake.Upgrade}

theorem intake_accepted (haccepted : options.negotiator.negotiate request = .accepted u)
    (hcomplete : u.consumed = request.length) (hfits : request.length ≤ options.readLimit) :
    (new options).accept.intake request = .waiting ((new options).accept.upgrade u) ∧
      (new options).accept.takes request = [.request u] := by
  have hpos : request ≠ [] := Handshake.ne_nil_of_accepted haccepted
  have hfits : request.length ≤ ((new options).accept).buffer.room := by
    have hroom : ((new options).accept).buffer.room = options.readLimit := by
      simp [new, accept, Accumulator.empty, Accumulator.room, Accumulator.size]
    rwa [hroom]
  have hround : ((new options).accept.around [] [] request).round =
      .progress (.going ((new options).accept.upgrade u)) := by
    have hupgrade : ((new options).accept.around [] [] request).upgrade u =
        (new options).accept.upgrade u := by
      simp [upgrade, around, write, accept, new, Accumulator.empty, Accumulator.removeRange,
        hcomplete]
    have hnegotiate : ((new options).accept.around [] [] request).options.negotiator.negotiate
        ((new options).accept.around [] [] request).buffer.contents = .accepted u := haccepted
    unfold round
    simp only [hnegotiate, hupgrade]
    rfl
  have hempty : ((new options).accept.upgrade u).buffer.contents = [] := by
    simp [upgrade, write, accept, new, Accumulator.empty, Accumulator.removeRange]
  have hprocess : ((new options).accept.around [] [] request).process =
      .waiting ((new options).accept.upgrade u) := by
    rw [process_eq, hround]
    exact process_of_round (round_of_empty hempty)
  have hitems : ((new options).accept.around [] [] request).items = [.request u] := by
    have hrest : ((new options).accept.upgrade u).items = [] := by
      rw [items_eq, round_of_empty hempty]
    rw [items_eq, hround, front?_of_upgraded rfl haccepted]
    simp only [hrest]
    rfl
  have hopen : (new options).accept.phase ≠ .closed := by simp [accept, new]
  constructor
  · rw [intake_of_le_room hpos hopen hfits, hprocess]
  · rw [takes_of_le_room hpos hopen hfits, hitems]

theorem intake_request (h : Opening options request u) :
    (new options).accept.intake request = .waiting ((new options).accept.upgrade u) ∧
      (new options).accept.takes request = [.request u] := by
  have hshort := Handshake.Negotiator.consumed_le_maxHead h.accepted h.standard
  rw [h.complete] at hshort
  exact intake_accepted h.accepted h.complete
    (hshort.trans ((le_max_right _ _).trans (le_max_left _ _)))

theorem ready_upgrade (h : Opening options request u) (hbuffer : options.maxReadBuffer = none)
    (haddress : options.maxPayload + maxHeadSize ≤ maxSize) :
    ((new options).accept.upgrade u).Ready where
  phase := rfl
  codec := congrArg (fun scheme => some (Codec.new scheme options.maxPayload)) h.standard
  empty := by simp [upgrade, write, accept, new, Accumulator.empty, Accumulator.removeRange]
  roomy := by
    change options.maxPayload + maxHeadSize ≤ options.readLimit
    rw [Options.readLimit, hbuffer, Option.getD_none, Nat.min_eq_left haddress]
    exact (le_max_left _ _).trans (le_max_left _ _)

theorem intake_opening (h : Opening options request u) (more : Bytes) :
    ((new options).accept.intake (request ++ more)).sealed =
      (((new options).accept.upgrade u).intake more).sealed := by
  rw [intake_append, (intake_request h).1]
  rfl

end Connection

namespace Ledger

open Connection

theorem connection_of_request {options : Options} {request : Bytes} {u : Handshake.Upgrade}
    (h : Opening options request u) : ((new options).run [.receive request]).connection =
      { (Connection.new options).accept.upgrade u with pending := [] } := by
  change ((Connection.new options).accept.absorb request).2 = _
  rw [absorb_eq_conclude, (intake_request h).1]
  rfl

theorem told_of_follows {l : Ledger} {ended : Prop} {d : Connection} (hprompt : l.Prompt)
    (h : l.Follows ended (.waiting d)) (hphase : d.phase = .established) :
    l.failure = none ∧ l.events = d.pending ∧ l.written = d.outbound := by
  have hagrees : l.Agrees (.waiting d) := by
    refine h.resolve_right fun hsettled => ?_
    rcases hsettled.2.silent' with hsilent | hsilent <;> simp [Processed.ended, hphase] at hsilent
  have hwhole : l.whole.accept = d := by
    refine eq_of_sealed_eq hagrees.state ?_
    rw [phase_eq_of_sealed_eq hagrees.state]
    simp [Processed.ended, hphase]
  have hstarted : l.whole.phase ≠ .connecting := by
    intro hconnecting
    rw [← hwhole, accept, if_pos hconnecting] at hphase
    simp at hphase
  rw [accept_of_started hstarted] at hwhole
  have hpending : l.connection.pending = [] := by
    refine hprompt ?_
    change l.whole.phase ≠ .closed
    simp [hwhole, hphase]
  refine ⟨hagrees.failure, ?_, ?_⟩
  · rw [← hwhole, whole, around_pending, hpending, List.append_nil]
  · rw [← hwhole, written_eq_whole]

/-- What an open connection acts on is told and sent, however it was cut. -/
theorem delivered_of_heeds {options : Options} {request : Bytes} {u : Handshake.Upgrade}
    (hopening : Opening options request u) {frames : List Frame} {d : Connection}
    (hheeds : Heeds ((Connection.new options).accept.upgrade u) frames d) {calls : List Operation}
    (hfeeds : Feeds (request ++ wire frames) calls) :
    ((new options).run calls).failure = none ∧ ((new options).run calls).events = d.pending ∧
      ((new options).run calls).written = d.outbound := by
  have hintake := intake_frames hheeds []
  rw [List.append_nil, intake_nil] at hintake
  have hfollows := follows_congr (follows_feeds True options hfeeds fun _ => trivial)
    ((intake_opening hopening (wire frames)).trans hintake)
  exact told_of_follows (prompt_run (prompt_new options) calls) hfollows hheeds.ready.2.phase

theorem refused_of_overflows {options : Options} {request bytes : Bytes} {u : Handshake.Upgrade}
    (hopening : Opening options request u) {told : List Event}
    (hover : ((Connection.new options).accept.upgrade u).Overflows told bytes)
    {calls : List Operation} (hnever : .finish ∉ calls) (hfeeds : Feeds (request ++ bytes) calls) :
    ((new options).run calls).failure = some (.failed .frameTooLarge) ∧
      (((new options).run calls).call .onDisconnect).events = told ++ [.closed] := by
  obtain ⟨d, hintake, hpending, hopened, hreported⟩ := hover
  have hfollows := follows_congr (follows_feeds False options hfeeds hnever)
    ((intake_opening hopening bytes).trans hintake)
  refine ⟨(hfollows.resolve_right (·.1)).failure, ?_⟩
  have houtcome := congrArg Prod.fst (outcome_eq_account ((new options).run calls))
  have haccount := congrArg Prod.fst (account_of_follows hfollows)
  refine houtcome.trans (haccount.trans ?_)
  obtain ⟨bytes, hfail⟩ := fail_eq_write d .frameTooLarge
  simp only [Processed.ended, hfail, account]
  simp [farewell, write, hpending, hopened, hreported, upgrade, accept, Connection.new]

/-- **Messages are delivered from end to end.** A client opens a connection in the standard
framing and sends messages that are not too large, with signals that are not too large in between
and behind; however it cuts the messages into fragments, and the bytes into chunks, the server
hands out each message and answers each ping, and nothing fails. If a message follows that is too
large, that is what fails, behind all messages before it. -/
theorem messages_are_delivered (options : Options) (hbuffer : options.maxReadBuffer = none)
    (haddress : options.maxPayload + maxHeadSize ≤ maxSize) {request : Bytes}
    {u : Handshake.Upgrade} (hopening : Opening options request u) (messages : List Message)
    (hmessages : ∀ m ∈ messages, m.Fits options) :
    (∀ (last : List Signal) (calls : List Operation), (∀ s ∈ last, s.Fits options) →
      let frames := messages.flatMap Message.frames ++ last.map Signal.frame
      Feeds (request ++ wire frames) calls →
      let l := (new options).run calls
      l.failure = none ∧ l.events = .opened :: messages.map Message.event ∧
        l.written = u.response ++ wire (answers frames)) ∧
    (∀ (m : Message) (calls : List Operation), (∀ s ∈ m.signals, s.Fits options) →
      (∀ f ∈ m.first :: m.others, f.payload.length + maxHeadSize ≤ maxSize) →
      options.maxPayload < m.payload.length → .finish ∉ calls →
      Feeds (request ++ wire (messages.flatMap Message.frames ++ m.frames)) calls →
      let l := (new options).run calls
      l.failure = some (.failed .frameTooLarge) ∧
        (l.call .onDisconnect).events =
          .opened :: messages.map Message.event ++ [.closed]) := by
  have hready := ready_upgrade hopening hbuffer haddress
  have hheeds := heeds_messages haddress hready rfl rfl hmessages
  constructor
  · intro last calls hlast frames hfeeds l
    have hsignals := heeds_signals hheeds.ready.2 hlast
    rw [heard_heard] at hsignals
    have hall := hheeds.append hsignals
    obtain ⟨hfailure, hevents, hwritten⟩ := delivered_of_heeds hopening hall hfeeds
    refine ⟨hfailure, ?_, ?_⟩
    · rw [hevents]
      simp [heard, upgrade, accept, Connection.new]
    · rw [hwritten]
      simp [frames, heard, upgrade, write, accept, Connection.new]
  · intro m calls hsignals hsizes hlarge hnever hfeeds l
    have hover := overflows_message haddress hheeds.ready.2 rfl rfl hsignals hsizes hlarge
    have hrefused := refused_of_overflows hopening (overflows_heard hheeds hover) hnever
      (by simpa using hfeeds)
    simpa [l, heard, upgrade, accept, Connection.new] using hrefused

def plainUpgrade : Handshake.Upgrade :=
  ⟨Handshake.render (Handshake.standardLines (Utf8.encode "AQ==")) [], .rfc6455,
    plainRequest.length⟩

theorem opening_plainRequest (options : Options)
    (h : options.negotiator = Handshake.Negotiator.standard) :
    Opening options plainRequest plainUpgrade where
  accepted := by
    have hparse : Handshake.Negotiator.standard.parse plainRequest =
        .ok (some ⟨Utf8.encode "GET / HTTP/1.1\r\nSec-WebSocket-Key: AQ==", .rfc6455, []⟩) := by
      decide +kernel
    have hkey : Handshake.Request.header?
        ⟨Utf8.encode "GET / HTTP/1.1\r\nSec-WebSocket-Key: AQ==", .rfc6455, []⟩
        Handshake.keyHeader = some (Utf8.encode "AQ==") := by
      decide +kernel
    rw [h, Handshake.Negotiator.negotiate, hparse]
    simp only [Handshake.respond, Handshake.respondStandard, hkey]
    rfl
  standard := rfl
  complete := rfl

/-- A text of two letters in two fragments, with a ping of `size` bytes in between. -/
def greeting (size : Nat) : Message where
  isText := true
  first := ⟨[], ⟨1, 2, 3, 4⟩, [0x48]⟩
  others := [⟨[⟨true, ⟨5, 6, 7, 8⟩, List.replicate size 0x21⟩], ⟨9, 10, 11, 12⟩, [0x69]⟩]

theorem fits_greeting : (greeting 1).Fits .standard where
  signals := by
    intro s hs
    simp only [greeting, Message.signals, List.flatMap_cons, List.flatMap_nil, List.nil_append,
      List.append_nil, List.mem_singleton] at hs
    subst hs
    unfold Signal.Fits
    decide
  size := by decide
  valid := by decide

theorem greeting_is_delivered : Opening .standard plainRequest plainUpgrade ∧
    let l := (new .standard).run ([plainRequest, wire (greeting 1).frames].map .receive)
    l.failure = none ∧ l.events = [.opened, (greeting 1).event] ∧
      l.written = plainUpgrade.response ++ wire [.pong [0x21]] := by
  have hopening := opening_plainRequest .standard rfl
  refine ⟨hopening, ?_⟩
  have hdelivered := (messages_are_delivered .standard rfl (by decide) hopening
    [greeting 1] (by simpa using fits_greeting)).1 []
  refine hdelivered ([plainRequest, wire (greeting 1).frames].map .receive) (by simp) ?_
  simpa using feeds_map_receive [plainRequest, wire (greeting 1).frames]

/-- The settings of a server that takes no frame of more than two bytes. -/
def twoBytes : Options :=
  { Options.standard with maxPayload := 2 }

/-- A ping that any server may be sent is refused by a server that takes only smaller frames: it
stands inside a message, and the message is lost. -/
theorem ping_between_fragments_is_refused : ∃ options : Options,
    options.maxReadBuffer = none ∧ options.maxPayload + maxHeadSize ≤ maxSize ∧
      Opening options plainRequest plainUpgrade ∧
      (greeting 3).payload.length ≤ options.maxPayload ∧
      Utf8.isValid (greeting 3).payload = true ∧
      (∀ s ∈ (greeting 3).signals, s.payload.length ≤ Frame.maxControlPayload) ∧
      ((new options).run ([plainRequest, wire (greeting 3).frames].map .receive)).failure =
        some (.failed .frameTooLarge) := by
  have hopening := opening_plainRequest twoBytes rfl
  have hready := ready_upgrade hopening rfl (by decide)
  have hbegun : Heeds ((Connection.new twoBytes).accept.upgrade plainUpgrade)
      ((greeting 3).first.frames .text false)
      (((Connection.new twoBytes).accept.upgrade plainUpgrade).heard []
        (answers ((greeting 3).first.frames .text false)) (some .text) [0x48]) := by
    refine heeds_fragment ?_ hready rfl (by simp [greeting]) ?_ fun _ => rfl
    · exact (by decide : twoBytes.maxPayload + maxHeadSize ≤ maxSize)
    · exact (by decide : 1 ≤ 2)
  have hover := overflows_of_large hbegun.ready.2
    (f := (Frame.ping (List.replicate 3 0x21)).withMask ⟨5, 6, 7, 8⟩)
    ⟨rfl, rfl, rfl, fun _ => ⟨rfl, by decide⟩, by decide⟩ rfl (by decide : 2 < 3)
    (wire [(Frame.plain true .continuation [0x69]).withMask ⟨9, 10, 11, 12⟩])
  refine ⟨twoBytes, rfl, by decide, hopening, by decide, by decide, by decide, ?_⟩
  refine (refused_of_overflows hopening (overflows_heard hbegun hover) (by decide) ?_).1
  have hfeeds := feeds_map_receive [plainRequest, wire (greeting 3).frames]
  simpa [greeting, Message.frames, Message.continuations, Fragment.frames, Signal.frame,
    Message.opcode] using hfeeds

end Ledger

end WebSocket

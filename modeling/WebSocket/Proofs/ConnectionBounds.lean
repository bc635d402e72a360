import WebSocket.Proofs.FrameLayout
import WebSocket.Proofs.SchemeAgreement

namespace WebSocket

namespace Legacy

theorem length_payload_le {maxPayload : Nat} {bytes rest : Bytes} {f : Frame}
    (h : decode maxPayload bytes = .frame f rest) : f.payload.length ≤ maxPayload := by
  rcases laid_of_decode h with ⟨payload, rfl, -, hsize, -⟩ | ⟨rfl, -⟩
  · exact hsize
  · exact Nat.zero_le _

end Legacy

namespace Scheme

variable {scheme : Scheme} {maxPayload : Nat} {bytes rest : Bytes} {f : Frame}

theorem length_payload_le (h : scheme.decode maxPayload bytes = .frame f rest) :
    f.payload.length ≤ maxPayload := by
  cases scheme with
  | rfc6455 =>
      obtain ⟨form, mask, hlaid⟩ := Standard.laid_of_decode h
      exact hlaid.size
  | legacy => exact Legacy.length_payload_le h

theorem eq_rfc6455_of_fragment (h : scheme.decode maxPayload bytes = .frame f rest)
    (hfin : f.fin = false) : scheme = .rfc6455 := by
  cases scheme with
  | rfc6455 => rfl
  | legacy =>
      rcases Legacy.frame_of_decode h with ⟨payload, rfl⟩ | rfl
      · simp [Frame.text, Frame.plain] at hfin
      · simp [Frame.closeRaw, Frame.plain] at hfin

end Scheme

namespace Connection

/-- How it can end that a connection takes in bytes, if `R` holds of it each time it is ready for
more of them. -/
inductive Processed.Ends (R : Connection → Prop) : Processed → Prop where
  | rested {c : Connection} (h : R c) : Ends R (.waiting c)
  | full {c : Connection} (h : R c) (hopen : c.phase ≠ .closed) (hroom : c.buffer.room = 0) :
      Ends R (.failed .readBufferFull
        (if c.phase = .handshaking then c.write Handshake.refusal else c))
  | failed {c after : Connection} {chunk : Bytes} {e : Error} (h : R c)
      (hchunk : chunk.length ≤ c.buffer.room)
      (hprocess : (c.around [] [] chunk).process = .failed e after) : Ends R (.failed e after)
  | abandoned {c after : Connection} {chunk : Bytes} (h : R c)
      (hchunk : chunk.length ≤ c.buffer.room)
      (hprocess : (c.around [] [] chunk).process = .abandoned after) : Ends R (.abandoned after)

theorem ends_intake {R : Connection → Prop}
    (hnext : ∀ {c after : Connection} {chunk : Bytes}, R c → chunk.length ≤ c.buffer.room →
      (c.around [] [] chunk).process = .waiting after → R after)
    {c : Connection} (h : R c) (data : Bytes) : (c.intake data).Ends R := by
  induction hn : data.length using Nat.strong_induction_on generalizing c data with
  | h n ih =>
      subst hn
      rw [intake]
      split
      · exact .rested h
      rename_i hdata
      split
      · exact .rested h
      rename_i hopen
      split
      · rename_i hroom
        exact .full h hopen hroom
      have hchunk : (data.take c.buffer.room).length ≤ c.buffer.room := List.length_take_le ..
      cases hprocess : (c.around [] [] (data.take c.buffer.room)).process with
      | failed e after => exact .failed h hchunk hprocess
      | abandoned after => exact .abandoned h hchunk hprocess
      | waiting after =>
          have hpos := List.length_pos_iff.mpr hdata
          exact ih (data.drop c.buffer.room).length (by rw [List.length_drop]; omega)
            (hnext h hchunk hprocess) _ rfl

/-- What a connection with these settings remembers is within its bounds. -/
structure Bounded (options : Options) (c : Connection) : Prop where
  settings : c.options = options
  limit : c.buffer.limit = options.readLimit
  buffered : c.buffer.size ≤ c.buffer.limit
  assembled : c.accumulated.length ≤ options.maxPayload
  /-- Without a message in pieces nothing is put together. -/
  unassembled : c.fragment = none → c.accumulated = []
  fragment : ∀ opcode, c.fragment = some opcode →
    (opcode = .text ∨ opcode = .binary) ∧ c.scheme = some .rfc6455
  opened : c.opened = c.scheme.isSome
  /-- The codec is the one of the scheme, with the limit of the settings. -/
  agreed : c.codec = c.scheme.map (Codec.new · options.maxPayload)

/-- What a connection with these settings remembers is within its bounds, and goes with how far the
connection has come. -/
structure Coherent (options : Options) (c : Connection) : Prop extends c.Bounded options where
  unframed : c.phase = .connecting ∨ c.phase = .handshaking → c.scheme = none
  framed : c.Framed → c.scheme.isSome = true
  peerClosed : c.peerClosed = true → c.Silent

variable {options : Options} {c d after : Connection} {e : Error}

theorem Bounded.codec_of_scheme (h : c.Bounded options) {scheme : Scheme}
    (hscheme : c.scheme = some scheme) : c.codec = some (.new scheme options.maxPayload) := by
  rw [h.agreed, hscheme, Option.map_some]

theorem Bounded.exists_scheme (h : c.Bounded options) {codec : Codec}
    (hcodec : c.codec = some codec) :
    ∃ scheme, c.scheme = some scheme ∧ codec = .new scheme options.maxPayload := by
  rw [h.agreed, Option.map_eq_some_iff] at hcodec
  obtain ⟨scheme, hscheme, rfl⟩ := hcodec
  exact ⟨scheme, hscheme, rfl⟩

theorem coherent_new (options : Options) : (new options).Coherent options where
  settings := rfl
  limit := rfl
  buffered := Nat.zero_le _
  assembled := Nat.zero_le _
  unassembled _ := rfl
  fragment := by simp [new]
  opened := rfl
  agreed := rfl
  unframed _ := rfl
  framed := by simp [Framed, new]
  peerClosed := by simp [new]

theorem bounded_write (h : c.Bounded options) (bytes : Bytes) : (c.write bytes).Bounded options :=
  { h with }

theorem coherent_write (h : c.Coherent options) (bytes : Bytes) :
    (c.write bytes).Coherent options :=
  ⟨bounded_write h.toBounded bytes, h.unframed, h.framed, h.peerClosed⟩

theorem coherent_of_closed (h : c.Bounded options) (hphase : c.phase = .closed) :
    c.Coherent options where
  toBounded := h
  unframed := by simp [hphase]
  framed := by simp [Framed, hphase]
  peerClosed _ := .inr hphase

theorem coherent_closed (h : c.Bounded options) :
    ({ c with phase := .closed } : Connection).Coherent options :=
  coherent_of_closed { h with } rfl

theorem coherent_fail (h : c.Bounded options) (e : Error) : (c.fail e).Coherent options := by
  obtain ⟨bytes, hfail⟩ := fail_eq_write c e
  rw [hfail]
  exact coherent_closed (bounded_write h bytes)

theorem bounded_withBuffered (h : c.Bounded options) {bytes : Bytes}
    (hle : bytes.length ≤ c.buffer.size) : (c.withBuffered bytes).Bounded options :=
  ⟨h.settings, h.limit, hle.trans h.buffered, h.assembled, h.unassembled, h.fragment, h.opened,
    h.agreed⟩

theorem coherent_withBuffered (h : c.Coherent options) {bytes : Bytes}
    (hle : bytes.length ≤ c.buffer.size) : (c.withBuffered bytes).Coherent options :=
  ⟨bounded_withBuffered h.toBounded hle, h.unframed, h.framed, h.peerClosed⟩

theorem coherent_around (h : c.Coherent options) {chunk : Bytes}
    (hle : chunk.length ≤ c.buffer.room) : (c.around [] [] chunk).Coherent options := by
  have hbuffered : (c.around [] [] chunk).buffer.size ≤ c.buffer.limit := by
    have hsize := h.buffered
    simp only [Accumulator.room, Accumulator.size, around_contents, List.length_append]
      at hle hsize ⊢
    omega
  exact ⟨⟨h.settings, h.limit, hbuffered, h.assembled, h.unassembled, h.fragment, h.opened,
    h.agreed⟩,
    h.unframed, h.framed, h.peerClosed⟩

theorem coherent_upgrade (h : c.Coherent options) (hphase : c.phase = .handshaking)
    (u : Handshake.Upgrade) : (c.upgrade u).Coherent options := by
  have hscheme : c.scheme = none := h.unframed (.inr hphase)
  have hfragment : ∀ opcode, c.fragment ≠ some opcode := by
    intro opcode hsome
    simpa [hscheme] using (h.fragment opcode hsome).2
  have hpeer : c.peerClosed ≠ true := by
    intro hclosed
    rcases h.peerClosed hclosed with hsilent | hsilent <;> simp [hphase] at hsilent
  refine ⟨⟨h.settings, h.limit, ?_, h.assembled, h.unassembled, ?_, rfl, ?_⟩, ?_, fun _ => rfl, ?_⟩
  · have hsize := h.buffered
    simp only [upgrade, Accumulator.removeRange, Accumulator.size, List.take_zero,
      List.nil_append, List.length_drop] at hsize ⊢
    omega
  · exact fun opcode hsome => absurd hsome (hfragment opcode)
  · simp [upgrade, h.settings]
  · simp [upgrade]
  · exact fun hclosed => absurd hclosed hpeer

theorem bounded_delivered (h : c.Bounded options) {opcode : OpCode} {payload : Bytes}
    {p : Progress} (hdelivered : Delivered c opcode payload p) : p.connection.Bounded options := by
  cases hdelivered with
  | dropped | garbled => exact h
  | handed => exact { h with }

theorem bounded_fragments (h : c.Bounded options) {fragment : Option OpCode} {accumulated : Bytes}
    (hle : accumulated.length ≤ options.maxPayload) (hnone : fragment = none → accumulated = [])
    (hsome : ∀ opcode, fragment = some opcode →
      (opcode = .text ∨ opcode = .binary) ∧ c.scheme = some .rfc6455) :
    ({ c with fragment := fragment, accumulated := accumulated } : Connection).Bounded options :=
  ⟨h.settings, h.limit, h.buffered, hle, hnone, hsome, h.opened, h.agreed⟩

/-- A frame that is no larger than it may be keeps a connection within its bounds, also if it breaks
a rule. -/
theorem bounded_acted (h : c.Bounded options) {f : Frame} {p : Progress}
    (hsmall : f.payload.length ≤ options.maxPayload)
    (hpart : f.fin = false → c.scheme = some .rfc6455) (hacted : Acted c f p) :
    p.connection.Bounded options := by
  cases hacted with
  | ignored | unanswered | interleaved | orphaned | oversized | misclosed => exact h
  | late | unechoed => exact { h with }
  | answered _ _ hqueue =>
      obtain ⟨bytes, rfl⟩ := eq_write_of_queue hqueue
      exact bounded_write h bytes
  | begun hopcode hfragment hfin =>
      rw [h.unassembled hfragment]
      refine bounded_fragments h hsmall (by simp) fun opcode hsome => ?_
      cases hsome
      exact ⟨hopcode, hpart hfin⟩
  | single _ _ _ hdelivered => exact bounded_delivered h hdelivered
  | continued _ hfragment hfits =>
      rw [h.settings] at hfits
      refine bounded_fragments h (by rwa [List.length_append]) (by simp [hfragment]) h.fragment
  | completed _ _ _ _ hdelivered =>
      exact bounded_delivered
        (bounded_fragments h (Nat.zero_le _) (fun _ => rfl) (by simp)) hdelivered
  | echoed _ _ _ hqueue =>
      obtain ⟨bytes, rfl⟩ := eq_write_of_queue hqueue
      exact { h with }
  | ended =>
      simp only [reportClosed_snd, toList_reportClosed]
      exact { h with }

theorem phase_of_acted {f : Frame} (hframed : c.Framed) (hacted : Acted c f (.going d)) :
    d.phase = .closing ∨ d.phase = .closed ∨ d.phase = c.phase ∧ d.peerClosed = c.peerClosed := by
  cases hacted with
  | ignored | begun | continued => exact .inr (.inr ⟨rfl, rfl⟩)
  | answered _ _ hqueue =>
      obtain ⟨bytes, rfl⟩ := eq_write_of_queue hqueue
      exact .inr (.inr ⟨rfl, rfl⟩)
  | single _ _ _ hdelivered | completed _ _ _ _ hdelivered =>
      cases hdelivered <;> exact .inr (.inr ⟨rfl, rfl⟩)
  | echoed => exact .inl rfl
  | ended =>
      simp only [reportClosed_snd]
      exact .inr (.inl trivial)
  | late _ _ hphase hphase' => rcases hframed with h | h <;> contradiction

theorem coherent_acted (h : c.Coherent options) (hframed : c.Framed) {f : Frame}
    (hsmall : f.payload.length ≤ options.maxPayload)
    (hpart : f.fin = false → c.scheme = some .rfc6455) (hacted : Acted c f (.going d)) :
    d.Coherent options := by
  have hphase := phase_of_acted hframed hacted
  refine ⟨bounded_acted h.toBounded hsmall hpart hacted, ?_, ?_, ?_⟩
  · intro hunframed
    rcases hframed with hframed | hframed <;> rcases hphase with hphase | hphase | ⟨hphase, -⟩ <;>
      simp [hphase, hframed] at hunframed
  · intro _
    rw [(keeps_of_acted hacted).scheme]
    exact h.framed hframed
  · intro hpeer
    rcases hphase with hphase | hphase | ⟨hphase, hsame⟩
    · exact .inl hphase
    · exact .inr hphase
    · rw [hsame] at hpeer
      simpa only [Silent, hphase] using h.peerClosed hpeer

theorem coherent_round (h : c.Coherent options) (hround : c.round = .progress (.going d)) :
    d.Coherent options := by
  have hrounded := rounded c
  rw [hround] at hrounded
  cases hrounded with
  | upgraded hphase => exact coherent_upgrade h hphase _
  | @acted codec f rest _ hframed hcodec hdecode hacted =>
      obtain ⟨scheme, hscheme, rfl⟩ := h.exists_scheme hcodec
      have hrest : rest.length ≤ c.buffer.size :=
        (Nat.le_add_right ..).trans (Codec.length_lt_of_decode hdecode)
      refine coherent_acted (coherent_withBuffered h hrest) hframed
        (Scheme.length_payload_le hdecode) (fun hfin => ?_) hacted
      exact hscheme.trans (congrArg some (Scheme.eq_rfc6455_of_fragment hdecode hfin))

theorem bounded_broken (h : c.Bounded options) (hbroken : c.Broken e after) :
    after.Bounded options := by
  cases hbroken with
  | refused hround =>
      have hrounded := rounded c
      rw [hround] at hrounded
      cases hrounded with
      | rejected => exact bounded_write h _
      | refused => exact h
  | failed hround =>
      have hrounded := rounded c
      rw [hround] at hrounded
      cases hrounded with
      | @acted codec f rest _ hframed hcodec hdecode hacted =>
          obtain ⟨scheme, hscheme, rfl⟩ := h.exists_scheme hcodec
          have hrest : rest.length ≤ c.buffer.size :=
            (Nat.le_add_right ..).trans (Codec.length_lt_of_decode hdecode)
          refine bounded_acted (bounded_withBuffered h hrest) (Scheme.length_payload_le hdecode)
            (fun hfin => ?_) hacted
          exact hscheme.trans (congrArg some (Scheme.eq_rfc6455_of_fragment hdecode hfin))
  | full _ _ _ hafter =>
      rw [hafter]
      split
      · exact bounded_write h _
      · exact h

theorem coherent_process (h : c.Coherent options) : c.process.ended.Coherent options := by
  have hstopped : c.process.StoppedAt (·.Coherent options) :=
    @process_stoppedAt (fun d _ => d.Coherent options) (fun hd hround _ => coherent_round hd hround)
      c [] h
  cases hprocess : c.process with
  | waiting after =>
      rw [hprocess] at hstopped
      exact hstopped
  | failed e after =>
      rw [hprocess] at hstopped
      obtain ⟨before, hbefore, hbroken⟩ := hstopped
      exact coherent_fail (bounded_broken hbefore.toBounded hbroken) e
  | abandoned after =>
      rw [hprocess] at hstopped
      exact coherent_closed hstopped.toBounded

/-- The connection is coherent each time it is ready for more bytes, and in the end. -/
theorem coherent_intake (h : c.Coherent options) (data : Bytes) :
    (c.intake data).ended.Coherent options := by
  have hends : (c.intake data).Ends (·.Coherent options) := by
    refine ends_intake (fun {d after chunk} hd hchunk hprocess => ?_) h data
    have hafter := coherent_process (coherent_around hd hchunk)
    rwa [hprocess] at hafter
  generalize c.intake data = result at hends
  cases hends with
  | rested hd => exact hd
  | full hd hopen hroom =>
      exact coherent_fail (bounded_broken hd.toBounded (.full hopen hroom rfl rfl)) .readBufferFull
  | failed hd hchunk hprocess | abandoned hd hchunk hprocess =>
      have hafter := coherent_process (coherent_around hd hchunk)
      rwa [hprocess] at hafter

theorem coherent_accept (h : c.Coherent options) : c.accept.Coherent options := by
  unfold accept
  split
  · rename_i hphase
    refine ⟨{ h with }, fun _ => h.unframed (.inl hphase), by simp [Framed], fun hpeer => ?_⟩
    rcases h.peerClosed hpeer with hsilent | hsilent <;> simp [hphase] at hsilent
  · exact h

theorem coherent_close (h : c.Coherent options) (code : CloseCode) :
    (c.close code).Coherent options := by
  cases hphase : c.phase with
  | established =>
      obtain ⟨bytes, hqueue⟩ := queue_getD c (.close code [])
      simp only [close, hphase, hqueue]
      exact ⟨{ h with }, by simp, fun _ => h.framed (.inl hphase), fun _ => .inl rfl⟩
  | connecting | handshaking =>
      simp only [close, hphase]
      exact coherent_closed h.toBounded
  | closing | closed => simpa only [close, hphase] using h

theorem coherent_reportClosed (h : c.Bounded options) :
    ({ c with phase := .closed } : Connection).reportClosed.2.Coherent options := by
  rw [reportClosed_snd]
  exact coherent_of_closed { h with } rfl

theorem coherent_pending (h : c.Coherent options) (events : List Event) :
    ({ c with pending := events } : Connection).Coherent options :=
  ⟨{ h with }, h.unframed, h.framed, h.peerClosed⟩

/-- The connection writes its frames, and reads those of its peer, in the framing of `scheme`. -/
structure Speaks (c : Connection) (scheme : Scheme) : Prop where
  agreed : c.scheme = some scheme
  codec : c.codec = some (.new scheme c.options.maxPayload)
  writes : ∀ f, c.queue f = (scheme.encode f).map c.write
  reads : ∀ more f rest,
    scheme.decode c.options.maxPayload (c.buffer.contents ++ more) = .frame f rest →
      (c.around [] [] more).round = .progress (((c.around [] [] more).withBuffered rest).onFrame f)
  refuses : ∀ more e,
    scheme.decode c.options.maxPayload (c.buffer.contents ++ more) = .refused e →
      (c.around [] [] more).round = .refused e (c.around [] [] more)

theorem speaks_of_codec (hframed : c.Framed) {scheme : Scheme} (hscheme : c.scheme = some scheme)
    (hcodec : c.codec = some (.new scheme c.options.maxPayload)) : c.Speaks scheme where
  agreed := hscheme
  codec := hcodec
  writes f := by rw [queue_eq hcodec, Codec.scheme_new]
  reads more _ _ hdecode := round_of_frame (c := c.around [] [] more) hframed hcodec hdecode
  refuses more _ hdecode := round_of_refused (c := c.around [] [] more) hframed hcodec hdecode

theorem append_of_bounded (h : c.Bounded options) {chunk : Bytes}
    (hle : chunk.length ≤ c.buffer.room) :
    c.buffer.append chunk = .ok (c.around [] [] chunk).buffer := by
  have hsize := h.buffered
  unfold Accumulator.room at hle
  rw [Accumulator.append, if_neg (by omega)]
  rfl

end Connection

namespace Ledger

open Connection

variable {options : Options} {l : Ledger}

theorem coherent_call (h : l.connection.Coherent options) (call : Operation) :
    (l.call call).connection.Coherent options := by
  cases call with
  | accept => exact coherent_accept h
  | receive data =>
      have hended := coherent_intake (coherent_accept h) data
      simp only [Ledger.call, receive, absorb_eq_conclude]
      cases hintake : l.connection.accept.intake data with
      | waiting after =>
          rw [hintake] at hended
          exact coherent_pending hended []
      | failed e after => rwa [hintake] at hended
      | abandoned after => rwa [hintake] at hended
  | sendText text =>
      obtain ⟨bytes, hsend⟩ := sendText_getD l.connection text
      simp only [Ledger.call, hsend]
      exact coherent_write h bytes
  | sendEncoded bytes =>
      obtain ⟨sent, hsend⟩ := sendEncoded_getD l.connection bytes
      simp only [Ledger.call, hsend]
      exact coherent_write h sent
  | close code => exact coherent_close h code
  | finish =>
      simp only [Ledger.call, finish]
      split
      · exact coherent_reportClosed h.toBounded
      · exact h
  | onTimeout =>
      have hfail := coherent_fail h.toBounded
      have hclosed := coherent_closed h.toBounded
      cases hphase : l.connection.phase with
      | connecting | handshaking =>
          simp only [Ledger.call, onTimeout, hphase]
          exact hfail .handshakeTimeout
      | established =>
          simp only [Ledger.call, onTimeout, hphase]
          exact hfail .idleTimeout
      | closing | closed => simpa only [Ledger.call, onTimeout, hphase] using hclosed
  | takeOutbound =>
      simp only [Ledger.call, takeOutbound]
      split
      · exact h
      · exact ⟨{ h with }, h.unframed, h.framed, h.peerClosed⟩
  | onDisconnect => exact coherent_pending (coherent_reportClosed h.toBounded) []

theorem coherent_run (h : l.connection.Coherent options) (calls : List Operation) :
    (l.run calls).connection.Coherent options :=
  run_keeps (P := (·.connection.Coherent options)) coherent_call h calls

/-- **A connection stays within its bounds**, whatever is asked of it in whatever order: its buffer
never holds more than its limit, so what there is room for can always be appended; of a message in
pieces it keeps no more than a message may have; and an open or closing connection reads and writes
in the framing that was agreed on. -/
theorem connection_is_coherent (options : Options) (calls : List Operation) :
    let c := ((new options).run calls).connection
    c.Coherent options ∧
      (∀ chunk : Bytes, chunk.length ≤ c.buffer.room →
        c.buffer.append chunk = .ok (c.around [] [] chunk).buffer) ∧
      (c.Framed → ∃ scheme, c.Speaks scheme) := by
  intro c
  have hcoherent : c.Coherent options := coherent_run (coherent_new options) calls
  refine ⟨hcoherent, fun chunk hchunk => append_of_bounded hcoherent.toBounded hchunk, ?_⟩
  intro hframed
  obtain ⟨scheme, hscheme⟩ := Option.isSome_iff_exists.mp (hcoherent.framed hframed)
  have hcodec := hcoherent.codec_of_scheme hscheme
  rw [← hcoherent.settings] at hcodec
  exact ⟨scheme, speaks_of_codec hframed hscheme hcodec⟩

end Ledger

end WebSocket

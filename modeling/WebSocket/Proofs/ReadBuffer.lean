import WebSocket.Proofs.ConnectionBounds
import WebSocket.Proofs.FailureNotice
import WebSocket.Proofs.FrameChunks

namespace WebSocket

namespace Standard

theorem length_lt_of_incomplete {decoder : Decoder} {bytes : Bytes}
    (h : decode decoder bytes = .incomplete) : bytes.length < decoder.maxPayload + maxHeadSize := by
  unfold maxHeadSize
  cases decode_eq_iff.mp h with
  | short hshort => omega
  | @length _ _ head _ _ hbody =>
      have hwidths := widths_le head
      simp only [List.length_cons]
      omega
  | @body _ _ head _ _ hhead _ hbody =>
      have hwidths := widths_le head
      have hfits := hhead.fits
      simp only [List.length_cons, List.length_append, hhead.width]
      omega

theorem payloadLength_field {form : LengthForm} {length : Nat} (h : length < form.capacity)
    (fin masked : Bool) (opcode : OpCode) :
    (form.field length).2.length =
        Head.lengthWidth ⟨fin, opcode, masked, (form.field length).1⟩ ∧
      Head.payloadLength ⟨fin, opcode, masked, (form.field length).1⟩ (form.field length).2 =
        length := by
  unfold Head.payloadLength Head.lengthWidth
  cases form with
  | short =>
      have hcode : length ≠ 126 ∧ length ≠ 127 := by
        change length < 126 at h
        omega
      simp [LengthForm.field, hcode]
  | medium =>
      have hnumber : Bytes.toNat (Bytes.bigEndian 2 length) = length := Bytes.toNat_bigEndian h
      simp [LengthForm.field, hnumber]
  | long =>
      have hnumber : Bytes.toNat (Bytes.bigEndian 8 length) = length := Bytes.toNat_bigEndian h
      simp [LengthForm.field, hnumber]

end Standard

theorem Legacy.length_le_of_incomplete {maxPayload : Nat} {bytes : Bytes}
    (h : decode maxPayload bytes = .incomplete) : bytes.length ≤ maxPayload + 1 := by
  unfold decode at h
  split at h
  · simp
  rename_i kind body
  rw [List.length_cons, Nat.add_le_add_iff_right]
  split at h
  · simp only at h
    split at h
    · simp at h
    rename_i hfits
    split at h
    · rename_i hdrop
      -- Nothing ends the text: all that has come is payload.
      have hwhole := List.takeWhile_append_dropWhile (p := (· ≠ sentinel)) (l := body)
      rw [hdrop, List.append_nil] at hwhole
      rw [← hwhole]
      exact Nat.le_of_not_lt hfits
    · simp at h
  split at h
  · split at h
    · simp
    · split at h <;> simp at h
  · simp at h

theorem Decoded.eq_refused_of_behind {outcome : Decoded} {more : Bytes} {e : Error}
    (h : outcome.behind more = .refused e) : outcome = .refused e := by
  cases outcome <;> simp_all [behind]

namespace Scheme

variable {scheme : Scheme} {maxPayload : Nat} {bytes : Bytes}

theorem length_lt_of_incomplete (h : scheme.decode maxPayload bytes = .incomplete) :
    bytes.length < maxPayload + maxHeadSize := by
  cases scheme with
  | rfc6455 => exact Standard.length_lt_of_incomplete h
  | legacy =>
      have hshort := Legacy.length_le_of_incomplete h
      unfold maxHeadSize
      omega

/-- What stands at the front of `bytes` is a frame that is larger than it may be, and breaks no
other rule: its head has arrived, or in the older scheme more text than there may be. -/
inductive Oversized (maxPayload : Nat) : Scheme → Bytes → Prop where
  | announced {head : Standard.Head} {first second : UInt8} {form : Standard.LengthForm}
      {length : Nat} (hhead : head.Spelled true first second) (hcapacity : length < form.capacity)
      (hcode : head.lengthCode = (form.field length).1) (hlarge : maxPayload < length)
      (rest : Bytes) :
      Oversized maxPayload .rfc6455 (first :: second :: (form.field length).2 ++ rest)
  | endless {text : Bytes} (hclean : Legacy.sentinel ∉ text) (hlarge : maxPayload < text.length)
      (rest : Bytes) : Oversized maxPayload .legacy (Legacy.textStart :: text ++ rest)

theorem refused_of_oversized (h : scheme.Oversized maxPayload bytes) :
    scheme.decode maxPayload bytes = .refused .frameTooLarge := by
  cases h with
  | @announced head first second form length hhead hcapacity hcode hlarge rest =>
      obtain ⟨fin, opcode, masked, code⟩ := head
      have hread : Standard.Head.read true first second = .ok ⟨fin, opcode, masked, code⟩ := by
        rw [hhead.first, hhead.second]
        exact Standard.read_fixed hhead.lengthCode hhead.masked hhead.control
      obtain ⟨hwidth, hlength⟩ := Standard.payloadLength_field hcapacity fin masked opcode
      change code = _ at hcode
      rw [← hcode] at hwidth hlength
      have hlength : maxPayload < Standard.Head.payloadLength _ _ := hlarge.trans_eq hlength.symm
      exact Standard.decode_of_reads (.large hread hwidth hlength rest)
  | @endless text hclean hlarge rest =>
      have hall : ∀ b ∈ text, decide (b ≠ Legacy.sentinel) = true := by
        intro b hb
        simp only [decide_eq_true_eq]
        rintro rfl
        exact hclean hb
      have htake : text.length ≤ ((text ++ rest).takeWhile (· ≠ Legacy.sentinel)).length := by
        rw [List.takeWhile_append_of_pos hall, List.length_append]
        exact Nat.le_add_right ..
      simp only [decode, Codec.new, Codec.decode, List.cons_append, Legacy.decode, if_true]
      rw [if_pos (hlarge.trans_le htake)]

end Scheme

namespace Connection

variable {options : Options} {c d after : Connection} {e : Error}

/-- What an open or closing connection has not understood yet is the beginning of a frame. -/
def Unfinished (c : Connection) : Prop :=
  c.Framed → ∀ codec, c.codec = some codec → codec.decode c.buffer.contents = .incomplete

theorem unfinished_of_round (h : c.round = .waiting) : c.Unfinished := by
  intro hframed codec hcodec
  rcases hframed with hphase | hphase
  · simp only [round, hphase, hcodec] at h
    split at h <;> first | assumption | simp at h
  · simp only [round, hphase, hcodec] at h
    split at h <;> first | assumption | simp at h

theorem unfinished_of_same (h : c.Unfinished) (hbuffer : d.buffer = c.buffer)
    (hcodec : d.codec = c.codec) (hframed : d.Framed → c.Framed) : d.Unfinished := by
  intro hframed' codec hcodec'
  rw [hbuffer]
  exact h (hframed hframed') codec (hcodec ▸ hcodec')

theorem unfinished_of_closed (h : c.phase = .closed) : c.Unfinished := by
  rintro (hphase | hphase) <;> simp [h] at hphase

theorem unfinished_of_intake (h : c.Unfinished) {data : Bytes}
    (hintake : c.intake data = .waiting after) : after.Unfinished := by
  have hends : (c.intake data).Ends Unfinished :=
    ends_intake (fun _ _ hprocess => unfinished_of_round (round_of_process hprocess)) h data
  rw [hintake] at hends
  cases hends with
  | rested hafter => exact hafter

theorem unfinished_accept (h : c.Unfinished) : c.accept.Unfinished := by
  unfold accept
  split
  · rintro (hphase | hphase) <;> cases hphase
  · exact h

theorem unfinished_receive (h : c.Unfinished) (data : Bytes) : (c.receive data).2.Unfinished := by
  rw [receive_eq_conclude]
  cases hintake : c.accept.intake data with
  | waiting after =>
      exact unfinished_of_same (unfinished_of_intake (unfinished_accept h) hintake) rfl rfl id
  | failed | abandoned => exact unfinished_of_closed rfl

theorem unfinished_close (h : c.Unfinished) (code : CloseCode) : (c.close code).Unfinished := by
  cases hphase : c.phase with
  | established =>
      obtain ⟨bytes, hqueue⟩ := queue_getD c (.close code [])
      simp only [close, hphase, hqueue]
      exact unfinished_of_same h rfl rfl fun _ => .inl hphase
  | connecting | handshaking =>
      simp only [close, hphase]
      exact unfinished_of_closed rfl
  | closing | closed => simpa only [close, hphase] using h

theorem scheme_of_round_full (h : c.Coherent options)
    (hround : c.round = .refused .readBufferFull after ∨
      c.round = .progress (.failed .readBufferFull after)) : c.scheme = none := by
  by_cases hphase : c.phase = .handshaking
  · exact h.unframed (.inr hphase)
  · exact absurd (isFault_of_round hphase hround) (by decide)

theorem scheme_of_process_full (h : c.Coherent options)
    (hprocess : c.process = .failed .readBufferFull after) : after.scheme = none := by
  fun_induction process c with
  | case1 c hround => simp at hprocess
  | case2 c e next hround =>
      cases hprocess
      exact (keeps_of_broken (.refused hround)).scheme.trans (scheme_of_round_full h (.inl hround))
  | case3 c hround => simp at hprocess
  | case4 c e next hround =>
      cases hprocess
      exact (keeps_of_broken (.failed hround)).scheme.trans (scheme_of_round_full h (.inr hround))
  | case5 c next hround ih => exact ih (coherent_round h hround) hprocess

section

variable (hbuffer : options.maxReadBuffer = none)
  (haddress : options.maxPayload + maxHeadSize ≤ maxSize)

include hbuffer haddress

/-- What is only the beginning of a frame leaves room for more of it. -/
theorem room_of_unfinished (h : c.Coherent options) (hunfinished : c.Unfinished)
    (hframed : c.Framed) : c.buffer.room ≠ 0 := by
  obtain ⟨scheme, hscheme⟩ := Option.isSome_iff_exists.mp (h.framed hframed)
  have hshort := Scheme.length_lt_of_incomplete
    (hunfinished hframed _ (h.codec_of_scheme hscheme))
  have hlimit : options.maxPayload + maxHeadSize ≤ c.buffer.limit := by
    rw [h.limit, Options.readLimit, hbuffer, Option.getD_none, Nat.min_eq_left haddress]
    exact (le_max_left _ _).trans (le_max_left _ _)
  unfold Accumulator.room Accumulator.size
  omega

theorem scheme_of_intake_full (h : c.Coherent options) (hunfinished : c.Unfinished) {data : Bytes}
    (hintake : c.intake data = .failed .readBufferFull after) : after.scheme = none := by
  have hends : (c.intake data).Ends fun d => d.Coherent options ∧ d.Unfinished := by
    refine ends_intake (fun {d next chunk} hd hchunk hprocess => ?_) ⟨h, hunfinished⟩ data
    have hnext := coherent_process (coherent_around hd.1 hchunk)
    rw [hprocess] at hnext
    exact ⟨hnext, unfinished_of_round (round_of_process hprocess)⟩
  rw [hintake] at hends
  cases hends with
  | @full d hd hopen hroom =>
      have hunframed : ¬d.Framed := fun hframed =>
        room_of_unfinished hbuffer haddress hd.1 hd.2 hframed hroom
      have hscheme : d.scheme = none := by
        apply hd.1.unframed
        cases hphase : d.phase <;> simp_all [Framed]
      split <;> exact hscheme
  | failed hd hchunk hprocess => exact scheme_of_process_full (coherent_around hd.1 hchunk) hprocess

/-- The first fault is met, however many chunks of the buffer's size it takes to get there. -/
theorem exists_intake_of_refused (h : c.Coherent options) (hunfinished : c.Unfinished)
    (hframed : c.Framed) {codec : Codec} (hcodec : c.codec = some codec) {data : Bytes}
    (hrefused : codec.decode (c.buffer.contents ++ data) = .refused e) :
    ∃ broken, c.intake data = .failed e broken := by
  induction hn : data.length using Nat.strong_induction_on generalizing c data with
  | h n ih =>
      subst hn
      have hdata : data ≠ [] := by
        rintro rfl
        simp [hunfinished hframed codec hcodec] at hrefused
      have hopen : c.phase ≠ .closed := by
        rcases hframed with hphase | hphase <;> simp [hphase]
      have hroom := room_of_unfinished hbuffer haddress h hunfinished hframed
      have hchunk : (data.take c.buffer.room).length ≤ c.buffer.room := List.length_take_le ..
      have hgrown := coherent_around h hchunk
      rw [intake, dif_neg hdata, if_neg hopen, dif_neg hroom]
      by_cases hdecode : codec.decode (c.buffer.contents ++ data.take c.buffer.room) = .incomplete
      · have hround : (c.around [] [] (data.take c.buffer.room)).round = .waiting :=
          round_of_incomplete hframed hcodec hdecode
        rw [process_of_round hround]
        have hpos := List.length_pos_iff.mpr hdata
        refine ih (data.drop c.buffer.room).length (by rw [List.length_drop]; omega) hgrown
          (unfinished_of_round hround) hframed hcodec ?_ rfl
        rwa [around_contents, List.append_assoc, List.take_append_drop]
      · have hbehind := Codec.decode_append hdecode (data.drop c.buffer.room)
        rw [List.append_assoc, List.take_append_drop, hrefused] at hbehind
        have hfront := Decoded.eq_refused_of_behind hbehind.symm
        rw [process_eq, round_of_refused (c := c.around [] [] (data.take c.buffer.room)) hframed
          hcodec hfront]
        exact ⟨_, rfl⟩

end

theorem intake_of_events {data : Bytes} {events : List Event}
    (h : c.receive data = (.events events, after)) :
    c.accept.intake data = .waiting { after with pending := events } := by
  rw [receive_eq_conclude] at h
  cases hintake : c.accept.intake data with
  | waiting d =>
      simp only [hintake, Processed.conclude, takePending, Prod.mk.injEq,
        Received.events.injEq] at h
      rw [← h.1, ← h.2]
  | failed | abandoned => simp [hintake, Processed.conclude] at h

theorem receive_of_sealed {data : Bytes}
    (h : (c.accept.intake data).sealed = (Processed.failed e d).sealed) :
    (c.receive data).1 = .failed e := by
  rw [receive_eq_conclude]
  cases hintake : c.accept.intake data with
  | failed e' after =>
      simp only [hintake, Processed.sealed, Processed.failed.injEq] at h
      rw [h.1]
      rfl
  | waiting | abandoned => simp [hintake, Processed.sealed] at h

end Connection

namespace Ledger

open Connection

variable {l : Ledger}

theorem unfinished_call (h : l.connection.Unfinished) (call : Operation) :
    (l.call call).connection.Unfinished := by
  cases call with
  | accept => exact unfinished_accept h
  | receive data => exact unfinished_receive h data
  | sendText text =>
      obtain ⟨bytes, hsend⟩ := sendText_getD l.connection text
      simp only [Ledger.call, hsend]
      exact unfinished_of_same h rfl rfl id
  | sendEncoded bytes =>
      obtain ⟨sent, hsend⟩ := sendEncoded_getD l.connection bytes
      simp only [Ledger.call, hsend]
      exact unfinished_of_same h rfl rfl id
  | close code => exact unfinished_close h code
  | finish =>
      simp only [Ledger.call, finish]
      split
      · exact unfinished_of_closed (by simp only [reportClosed_snd])
      · exact h
  | onTimeout => exact unfinished_of_closed (phase_onTimeout l.connection)
  | takeOutbound =>
      simp only [Ledger.call, takeOutbound]
      split
      · exact h
      · exact unfinished_of_same h rfl rfl id
  | onDisconnect => exact unfinished_of_closed (phase_onDisconnect l.connection)

theorem unfinished_run (h : l.connection.Unfinished) (calls : List Operation) :
    (l.run calls).connection.Unfinished :=
  run_keeps (P := (·.connection.Unfinished)) unfinished_call h calls

section

variable {options : Options} (hbuffer : options.maxReadBuffer = none)
  (haddress : options.maxPayload + maxHeadSize ≤ maxSize)

include hbuffer haddress

theorem failed_of_refused (calls : List Operation) {early late : Bytes} {events : List Event}
    {after : Connection} {scheme : Scheme} {e : Error}
    (hreceive : ((new options).run calls).connection.receive early = (.events events, after))
    (hframed : after.Framed) (hscheme : after.scheme = some scheme)
    (hrefused : scheme.decode options.maxPayload (after.buffer.contents ++ late) = .refused e) :
    (((new options).run calls).connection.receive (early ++ late)).1 = .failed e := by
  have hcoherent : ((new options).run calls).connection.Coherent options :=
    coherent_run (coherent_new options) calls
  have hearly := intake_of_events hreceive
  have hafter := coherent_intake (coherent_accept hcoherent) early
  rw [hearly] at hafter
  have hunfinished := unfinished_of_intake
    (unfinished_accept (unfinished_run (unfinished_of_round rfl) calls)) hearly
  obtain ⟨broken, hlate⟩ := exists_intake_of_refused hbuffer haddress hafter hunfinished hframed
    (hafter.codec_of_scheme hscheme) hrefused
  apply receive_of_sealed (d := broken)
  rw [intake_append, hearly]
  exact congrArg Processed.sealed hlate

end

/-- **A frame that may be sent always fits into the buffer**, if the buffer is made for the largest
one. Once a connection has opened, in an earlier call or in the same one, it never breaks off
because its buffer is full. A frame that is too large, however its bytes are cut, is refused as
such, unless its first two bytes break a rule: then it is refused for that rule. -/
theorem frames_fit_the_buffer (options : Options) (hbuffer : options.maxReadBuffer = none)
    (haddress : options.maxPayload + maxHeadSize ≤ maxSize) (calls : List Operation)
    (data : Bytes) :
    let c := ((new options).run calls).connection
    (c.Framed → (c.receive data).1 ≠ .failed .readBufferFull) ∧
      ((c.receive data).1 = .failed .readBufferFull → (c.receive data).2.scheme = none) ∧
      (∀ early late events after scheme, data = early ++ late →
        c.receive early = (.events events, after) → after.Framed → after.scheme = some scheme →
        scheme.Oversized options.maxPayload (after.buffer.contents ++ late) →
        (c.receive data).1 = .failed .frameTooLarge) ∧
      ∀ early late events after first second body e, data = early ++ late →
        c.receive early = (.events events, after) → after.Framed →
        after.scheme = some .rfc6455 →
        after.buffer.contents ++ late = first :: second :: body →
        Standard.Head.read true first second = .error e → (c.receive data).1 = .failed e := by
  intro c
  have hcoherent : c.accept.Coherent options :=
    coherent_accept (coherent_run (coherent_new options) calls)
  have hunfinished : c.accept.Unfinished :=
    unfinished_accept (unfinished_run (unfinished_of_round rfl) calls)
  have hunopened : (c.receive data).1 = .failed .readBufferFull →
      (c.receive data).2.scheme = none := by
    intro hfull
    obtain ⟨broken, hintake, hafter⟩ := intake_of_failed hfull
    rw [hafter, (keeps_fail _ _).scheme]
    exact scheme_of_intake_full hbuffer haddress hcoherent hunfinished hintake
  refine ⟨?_, hunopened, ?_, ?_⟩
  · intro hframed hfull
    have hopened : Phase.established ≤ c.phase := by
      rcases hframed with hphase | hphase
      · exact hphase.ge
      · rw [hphase]
        decide
    have hnone := hunopened hfull
    rw [(steady_receive c data).scheme (.inr hopened)] at hnone
    have hsome := (coherent_run (coherent_new options) calls).framed hframed
    simp [c, hnone] at hsome
  · rintro early late events after scheme rfl hreceive hframed hscheme hoversized
    exact failed_of_refused hbuffer haddress calls hreceive hframed hscheme
      (Scheme.refused_of_oversized hoversized)
  · rintro early late events after first second body e rfl hreceive hframed hscheme hbytes hread
    refine failed_of_refused hbuffer haddress calls hreceive hframed hscheme ?_
    rw [hbytes]
    exact Standard.decode_of_reads (.fault hread body)

/-- The settings of a server that takes no frame of more than a hundred bytes. -/
def hundredBytes : Options :=
  { Options.standard with maxPayload := 100 }

theorem ready_of_request {options : Options} {request : Bytes} {u : Handshake.Upgrade}
    (h : Opening options request u) (hbuffer : options.maxReadBuffer = none)
    (haddress : options.maxPayload + maxHeadSize ≤ maxSize) :
    let c := ((new options).run [.receive request]).connection
    c.Ready ∧ c.scheme = some .rfc6455 ∧ c.receive [] = (.events [], c) := by
  intro c
  have hc : c = { (Connection.new options).accept.upgrade u with pending := [] } :=
    connection_of_request h
  obtain ⟨hphase, hcodec, hempty, hroomy⟩ := ready_upgrade h hbuffer haddress
  rw [hc, receive, absorb_eq_conclude, intake_nil]
  exact ⟨⟨hphase, hcodec, hempty, hroomy⟩, congrArg some h.standard, rfl⟩

theorem large_text_is_refused :
    let c := ((new hundredBytes).run [.receive plainRequest]).connection
    hundredBytes.maxReadBuffer = none ∧ hundredBytes.maxPayload + maxHeadSize ≤ maxSize ∧
      (∀ data, (c.receive data).1 ≠ .failed .readBufferFull) ∧
      (c.receive [0x81, 0xFE, 0x00, 0xC8]).1 = .failed .frameTooLarge ∧
      (c.receive [0xC1, 0xFE, 0x00, 0xC8]).1 = .failed .reservedBits := by
  intro c
  have haddress : hundredBytes.maxPayload + maxHeadSize ≤ maxSize := by decide
  have hfits := frames_fit_the_buffer hundredBytes rfl haddress [.receive plainRequest]
  obtain ⟨hready, hscheme, hnothing⟩ :=
    ready_of_request (opening_plainRequest hundredBytes rfl) rfl haddress
  have hframed : c.Framed := .inl hready.phase
  have hhead : Standard.Head.Spelled true ⟨true, .text, true, 126⟩ 0x81 0xFE :=
    ⟨rfl, rfl, by decide, by decide, by decide⟩
  have hcapacity : 200 < Standard.LengthForm.medium.capacity := by decide
  refine ⟨rfl, haddress, fun data => (hfits data).1 hframed, ?_, ?_⟩
  · refine (hfits _).2.2.1 [] _ [] c .rfc6455 rfl hnothing hframed hscheme ?_
    rw [hready.empty]
    exact .announced hhead hcapacity rfl (by decide) []
  · refine (hfits _).2.2.2 [] _ [] c 0xC1 0xFE [0x00, 0xC8] .reservedBits rfl hnothing hframed
      hscheme ?_ rfl
    rw [hready.empty]
    rfl

/-- A ping of two hundred bytes is too large for this server as well, but is refused as one that no
server takes. -/
theorem large_ping_is_refused_as_control : ∃ options : Options,
    options.maxReadBuffer = none ∧ options.maxPayload + maxHeadSize ≤ maxSize ∧
      let c := ((new options).run [.receive plainRequest]).connection
      let ping := (Frame.ping (List.replicate 200 0x21)).withMask ⟨5, 6, 7, 8⟩
      c.Framed ∧ options.maxPayload < ping.payload.length ∧
        (c.receive (Standard.encode ping)).1 = .failed .oversizedControl := by
  have haddress : hundredBytes.maxPayload + maxHeadSize ≤ maxSize := by decide
  refine ⟨hundredBytes, rfl, haddress, ?_⟩
  intro c ping
  obtain ⟨hready, -⟩ : c.Ready ∧ _ :=
    ready_of_request (opening_plainRequest hundredBytes rfl) rfl haddress
  have hframed : c.Framed := .inl hready.phase
  have hsettings : c.options = hundredBytes :=
    (coherent_run (coherent_new hundredBytes) [.receive plainRequest]).settings
  have hrefused : (Codec.new .rfc6455 c.options.maxPayload).decode
      (c.buffer.contents ++ Standard.encode ping) = .refused .oversizedControl := by
    rw [hready.empty, hsettings]
    decide +kernel
  obtain ⟨broken, hintake⟩ := exists_intake_of_refused rfl haddress
    (coherent_run (coherent_new hundredBytes) [.receive plainRequest])
    (unfinished_run (unfinished_of_round rfl) [.receive plainRequest]) hframed hready.codec
    hrefused
  have haccept : c.accept = c := accept_of_started (by simp [hready.phase])
  refine ⟨hframed, by decide +kernel, receive_of_sealed (d := broken) ?_⟩
  rw [haccept]
  exact congrArg Processed.sealed hintake

end Ledger

end WebSocket

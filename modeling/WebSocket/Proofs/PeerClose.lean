import WebSocket.Proofs.EventDiscipline
import WebSocket.Proofs.ReadBuffer

namespace WebSocket

/-- The numbers that may stand in a close frame. -/
def CloseCode.Permitted (n : Nat) : Prop :=
  1000 ≤ n ∧ n ≤ 1003 ∨ 1007 ≤ n ∧ n ≤ 1013 ∨ 3000 ≤ n ∧ n ≤ 4999

theorem CloseCode.isAllowed_ofNumber (number : UInt16) :
    (ofNumber number).isAllowed = true ↔ Permitted number.toNat := by
  unfold ofNumber Permitted
  generalize number.toNat = n
  split
  case h_15 =>
    simp only [imp_false] at *
    -- The numbers without a name are told apart by their bounds alone.
    split
    · exact iff_of_false Bool.false_ne_true (by omega)
    split
    · exact iff_of_false Bool.false_ne_true (by omega)
    split
    · exact iff_of_true rfl (by omega)
    split
    · exact iff_of_true rfl (by omega)
    · exact iff_of_false Bool.false_ne_true (by omega)
  all_goals decide

/-- The bytes of a close frame as a client sends it. -/
def peerClose (key : MaskKey) (p : Bytes) : Bytes :=
  Standard.encode ((Frame.closeRaw p).withMask key)

namespace Connection

/-- The payload of a close frame that breaks no rule: nothing, or a code and a reason. -/
def Proper (p : Bytes) : Prop :=
  p = [] ∨ 2 ≤ p.length ∧ CloseCode.Permitted (Bytes.toNat (p.take 2)) ∧
    Utf8.isValid (p.drop 2) = true

/-- The payload of a close frame that a server accepts if it takes this much in a frame. -/
def Acceptable (maxPayload : Nat) (p : Bytes) : Prop :=
  p.length ≤ maxPayload ∧ Proper p

/-- What is wrong with any other payload, and the code with which the peer is told. -/
inductive Misclosed (maxPayload : Nat) (p : Bytes) : Error → CloseCode → Prop where
  | large (h : maxPayload < p.length) : Misclosed maxPayload p .frameTooLarge .size
  | half (hfits : p.length ≤ maxPayload) (h : p.length = 1) :
      Misclosed maxPayload p .invalidCloseFrame .protocol
  | garbled (hfits : p.length ≤ maxPayload) (hcode : 2 ≤ p.length)
      (h : Utf8.isValid (p.drop 2) = false) : Misclosed maxPayload p .invalidUtf8 .invalid
  | forbidden (hfits : p.length ≤ maxPayload) (hcode : 2 ≤ p.length)
      (hvalid : Utf8.isValid (p.drop 2) = true)
      (h : ¬CloseCode.Permitted (Bytes.toNat (p.take 2))) :
      Misclosed maxPayload p .invalidCloseCode .protocol

variable {options : Options} {maxPayload : Nat} {p data : Bytes} {key : MaskKey} {e : Error}
  {code : CloseCode} {c d : Connection}

theorem Misclosed.not_acceptable (h : Misclosed maxPayload p e code) :
    ¬Acceptable maxPayload p := by
  rintro ⟨hfits, rfl | ⟨hcode, hpermitted, hvalid⟩⟩
  · cases h <;> simp_all
  · cases h with
    | large h => omega
    | half _ h => omega
    | garbled _ _ h => simp [h] at hvalid
    | forbidden _ _ _ h => exact h hpermitted

theorem Misclosed.unique {e' : Error} {code' : CloseCode} (h : Misclosed maxPayload p e code)
    (h' : Misclosed maxPayload p e' code') : e = e' ∧ code = code' := by
  cases h <;> cases h' <;> first | exact ⟨rfl, rfl⟩ | omega | simp_all

theorem Misclosed.closeCode? (h : Misclosed maxPayload p e code) : e.closeCode? = some code := by
  cases h <;> rfl

theorem toNat_ofNat_pair (high low : UInt8) :
    (UInt16.ofNat (Bytes.toNat [high, low])).toNat = Bytes.toNat [high, low] := by
  have hbound : Bytes.toNat [high, low] < 2 ^ 16 := by simpa using Bytes.toNat_lt [high, low]
  rw [UInt16.toNat_ofNat']
  exact Nat.mod_eq_of_lt hbound

theorem closeFault?_cases (hfits : p.length ≤ maxPayload) :
    closeFault? (.closeRaw p) = none ∧ Proper p ∨
      ∃ e code, closeFault? (.closeRaw p) = some e ∧ Misclosed maxPayload p e code := by
  rcases p with _ | ⟨high, _ | ⟨low, reason⟩⟩
  · exact .inl ⟨rfl, .inl rfl⟩
  · refine .inr ⟨_, _, ?_, .half hfits rfl⟩
    simp only [closeFault?, Frame.closeRaw, Frame.plain, Frame.closeCode?, List.isEmpty_cons,
      Bool.false_eq_true, if_false]
  have hcode : 2 ≤ (high :: low :: reason).length := by
    simp only [List.length_cons]
    omega
  have hallowed := CloseCode.isAllowed_ofNumber (UInt16.ofNat (Bytes.toNat [high, low]))
  rw [toNat_ofNat_pair] at hallowed
  cases hvalid : Utf8.isValid reason with
  | false =>
      refine .inr ⟨_, _, ?_, .garbled hfits hcode hvalid⟩
      simp [closeFault?, Frame.closeRaw, Frame.plain, Frame.closeCode?, Frame.closeReason?, hvalid]
  | true =>
      by_cases hpermitted : CloseCode.Permitted (Bytes.toNat [high, low])
      · refine .inl ⟨?_, .inr ⟨hcode, hpermitted, hvalid⟩⟩
        simp [closeFault?, Frame.closeRaw, Frame.plain, Frame.closeCode?, Frame.closeReason?,
          hvalid, hallowed.mpr hpermitted]
      · refine .inr ⟨_, _, ?_, .forbidden hfits hcode hvalid hpermitted⟩
        simp [closeFault?, Frame.closeRaw, Frame.plain, Frame.closeCode?, Frame.closeReason?,
          hvalid, mt hallowed.mp hpermitted]

theorem onClose_of_established (hphase : c.phase = .established)
    (hcodec : c.codec = some (.new .rfc6455 maxPayload))
    (hfault : closeFault? (.closeRaw p) = none) :
    c.onClose (.closeRaw p) = .going { c.write (Standard.encode (.closeRaw p)) with
      peerClosed := true, phase := .closing } := by
  simp only [onClose, hfault, hphase, queue, hcodec, Codec.new, Codec.encode, Except.map, write]
  rfl

theorem onClose_of_closing (hphase : c.phase = .closing) (hopened : c.opened = true)
    (hreported : c.closedReported = false) (hfault : closeFault? (.closeRaw p) = none) :
    c.onClose (.closeRaw p) = .going { c with
      peerClosed := true, phase := .closed, closedReported := true,
      pending := c.pending ++ [.closed] } := by
  simp [onClose, hfault, hphase, reportClosed, hopened, hreported]

/-- A connection in the standard framing that waits for the rest of a frame, or for one to begin. -/
structure Listening (options : Options) (c : Connection) : Prop where
  framed : c.Framed
  codec : c.codec = some (.new .rfc6455 options.maxPayload)
  roomy : Handshake.defaultMaxHead ≤ c.buffer.limit
  unfinished : c.Unfinished

theorem lawful_closeRaw (key : MaskKey) (hcontrol : p.length ≤ Frame.maxControlPayload) :
    ((Frame.closeRaw p).withMask key).Lawful where
  rsv1 := rfl
  rsv2 := rfl
  rsv3 := rfl
  control _ := ⟨rfl, hcontrol⟩
  size := (Nat.add_le_add_right hcontrol _).trans (by decide)

theorem decode_peerClose (hcontrol : p.length ≤ Frame.maxControlPayload) :
    Standard.decode ⟨maxPayload, true⟩ (peerClose key p) =
      if maxPayload < p.length then .refused .frameTooLarge else .frame (.closeRaw p) [] := by
  split
  · rename_i hlarge
    exact Standard.decode_head_of_large ⟨maxPayload, true⟩ (lawful_closeRaw key hcontrol)
      (fun _ => rfl) hlarge _
  · rename_i hfits
    have hdecode := Standard.decode_encode ⟨maxPayload, true⟩ (lawful_closeRaw key hcontrol)
      (fun _ => rfl) (Nat.le_of_not_lt hfits) []
    rw [List.append_nil] at hdecode
    exact hdecode

theorem accept_of_framed (h : c.Framed) : c.accept = c := by
  refine accept_of_started ?_
  rcases h with hphase | hphase <;> simp [hphase]

section

variable (h : c.Listening options) (hcontrol : p.length ≤ Frame.maxControlPayload)
  (harrives : c.buffer.contents ++ data = peerClose key p)

include h hcontrol harrives

theorem intake_rest : c.intake data = (c.around [] [] data).process := by
  -- What is buffered is the beginning of a frame, but not all of it.
  have hdata : data ≠ [] := by
    rintro rfl
    have hincomplete : Standard.decode ⟨options.maxPayload, true⟩ c.buffer.contents =
        .incomplete := h.unfinished h.framed _ h.codec
    rw [List.append_nil] at harrives
    rw [harrives, decode_peerClose hcontrol] at hincomplete
    split at hincomplete <;> simp at hincomplete
  have hopen : c.phase ≠ .closed := by
    rcases h.framed with hphase | hphase <;> simp [hphase]
  refine intake_of_le_room hdata hopen ?_
  have hlength : (peerClose key p).length ≤ p.length + maxHeadSize :=
    Standard.length_encode_le _
  rw [← harrives, List.length_append] at hlength
  have hroomy := h.roomy
  simp only [Accumulator.room, Accumulator.size, Handshake.defaultMaxHead,
    Frame.maxControlPayload, maxHeadSize] at hlength hroomy hcontrol ⊢
  omega

/-- A close frame is acted on, or it is known what is wrong with it. -/
theorem intake_peerClose :
    Acceptable options.maxPayload p ∧ closeFault? (.closeRaw p) = none ∧
        c.intake data = processed ((c.withBuffered []).onClose (.closeRaw p)) ∨
      ∃ e code broken, Misclosed options.maxPayload p e code ∧
        c.intake data = .failed e broken ∧ broken.Alike c := by
  have hdecode : (Codec.new .rfc6455 options.maxPayload).decode
      (c.around [] [] data).buffer.contents =
      if options.maxPayload < p.length then .refused .frameTooLarge
      else .frame (.closeRaw p) [] :=
    (congrArg _ harrives).trans (decode_peerClose hcontrol)
  rw [intake_rest h hcontrol harrives]
  -- The decoder judges the size, the connection everything else.
  by_cases hlarge : options.maxPayload < p.length
  · rw [if_pos hlarge] at hdecode
    rw [process_eq, round_of_refused (c := c.around [] [] data) h.framed h.codec hdecode]
    exact .inr ⟨_, _, _, .large hlarge, rfl, by constructor <;> rfl⟩
  rw [if_neg hlarge] at hdecode
  have hfits : p.length ≤ options.maxPayload := Nat.le_of_not_lt hlarge
  have hround : (c.around [] [] data).round =
      .progress ((c.withBuffered []).onFrame (.closeRaw p)) := by
    rw [round_of_frame (c := c.around [] [] data) h.framed h.codec hdecode]
    simp [around, withBuffered]
  rw [process_of_onFrame hround rfl]
  rcases closeFault?_cases hfits with ⟨hfault, hproper⟩ | ⟨e, code, hfault, hmisclosed⟩
  · exact .inl ⟨⟨hfits, hproper⟩, hfault, rfl⟩
  · refine .inr ⟨e, code, c.withBuffered [], hmisclosed, ?_, by constructor <;> rfl⟩
    change processed ((c.withBuffered []).onClose (.closeRaw p)) = _
    simp only [onClose, hfault, processed]

theorem receive_first (hphase : c.phase = .established) (hpending : c.pending = [])
    (hacceptable : Acceptable options.maxPayload p) :
    c.receive data = (.events [],
      { (c.withBuffered []).write (Standard.encode (.closeRaw p)) with
        peerClosed := true, phase := .closing, pending := [] }) := by
  rcases intake_peerClose h hcontrol harrives with ⟨-, hfault, hintake⟩ |
    ⟨_, _, _, hmisclosed, -⟩
  · have hact := onClose_of_established (c := c.withBuffered []) hphase h.codec hfault
    rw [receive_eq_conclude, accept_of_framed h.framed, hintake, hact]
    exact congrArg (fun events => (Received.events events, _)) hpending
  · exact absurd hacceptable hmisclosed.not_acceptable

theorem receive_second (hphase : c.phase = .closing) (hpending : c.pending = [])
    (hopened : c.opened = true) (hreported : c.closedReported = false)
    (hacceptable : Acceptable options.maxPayload p) :
    c.receive data = (.events [.closed],
      { c.withBuffered [] with
        peerClosed := true, phase := .closed, closedReported := true, pending := [] }) := by
  rcases intake_peerClose h hcontrol harrives with ⟨-, hfault, hintake⟩ |
    ⟨_, _, _, hmisclosed, -⟩
  · have hact := onClose_of_closing (c := c.withBuffered []) hphase hopened hreported hfault
    rw [receive_eq_conclude, accept_of_framed h.framed, hintake, hact]
    exact congrArg (fun events => (Received.events (events ++ [.closed]), _)) hpending
  · exact absurd hacceptable hmisclosed.not_acceptable

theorem receive_misclosed (hacceptable : ¬Acceptable options.maxPayload p) :
    ∃ e code, ∃ broken : Connection, Misclosed options.maxPayload p e code ∧
      c.receive data = (.failed e, broken.fail e) ∧ broken.Alike c := by
  rcases intake_peerClose h hcontrol harrives with ⟨hproper, -⟩ |
    ⟨e, code, broken, hmisclosed, hintake, halike⟩
  · exact absurd hproper hacceptable
  · refine ⟨e, code, broken, hmisclosed, ?_, halike⟩
    rw [receive_eq_conclude, accept_of_framed h.framed, hintake]
    rfl

end

/-- The peer of this connection has closed it, and nothing more will be said to it. -/
structure Released (c : Connection) : Prop where
  silent : c.Silent
  bidden : c.Bidden
  scheme : c.scheme = some .rfc6455

theorem Released.opened (h : c.Released) : .established ≤ c.phase :=
  le_trans (by decide) ((silent_iff c).mp h.silent)

theorem released_of_closed (h : c.Released) (hphase : d.phase = .closed)
    (hscheme : d.scheme = c.scheme) : d.Released where
  silent := .inr hphase
  bidden := by simp [Bidden, hphase]
  scheme := hscheme.trans h.scheme

theorem released_intake (h : c.Released) (data : Bytes) : (c.intake data).ended.Released where
  silent := (account_intake h.silent data).1
  bidden := bidden_intake h.bidden data
  scheme := ((steady_intake c data).scheme (.inr h.opened)).trans h.scheme

/-- Whatever is asked of it then, nothing of this changes. -/
theorem released_act (h : c.Released) (call : Operation) : (c.act call).Released := by
  have haccept : c.accept = c := by
    refine accept_of_started ?_
    rcases h.silent with hphase | hphase <;> simp [hphase]
  cases call with
  | accept => rwa [act, haccept]
  | receive data =>
      rw [act, haccept]
      exact released_intake h data
  | sendText text => rwa [act, sendText_of_silent h.silent]
  | sendEncoded bytes => rwa [act, sendEncoded_of_silent h.silent]
  | close code => rcases h.silent with hphase | hphase <;> simpa only [act, close, hphase] using h
  | finish =>
      rcases finish_cases c with hsame | ⟨-, hclosed⟩
      · rwa [hsame]
      · exact released_of_closed h hclosed ((steady_finish c).scheme (.inr h.opened))
  | onTimeout =>
      exact released_of_closed h (phase_onTimeout c) ((steady_onTimeout c).scheme (.inr h.opened))
  | takeOutbound => exact h
  | onDisconnect =>
      exact released_of_closed h (phase_onDisconnect c)
        ((steady_onDisconnect c).scheme (.inr h.opened))

theorem finish_of_bidden (hbidden : c.Bidden) (hphase : c.phase = .closing)
    (hopened : c.opened = true) (hreported : c.closedReported = false) :
    c.finish = (some .closed, { c with phase := .closed, closedReported := true }) := by
  simp [finish, reportClosed, hphase, hbidden hphase, hopened, hreported]

theorem unreported_of_told {a : Assembly} (h : c.Told a) (hphase : c.phase = .closing) :
    c.opened = true ∧ c.closedReported = false := by
  refine ⟨h.framed (.inr hphase), ?_⟩
  cases hreported : c.closedReported with
  | false => rfl
  | true => simpa [hphase] using (h.reported hreported).2

end Connection

namespace Ledger

open Connection

variable {options : Options} {l : Ledger} {p data : Bytes} {key : MaskKey}

/-- What holds at any time of a connection, and of what its owner has seen of it. -/
structure Kept (options : Options) (l : Ledger) : Prop where
  prompt : l.Prompt
  coherent : l.connection.Coherent options
  unfinished : l.connection.Unfinished
  told : ∃ a, l.whole.Told a

theorem kept_new (options : Options) : (new options).Kept options where
  prompt := prompt_new options
  coherent := coherent_new options
  unfinished := unfinished_of_round rfl
  told := ⟨.empty, told_new options⟩

theorem kept_run (h : l.Kept options) (calls : List Operation) : (l.run calls).Kept options where
  prompt := prompt_run h.prompt calls
  coherent := coherent_run h.coherent calls
  unfinished := unfinished_run h.unfinished calls
  told := by
    obtain ⟨a, htold⟩ := h.told
    exact ⟨_, told_run h.prompt htold calls⟩

theorem listening_of_kept (h : l.Kept options) (hframed : l.connection.Framed)
    (hscheme : l.connection.scheme = some .rfc6455) : l.connection.Listening options where
  framed := hframed
  codec := h.coherent.codec_of_scheme hscheme
  roomy := h.coherent.limit.symm ▸ le_max_right _ _
  unfinished := h.unfinished

theorem released_run (hprompt : l.Prompt) (h : l.connection.Released) (calls : List Operation) :
    (l.run calls).connection.Released := by
  have hwhole : (l.run calls).whole.Released :=
    whole_run_keeps (P := Released) released_act hprompt ⟨h.silent, h.bidden, h.scheme⟩ calls
  exact ⟨hwhole.silent, hwhole.bidden, hwhole.scheme⟩

theorem events_prefix_call (l : Ledger) (call : Operation) : l.events <+: (l.call call).events := by
  cases call with
  | receive | finish | onDisconnect => exact List.prefix_append _ _
  | _ => exact List.prefix_rfl

theorem events_prefix_run (l : Ledger) (calls : List Operation) :
    l.events <+: (l.run calls).events :=
  run_keeps (P := (l.events <+: ·.events)) (fun h call => h.trans (events_prefix_call _ call))
    List.prefix_rfl calls

/-- The connection is gone, and whatever is still asked of it, its owner hears of the end just
once. -/
structure Parted (l : Ledger) : Prop where
  phase : l.connection.phase = .closed
  once : ∀ more, (l.run more).events.count .closed = 1

theorem parted_of_mem (h : l.Kept options) (hphase : l.connection.phase = .closed)
    (hclosed : .closed ∈ l.events) : l.Parted where
  phase := hphase
  once more := by
    -- The story of a connection has one end, and of this one it was already told.
    obtain ⟨a, htold⟩ := (kept_run h more).told
    have hmost := (events_begin htold).sublist.count_le .closed
    have hmember := (events_prefix_run l more).subset hclosed
    refine le_antisymm (hmost.trans ?_) (List.count_pos_iff.mpr hmember)
    have hnone : (a.messages.map Event.message).count .closed = 0 := by
      simp [List.count_eq_zero]
    simp [List.count_append, hnone]

theorem parted_finish (h : l.Kept options) (hreleased : l.connection.Released)
    (hclosing : l.connection.phase = .closing) :
    l.connection.finish.1 = some .closed ∧ (l.call .finish).Parted := by
  obtain ⟨a, htold⟩ := h.told
  obtain ⟨hopened, hreported⟩ := unreported_of_told htold hclosing
  have hfinish : l.connection.finish = _ :=
    finish_of_bidden hreleased.bidden hclosing hopened hreported
  refine ⟨congrArg Prod.fst hfinish, parted_of_mem (kept_run h [.finish]) ?_ ?_⟩
  · exact congrArg (fun ended => ended.2.phase) hfinish
  · change .closed ∈ l.events ++ l.connection.finish.1.toList
    simp [hfinish]

theorem parted_receive (h : l.Kept options) (hreleased : l.connection.Released)
    (hclosing : l.connection.phase = .closing) (hcontrol : p.length ≤ Frame.maxControlPayload)
    (hacceptable : Acceptable options.maxPayload p)
    (harrives : l.connection.buffer.contents ++ data = peerClose key p) :
    (l.connection.receive data).1 = .events [.closed] ∧ (l.call (.receive data)).Parted := by
  obtain ⟨a, htold⟩ := h.told
  obtain ⟨hopened, hreported⟩ := unreported_of_told htold hclosing
  have hreceive : l.connection.receive data = _ :=
    receive_second (listening_of_kept h (.inr hclosing) hreleased.scheme) hcontrol harrives hclosing
      (h.prompt (by simp [hclosing])) hopened hreported hacceptable
  refine ⟨congrArg Prod.fst hreceive, parted_of_mem (kept_run h [.receive data]) ?_ ?_⟩
  · exact congrArg (fun ended => ended.2.phase) hreceive
  · change .closed ∈ l.events ++ (l.connection.receive data).1.handedOut
    simp [hreceive, Received.handedOut]

/-- In the call that leads from `l` to `l'`, the peer of an open connection has closed it with the
payload `p`, and got its frame back. From then on nothing more is said to it, and the connection
ends either when its owner ends it or with another close frame. -/
structure Acknowledged (options : Options) (l l' : Ledger) (p : Bytes) : Prop where
  phase : l'.connection.phase = .closing
  emptied : l'.connection.buffer.contents = []
  queued : l'.connection.outbound = l.connection.outbound ++ Standard.encode (.closeRaw p)
  last : ∀ more, (l'.run more).written = l'.written
  finish : ∀ between, let m := l'.run between
    m.connection.phase = .closing →
      m.connection.finish.1 = some .closed ∧ (m.call .finish).Parted
  answered : ∀ between key' p' data', let m := l'.run between
    m.connection.phase = .closing → p'.length ≤ Frame.maxControlPayload →
      Acceptable options.maxPayload p' →
      m.connection.buffer.contents ++ data' = peerClose key' p' →
      (m.connection.receive data').1 = .events [.closed] ∧ (m.call (.receive data')).Parted

theorem acknowledged_of_acceptable (h : l.Kept options)
    (hphase : l.connection.phase = .established) (hscheme : l.connection.scheme = some .rfc6455)
    (hcontrol : p.length ≤ Frame.maxControlPayload)
    (harrives : l.connection.buffer.contents ++ data = peerClose key p)
    (hacceptable : Acceptable options.maxPayload p) :
    Acknowledged options l (l.call (.receive data)) p := by
  have hafter : (l.call (.receive data)).connection = _ :=
    congrArg Prod.snd (receive_first (listening_of_kept h (.inl hphase) hscheme) hcontrol harrives
      hphase (h.prompt (by simp [hphase])) hacceptable)
  have hkept : (l.call (.receive data)).Kept options := kept_run h [.receive data]
  have hreleased : (l.call (.receive data)).connection.Released := by
    rw [hafter]
    exact ⟨.inl rfl, fun _ => rfl, hscheme⟩
  exact {
    phase := by rw [hafter]
    emptied := by rw [hafter]; rfl
    queued := by rw [hafter]; rfl
    last := fun more => (onward_run hkept.prompt more).written hreleased.silent
    finish := fun between hclosing => parted_finish (kept_run hkept between)
      (released_run hkept.prompt hreleased between) hclosing
    answered := fun between key' p' data' hclosing hcontrol' hacceptable' harrives' =>
      parted_receive (kept_run hkept between) (released_run hkept.prompt hreleased between)
        hclosing hcontrol' hacceptable' harrives' }

/-- In the call that leads from `l` to `l'`, the peer of an open connection has closed it with a
payload that cannot be taken: the connection is closed, and the peer is told why. -/
structure Dismissed (l l' : Ledger) (e : Error) (code : CloseCode) : Prop where
  phase : l'.connection.phase = .closed
  queued : l'.connection.outbound =
    l.connection.outbound ++ Standard.encode (.close code (Utf8.encode e.message))
  last : ∀ more, (l'.run more).written = l'.written

theorem dismissed_of_failed {e : Error} {code : CloseCode} {broken : Connection}
    (h : l.Kept options) (hphase : l.connection.phase = .established)
    (hscheme : l.connection.scheme = some .rfc6455) (hcode : e.closeCode? = some code)
    (hreceive : l.connection.receive data = (.failed e, broken.fail e))
    (halike : broken.Alike l.connection) :
    Dismissed l (l.call (.receive data)) e code := by
  have hafter : (l.call (.receive data)).connection = broken.fail e := congrArg Prod.snd hreceive
  have hclosed : (l.call (.receive data)).connection.phase = .closed := by
    rw [hafter]
    rfl
  have hprompt := prompt_call h.prompt (.receive data)
  refine ⟨hclosed, ?_, fun more => (onward_run hprompt more).written (.inr hclosed)⟩
  -- An error leaves the connection as it was in front of the close frame.
  have hcodec := halike.codec.trans (h.coherent.codec_of_scheme hscheme)
  rw [hafter, outbound_fail (halike.phase.trans hphase) hcodec hcode, halike.outbound]
  exact congrArg _ (Except.ok.inj (Scheme.encode_notice .rfc6455 hcode)).symm

/-- **The close frames of a peer are judged exactly.** On an open connection in the standard
framing, also in the middle of a message and however the bytes are cut, a close frame is accepted if
and only if the server takes frames of its size and its payload breaks no rule. If it is accepted,
it is sent back once, and the connection ends with one report, in whichever way the handshake is
completed; if not, the connection breaks off, and the peer is told what is wrong. No message is
delivered any more. -/
theorem peer_close_is_judged (options : Options) (calls : List Operation) (key : MaskKey)
    (p data : Bytes)
    (hphase : ((new options).run calls).connection.phase = .established)
    (hscheme : ((new options).run calls).connection.scheme = some .rfc6455)
    (hcontrol : p.length ≤ Frame.maxControlPayload)
    (harrives : ((new options).run calls).connection.buffer.contents ++ data = peerClose key p) :
    let l := (new options).run calls
    let l' := l.call (.receive data)
    ((l.connection.receive data).1 = .events [] ↔ Acceptable options.maxPayload p) ∧
      (Acceptable options.maxPayload p → Acknowledged options l l' p) ∧
      (¬Acceptable options.maxPayload p → ∃ e code, Misclosed options.maxPayload p e code) ∧
      (∀ e code, Misclosed options.maxPayload p e code →
        (l.connection.receive data).1 = .failed e ∧ Dismissed l l' e code) ∧
      ∀ more, (l'.run more).messages = l.messages := by
  intro l l'
  have hkept : l.Kept options := kept_run (kept_new options) calls
  have hlistening := listening_of_kept hkept (.inl hphase) hscheme
  have hpending : l.connection.pending = [] := hkept.prompt (by rw [hphase]; decide)
  have hprompt : l'.Prompt := prompt_call hkept.prompt _
  by_cases hacceptable : Acceptable options.maxPayload p
  · have hreceive := receive_first hlistening hcontrol harrives hphase hpending hacceptable
    have hacknowledged :=
      acknowledged_of_acceptable hkept hphase hscheme hcontrol harrives hacceptable
    refine ⟨⟨fun _ => hacceptable, fun _ => congrArg Prod.fst hreceive⟩, fun _ => hacknowledged,
      fun hnot => absurd hacceptable hnot,
      fun e code hmisclosed => absurd hacceptable hmisclosed.not_acceptable, fun more => ?_⟩
    rw [(onward_run hprompt more).messages (.inl hacknowledged.phase)]
    simp [l', messages, call, hreceive, Received.handedOut, hpending]
  · obtain ⟨e, code, broken, hmisclosed, hreceive, halike⟩ :=
      receive_misclosed hlistening hcontrol harrives hacceptable
    have hdismissed : Dismissed l l' e code :=
      dismissed_of_failed hkept hphase hscheme hmisclosed.closeCode? hreceive halike
    refine ⟨?_, fun hyes => absurd hyes hacceptable, fun _ => ⟨e, code, hmisclosed⟩, ?_,
      fun more => ?_⟩
    · rw [hreceive]
      simp [hacceptable]
    · intro e' code' hmisclosed'
      obtain ⟨rfl, rfl⟩ := hmisclosed.unique hmisclosed'
      exact ⟨congrArg Prod.fst hreceive, hdismissed⟩
    · rw [(onward_run hprompt more).messages (.inr hdismissed.phase)]
      obtain ⟨bytes, hfail⟩ := fail_eq_write broken e
      simp [l', messages, call, hreceive, hfail, write, Received.handedOut, halike.pending]

theorem close_between_fragments_is_answered :
    let part := (Frame.plain false .text [0x48]).withMask ⟨1, 2, 3, 4⟩
    let l := (new .standard).run [.receive plainRequest, .receive (Standard.encode part)]
    let l' := l.call (.receive (peerClose ⟨5, 6, 7, 8⟩ [0x03, 0xE8]))
    l.connection.fragment = some .text ∧
      (l.connection.receive (peerClose ⟨5, 6, 7, 8⟩ [0x03, 0xE8])).1 = .events [] ∧
      l'.connection.outbound = l.connection.outbound ++ [0x88, 2, 0x03, 0xE8] ∧
      l'.connection.finish.1 = some .closed ∧ ∀ more, (l'.run more).messages = l.messages := by
  intro part l l'
  have hopening := opening_plainRequest .standard rfl
  obtain ⟨hready, -⟩ := ready_of_request hopening rfl (by decide)
  have hpart : part.Sent .standard := sent_data (by decide) false _ rfl (by decide)
  -- What the request and the first fragment leave behind.
  have hl : l.connection = { (Connection.new .standard).accept.upgrade plainUpgrade with
      pending := [], fragment := some .text, accumulated := [0x48] } := by
    change (((new .standard).run [.receive plainRequest]).connection.receive _).2 = _
    rw [receive_eq_conclude, accept_of_framed (.inl hready.phase),
      intake_frame hready (by rwa [connection_of_request hopening]), connection_of_request hopening]
    rfl
  have hempty : l.connection.buffer.contents = [] := by
    rw [hl]
    exact (ready_upgrade hopening rfl (by decide)).empty
  obtain ⟨haccepted, hacknowledged, -, -, hmessages⟩ := peer_close_is_judged .standard
    [.receive plainRequest, .receive (Standard.encode part)] ⟨5, 6, 7, 8⟩ [0x03, 0xE8]
    (peerClose ⟨5, 6, 7, 8⟩ [0x03, 0xE8]) (congrArg Connection.phase hl)
    (congrArg Connection.scheme hl) (by decide) (congrArg (· ++ _) hempty)
  have hacceptable : Acceptable Options.standard.maxPayload [0x03, 0xE8] :=
    ⟨by decide, .inr ⟨by decide, .inl (by decide), by decide⟩⟩
  have hanswered := hacknowledged hacceptable
  exact ⟨congrArg Connection.fragment hl, haccepted.mpr hacceptable, hanswered.queued,
    (hanswered.finish [] hanswered.phase).1, hmessages⟩

/-- The settings of a server that takes no frame of more than one byte. -/
def oneByte : Options :=
  { Options.standard with maxPayload := 1 }

/-- A close frame that breaks no rule is refused by a server that takes only smaller frames. -/
theorem proper_close_is_refused_as_large : ∃ options : Options,
    let l := (new options).run [.receive plainRequest]
    let p : Bytes := [0x03, 0xE8]
    let data := peerClose ⟨1, 2, 3, 4⟩ p
    l.connection.phase = .established ∧ l.connection.scheme = some .rfc6455 ∧
      p.length ≤ Frame.maxControlPayload ∧ Proper p ∧ l.connection.buffer.contents ++ data = data ∧
      (l.connection.receive data).1 = .failed .frameTooLarge := by
  refine ⟨oneByte, ?_⟩
  intro l p data
  obtain ⟨hready, hscheme, -⟩ : l.connection.Ready ∧ _ :=
    ready_of_request (opening_plainRequest oneByte rfl) rfl (by decide)
  have harrives : l.connection.buffer.contents ++ data = data := by
    rw [hready.empty]
    rfl
  have hproper : Proper p := .inr ⟨by decide, .inl (by decide), by decide⟩
  have hlistening := listening_of_kept (kept_run (kept_new oneByte) [.receive plainRequest])
    (.inl hready.phase) hscheme
  obtain ⟨e, code, broken, hmisclosed, hreceive, -⟩ :=
    receive_misclosed hlistening (by decide) harrives fun h => absurd h.1 (by decide)
  refine ⟨hready.phase, hscheme, by decide, hproper, harrives, ?_⟩
  have hlarge : Misclosed oneByte.maxPayload p .frameTooLarge .size := .large (by decide)
  obtain ⟨rfl, -⟩ := hmisclosed.unique hlarge
  exact congrArg Prod.fst hreceive

end Ledger

end WebSocket

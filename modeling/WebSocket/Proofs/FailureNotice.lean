import WebSocket.Proofs.OutboundStream

namespace WebSocket

/-- Whether an error is about what a frame says, and not about the time, the room or the owner. -/
def Error.isFault : Error → Bool
  | .invalidFragment | .invalidContinuation | .invalidUtf8 | .invalidCloseFrame
  | .invalidCloseCode | .reservedBits | .fragmentedControl | .oversizedControl | .frameTooLarge
  | .invalidOpCode _ | .invalidLegacyFrame _ | .unmaskedFrame => true
  | _ => false

theorem Error.isSome_closeCode?_of_isFault {e : Error} (h : e.isFault = true) :
    e.closeCode?.isSome = true := by
  cases e <;> first | rfl | exact absurd h Bool.false_ne_true

theorem OpCode.isFault_of_ofByte {b : UInt8} {e : Error} (h : ofByte b = .error e) :
    e.isFault = true := by
  unfold ofByte at h
  split at h
  case h_7 =>
    simp only [Except.error.injEq] at h
    rw [← h]
    rfl
  all_goals simp at h

namespace Standard

theorem isFault_of_read {requireMask : Bool} {first second : UInt8} {e : Error}
    (h : Head.read requireMask first second = .error e) : e.isFault = true := by
  rw [read_eq] at h
  split at h
  · cases h
    rfl
  split at h
  · rename_i hopcode
    cases h
    exact OpCode.isFault_of_ofByte hopcode
  split at h
  · cases h
    rfl
  split at h
  · cases h
    rfl
  split at h
  · cases h
    rfl
  · simp at h

theorem isFault_of_decode {decoder : Decoder} {bytes : Bytes} {e : Error}
    (h : decode decoder bytes = .refused e) : e.isFault = true := by
  cases decode_eq_iff.mp h with
  | fault hread => exact isFault_of_read hread
  | large => rfl

end Standard

theorem Legacy.isFault_of_decode {maxPayload : Nat} {bytes : Bytes} {e : Error}
    (h : decode maxPayload bytes = .refused e) : e.isFault = true := by
  unfold decode at h
  split at h
  · simp at h
  split at h
  · simp only at h
    split at h
    · cases h
      rfl
    · split at h <;> simp at h
  split at h
  · split at h
    · simp at h
    split at h
    · simp at h
    · cases h
      rfl
  · cases h
    rfl

theorem Codec.isFault_of_decode {codec : Codec} {bytes : Bytes} {e : Error}
    (h : codec.decode bytes = .refused e) : e.isFault = true := by
  cases codec with
  | standard => exact Standard.isFault_of_decode h
  | legacy => exact Legacy.isFault_of_decode h

namespace Scheme

/-- The bytes that tell a peer of an error: a close frame with the code and the wording, or in the
older scheme a bare closing. -/
def notice (scheme : Scheme) (code : CloseCode) (e : Error) : Bytes :=
  match scheme with
  | .rfc6455 =>
    let payload := Bytes.bigEndian 2 code.number.toNat ++ Utf8.encode e.message
    0x88 :: UInt8.ofNat payload.length :: payload
  | .legacy => [0xFF, 0x00]

theorem length_notice_payload {e : Error} {code : CloseCode} (hcode : e.closeCode? = some code) :
    (Bytes.bigEndian 2 code.number.toNat ++ Utf8.encode e.message).length ≤
      Frame.maxControlPayload := by
  rw [Connection.length_close_payload]
  exact Error.length_message_le (by simp [hcode])

theorem encode_notice (scheme : Scheme) {e : Error} {code : CloseCode}
    (hcode : e.closeCode? = some code) :
    scheme.encode (.close code (Utf8.encode e.message)) = .ok (scheme.notice code e) := by
  cases scheme with
  | legacy => rfl
  | rfc6455 =>
      have hshort := length_notice_payload hcode
      generalize hpayload : Bytes.bigEndian 2 code.number.toNat ++ Utf8.encode e.message = payload
        at hshort
      have hfield : Standard.lengthField payload.length = (payload.length, []) := by
        unfold Frame.maxControlPayload at hshort
        rw [Standard.lengthField, if_pos (by omega)]
      simp only [encode, notice, Frame.close, Standard.encode, Standard.head, Standard.wirePayload,
        Frame.closeRaw, Frame.plain, Frame.isMasked, hpayload, hfield]
      simp [Standard.firstByte, Standard.flag, OpCode.byte]

end Scheme

namespace Connection

open Handshake (Upgrade)

variable {c d after : Connection} {e : Error} {items : List Item}

theorem isFault_of_closeFault? {f : Frame} (h : closeFault? f = some e) : e.isFault = true := by
  unfold closeFault? at h
  split at h
  · simp at h
  split at h
  · cases h
    rfl
  split at h
  · cases h
    rfl
  split at h
  · simp at h
  · cases h
    rfl

theorem queue_closeRaw_ne_error {codec : Codec} (hcodec : c.codec = some codec)
    (payload : Bytes) : c.queue (.closeRaw payload) ≠ .error e := by
  cases codec <;> simp [queue, hcodec, Codec.encode, Legacy.encode, Frame.closeRaw, Frame.plain,
    Except.map]

theorem queue_pong_ne_error {codec : Codec} (hcodec : c.codec = some codec) {bytes rest : Bytes}
    {f : Frame} (hdecode : codec.decode bytes = .frame f rest) (hopcode : f.opcode = .ping) :
    c.queue (.pong f.payload) ≠ .error e := by
  cases codec with
  | standard => simp [queue, hcodec, Codec.encode, Except.map]
  | legacy =>
      rcases Legacy.frame_of_decode hdecode with ⟨payload, rfl⟩ | rfl
      · simp [Frame.text, Frame.plain] at hopcode
      · simp [Frame.closeRaw, Frame.plain] at hopcode

theorem isFault_of_acted {codec : Codec} (hcodec : c.codec = some codec) {bytes rest : Bytes}
    {f : Frame} (hdecode : codec.decode bytes = .frame f rest)
    (hacted : Acted c f (.failed e after)) : e.isFault = true := by
  cases hacted with
  | unanswered hopcode _ hqueue => exact absurd hqueue (queue_pong_ne_error hcodec hdecode hopcode)
  | unechoed _ _ _ hqueue => exact absurd hqueue (queue_closeRaw_ne_error hcodec f.payload)
  | misclosed _ hfault => exact isFault_of_closeFault? hfault
  | single _ _ _ hdelivered | completed _ _ _ _ hdelivered =>
      cases hdelivered
      rfl
  | interleaved | orphaned | oversized => rfl

theorem isFault_of_round (hphase : c.phase ≠ .handshaking)
    (h : c.round = .refused e after ∨ c.round = .progress (.failed e after)) :
    e.isFault = true := by
  have hrounded := rounded c
  rcases h with h | h
  · rw [h] at hrounded
    cases hrounded with
    | rejected hphase' => exact absurd hphase' hphase
    | refused _ _ hdecode => exact Codec.isFault_of_decode hdecode
  · rw [h] at hrounded
    cases hrounded with
    | @acted _ _ rest _ _ hcodec hdecode hacted =>
        exact isFault_of_acted (c := c.withBuffered rest) hcodec hdecode hacted

/-- Behind the handshake a connection only breaks off for errors that the peer is told about. -/
theorem isSome_closeCode?_of_broken (hphase : c.phase ≠ .handshaking) (h : c.Broken e after) :
    e.closeCode?.isSome = true := by
  cases h with
  | refused hround =>
      exact Error.isSome_closeCode?_of_isFault (isFault_of_round hphase (.inl hround))
  | failed hround =>
      exact Error.isSome_closeCode?_of_isFault (isFault_of_round hphase (.inr hround))
  | full _ _ he =>
      rw [he]
      rfl

theorem outbound_fail {codec : Codec} {code : CloseCode} (hphase : c.phase = .established)
    (hcodec : c.codec = some codec) (hcode : e.closeCode? = some code) :
    (c.fail e).outbound = c.outbound ++ codec.scheme.notice code e := by
  simp only [fail, if_pos hphase, hcode, queue_eq hcodec, Scheme.encode_notice codec.scheme hcode,
    Except.map, Except.toOption, Option.getD_some, write]

theorem outbound_fail_of_ne (hphase : c.phase ≠ .established) :
    (c.fail e).outbound = c.outbound := by
  simp only [fail, if_neg hphase]

/-- What holds of a connection at any time: an open one has agreed on a scheme and has its codec,
and one that has not opened yet has said nothing. -/
structure Sound (c : Connection) : Prop where
  agreed : c.phase = .established →
    ∃ codec, c.codec = some codec ∧ c.scheme = some codec.scheme
  unspoken : c.phase ≤ .handshaking → c.outbound = []

theorem sound_new (options : Options) : (new options).Sound where
  agreed h := by simp [new] at h
  unspoken _ := rfl

theorem sound_of_silent (h : c.Silent) : c.Sound := by
  constructor <;> intro hphase <;> rcases h with h | h <;> rw [h] at hphase <;>
    exact absurd hphase (by decide)

theorem sound_accept (h : c.Sound) : c.accept.Sound := by
  unfold accept
  split
  · rename_i hphase
    refine ⟨by simp, fun _ => h.unspoken ?_⟩
    rw [hphase]
    decide
  · exact h

theorem sound_write (h : c.Sound) (hphase : c.phase = .established) (bytes : Bytes) :
    (c.write bytes).Sound where
  agreed := h.agreed
  unspoken hle := by
    change c.phase ≤ .handshaking at hle
    rw [hphase] at hle
    exact absurd hle (by decide)

/-- How far a connection that began to take something in as `c` has come when it has acted on
`items` and is `d`. -/
inductive Answered (c d : Connection) (items : List Item) : Prop where
  | handshaking (hphase : d.phase = .handshaking) (houtbound : d.outbound = [])
      (hfirst : c.phase = .handshaking) (hsame : c.outbound = []) (hitems : items = [])
  /-- The answer to the upgrade, if it came in only now, and the pongs behind it. -/
  | speaking {codec : Codec} (opening : Option Upgrade) (said : Bytes)
      (hphase : d.phase = .established) (hcodec : d.codec = some codec)
      (hscheme : d.scheme = some codec.scheme)
      (hopening : items.filterMap Item.upgrade? = opening.toList)
      (hfirst : c.phase = if opening.isSome then .handshaking else .established)
      (hspoken : codec.scheme.Spoken (items.filterMap Item.answer?) said)
      (houtbound : d.outbound = c.outbound ++ opening.elim [] Upgrade.response ++ said)
  | silent (hsilent : d.Silent)

theorem answered_nil (h : c.Sound) (hstarted : c.phase ≠ .connecting) : Answered c c [] := by
  cases hphase : c.phase with
  | connecting => exact absurd hphase hstarted
  | handshaking =>
      have hunspoken := h.unspoken (by rw [hphase])
      exact .handshaking hphase hunspoken hphase hunspoken rfl
  | established =>
      obtain ⟨codec, hcodec, hscheme⟩ := h.agreed hphase
      refine .speaking none [] hphase hcodec hscheme rfl hphase .nil ?_
      simp
  | closing => exact .silent (.inl hphase)
  | closed => exact .silent (.inr hphase)

theorem answered_of_same (h : Answered c d items) (hphase : after.phase = d.phase)
    (hscheme : after.scheme = d.scheme) (hcodec : after.codec = d.codec)
    (houtbound : after.outbound = d.outbound) : Answered c after items := by
  cases h with
  | handshaking hphase' houtbound' hfirst hsame hitems =>
      exact .handshaking (hphase.trans hphase') (houtbound.trans houtbound') hfirst hsame hitems
  | speaking opening said hphase' hcodec' hscheme' hopening hfirst hspoken houtbound' =>
      exact .speaking opening said (hphase.trans hphase') (hcodec.trans hcodec')
        (hscheme.trans hscheme') hopening hfirst hspoken (houtbound.trans houtbound')
  | silent hsilent =>
      refine .silent ?_
      simpa only [Silent, hphase] using hsilent

theorem answered_upgraded (h : Answered c d items) (hphase : d.phase = .handshaking)
    (u : Upgrade) : Answered c (d.upgrade u) (items ++ [.request u]) := by
  cases h with
  | handshaking _ houtbound hfirst hsame hitems =>
      subst hitems
      refine .speaking (some u) [] rfl rfl ?_ rfl hfirst .nil ?_
      · rw [Codec.scheme_new]
        rfl
      simp [upgrade, write, houtbound, hsame]
  | speaking _ _ hphase' => simp [hphase] at hphase'
  | silent hsilent => rcases hsilent with hsilent | hsilent <;> simp [hphase] at hsilent

theorem answered_replied (h : Answered c d items) (hphase : d.phase = .established) {f : Frame}
    (hreplied : Replied d f after) : Answered c after (items ++ [.frame d.phase f]) := by
  cases h with
  | handshaking hphase' => simp [hphase] at hphase'
  | silent hsilent => rcases hsilent with hsilent | hsilent <;> simp [hphase] at hsilent
  | @speaking codec opening said _ hcodec hscheme hopening hfirst hspoken houtbound =>
      have hopening' : (items ++ [Item.frame d.phase f]).filterMap Item.upgrade? =
          opening.toList := by
        rw [Item.filterMap_concat, hopening]
        exact List.append_nil _
      have hanswers := Item.filterMap_concat Item.answer? items (.frame d.phase f)
      cases hreplied with
      | unmoved hphase' hscheme' hcodec' houtbound' hanswer =>
          refine .speaking opening said (hphase'.trans hphase) (hcodec'.trans hcodec)
            (hscheme'.trans hscheme) hopening' hfirst ?_ (houtbound'.trans houtbound)
          rwa [hanswers, hanswer, Option.toList_none, List.append_nil]
      | @answered codec' bytes _ hcodec' hsayable hencode hafter hanswer =>
          obtain rfl : codec' = codec := Option.some.inj (hcodec'.symm.trans hcodec)
          rw [hafter]
          refine .speaking opening (said ++ bytes) hphase hcodec hscheme hopening' hfirst ?_ ?_
          · rw [hanswers, hanswer]
            exact hspoken.append (.single hsayable hencode)
          · rw [write, houtbound, List.append_assoc]
      | echoed _ _ _ hclosing => exact .silent (.inl hclosing)
      | ended hphase' => simp [hphase] at hphase'

theorem answered_round (h : Answered c d items) {item : Item}
    (hround : d.round = .progress (.going after)) (hitem : d.front? = some item) :
    Answered c after (items ++ [item]) := by
  have hrounded := rounded d
  rw [hround] at hrounded
  cases hrounded with
  | upgraded hphase hnegotiate =>
      rw [front?_of_upgraded hphase hnegotiate, Option.some.injEq] at hitem
      rw [← hitem]
      exact answered_upgraded h hphase _
  | @acted _ f rest _ hframed hcodec hdecode hacted =>
      rw [front?_of_frame hframed hcodec hdecode, Option.some.injEq] at hitem
      rw [← hitem]
      rcases hframed with hphase | hphase
      · have hbehind : Answered c (d.withBuffered rest) items :=
          answered_of_same h rfl rfl rfl rfl
        exact answered_replied hbehind hphase (replied_of_acted hacted (length_of_decode hdecode))
      · exact .silent (account_round (.inl hphase) hround).1

theorem intake_answered (h : c.Sound) (hstarted : c.phase ≠ .connecting) (data : Bytes) :
    (c.intake data).StoppedAt (Answered c · (c.takes data)) := by
  refine intake_stoppedAt (P := fun d items => Answered c d items) ?_ ?_ []
    (answered_nil h hstarted) data
  · intro d items data hd
    exact answered_of_same hd rfl rfl rfl rfl
  · intro d after items item hd hround hitem
    exact answered_round hd hround hitem

theorem sound_of_answered (h : Answered c d items) : d.Sound := by
  cases h with
  | handshaking hphase houtbound => exact ⟨by simp [hphase], fun _ => houtbound⟩
  | speaking _ _ hphase hcodec hscheme =>
      refine ⟨fun _ => ⟨_, hcodec, hscheme⟩, fun hle => ?_⟩
      rw [hphase] at hle
      exact absurd hle (by decide)
  | silent hsilent => exact sound_of_silent hsilent

theorem sound_intake (h : c.Sound) (hstarted : c.phase ≠ .connecting) (data : Bytes) :
    (c.intake data).ended.Sound := by
  have hstopped := intake_answered h hstarted data
  cases hintake : c.intake data with
  | waiting after =>
      rw [hintake] at hstopped
      exact sound_of_answered hstopped
  | failed e after => exact sound_of_silent (.inr rfl)
  | abandoned after => exact sound_of_silent (.inr rfl)

theorem sound_act (h : c.Sound) (call : Operation) : (c.act call).Sound := by
  cases call with
  | accept => exact sound_accept h
  | receive data => exact sound_intake (sound_accept h) (started_accept c) data
  | sendText text =>
      by_cases hphase : c.phase = .established
      · obtain ⟨bytes, hsend⟩ := sendText_getD c text
        rw [act, hsend]
        exact sound_write h hphase bytes
      · rw [act, sendText, if_neg hphase]
        exact h
  | sendEncoded bytes =>
      by_cases hphase : c.phase = .established
      · rw [act, sendEncoded, if_pos hphase]
        exact sound_write h hphase bytes
      · rw [act, sendEncoded, if_neg hphase]
        exact h
  | close code =>
      cases hphase : c.phase with
      | established =>
          simp only [act, close, hphase]
          exact sound_of_silent (.inl rfl)
      | connecting | handshaking =>
          simp only [act, close, hphase]
          exact sound_of_silent (.inr rfl)
      | closing | closed => simpa only [act, close, hphase] using h
  | finish =>
      rcases finish_cases c with hsame | ⟨-, hclosed⟩
      · rwa [hsame]
      · exact sound_of_silent (.inr hclosed)
  | onTimeout => exact sound_of_silent (.inr (phase_onTimeout c))
  | takeOutbound => exact h
  | onDisconnect => exact sound_of_silent (.inr (phase_onDisconnect c))

theorem intake_of_failed {data : Bytes} (h : (c.receive data).1 = .failed e) :
    ∃ broken, c.accept.intake data = .failed e broken ∧ (c.receive data).2 = broken.fail e := by
  rw [receive_eq_conclude] at h ⊢
  cases hintake : c.accept.intake data with
  | waiting after => simp [hintake, Processed.conclude, takePending] at h
  | abandoned after => simp [hintake, Processed.conclude] at h
  | failed e' broken =>
      obtain rfl : e' = e := by simpa [hintake, Processed.conclude] using h
      exact ⟨broken, rfl, rfl⟩

theorem open_of_broken (h : c.Broken e after) : c.phase ≠ .closed := by
  intro hclosed
  cases h with
  | refused hround => simp [round, hclosed] at hround
  | failed hround => simp [round, hclosed] at hround
  | full hopen => exact hopen hclosed

/-- A connection that breaks off has sent the refusal, or is open and has an error to tell of, or is
closing. -/
theorem answered_of_broken (h : Answered c d items) (hbroken : d.Broken e after) :
    (after.phase = .handshaking ∧ after.outbound = Handshake.refusal) ∨
      (after.phase = .established ∧ e.closeCode?.isSome = true ∧ Answered c after items) ∨
      after.phase = .closing := by
  by_cases hhandshaking : d.phase = .handshaking
  · rw [eq_of_broken hbroken hhandshaking]
    cases h with
    | handshaking _ houtbound => exact .inl ⟨hhandshaking, by simp [write, houtbound]⟩
    | speaking _ _ hphase => simp [hphase] at hhandshaking
    | silent hsilent => rcases hsilent with hsilent | hsilent <;> simp [hsilent] at hhandshaking
  · have halike := alike_of_broken hbroken hhandshaking
    have hanswered := answered_of_same h halike.phase halike.scheme halike.codec
      halike.outbound
    have hcode := isSome_closeCode?_of_broken hhandshaking hbroken
    cases h with
    | handshaking hphase => exact absurd hphase hhandshaking
    | speaking _ _ hphase => exact .inr (.inl ⟨halike.phase.trans hphase, hcode, hanswered⟩)
    | silent hsilent =>
        have hclosing := hsilent.resolve_right (open_of_broken hbroken)
        exact .inr (.inr (halike.phase.trans hclosing))

end Connection

namespace Ledger

open Connection

theorem sound_run {l : Ledger} (hprompt : l.Prompt) (h : l.whole.Sound) (calls : List Operation) :
    (l.run calls).whole.Sound :=
  whole_run_keeps sound_act hprompt h calls

/-- What the peer is told when a connection that has acted on `items` breaks off with the error `e`
and is `broken` at that moment, in a call that leads from `l` to `l'`. -/
inductive Notified (l l' : Ledger) (items : List Item) (e : Error) (broken : Connection) :
    Prop where
  | refused (hphase : broken.phase = .handshaking) (hwritten : l'.written = Handshake.refusal)
  | told {scheme : Scheme} {code : CloseCode} (opening : Option Handshake.Upgrade) (said : Bytes)
      (hphase : broken.phase = .established) (hscheme : broken.scheme = some scheme)
      (hcode : e.closeCode? = some code)
      (hencode : scheme.encode (.close code (Utf8.encode e.message)) = .ok (scheme.notice code e))
      (hshort : (Frame.close code (Utf8.encode e.message)).payload.length ≤
        Frame.maxControlPayload)
      (hlast : l'.connection.outbound = broken.outbound ++ scheme.notice code e)
      -- Before that, the call queued the answer to the upgrade if it came in only now, and pongs.
      (hopening : items.filterMap Item.upgrade? = opening.toList)
      (hfirst : l.connection.accept.phase = if opening.isSome then .handshaking else .established)
      (hwritten : l'.written =
        l.written ++ opening.elim [] Handshake.Upgrade.response ++ said ++ scheme.notice code e)
      (hpongs : ∀ f ∈ items.filterMap Item.answer?, f.opcode = .pong)
      (honce : scheme.readAll Frame.maxControlPayload (said ++ scheme.notice code e) =
        some (items.filterMap Item.answer? ++
          [scheme.closing (Frame.close code (Utf8.encode e.message)).payload]))
  | unheard (hphase : broken.phase = .closing)
      (hlast : l'.connection.outbound = broken.outbound)

variable {l l' : Ledger} {items : List Item} {e : Error} {broken : Connection}

theorem notified_of_answered (hsent : l'.sent = l.sent) (hafter : l'.connection = broken.fail e)
    (hphase : broken.phase = .established) (hcode : e.closeCode?.isSome = true)
    (h : Answered l.whole.accept (broken.around l.events l.sent []) items) :
    Notified l l' items e broken := by
  obtain ⟨code, hcode⟩ := Option.isSome_iff_exists.mp hcode
  cases h with
  | handshaking hphase' => simp [hphase] at hphase'
  | silent hsilent => rcases hsilent with hsilent | hsilent <;> simp [hphase] at hsilent
  | @speaking codec opening said _ hcodec hscheme hopening hfirst hspoken houtbound =>
      have hencode := Scheme.encode_notice codec.scheme hcode
      have hlast : l'.connection.outbound = broken.outbound ++ codec.scheme.notice code e := by
        rw [hafter]
        exact outbound_fail hphase hcodec hcode
      have hshort := Scheme.length_notice_payload hcode
      have hpongs : ∀ f ∈ items.filterMap Item.answer?, f.opcode = .pong := by
        intro f hf
        obtain ⟨item, -, hitem⟩ := List.mem_filterMap.mp hf
        exact Item.opcode_of_answer? hitem
      have hsaid := hspoken.append (Scheme.spoken_close hencode hshort)
      refine .told opening said hphase hscheme hcode hencode hshort hlast hopening ?_ ?_ hpongs ?_
      · rwa [whole, accept_around, around_phase] at hfirst
      · have hall : l.sent ++ broken.outbound = _ := houtbound
        have hbefore : l.whole.accept.outbound = l.written :=
          congrArg Prod.snd (account_accept l.whole)
        rw [written, hsent, hlast, ← List.append_assoc, hall, hbefore]
      · refine Scheme.readAll_of_spoken hsaid fun f hf => ?_
        have hcontrol : f.opcode.isControl = true := by
          rcases List.mem_append.mp hf with hf | hf
          · rw [hpongs f hf]
            rfl
          · rw [List.mem_singleton.mp hf, Scheme.opcode_closing]
            rfl
        exact ((Scheme.sayable_of_spoken hsaid f hf).lawful.control hcontrol).2

/-- **A peer whose data breaks a connection off is told so.** Whatever happened before, and however
many requests and frames stood in front of the fault in the same chunk: the connection is closed,
and what the peer hears last is the refusal of its request, or one close frame with the code and the
wording of the error, or nothing if the connection was closing. -/
theorem failure_is_told (options : Options) (calls : List Operation) (data : Bytes) {e : Error}
    (h : (((new options).run calls).connection.receive data).1 = .failed e) :
    let l := (new options).run calls
    let l' := l.call (.receive data)
    l'.connection.phase = .closed ∧
      ∃ broken, l.connection.accept.intake data = .failed e broken ∧
        l'.connection = broken.fail e ∧ Notified l l' (l.met (.receive data)) e broken := by
  intro l l'
  obtain ⟨broken, hintake, hafter⟩ := intake_of_failed h
  change l'.connection = broken.fail e at hafter
  refine ⟨by rw [hafter]; rfl, broken, hintake, hafter, ?_⟩
  have hwhole : l.whole.accept.intake data = .failed e (broken.around l.events l.sent []) := by
    rw [whole, accept_around, intake_around, hintake]
    rfl
  have hsound : l.whole.Sound := sound_run (prompt_new options) (sound_new options) calls
  have hstopped := intake_answered (sound_accept hsound) (started_accept _) data
  rw [hwhole, ← met_receive] at hstopped
  obtain ⟨before, hanswered, hbroken⟩ := hstopped
  rcases answered_of_broken hanswered hbroken with ⟨hphase, houtbound⟩ | ⟨hphase, hcode, hnow⟩ |
    hphase
  · refine .refused hphase ?_
    change broken.phase = .handshaking at hphase
    change l.sent ++ l'.connection.outbound = _
    rw [hafter, outbound_fail_of_ne (by simp [hphase])]
    exact houtbound
  · exact notified_of_answered rfl hafter hphase hcode hnow
  · refine .unheard hphase ?_
    change broken.phase = .closing at hphase
    rw [hafter, outbound_fail_of_ne (by simp [hphase])]

theorem reserved_bits_are_told :
    let l := (new .standard).run [.receive plainRequest]
    (l.connection.receive [0xC1, 0x80]).1 = .failed .reservedBits ∧
      (l.call (.receive [0xC1, 0x80])).connection.outbound =
        plainUpgrade.response ++ Scheme.notice .rfc6455 .protocol .reservedBits := by
  intro l
  have hopening := opening_plainRequest .standard rfl
  -- What the call with the request leaves behind.
  let d := { (Connection.new .standard).accept.upgrade plainUpgrade with pending := [] }
  have hl : l.connection = d := connection_of_request hopening
  have hready : d.Ready := by
    obtain ⟨hphase, hcodec, hempty, hroomy⟩ := ready_upgrade hopening rfl (by decide)
    exact ⟨hphase, hcodec, hempty, hroomy⟩
  have hintake : d.intake [0xC1, 0x80] = .failed .reservedBits (d.around [] [] [0xC1, 0x80]) := by
    have hfits : List.length (α := UInt8) [0xC1, 0x80] ≤ d.buffer.room :=
      le_trans (by decide) ((Nat.le_add_left _ _).trans (room_of_ready hready))
    have hdecode : Standard.decode ⟨d.options.maxPayload, true⟩ [0xC1, 0x80] =
        .refused .reservedBits := rfl
    have hround := round_of_ready hready [0xC1, 0x80]
    rw [hdecode] at hround
    rw [intake_of_le_room (by simp) (by simp [hready.phase]) hfits, process_eq, hround]
  have hfailed : (l.connection.receive [0xC1, 0x80]).1 = .failed .reservedBits := by
    rw [hl]
    change (d.absorb [0xC1, 0x80]).1 = _
    rw [absorb_eq_conclude, hintake]
    rfl
  refine ⟨hfailed, ?_⟩
  obtain ⟨-, broken, hbroken, -, hnotified⟩ :=
    failure_is_told .standard [.receive plainRequest] [0xC1, 0x80] hfailed
  change l.connection.accept.intake [0xC1, 0x80] = _ at hbroken
  rw [hl] at hbroken
  obtain ⟨-, rfl⟩ := Processed.failed.inj (hintake.symm.trans hbroken)
  cases hnotified with
  | refused hphase => cases hphase
  | unheard hphase => cases hphase
  | @told scheme code _ _ _ hscheme hcode _ _ hlast =>
    cases hscheme
    cases hcode
    exact hlast

end Ledger

end WebSocket

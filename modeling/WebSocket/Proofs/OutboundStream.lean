import WebSocket.Proofs.FrameLayout
import WebSocket.Proofs.FrameStream
import WebSocket.Proofs.MessageDelivery
import WebSocket.Proofs.RequestLayout

namespace WebSocket

/-- The answer that a frame calls for: a pong for each ping that is met while the connection is
open. -/
def Item.answer? : Item → Option Frame
  | .frame .established f => if f.opcode = .ping then some (.pong f.payload) else none
  | _ => none

def Item.upgrade? : Item → Option Handshake.Upgrade
  | .request u => some u
  | _ => none

theorem Item.filterMap_concat {α : Type} (f : Item → Option α) (items : List Item) (item : Item) :
    (items ++ [item]).filterMap f = items.filterMap f ++ (f item).toList := by
  cases hitem : f item <;> simp [hitem]

theorem Item.opcode_of_answer? {item : Item} {f : Frame} (h : item.answer? = some f) :
    f.opcode = .pong := by
  unfold answer? at h
  split at h
  · split at h
    · simp only [Option.some.injEq] at h
      rw [← h]
      rfl
    · simp at h
  · simp at h

namespace Handshake

/-- How the answer to an accepted request begins. -/
def switching : Bytes :=
  Utf8.encode "HTTP/1.1 101 "

theorem starts_render {start line : Bytes} (h : start <+: line) (lines : List Bytes)
    (body : Bytes) : start <+: render (line :: lines) body := by
  obtain ⟨rest, rfl⟩ := h
  simp only [render, List.flatMap_cons, List.append_assoc]
  exact List.prefix_append start _

theorem switching_of_respond {request : Request} {response : Bytes}
    (h : respond request = .ok response) : switching <+: response := by
  unfold respond at h
  split at h
  · unfold respondStandard at h
    split at h
    · simp at h
    · simp only [Except.ok.injEq] at h
      rw [← h]
      exact starts_render (by decide +kernel) _ _
  · unfold respondLegacy at h
    split at h
    · obtain ⟨number1, -, h⟩ := exists_ok_of_bind h
      obtain ⟨number2, -, h⟩ := exists_ok_of_bind h
      obtain ⟨origin, -, h⟩ := exists_ok_of_bind h
      obtain ⟨location, -, h⟩ := exists_ok_of_bind h
      simp only [pure, Except.pure, Except.ok.injEq] at h
      rw [← h]
      exact starts_render (by decide +kernel) _ _
    · simp at h

theorem switching_of_accepted {negotiator : Negotiator} {raw : Bytes} {u : Upgrade}
    (h : negotiator.negotiate raw = .accepted u) : switching <+: u.response := by
  obtain ⟨request, response, -, hresponse, rfl⟩ := Negotiator.exists_request_of_accepted h
  exact switching_of_respond hresponse

end Handshake

namespace Connection

open Handshake (Upgrade)

/-- What a connection has queued since it began: where it has come with its `upgrades`, and which
`frames` it owed to its owner and to its peer. -/
inductive Queued (c : Connection) : List Upgrade → List Frame → Prop where
  | unopened (hframed : ¬c.Framed) (hscheme : c.scheme = none) (houtbound : c.outbound = []) :
      Queued c [] []
  | refused (hphase : c.phase = .closed) (hscheme : c.scheme = none)
      (houtbound : c.outbound = Handshake.refusal) : Queued c [] []
  | speaking {u : Upgrade} {frames : List Frame} {said : Bytes} {maxPayload : Nat}
      (hphase : c.phase = .established) (hscheme : c.scheme = some u.scheme)
      (hcodec : c.codec = some (.new u.scheme maxPayload))
      (hanswer : Handshake.switching <+: u.response) (hspoken : u.scheme.Spoken frames said)
      (houtbound : c.outbound = u.response ++ said) : Queued c [u] frames
  /-- There is at most one close frame, behind everything else. -/
  | spoken {u : Upgrade} {frames : List Frame} (closes : List Frame) {said : Bytes}
      (hsilent : c.Silent)
      (hscheme : c.scheme = some u.scheme) (hanswer : Handshake.switching <+: u.response)
      (honce : closes.length ≤ 1) (hcloses : ∀ f ∈ closes, f.opcode = .close)
      (hspoken : u.scheme.Spoken (frames ++ closes) said)
      (houtbound : c.outbound = u.response ++ said) : Queued c [u] frames

variable {c d : Connection} {upgrades : List Upgrade} {frames : List Frame}

theorem queued_new (options : Options) : (new options).Queued [] [] :=
  .unopened (by simp [Framed, new]) rfl rfl

theorem queued_of_same (h : c.Queued upgrades frames) (hphase : d.phase = c.phase)
    (hscheme : d.scheme = c.scheme) (hcodec : d.codec = c.codec)
    (houtbound : d.outbound = c.outbound) : d.Queued upgrades frames := by
  cases h with
  | unopened hframed hscheme' houtbound' =>
      refine .unopened ?_ (hscheme.trans hscheme') (houtbound.trans houtbound')
      simpa only [Framed, hphase] using hframed
  | refused hphase' hscheme' houtbound' =>
      exact .refused (hphase.trans hphase') (hscheme.trans hscheme') (houtbound.trans houtbound')
  | speaking hphase' hscheme' hcodec' hanswer hspoken houtbound' =>
      exact .speaking (hphase.trans hphase') (hscheme.trans hscheme') (hcodec.trans hcodec')
        hanswer hspoken (houtbound.trans houtbound')
  | spoken closes hsilent hscheme' hanswer honce hcloses hspoken houtbound' =>
      refine .spoken closes ?_ (hscheme.trans hscheme') hanswer honce hcloses hspoken
        (houtbound.trans houtbound')
      simpa only [Silent, hphase] using hsilent

theorem queued_of_closed (h : c.Queued upgrades frames) (hphase : d.phase = .closed)
    (hscheme : d.scheme = c.scheme) (houtbound : d.outbound = c.outbound) :
    d.Queued upgrades frames := by
  cases h with
  | unopened _ hscheme' houtbound' =>
      exact .unopened (by simp [Framed, hphase]) (hscheme.trans hscheme')
        (houtbound.trans houtbound')
  | refused _ hscheme' houtbound' =>
      exact .refused hphase (hscheme.trans hscheme') (houtbound.trans houtbound')
  | speaking _ hscheme' _ hanswer hspoken houtbound' =>
      exact .spoken [] (.inr hphase) (hscheme.trans hscheme') hanswer (by simp)
        (by simp) (by simpa using hspoken) (houtbound.trans houtbound')
  | spoken closes _ hscheme' hanswer honce hcloses hspoken houtbound' =>
      exact .spoken closes (.inr hphase) (hscheme.trans hscheme') hanswer honce hcloses hspoken
        (houtbound.trans houtbound')

theorem queued_write (h : c.Queued upgrades frames) (hphase : c.phase = .established) {f : Frame}
    {scheme : Scheme} {bytes : Bytes} (hscheme : c.scheme = some scheme)
    (hsayable : scheme.Sayable f) (hencode : scheme.encode f = .ok bytes) :
    (c.write bytes).Queued upgrades (frames ++ [f]) := by
  cases h with
  | unopened hframed => exact absurd (.inl hphase) hframed
  | refused hphase' => simp [hphase] at hphase'
  | speaking hphase' hscheme' hcodec hanswer hspoken houtbound =>
      obtain rfl : scheme = _ := Option.some.inj (hscheme.symm.trans hscheme')
      refine .speaking hphase' hscheme' hcodec hanswer (hspoken.append (.single hsayable hencode)) ?_
      simp [write, houtbound]
  | spoken _ hsilent => rcases hsilent with hsilent | hsilent <;> simp [hphase] at hsilent

theorem scheme_of_queued (h : c.Queued upgrades frames) (hphase : c.phase = .established)
    {codec : Codec} (hcodec : c.codec = some codec) : c.scheme = some codec.scheme := by
  cases h with
  | unopened hframed => exact absurd (.inl hphase) hframed
  | refused hphase' => simp [hphase] at hphase'
  | speaking _ hscheme hcodec' =>
      obtain rfl := Option.some.inj (hcodec.symm.trans hcodec')
      rw [hscheme, Codec.scheme_new]
  | spoken _ hsilent => rcases hsilent with hsilent | hsilent <;> simp [hphase] at hsilent

theorem queued_close (h : c.Queued upgrades frames) (hphase : c.phase = .established)
    {payload : Bytes} (hqueue : c.queue (.closeRaw payload) = .ok d)
    (hshort : payload.length ≤ Frame.maxControlPayload) {e : Connection} (hsilent : e.Silent)
    (hscheme : e.scheme = d.scheme) (houtbound : e.outbound = d.outbound) :
    e.Queued upgrades frames := by
  cases h with
  | unopened hframed => exact absurd (.inl hphase) hframed
  | refused hphase' => simp [hphase] at hphase'
  | @speaking u frames said maxPayload hphase' hscheme' hcodec hanswer hspoken houtbound' =>
      rw [queue_eq hcodec, Codec.scheme_new] at hqueue
      cases hencode : u.scheme.encode (.closeRaw payload) with
      | error e => simp [hencode, Except.map] at hqueue
      | ok bytes =>
          simp only [hencode, Except.map, Except.ok.injEq] at hqueue
          subst hqueue
          refine .spoken [u.scheme.closing payload] hsilent (hscheme.trans hscheme') hanswer
            (by simp) (by simp) (hspoken.append (Scheme.spoken_close hencode hshort))
            (houtbound.trans ?_)
          simp [write, houtbound']
  | spoken _ hsilent' => rcases hsilent' with hsilent' | hsilent' <;> simp [hphase] at hsilent'

theorem queued_close_getD (h : c.Queued upgrades frames) (hphase : c.phase = .established)
    {payload : Bytes} (hshort : payload.length ≤ Frame.maxControlPayload) {phase : Phase}
    (hsilent : phase = .closing ∨ phase = .closed) :
    ({ (c.queue (.closeRaw payload)).toOption.getD c with phase := phase } :
      Connection).Queued upgrades frames := by
  cases hqueue : c.queue (.closeRaw payload) with
  | ok d => exact queued_close h hphase hqueue hshort hsilent rfl rfl
  | error e =>
      cases h with
      | unopened hframed => exact absurd (.inl hphase) hframed
      | refused hphase' => simp [hphase] at hphase'
      | speaking _ hscheme _ hanswer hspoken houtbound =>
          exact .spoken [] hsilent hscheme hanswer (by simp) (by simp)
            (by simpa using hspoken) houtbound
      | spoken _ hsilent' =>
          rcases hsilent' with hsilent' | hsilent' <;> simp [hphase] at hsilent'

theorem length_close_payload (code : CloseCode) (reason : Bytes) :
    (Bytes.bigEndian 2 code.number.toNat ++ reason).length = reason.length + 2 := by
  simp only [List.length_append, Bytes.length_bigEndian]
  omega

theorem queued_fail (h : c.Queued upgrades frames) (e : Error) :
    (c.fail e).Queued upgrades frames := by
  by_cases hphase : c.phase = .established
  · cases hcode : e.closeCode? with
    | none =>
        refine queued_of_closed h rfl ?_ ?_ <;> simp [fail, hphase, hcode]
    | some code =>
        simp only [fail, hphase, if_true, hcode, Frame.close]
        refine queued_close_getD h hphase ?_ (.inr rfl)
        rw [length_close_payload]
        exact Error.length_message_le (by simp [hcode])
  · refine queued_of_closed h rfl ?_ ?_ <;> simp [fail, hphase]

theorem queued_upgrade (h : c.Queued upgrades frames) (hphase : c.phase = .handshaking)
    {u : Upgrade} (hanswer : Handshake.switching <+: u.response) :
    (c.upgrade u).Queued (upgrades ++ [u]) frames := by
  cases h with
  | unopened _ _ houtbound =>
      exact .speaking rfl rfl rfl hanswer .nil (by simp [upgrade, write, houtbound])
  | refused hphase' => simp [hphase] at hphase'
  | speaking hphase' => simp [hphase] at hphase'
  | spoken _ hsilent => rcases hsilent with hsilent | hsilent <;> simp [hphase] at hsilent

theorem length_of_decode {codec : Codec} {bytes rest : Bytes} {f : Frame}
    (h : codec.decode bytes = .frame f rest) (hcontrol : f.opcode.isControl = true) :
    f.payload.length ≤ Frame.maxControlPayload := by
  cases codec with
  | standard => exact Standard.control_of_decode h hcontrol
  | legacy =>
      rcases Legacy.frame_of_decode h with ⟨payload, rfl⟩ | rfl
      · simp [Frame.text, Frame.plain, OpCode.isControl] at hcontrol
      · simp [Frame.closeRaw, Frame.plain]

theorem answer?_of_ne_ping {f : Frame} (phase : Phase) (h : f.opcode ≠ .ping) :
    (Item.frame phase f).answer? = none := by
  cases phase <;> simp [Item.answer?, h]

/-- What a frame that breaks no rule makes a connection say: nothing, a pong, or a close frame as
its last word. -/
inductive Replied (c : Connection) (f : Frame) (d : Connection) : Prop where
  | unmoved (hphase : d.phase = c.phase) (hscheme : d.scheme = c.scheme)
      (hcodec : d.codec = c.codec) (houtbound : d.outbound = c.outbound)
      (hanswer : (Item.frame c.phase f).answer? = none)
  | answered {codec : Codec} {bytes : Bytes} (hphase : c.phase = .established)
      (hcodec : c.codec = some codec) (hsayable : codec.scheme.Sayable (.pong f.payload))
      (hencode : codec.scheme.encode (.pong f.payload) = .ok bytes) (hafter : d = c.write bytes)
      (hanswer : (Item.frame c.phase f).answer? = some (.pong f.payload))
  | echoed {queued : Connection} (hphase : c.phase = .established)
      (hqueue : c.queue (.closeRaw f.payload) = .ok queued)
      (hshort : f.payload.length ≤ Frame.maxControlPayload) (hclosing : d.phase = .closing)
      (hscheme : d.scheme = queued.scheme) (houtbound : d.outbound = queued.outbound)
      (hanswer : (Item.frame c.phase f).answer? = none)
  | ended (hphase : c.phase = .closing) (hclosed : d.phase = .closed)
      (hscheme : d.scheme = c.scheme) (houtbound : d.outbound = c.outbound)
      (hanswer : (Item.frame c.phase f).answer? = none)

theorem replied_of_acted {f : Frame} (hacted : Acted c f (.going d))
    (hshort : f.opcode.isControl = true → f.payload.length ≤ Frame.maxControlPayload) :
    Replied c f d := by
  have hquiet : f.opcode ≠ .ping → (Item.frame c.phase f).answer? = none :=
    answer?_of_ne_ping c.phase
  have hdata : f.opcode = .text ∨ f.opcode = .binary → (Item.frame c.phase f).answer? = none := by
    rintro (hopcode | hopcode) <;> exact hquiet (by simp [hopcode])
  cases hacted with
  | ignored hopcode =>
      refine .unmoved rfl rfl rfl rfl ?_
      rcases hopcode with hopcode | ⟨-, hphase⟩
      · exact hquiet (by simp [hopcode])
      · cases hphase' : c.phase <;> simp_all [Item.answer?]
  | answered hopcode hphase hqueue =>
      cases hcodec : c.codec with
      | none => simp [queue, hcodec] at hqueue
      | some codec =>
          rw [queue_eq hcodec] at hqueue
          cases hencode : codec.scheme.encode (.pong f.payload) with
          | error e => simp [hencode, Except.map] at hqueue
          | ok bytes =>
              simp only [hencode, Except.map, Except.ok.injEq] at hqueue
              have hsayable := Scheme.sayable_pong hencode (hshort (by rw [hopcode]; rfl))
              exact .answered hphase hcodec hsayable hencode hqueue.symm
                (by simp [Item.answer?, hphase, hopcode])
  | begun hopcode => exact .unmoved rfl rfl rfl rfl (hdata hopcode)
  | single hopcode _ _ hdelivered =>
      cases hdelivered <;> exact .unmoved rfl rfl rfl rfl (hdata hopcode)
  | continued hopcode => exact .unmoved rfl rfl rfl rfl (hquiet (by simp [hopcode]))
  | completed hopcode _ _ _ hdelivered =>
      cases hdelivered <;> exact .unmoved rfl rfl rfl rfl (hquiet (by simp [hopcode]))
  | echoed hopcode _ hphase hqueue =>
      exact .echoed hphase hqueue (hshort (by rw [hopcode]; rfl)) rfl rfl rfl
        (hquiet (by simp [hopcode]))
  | ended hopcode _ hphase =>
      refine .ended hphase ?_ ?_ ?_ (hquiet (by simp [hopcode])) <;>
        simp only [reportClosed_snd]
  | late hopcode => exact .unmoved rfl rfl rfl rfl (hquiet (by simp [hopcode]))

/-- A frame is answered with a pong, with a close frame, or not at all. -/
theorem queued_replied (h : c.Queued upgrades frames) {f : Frame} (hreplied : Replied c f d) :
    d.Queued upgrades (frames ++ (Item.frame c.phase f).answer?.toList) := by
  cases hreplied with
  | unmoved hphase hscheme hcodec houtbound hanswer =>
      rw [hanswer, Option.toList_none, List.append_nil]
      exact queued_of_same h hphase hscheme hcodec houtbound
  | answered hphase hcodec hsayable hencode hafter hanswer =>
      rw [hanswer, hafter]
      exact queued_write h hphase (scheme_of_queued h hphase hcodec) hsayable hencode
  | echoed hphase hqueue hshort hclosing hscheme houtbound hanswer =>
      rw [hanswer, Option.toList_none, List.append_nil]
      exact queued_close h hphase hqueue hshort (.inl hclosing) hscheme houtbound
  | ended _ hclosed hscheme houtbound hanswer =>
      rw [hanswer, Option.toList_none, List.append_nil]
      exact queued_of_closed h hclosed hscheme houtbound

/-- One step queues what its item calls for. -/
theorem queued_round (h : c.Queued upgrades frames) {item : Item}
    (hround : c.round = .progress (.going d)) (hitem : c.front? = some item) :
    d.Queued (upgrades ++ item.upgrade?.toList) (frames ++ item.answer?.toList) := by
  have hrounded := rounded c
  rw [hround] at hrounded
  cases hrounded with
  | upgraded hphase hnegotiate =>
      rw [front?_of_upgraded hphase hnegotiate, Option.some.injEq] at hitem
      rw [← hitem]
      simpa [Item.answer?, Item.upgrade?] using
        queued_upgrade h hphase (Handshake.switching_of_accepted hnegotiate)
  | @acted _ _ rest _ hframed hcodec hdecode hacted =>
      rw [front?_of_frame hframed hcodec hdecode, Option.some.injEq] at hitem
      rw [← hitem]
      have hphase : (c.withBuffered rest).phase = c.phase := rfl
      have hnext := queued_replied (c := c.withBuffered rest) (queued_of_same h rfl rfl rfl rfl)
        (replied_of_acted hacted (length_of_decode hdecode))
      rw [hphase] at hnext
      simpa [Item.upgrade?] using hnext

theorem queued_broken (h : c.Queued upgrades frames) {e : Error} (hbroken : c.Broken e d) :
    (d.fail e).Queued upgrades frames := by
  by_cases hphase : c.phase = .handshaking
  · rw [eq_of_broken hbroken hphase]
    cases h with
    | unopened _ hscheme houtbound =>
        refine .refused ?_ ?_ ?_ <;> simp [fail, write, hphase, hscheme, houtbound]
    | refused hphase' => simp [hphase] at hphase'
    | speaking hphase' => simp [hphase] at hphase'
    | spoken _ hsilent => rcases hsilent with hsilent | hsilent <;> simp [hphase] at hsilent
  · have halike := alike_of_broken hbroken hphase
    exact queued_fail (queued_of_same h halike.phase halike.scheme halike.codec
      halike.outbound) e

theorem queued_intake (h : c.Queued upgrades frames) (data : Bytes) :
    (c.intake data).ended.Queued (upgrades ++ (c.takes data).filterMap Item.upgrade?)
      (frames ++ (c.takes data).filterMap Item.answer?) := by
  refine ended_intake (P := fun d done => d.Queued (upgrades ++ done.filterMap Item.upgrade?)
    (frames ++ done.filterMap Item.answer?)) ?_ ?_ ?_ ?_ (by simpa using h) data
  · intro d done data hd
    exact queued_of_same hd rfl rfl rfl rfl
  · intro d after done item hd hround hitem
    rw [Item.filterMap_concat, Item.filterMap_concat, ← List.append_assoc, ← List.append_assoc]
    exact queued_round hd hround hitem
  · intro d after done e hd hbroken
    exact queued_broken hd hbroken
  · intro d done hd
    exact queued_of_closed hd rfl rfl rfl

theorem queued_accept (h : c.Queued upgrades frames) : c.accept.Queued upgrades frames := by
  unfold accept
  split
  · rename_i hphase
    cases h with
    | unopened _ hscheme houtbound => exact .unopened (by simp [Framed]) hscheme houtbound
    | refused hphase' => simp [hphase] at hphase'
    | speaking hphase' => simp [hphase] at hphase'
    | spoken _ hsilent => rcases hsilent with hsilent | hsilent <;> simp [hphase] at hsilent
  · exact h

theorem queued_closeWith (h : c.Queued upgrades frames) (code : CloseCode) :
    (c.close code).Queued upgrades frames := by
  cases hphase : c.phase with
  | established =>
      simp only [close, hphase, Frame.close]
      refine queued_close_getD h hphase ?_ (.inl rfl)
      rw [length_close_payload]
      simp [Frame.maxControlPayload]
  | connecting | handshaking =>
      simp only [close, hphase]
      exact queued_of_closed h rfl rfl rfl
  | closing | closed => simpa only [close, hphase] using h

theorem queued_finish (h : c.Queued upgrades frames) :
    (c.act .finish).Queued upgrades frames := by
  by_cases hending : (c.phase = .closing && c.peerClosed) = true
  · refine queued_of_closed h ?_ ?_ ?_ <;> simp only [act, finish, if_pos hending, reportClosed_snd]
  · simpa only [act, finish, if_neg hending, Option.toList_none, List.append_nil] using h

theorem queued_onTimeout (h : c.Queued upgrades frames) :
    c.onTimeout.2.Queued upgrades frames := by
  cases hphase : c.phase <;> simp only [onTimeout, hphase]
  · exact queued_fail h _
  · exact queued_fail h _
  · exact queued_fail h _
  · exact queued_of_closed h rfl rfl rfl
  · exact queued_of_closed h rfl rfl rfl

theorem queued_onDisconnect (h : c.Queued upgrades frames) :
    (c.act .onDisconnect).Queued upgrades frames := by
  refine queued_of_closed h ?_ ?_ ?_ <;> simp only [act, onDisconnect, reportClosed_snd]

/-- The bytes of a text in the framing of the connection. -/
def encodedText (c : Connection) (text : String) : Option Bytes :=
  c.scheme.bind fun scheme => (scheme.encode (.text (Utf8.encode text))).toOption

theorem queued_sendText (h : c.Queued upgrades frames) {text : String}
    (hsize : (Utf8.encode text).length + maxHeadSize ≤ maxSize) :
    ((c.sendText text).toOption.getD c).Queued upgrades
      (frames ++ if (c.sendText text).isOk then [.text (Utf8.encode text)] else []) := by
  cases hsend : c.sendText text with
  | error e => simpa [Except.toOption, Except.isOk, Except.toBool] using h
  | ok after =>
      unfold sendText at hsend
      split at hsend
      · rename_i hphase
        cases hcodec : c.codec with
        | none => simp [queue, hcodec] at hsend
        | some codec =>
            rw [queue_eq hcodec] at hsend
            cases hencode : codec.scheme.encode (.text (Utf8.encode text)) with
            | error e => simp [hencode, Except.map] at hsend
            | ok bytes =>
                simp only [hencode, Except.map, Except.ok.injEq] at hsend
                subst hsend
                exact queued_write h hphase (scheme_of_queued h hphase hcodec)
                  (Scheme.sayable_text hsize) hencode
      · simp at hsend

theorem queued_sendEncoded (h : c.Queued upgrades frames) {text : String}
    (hsize : (Utf8.encode text).length + maxHeadSize ≤ maxSize) {bytes : Bytes}
    (hbytes : c.encodedText text = some bytes) :
    ((c.sendEncoded bytes).toOption.getD c).Queued upgrades
      (frames ++ if (c.sendEncoded bytes).isOk then [.text (Utf8.encode text)] else []) := by
  cases hsend : c.sendEncoded bytes with
  | error e => simpa [Except.toOption, Except.isOk, Except.toBool] using h
  | ok after =>
      unfold sendEncoded at hsend
      split at hsend
      · rename_i hphase
        simp only [Except.ok.injEq] at hsend
        subst hsend
        obtain ⟨scheme, hscheme, hencode⟩ := Option.bind_eq_some_iff.mp hbytes
        cases hencode' : scheme.encode (.text (Utf8.encode text)) with
        | error e => simp [hencode', Except.toOption] at hencode
        | ok bytes' =>
            simp only [hencode', Except.toOption, Option.some.injEq] at hencode
            subst hencode
            exact queued_write h hphase hscheme (Scheme.sayable_text hsize) hencode'
      · simp at hsend

end Connection

/-- What the owner of a connection does with it. Bytes that it sends as they are are always a text
in the framing of the connection. -/
inductive Order where
  | accept
  | receive (data : Bytes)
  | sendText (text : String)
  | sendEncoded (text : String)
  | close (code : CloseCode)
  | finish
  | onTimeout
  | takeOutbound
  | onDisconnect

/-- The call that carries an order out; none if there is no way to write the text. -/
def Order.call? (c : Connection) : Order → Option Operation
  | .accept => some .accept
  | .receive data => some (.receive data)
  | .sendText text => some (.sendText text)
  | .sendEncoded text => (c.encodedText text).map .sendEncoded
  | .close code => some (.close code)
  | .finish => some .finish
  | .onTimeout => some .onTimeout
  | .takeOutbound => some .takeOutbound
  | .onDisconnect => some .onDisconnect

/-- The text of an order to send one. -/
def Order.text? : Order → Option String
  | .sendText text | .sendEncoded text => some text
  | _ => none

namespace Ledger

open Connection

def obey (l : Ledger) (o : Order) : Ledger :=
  match o.call? l.connection with
  | some call => l.call call
  | none => l

def obeyAll (l : Ledger) (orders : List Order) : Ledger :=
  orders.foldl obey l

/-- The requests and frames that an order makes the connection act on. -/
def metOn (l : Ledger) (o : Order) : List Item :=
  (o.call? l.connection).elim [] l.met

/-- The frames that an order makes the connection owe: a text that was sent, and a pong for each
ping. -/
def owed (l : Ledger) : Order → List Frame
  | .receive data => (l.met (.receive data)).filterMap Item.answer?
  | .sendText text =>
    if (l.connection.sendText text).isOk then [.text (Utf8.encode text)] else []
  | .sendEncoded text =>
    match l.connection.encodedText text with
    | some bytes =>
      if (l.connection.sendEncoded bytes).isOk then [.text (Utf8.encode text)] else []
    | none => []
  | _ => []

/-- The frames that the connection owes after all orders, in the order in which it came to owe
them. -/
def owedAll (l : Ledger) : List Order → List Frame
  | [] => []
  | o :: orders => l.owed o ++ (l.obey o).owedAll orders

def upgrades (l : Ledger) : List Order → List Handshake.Upgrade
  | [] => []
  | o :: orders => (l.metOn o).filterMap Item.upgrade? ++ (l.obey o).upgrades orders

variable {l : Ledger} {ups : List Handshake.Upgrade} {frames : List Frame}

theorem isOk_map {f : Connection → Connection} (r : Except Error Connection) :
    (r.map f).isOk = r.isOk := by
  cases r <;> rfl

theorem queued_obey (hprompt : l.Prompt) (h : l.whole.Queued ups frames) {o : Order}
    (hsize : ∀ text, o.text? = some text → (Utf8.encode text).length + maxHeadSize ≤ maxSize) :
    (l.obey o).whole.Queued (ups ++ (l.metOn o).filterMap Item.upgrade?) (frames ++ l.owed o) := by
  -- Most orders are one call that neither reads nor says anything.
  have hquiet : ∀ call, o.call? l.connection = some call → l.met call = [] → l.owed o = [] →
      (l.whole.act call).Queued ups frames →
      (l.obey o).whole.Queued (ups ++ (l.metOn o).filterMap Item.upgrade?)
        (frames ++ l.owed o) := by
    intro call hcall hmet howed hnext
    simpa [obey, metOn, hcall, hmet, howed, whole_call l hprompt] using hnext
  cases o with
  | accept => exact hquiet .accept rfl rfl rfl (queued_accept h)
  | receive data =>
      change (l.call (.receive data)).whole.Queued (ups ++ (l.met (.receive data)).filterMap _) _
      rw [whole_receive, owed, met_receive]
      exact queued_intake (queued_accept h) data
  | sendText text =>
      change (l.call (.sendText text)).whole.Queued _ _
      have hok : (l.connection.sendText text).isOk = (l.whole.sendText text).isOk := by
        rw [whole, sendText_around, isOk_map]
      rw [whole_call l hprompt, owed, hok]
      simpa [metOn, Order.call?, met, act] using queued_sendText h (hsize text rfl)
  | sendEncoded text =>
      cases hbytes : l.connection.encodedText text with
      | none => simpa [obey, Order.call?, owed, metOn, hbytes] using h
      | some bytes =>
          have hobey : l.obey (.sendEncoded text) = l.call (.sendEncoded bytes) := by
            simp [obey, Order.call?, hbytes]
          have hok : (l.connection.sendEncoded bytes).isOk = (l.whole.sendEncoded bytes).isOk := by
            rw [whole, sendEncoded_around, isOk_map]
          rw [hobey, whole_call l hprompt, owed, hbytes]
          simp only [hok]
          simpa [metOn, Order.call?, hbytes, met, act] using
            queued_sendEncoded h (hsize text rfl) hbytes
  | close code => exact hquiet (.close code) rfl rfl rfl (queued_closeWith h code)
  | finish => exact hquiet .finish rfl rfl rfl (queued_finish h)
  | onTimeout => exact hquiet .onTimeout rfl rfl rfl (queued_onTimeout h)
  | takeOutbound => exact hquiet .takeOutbound rfl rfl rfl h
  | onDisconnect => exact hquiet .onDisconnect rfl rfl rfl (queued_onDisconnect h)

theorem prompt_obey (hprompt : l.Prompt) (o : Order) : (l.obey o).Prompt := by
  unfold obey
  split
  · exact prompt_call hprompt _
  · exact hprompt

theorem queued_obeyAll (hprompt : l.Prompt) (h : l.whole.Queued ups frames) (orders : List Order)
    (hsizes : ∀ o ∈ orders, ∀ text, o.text? = some text →
      (Utf8.encode text).length + maxHeadSize ≤ maxSize) :
    (l.obeyAll orders).whole.Queued (ups ++ l.upgrades orders) (frames ++ l.owedAll orders) := by
  induction orders generalizing l ups frames with
  | nil => simpa [obeyAll, upgrades, owedAll] using h
  | cons o orders ih =>
      rw [upgrades, owedAll, ← List.append_assoc, ← List.append_assoc]
      exact ih (prompt_obey hprompt o) (queued_obey hprompt h (hsizes o (by simp)))
        fun o' ho' => hsizes o' (by simp [ho'])

theorem mem_owed {o : Order} {f : Frame} (h : f ∈ l.owed o) :
    f.opcode.isControl = true ∨ ∃ text, o.text? = some text ∧ f = .text (Utf8.encode text) := by
  cases o with
  | receive data =>
      obtain ⟨item, -, hitem⟩ := List.mem_filterMap.mp h
      exact .inl (by rw [Item.opcode_of_answer? hitem]; rfl)
  | sendText text =>
      simp only [owed] at h
      split at h
      · exact .inr ⟨text, rfl, by simpa using h⟩
      · simp at h
  | sendEncoded text =>
      simp only [owed] at h
      split at h
      · split at h
        · exact .inr ⟨text, rfl, by simpa using h⟩
        · simp at h
      · simp at h
  | _ => simp [owed] at h

theorem mem_owedAll {orders : List Order} {f : Frame} (h : f ∈ l.owedAll orders) :
    f.opcode.isControl = true ∨
      ∃ o ∈ orders, ∃ text, o.text? = some text ∧ f = .text (Utf8.encode text) := by
  induction orders generalizing l with
  | nil => simp [owedAll] at h
  | cons o orders ih =>
      rcases List.mem_append.mp h with h | h
      · exact (mem_owed h).imp_right fun htext => ⟨o, by simp, htext⟩
      · refine (ih h).imp_right ?_
        rintro ⟨o', ho', htext⟩
        exact ⟨o', List.mem_cons_of_mem _ ho', htext⟩

/-- What a connection that carried out `orders` has put on the network is nothing, or a refusal, or
one answer to an upgrade and then frames: those that it owes, and at most one close frame behind
them. A client with the limit `maxPayload` reads just these frames. -/
def Legible (options : Options) (orders : List Order) (maxPayload : Nat) : Prop :=
  let l := (new options).obeyAll orders
  let frames := (new options).owedAll orders
  (l.written = [] ∨ l.written = Handshake.refusal) ∧ frames = [] ∨
    ∃ (u : Handshake.Upgrade) (said : Bytes) (closes : List Frame),
      (new options).upgrades orders = [u] ∧ Handshake.switching <+: u.response ∧
      l.written = u.response ++ said ∧
      closes.length ≤ 1 ∧ (∀ f ∈ closes, f.opcode = .close) ∧
      u.scheme.Spoken (frames ++ closes) said ∧
      (∀ f ∈ frames ++ closes,
        f.opcode.isControl = true → f.payload.length ≤ Frame.maxControlPayload) ∧
      u.scheme.readAll maxPayload said = some (frames ++ closes)

theorem legible_of_spoken {options : Options} {orders : List Order} {maxPayload : Nat}
    (hmax : Frame.maxControlPayload ≤ maxPayload)
    (htexts : ∀ o ∈ orders, ∀ text, o.text? = some text → (Utf8.encode text).length ≤ maxPayload)
    {u : Handshake.Upgrade} {said : Bytes} (closes : List Frame)
    (hupgrades : (new options).upgrades orders = [u])
    (hanswer : Handshake.switching <+: u.response)
    (hwritten : ((new options).obeyAll orders).written = u.response ++ said)
    (honce : closes.length ≤ 1) (hcloses : ∀ f ∈ closes, f.opcode = .close)
    (hspoken : u.scheme.Spoken ((new options).owedAll orders ++ closes) said) :
    Legible options orders maxPayload := by
  have hcontrol : ∀ f ∈ (new options).owedAll orders ++ closes,
      f.opcode.isControl = true → f.payload.length ≤ Frame.maxControlPayload := fun f hf hkind =>
    ((Scheme.sayable_of_spoken hspoken f hf).lawful.control hkind).2
  refine .inr ⟨u, said, closes, hupgrades, hanswer, hwritten, honce, hcloses, hspoken, hcontrol,
    Scheme.readAll_of_spoken hspoken fun f hf => ?_⟩
  by_cases hkind : f.opcode.isControl = true
  · exact (hcontrol f hf hkind).trans hmax
  · rcases List.mem_append.mp hf with hf | hf
    · obtain ⟨o, ho, text, htext, rfl⟩ := (mem_owedAll hf).resolve_left hkind
      exact htexts o ho text htext
    · exact absurd (by rw [hcloses f hf]; rfl) hkind

/-- **What a connection says can be read to the end.** Whatever is asked of a connection in
whatever order, and whatever its peer sends, a client whose limit allows every text that was sent
and every control frame reads each text and each pong in its order, and at most one close frame
behind them. -/
theorem outbound_is_legible (options : Options) (orders : List Order) {maxPayload : Nat}
    (hmax : Frame.maxControlPayload ≤ maxPayload)
    (htexts : ∀ o ∈ orders, ∀ text, o.text? = some text →
      (Utf8.encode text).length ≤ maxPayload ∧
        (Utf8.encode text).length + maxHeadSize ≤ maxSize) :
    Legible options orders maxPayload := by
  have hqueued := queued_obeyAll (prompt_new options) (queued_new options) orders
    fun o ho text htext => (htexts o ho text htext).2
  have hshort := fun o ho text htext => (htexts o ho text htext).1
  rw [List.nil_append, List.nil_append] at hqueued
  generalize hups : (new options).upgrades orders = ups at hqueued
  generalize hframes : (new options).owedAll orders = frames at hqueued
  cases hqueued with
  | unopened _ _ houtbound => exact .inl ⟨.inl houtbound, hframes⟩
  | refused _ _ houtbound => exact .inl ⟨.inr houtbound, hframes⟩
  | speaking _ _ _ hanswer hspoken houtbound =>
      exact legible_of_spoken hmax hshort [] hups hanswer houtbound (by simp) (by simp)
        (by simpa [hframes] using hspoken)
  | spoken closes _ _ hanswer honce hcloses hspoken houtbound =>
      exact legible_of_spoken hmax hshort closes hups hanswer houtbound honce hcloses
        (hframes ▸ hspoken)

theorem greeting_and_close_are_legible :
    Frame.maxControlPayload ≤ 125 ∧
      Legible .standard [.receive plainRequest, .sendText "Hi", .close .normal, .sendText "Ho"]
        125 := by
  refine ⟨by decide, outbound_is_legible .standard _ (by decide) ?_⟩
  intro o ho text htext
  simp only [List.mem_cons, List.not_mem_nil, or_false] at ho
  rcases ho with rfl | rfl | rfl | rfl <;> simp only [Order.text?, reduceCtorEq,
    Option.some.injEq] at htext
  · subst htext
    decide +kernel
  · subst htext
    decide +kernel

def smallPing : Signal := ⟨true, ⟨1, 2, 3, 4⟩, [0x70]⟩

theorem fits_smallPing : smallPing.Fits .standard := by
  unfold Signal.Fits
  decide

/-- A client whose limit allows every text that was sent, but not every control frame, cannot read
the answer to its own ping. -/
theorem pong_is_illegible : ¬∀ (options : Options) (orders : List Order) (maxPayload : Nat),
    (∀ o ∈ orders, ∀ text, o.text? = some text →
      (Utf8.encode text).length ≤ maxPayload ∧
        (Utf8.encode text).length + maxHeadSize ≤ maxSize) →
    Legible options orders maxPayload := by
  intro hall
  have hopening := opening_plainRequest .standard rfl
  have hheeds := heeds_signal (ready_upgrade hopening rfl (by decide)) fits_smallPing
  have hdelivered := delivered_of_heeds hopening hheeds
    (feeds_map_receive [plainRequest, wire [smallPing.frame]])
  have hwritten : ((new .standard).obeyAll
      [.receive plainRequest, .receive (wire [smallPing.frame])]).written =
      plainUpgrade.response ++ wire [.pong [0x70]] := hdelivered.2.2
  have hlegible := hall .standard [.receive plainRequest, .receive (wire [smallPing.frame])] 0
    (by simp [Order.text?])
  rcases hlegible with ⟨hnothing | hrefusal, -⟩ | hframes
  · have hempty := hwritten.symm.trans hnothing
    simp [wire, Standard.encode, Standard.head] at hempty
  · have hstart : Handshake.switching <+: Handshake.refusal := by
      rw [hrefusal.symm.trans hwritten]
      exact (Handshake.switching_of_accepted hopening.accepted).trans (List.prefix_append _ _)
    exact absurd hstart (by decide +kernel)
  · obtain ⟨u, said, closes, hupgrades, -, hsaid, -, -, -, -, hread⟩ := hframes
    have hsame : plainUpgrade = u := by
      have hmet : (new .standard).metOn (.receive plainRequest) = [.request plainUpgrade] :=
        (intake_request hopening).2
      rw [upgrades, hmet] at hupgrades
      exact (List.cons.inj hupgrades).1
    subst hsame
    obtain rfl := List.append_cancel_left (hwritten.symm.trans hsaid)
    have hnone : plainUpgrade.scheme.readAll 0 (wire [.pong [0x70]]) = none := by
      rw [hopening.standard]
      refine Scheme.readAll_eq_none (by simp [wire, Standard.encode, Standard.head]) ?_
      intro f rest hdecode
      -- One byte is more than the client takes, and the head of the frame says so.
      have hrefused : Scheme.rfc6455.clientDecode 0 (wire [.pong [0x70]]) =
          .refused .frameTooLarge := by decide +kernel
      exact absurd (hrefused.symm.trans hdecode) (by simp)
    exact absurd (hnone.symm.trans hread) (by simp)

end Ledger

end WebSocket

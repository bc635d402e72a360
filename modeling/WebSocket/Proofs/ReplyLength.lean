import WebSocket.Proofs.ReadBuffer
import WebSocket.Proofs.RequestLayout
import WebSocket.Proofs.TaskCalls

/-!
How much a connection says to what it hears. What a frame is answered with is no longer than the
frame, so that what waits for the network and what is still to be read do not grow together, however
many frames a chunk completes. Only the frame that was there in part when the chunk came is paid for
with bytes that came earlier, and what ends the connection with no bytes at all; both are short.
-/

namespace WebSocket

/-- The most bytes that the server writes in a frame that controls the connection. -/
def Frame.maxControlSize : Nat := maxControlPayload + 2

theorem Scheme.length_le_of_encode {scheme : Scheme} {bytes : Bytes} {f : Frame}
    (h : scheme.encode f = .ok bytes) (hplain : f.mask = none)
    (hshort : f.payload.length ≤ Frame.maxControlPayload) :
    bytes.length ≤ f.payload.length + 2 := by
  cases scheme with
  | rfc6455 =>
      cases h
      simp [Standard.encode, Standard.head, Standard.wirePayload, hplain,
        Standard.lengthField_of_control hshort]
  | legacy =>
      simp only [encode, Legacy.encode] at h
      split at h
      · split at h
        · cases h
          simp
        · simp at h
      · cases h
        simp
      · simp at h

namespace Codec

variable {codec : Codec} {bytes rest more : Bytes} {f : Frame}

theorem length_add_le_of_decode (h : codec.decode bytes = .frame f rest) :
    rest.length + (f.payload.length + 2) ≤ bytes.length := by
  cases codec with
  | standard =>
      obtain ⟨form, mask, hlaid⟩ := Standard.laid_of_decode h
      rw [hlaid.bytes_eq]
      simp only [Standard.encodeIn, List.length_append, List.length_cons,
        Standard.length_wirePayload]
      omega
  | legacy =>
      rcases Legacy.laid_of_decode h with ⟨payload, rfl, -, -, rfl⟩ | ⟨rfl, rfl⟩
      · simp only [Frame.text, Frame.plain, List.length_append, List.length_cons, List.length_nil]
        omega
      · simp [Frame.closeRaw, Frame.plain]

theorem taken_of_decode (h : codec.decode bytes = .frame f rest) :
    ∃ taken, bytes = taken ++ rest ∧ codec.decode taken = .frame f [] := by
  cases codec with
  | standard => exact Standard.taken_of_decode h
  | legacy => exact Legacy.taken_of_decode h

theorem length_rest_le (hbefore : codec.decode bytes = .incomplete)
    (h : codec.decode (bytes ++ more) = .frame f rest) : rest.length ≤ more.length := by
  obtain ⟨taken, happend, htaken⟩ := taken_of_decode h
  by_contra hlonger
  have hlength := congrArg List.length happend
  simp only [List.length_append] at hlength
  -- Then the frame ends within the bytes that were there before.
  have hprefix : taken <+: bytes ++ more := by
    rw [happend]
    exact List.prefix_append ..
  obtain ⟨behind, rfl⟩ : taken <+: bytes :=
    List.prefix_of_prefix_length_le hprefix (List.prefix_append ..) (by omega)
  rw [decode_append (by simp [htaken]), htaken] at hbefore
  simp [Decoded.behind] at hbefore

end Codec

theorem Handshake.Negotiator.length_lt_consumed {negotiator : Negotiator} {raw more : Bytes}
    {u : Upgrade} (hbefore : negotiator.negotiate raw = .incomplete)
    (h : negotiator.negotiate (raw ++ more) = .accepted u) : raw.length < u.consumed := by
  by_contra hle
  have htake := negotiate_take_consumed h
  rw [List.take_append_of_le_length (by omega)] at htake
  have haccepted := negotiate_append_of_accepted htake (raw.drop u.consumed)
  rw [List.take_append_drop, hbefore] at haccepted
  simp at haccepted

/-- How long the answers to the requests are among what a connection has acted on. -/
def Item.openingLength (items : List Item) : Nat :=
  ((items.filterMap Item.upgrade?).map fun u => u.response.length).sum

theorem Item.openingLength_append (first second : List Item) :
    openingLength (first ++ second) = openingLength first + openingLength second := by
  simp [openingLength]

namespace Connection

variable {c d after : Connection} {e : Error} {chunk data : Bytes} {items : List Item}

/-! ## Single frames -/

theorem length_outbound_queue {f : Frame} (h : c.queue f = .ok d) (hplain : f.mask = none)
    (hshort : f.payload.length ≤ Frame.maxControlPayload) :
    d.outbound.length ≤ c.outbound.length + (f.payload.length + 2) := by
  unfold queue at h
  split at h
  · simp at h
  rename_i codec hcodec
  rw [Codec.encode_eq] at h
  cases hencode : codec.scheme.encode f with
  | error e => simp [hencode, Except.map] at h
  | ok bytes =>
      have hlength := Scheme.length_le_of_encode hencode hplain hshort
      rw [hencode] at h
      cases h
      simpa only [write, List.length_append, Nat.add_le_add_iff_left] using hlength

theorem length_outbound_queue_getD {f : Frame} (hplain : f.mask = none)
    (hshort : f.payload.length ≤ Frame.maxControlPayload) :
    ((c.queue f).toOption.getD c).outbound.length ≤ c.outbound.length + Frame.maxControlSize := by
  cases hqueue : c.queue f with
  | error e => exact Nat.le_add_right ..
  | ok d =>
      exact (length_outbound_queue hqueue hplain hshort).trans
        (Nat.add_le_add_left (Nat.add_le_add_right hshort 2) _)

theorem length_outbound_fail (c : Connection) (e : Error) :
    (c.fail e).outbound.length ≤ c.outbound.length + Frame.maxControlSize := by
  by_cases hphase : c.phase = .established
  · cases hcode : e.closeCode? with
    | none => simp [fail, hphase, hcode]
    | some code =>
        simp only [fail, hphase, if_true, hcode]
        exact length_outbound_queue_getD rfl (Scheme.length_notice_payload hcode)
  · rw [outbound_fail_of_ne hphase]
    exact Nat.le_add_right ..

theorem length_outbound_close (c : Connection) (code : CloseCode) :
    (c.close code).outbound.length ≤ c.outbound.length + Frame.maxControlSize := by
  unfold close
  split
  · have hpayload : (Frame.close code []).payload.length = 2 := length_close_payload code []
    exact length_outbound_queue_getD rfl (by rw [hpayload]; decide)
  all_goals exact Nat.le_add_right ..

theorem length_refusal : Handshake.refusal.length ≤ Frame.maxControlSize := by
  decide +kernel

theorem length_outbound_broken (h : c.Broken e after) :
    (after.fail e).outbound.length ≤ c.outbound.length + Frame.maxControlSize := by
  by_cases hphase : c.phase = .handshaking
  · rw [eq_of_broken h hphase, outbound_fail_of_ne (by simp [write, hphase]), write,
      List.length_append]
    exact Nat.add_le_add_left length_refusal _
  · rw [← (alike_of_broken h hphase).outbound]
    exact length_outbound_fail after e

/-! ## Steps with the buffer -/

theorem buffer_of_acted {f : Frame} (hacted : Acted c f (.going d)) : d.buffer = c.buffer := by
  cases hacted with
  | ignored | begun | continued | late => rfl
  | answered _ _ hqueue | echoed _ _ _ hqueue =>
      obtain ⟨bytes, rfl⟩ := eq_write_of_queue hqueue
      rfl
  | single _ _ _ hdelivered | completed _ _ _ _ hdelivered => cases hdelivered <;> rfl
  | ended => simp only [reportClosed_snd]

theorem length_reply {f : Frame} (h : Replied c f d) :
    ∃ said, said ≤ Frame.maxControlSize ∧ said ≤ f.payload.length + 2 ∧
      d.outbound.length ≤ c.outbound.length + said := by
  cases h with
  | unmoved _ _ _ houtbound | ended _ _ _ houtbound =>
      exact ⟨0, Nat.zero_le _, Nat.zero_le _, (congrArg List.length houtbound).le⟩
  | @answered codec bytes _ _ hsayable hencode hafter =>
      have hshort : f.payload.length ≤ Frame.maxControlPayload := (hsayable.lawful.control rfl).2
      have hlength := Scheme.length_le_of_encode hencode rfl hshort
      refine ⟨bytes.length, hlength.trans (Nat.add_le_add_right hshort 2), hlength, ?_⟩
      rw [hafter]
      exact (List.length_append ..).le
  | echoed _ hqueue hshort _ _ houtbound =>
      refine ⟨f.payload.length + 2, Nat.add_le_add_right hshort 2, le_rfl, ?_⟩
      rw [houtbound]
      exact length_outbound_queue (f := .closeRaw f.payload) hqueue rfl hshort

/-- What a step says, beside the answer to a request, is short, and no longer than what it takes from
the buffer. -/
theorem said_of_round (hround : c.round = .progress (.going after)) {item : Item}
    (hitem : c.front? = some item) :
    ∃ said, said ≤ Frame.maxControlSize ∧ after.buffer.size + said ≤ c.buffer.size ∧
      after.outbound.length ≤ c.outbound.length + said + Item.openingLength [item] := by
  have hshorter := size_lt_of_round hround
  have hrounded := rounded c
  rw [hround] at hrounded
  cases hrounded with
  | @upgraded u hphase hnegotiate =>
      rw [front?_of_upgraded hphase hnegotiate, Option.some.injEq] at hitem
      subst hitem
      refine ⟨0, Nat.zero_le _, hshorter.le, ?_⟩
      simp [upgrade, write, Item.openingLength, Item.upgrade?]
  | @acted codec f rest _ hframed hcodec hdecode hacted =>
      rw [front?_of_frame hframed hcodec hdecode, Option.some.injEq] at hitem
      subst hitem
      have hbuffer : after.buffer.size = rest.length :=
        congrArg Accumulator.size (buffer_of_acted hacted)
      have htaken := Codec.length_add_le_of_decode hdecode
      obtain ⟨said, hshort, hpaid, houtbound⟩ :=
        length_reply (replied_of_acted hacted (length_of_decode hdecode))
      refine ⟨said, hshort, ?_, houtbound⟩
      rw [hbuffer]
      exact (Nat.add_le_add_left hpaid _).trans htaken

/-- The bytes that wait for the network, and those with which a frame that is there in part can pay
for its answer. -/
def held (c : Connection) : Nat :=
  c.outbound.length + min c.buffer.size Frame.maxControlSize

theorem size_le_of_round (hwaiting : c.round = .waiting)
    (hround : (c.around [] [] chunk).round = .progress (.going after)) :
    after.buffer.size ≤ chunk.length := by
  have hrounded := rounded (c.around [] [] chunk)
  rw [hround] at hrounded
  cases hrounded with
  | @upgraded u hphase hnegotiate =>
      rw [around_phase] at hphase
      rw [around_options, around_contents] at hnegotiate
      have hbefore : c.options.negotiator.negotiate c.buffer.contents = .incomplete := by
        simp only [round, hphase] at hwaiting
        split at hwaiting <;> first | assumption | simp at hwaiting
      have hconsumed := Handshake.Negotiator.length_lt_consumed hbefore hnegotiate
      simp only [upgrade, Accumulator.removeRange, Accumulator.size, around_contents,
        List.take_zero, List.nil_append, List.length_drop, List.length_append]
      omega
  | @acted codec f rest _ hframed hcodec hdecode hacted =>
      have hbuffer : after.buffer.size = rest.length :=
        congrArg Accumulator.size (buffer_of_acted hacted)
      rw [around_contents] at hdecode
      rw [hbuffer]
      exact Codec.length_rest_le (unfinished_of_round hwaiting hframed codec hcodec) hdecode

theorem Processed.StoppedAt.mono {P Q : Connection → Prop} (hpq : ∀ c, P c → Q c)
    {p : Processed} (h : p.StoppedAt P) : p.StoppedAt Q := by
  cases p with
  | waiting c | abandoned c => exact hpq c h
  | failed e c =>
      obtain ⟨before, hbefore, hbroken⟩ := h
      exact ⟨before, hpq before hbefore, hbroken⟩

/-- What a connection holds grows by no more than the chunk that it acts on and the answer to an
upgrade. -/
theorem held_process (hwaiting : c.round = .waiting) (chunk : Bytes) :
    (c.around [] [] chunk).process.StoppedAt fun d =>
      d.held ≤ c.held + chunk.length + Item.openingLength (c.around [] [] chunk).items := by
  generalize hfilled : c.around [] [] chunk = filled
  -- From the first step on, what waits and what is still to be read do not grow together.
  have hstopped := @process_stoppedAt (fun d items => d = filled ∧ items = [] ∨
    d.outbound.length + d.buffer.size ≤ c.held + chunk.length + Item.openingLength items)
    ?_ filled [] (.inl ⟨rfl, rfl⟩)
  · rw [List.nil_append] at hstopped
    refine hstopped.mono ?_
    rintro d (⟨rfl, -⟩ | hpaid)
    · rw [← hfilled]
      simp only [held, Accumulator.size, around_contents, around_outbound,
        List.length_append, List.nil_append]
      omega
    · exact (Nat.add_le_add_left (min_le_left ..) _).trans hpaid
  · rintro d after items item hd hround hitem
    obtain ⟨said, hshort, hpaid, houtbound⟩ := said_of_round hround hitem
    right
    rw [Item.openingLength_append]
    rcases hd with ⟨rfl, rfl⟩ | hd
    · subst hfilled
      have hrest := size_le_of_round hwaiting hround
      simp only [held, Accumulator.size, around_contents, around_outbound, List.length_append,
        List.nil_append] at *
      omega
    · omega

theorem held_intake (hwaiting : c.round = .waiting) (data : Bytes) :
    (c.intake data).StoppedAt fun d =>
      d.held ≤ c.held + data.length + Item.openingLength (c.takes data) := by
  induction hn : data.length using Nat.strong_induction_on generalizing c data with
  | h n ih =>
      subst hn
      have hnow : c.held ≤ c.held + data.length := Nat.le_add_right ..
      rw [intake, takes]
      split
      · exact hnow
      rename_i hdata
      split
      · exact hnow
      rename_i hopen
      split
      · rename_i hroom
        exact ⟨c, hnow, .full hopen hroom rfl rfl⟩
      rename_i hroom
      have hprocess := held_process hwaiting (data.take c.buffer.room)
      have hcut := congrArg List.length (List.take_append_drop c.buffer.room data)
      rw [List.length_append] at hcut
      rw [Item.openingLength_append]
      cases hresult : (c.around [] [] (data.take c.buffer.room)).process with
      | failed e after | abandoned after =>
          rw [hresult] at hprocess
          refine Processed.StoppedAt.mono (fun d hd => ?_) hprocess
          omega
      | waiting after =>
          have hpos := List.length_pos_iff.mpr hdata
          rw [hresult] at hprocess
          have hlater := ih (data.drop c.buffer.room).length (by rw [List.length_drop]; omega)
            (round_of_process hresult) _ rfl
          refine hlater.mono fun d hd => ?_
          change after.held ≤ _ at hprocess
          dsimp only
          omega

theorem receive_eq_ended (c : Connection) (data : Bytes) :
    ∃ events, (c.receive data).2 = { (c.accept.intake data).ended with pending := events } := by
  rw [receive_eq_conclude]
  cases c.accept.intake data with
  | waiting after => exact ⟨[], rfl⟩
  | failed e after => exact ⟨(after.fail e).pending, rfl⟩
  | abandoned after => exact ⟨after.pending, rfl⟩

/-! ## Between two calls -/

/-- A connection that has not opened has got only a part of a request. -/
def Unasked (c : Connection) : Prop :=
  c.phase ≤ .handshaking →
    c.options.negotiator.negotiate c.buffer.contents = .incomplete

theorem unasked_of_round (h : c.round = .waiting) (hphase : c.phase ≠ .connecting) :
    c.Unasked := by
  intro hle
  have hhandshaking : c.phase = .handshaking := by
    revert hphase hle
    cases c.phase <;> decide
  simp only [round, hhandshaking] at h
  split at h <;> first | assumption | simp at h

theorem round_of_unasked (hunasked : c.Unasked) (hunfinished : c.Unfinished) :
    c.round = .waiting := by
  have hrounded := rounded c
  generalize c.round = outcome at hrounded
  cases hrounded with
  | waiting => rfl
  | upgraded hphase hnegotiate | rejected hphase hnegotiate =>
      simp [hunasked hphase.le] at hnegotiate
  | @acted codec _ _ _ hframed hcodec hdecode | @refused codec _ hframed hcodec hdecode
  | @abandoned codec hframed hcodec hdecode =>
      simp [hunfinished hframed codec hcodec] at hdecode

theorem unasked_of_closed (h : c.phase = .closed) : c.Unasked := by
  intro hle
  rw [h] at hle
  exact absurd hle (by decide)

theorem unasked_accept (h : c.Unasked) : c.accept.Unasked := by
  unfold accept
  split
  · rename_i hphase
    exact fun _ => h (by rw [hphase]; decide)
  · exact h

theorem unasked_intake (h : c.Unasked) (hunfinished : c.Unfinished)
    (hstarted : c.phase ≠ .connecting) (data : Bytes) : (c.intake data).ended.Unasked := by
  have hphase := started_intake hstarted data
  have hends : (c.intake data).Ends fun d => d.round = .waiting :=
    ends_intake (fun _ _ hprocess => round_of_process hprocess)
      (round_of_unasked h hunfinished) data
  generalize c.intake data = result at hends hphase
  cases hends with
  | rested hround => exact unasked_of_round hround hphase
  | full | failed | abandoned => exact unasked_of_closed rfl

theorem unasked_close (h : c.Unasked) (code : CloseCode) : (c.close code).Unasked := by
  cases hphase : c.phase with
  | established =>
      simp only [close, hphase]
      exact fun hle => absurd hle (by decide : ¬Phase.closing ≤ .handshaking)
  | connecting | handshaking =>
      simp only [close, hphase]
      exact unasked_of_closed rfl
  | closing | closed => simpa only [close, hphase] using h

/-- Between two calls a connection waits for the rest of what it holds. -/
structure Idle (c : Connection) : Prop where
  unasked : c.Unasked
  unfinished : c.Unfinished

theorem idle_new (options : Options) : (new options).Idle where
  unasked _ := rfl
  unfinished := unfinished_of_round rfl

theorem Idle.round (h : c.Idle) : c.accept.round = .waiting :=
  round_of_unasked (unasked_accept h.unasked) (unfinished_accept h.unfinished)

end Connection

namespace Ledger

open Connection

variable {l : Ledger}

theorem unasked_call (h : l.connection.Idle) (call : Operation) :
    (l.call call).connection.Unasked := by
  cases call with
  | accept => exact unasked_accept h.unasked
  | receive data =>
      obtain ⟨events, hreceive⟩ := receive_eq_ended l.connection data
      simp only [Ledger.call, hreceive]
      exact unasked_intake (unasked_accept h.unasked) (unfinished_accept h.unfinished)
        (started_accept _) data
  | sendText text =>
      obtain ⟨bytes, hsend⟩ := sendText_getD l.connection text
      simp only [Ledger.call, hsend]
      exact h.unasked
  | sendEncoded bytes =>
      obtain ⟨sent, hsend⟩ := sendEncoded_getD l.connection bytes
      simp only [Ledger.call, hsend]
      exact h.unasked
  | close code => exact unasked_close h.unasked code
  | finish =>
      simp only [Ledger.call, finish]
      split
      · exact unasked_of_closed (by simp only [reportClosed_snd])
      · exact h.unasked
  | onTimeout => exact unasked_of_closed (phase_onTimeout l.connection)
  | takeOutbound =>
      simp only [Ledger.call, takeOutbound]
      split <;> exact h.unasked
  | onDisconnect => exact unasked_of_closed (phase_onDisconnect l.connection)

theorem idle_run (h : l.connection.Idle) (calls : List Operation) :
    (l.run calls).connection.Idle :=
  run_keeps (P := (·.connection.Idle))
    (fun h call => ⟨unasked_call h call, unfinished_call h.unfinished call⟩) h calls

end Ledger

namespace Connection

theorem Reaches.idle {c d : Connection} (h : c.Reaches d) (hc : c.Idle) : d.Idle := by
  obtain ⟨calls, rfl⟩ := h
  exact Ledger.idle_run (l := ⟨c, [], [], none⟩) hc calls

variable {c d : Connection} {data : Bytes}

/-! ## One call -/

/-- How many requests a connection can still accept. -/
def unopened (c : Connection) : Nat :=
  if c.phase ≤ .handshaking then 1 else 0

theorem unopened_le (h : c.phase ≤ d.phase) : d.unopened ≤ c.unopened := by
  unfold unopened
  split
  · rename_i hle
    rw [if_pos (h.trans hle)]
  · exact Nat.zero_le _

theorem unopened_accept (c : Connection) : c.accept.unopened = c.unopened := by
  unfold accept
  split
  · rename_i hphase
    simp only [unopened, hphase]
    rfl
  · rfl

theorem upgrades_intake (c : Connection) (data : Bytes) :
    ((c.takes data).filterMap Item.upgrade?).length + (c.intake data).ended.unopened ≤
      c.unopened := by
  refine ended_intake (P := fun d items =>
    (items.filterMap Item.upgrade?).length + d.unopened ≤ c.unopened) ?_ ?_ ?_ ?_ ?_ data
  · exact fun _ h => h
  · intro d after items item h hround hitem
    have hle := unopened_le (phase_le_round hround)
    rw [Item.filterMap_concat, List.length_append]
    have hrounded := rounded d
    rw [hround] at hrounded
    cases hrounded with
    | @upgraded u hphase hnegotiate =>
        have hbefore : d.unopened = 1 := by
          rw [unopened, hphase]
          rfl
        rw [front?_of_upgraded hphase hnegotiate, Option.some.injEq] at hitem
        subst hitem
        rwa [hbefore] at h
    | acted hframed hcodec hdecode =>
        rw [front?_of_frame hframed hcodec hdecode, Option.some.injEq] at hitem
        subst hitem
        exact (Nat.add_le_add_left hle _).trans h
  · exact fun h _ => (Nat.le_add_right ..).trans h
  · exact fun h => (Nat.le_add_right ..).trans h
  · simp

theorem upgrades_receive (c : Connection) (data : Bytes) :
    ((c.accept.takes data).filterMap Item.upgrade?).length + (c.receive data).2.unopened ≤
      c.unopened := by
  obtain ⟨events, hreceive⟩ := receive_eq_ended c data
  rw [← unopened_accept c, hreceive]
  exact upgrades_intake c.accept data

theorem openingLength_of_opened (h : .established ≤ c.phase) (data : Bytes) :
    Item.openingLength (c.accept.takes data) = 0 := by
  have hopened : c.unopened = 0 := if_neg fun hunopened => Phase.not_opened hunopened h
  have hnone := (Nat.le_add_right ..).trans (upgrades_receive c data)
  rw [hopened, Nat.le_zero, List.length_eq_zero_iff] at hnone
  rw [Item.openingLength, hnone]
  rfl

theorem length_outbound_receive (hidle : c.Idle) (data : Bytes) :
    (c.receive data).2.outbound.length ≤
      c.held + data.length + Item.openingLength (c.accept.takes data) + Frame.maxControlSize := by
  have haccept : c.accept.held = c.held := by
    unfold accept
    split <;> rfl
  have hstopped := held_intake hidle.round data
  rw [haccept] at hstopped
  have hwaits : ∀ d : Connection, d.outbound.length ≤ d.held := fun d => Nat.le_add_right ..
  rw [receive_eq_conclude]
  cases hintake : c.accept.intake data with
  | waiting after | abandoned after =>
      rw [hintake] at hstopped
      exact ((hwaits after).trans hstopped).trans (Nat.le_add_right ..)
  | failed e after =>
      rw [hintake] at hstopped
      obtain ⟨before, hbefore, hbroken⟩ := hstopped
      exact (length_outbound_broken hbroken).trans
        (Nat.add_le_add_right ((hwaits before).trans hbefore) _)

theorem outbound_prefix_receive (c : Connection) (data : Bytes) :
    c.outbound <+: (c.receive data).2.outbound := by
  obtain ⟨d, hd⟩ : ∃ d, d.around [] c.outbound [] = c :=
    ⟨{ c with outbound := [] }, by simp [around]⟩
  have hintake : c.accept.intake data = (d.accept.intake data).map (around [] c.outbound []) := by
    rw [← intake_around, ← accept_around, hd]
  obtain ⟨events, hreceive⟩ := receive_eq_ended c data
  rw [hreceive, hintake, Processed.ended_map_around]
  exact List.prefix_append ..

/-- A connection answers what it hears with no more bytes than it hears, beside the answer to an
upgrade, what the earlier part of a frame pays for, and the last word. -/
theorem receive_says (hidle : c.Idle) (data : Bytes) :
    ∃ said, (c.receive data).2.outbound = c.outbound ++ said ∧ said.length ≤
      Item.openingLength (c.accept.takes data) + data.length + 2 * Frame.maxControlSize := by
  obtain ⟨said, hsaid⟩ := outbound_prefix_receive c data
  refine ⟨said, hsaid.symm, ?_⟩
  have hlength := length_outbound_receive hidle data
  rw [← hsaid, List.length_append, held] at hlength
  omega

end Connection

end WebSocket

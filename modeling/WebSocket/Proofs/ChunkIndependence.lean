import WebSocket.Proofs.ConnectionSilence

namespace WebSocket

/-- Calls that hand `data` to a connection, chunk by chunk. Between the chunks they may accept the
connection, end it when it is closing, and take what waits for the network. -/
inductive Feeds : Bytes → List Operation → Prop where
  | nil : Feeds [] []
  | accept {data : Bytes} {calls : List Operation} (h : Feeds data calls) :
      Feeds data (.accept :: calls)
  | receive {data : Bytes} {calls : List Operation} (chunk : Bytes) (h : Feeds data calls) :
      Feeds (chunk ++ data) (.receive chunk :: calls)
  | finish {data : Bytes} {calls : List Operation} (h : Feeds data calls) :
      Feeds data (.finish :: calls)
  | takeOutbound {data : Bytes} {calls : List Operation} (h : Feeds data calls) :
      Feeds data (.takeOutbound :: calls)

theorem feeds_map_receive (chunks : List Bytes) :
    Feeds chunks.flatten (chunks.map .receive) := by
  induction chunks with
  | nil => exact .nil
  | cons chunk chunks ih => exact .receive chunk ih

namespace Connection

theorem fail_withBuffered (c : Connection) (e : Error) (bytes : Bytes) :
    (c.withBuffered bytes).fail e = (c.fail e).withBuffered bytes := by
  by_cases hphase : c.phase = .established
  · cases hcode : e.closeCode? with
    | none => simp [fail, withBuffered, hphase, hcode]
    | some code =>
        cases hcodec : c.codec with
        | none => simp [fail, withBuffered, queue, hphase, hcode, hcodec, Except.toOption]
        | some codec =>
            cases hencode : codec.encode (.close code (Utf8.encode e.message)) with
            | error e =>
                simp [fail, withBuffered, queue, hphase, hcode, hcodec, hencode, Except.map,
                  Except.toOption]
            | ok bytes =>
                simp [fail, withBuffered, queue, write, hphase, hcode, hcodec, hencode,
                  Except.map, Except.toOption]
  · simp [fail, withBuffered, hphase]

theorem ended_sealed_congr {p q : Processed} (h : p.sealed = q.sealed) :
    p.ended.sealed = q.ended.sealed := by
  have hfailed : ∀ (c : Connection) (e : Error),
      (c.fail e).sealed = (c.withBuffered []).fail e := by
    intro c e
    rw [fail_withBuffered]
    exact if_pos rfl
  have habandoned : ∀ c : Connection, ({ c with phase := .closed } : Connection).sealed =
      { c.withBuffered [] with phase := .closed } := fun c => if_pos rfl
  cases p <;> cases q <;> simp only [Processed.sealed, Processed.waiting.injEq,
    Processed.failed.injEq, Processed.abandoned.injEq, reduceCtorEq] at h
  · exact h
  · obtain ⟨rfl, h⟩ := h
    simp only [Processed.ended, hfailed, h]
  · simp only [Processed.ended, habandoned, h]

theorem failure_sealed_congr {p q : Processed} (h : p.sealed = q.sealed) :
    p.failure? = q.failure? := by
  cases p <;> cases q <;> simp only [Processed.sealed, Processed.waiting.injEq,
    Processed.failed.injEq, Processed.abandoned.injEq, reduceCtorEq] at h
  · rfl
  · obtain ⟨rfl, h⟩ := h
    rfl
  · rfl

theorem started_accept (c : Connection) : c.accept.phase ≠ .connecting := by
  unfold accept
  split
  · simp
  · assumption

theorem accept_of_started {c : Connection} (h : c.phase ≠ .connecting) : c.accept = c :=
  if_neg h

theorem accept_accept (c : Connection) : c.accept.accept = c.accept :=
  accept_of_started (started_accept c)

theorem ended_andThen_intake (p : Processed) (data : Bytes) :
    (p.andThen (intake · data)).ended = (p.ended.intake data).ended := by
  cases p with
  | waiting c => rfl
  | failed e c =>
      rw [Processed.andThen, intake_of_closed (c := (Processed.failed e c).ended) rfl]
      rfl
  | abandoned c =>
      rw [Processed.andThen, intake_of_closed (c := (Processed.abandoned c).ended) rfl]
      rfl

theorem failure_andThen_intake (p : Processed) (data : Bytes) :
    (p.andThen (intake · data)).failure? = p.failure?.or (p.ended.intake data).failure? := by
  cases p with
  | waiting c => rfl
  | failed e c => rfl
  | abandoned c => rfl

end Connection

namespace Ledger

open Connection

/-- What the application was told and what the network was given once the connection is gone. -/
def outcome (l : Ledger) : List Event × Bytes :=
  ((l.call .onDisconnect).events, (l.call .onDisconnect).written)

theorem outcome_eq_account (l : Ledger) : l.outcome = l.whole.account := by
  simp only [outcome, call, written, onDisconnect_fst, outbound_onDisconnect, ← List.append_assoc]
  rfl

/-- The ledger agrees with a connection that took in the same bytes at once. -/
structure Agrees (l : Ledger) (p : Processed) : Prop where
  state : l.whole.accept.sealed = p.ended.sealed
  failure : l.failure = p.failure?

/-- The ledger and a connection that took in the same bytes at once have said everything, and the
same. -/
structure Settled (l : Ledger) (p : Processed) : Prop where
  silent : l.whole.Silent
  silent' : p.ended.Silent
  account : l.whole.account = p.ended.account

/-- The ledger agrees with a connection that took in the same bytes at once, or it was `ended`
early. -/
def Follows (ended : Prop) (l : Ledger) (p : Processed) : Prop :=
  l.Agrees p ∨ ended ∧ l.Settled p

variable {l : Ledger} {p q : Processed} {ended : Prop}

theorem agrees_new (options : Options) :
    (new options).Agrees (.waiting (Connection.new options).accept) := ⟨rfl, rfl⟩

theorem account_of_follows (h : l.Follows ended p) : l.whole.account = p.ended.account := by
  rcases h with h | ⟨-, h⟩
  · rw [← account_accept l.whole, ← account_sealed, h.state, account_sealed]
  · exact h.account

theorem follows_congr (h : l.Follows ended p) (hsealed : p.sealed = q.sealed) :
    l.Follows ended q := by
  have hended := ended_sealed_congr hsealed
  rcases h with h | ⟨hearly, h⟩
  · exact .inl ⟨h.state.trans hended, h.failure.trans (failure_sealed_congr hsealed)⟩
  · refine .inr ⟨hearly, h.silent, ?_, ?_⟩
    · simpa only [Silent, phase_eq_of_sealed_eq hended] using h.silent'
    · rw [h.account, ← account_sealed, hended, account_sealed]

theorem agrees_receive (h : l.Agrees p) (hstarted : p.ended.phase ≠ .connecting) (chunk : Bytes) :
    (l.call (.receive chunk)).Agrees (p.andThen (intake · chunk)) := by
  have hintake := intake_sealed_congr h.state chunk
  have hstarted' : l.whole.accept.phase ≠ .connecting :=
    phase_eq_of_sealed_eq h.state ▸ hstarted
  constructor
  · rw [whole_receive, ended_andThen_intake]
    change (l.whole.accept.intake chunk).ended.accept.sealed = _
    rw [accept_of_started (started_intake hstarted' chunk)]
    exact ended_sealed_congr hintake
  · rw [failure_receive, failure_andThen_intake, h.failure, failure_sealed_congr hintake]

theorem settled_receive (h : l.Settled p) (chunk : Bytes) :
    (l.call (.receive chunk)).Settled (p.andThen (intake · chunk)) := by
  have hstarted : l.whole.phase ≠ .connecting := by
    rcases h.silent with hphase | hphase <;> simp [hphase]
  have hwhole : (l.call (.receive chunk)).whole = (l.whole.intake chunk).ended := by
    rw [whole_receive]
    change (l.whole.accept.intake chunk).ended = _
    rw [accept_of_started hstarted]
  obtain ⟨hsilent, haccount⟩ := account_intake h.silent chunk
  obtain ⟨hsilent', haccount'⟩ := account_intake h.silent' chunk
  rw [← ended_andThen_intake] at hsilent' haccount'
  exact ⟨hwhole ▸ hsilent, hsilent', hwhole ▸ haccount.trans (h.account.trans haccount'.symm)⟩

theorem follows_accept (h : l.Follows ended p) : (l.call .accept).Follows ended p := by
  have hwhole : (l.call .accept).whole = l.whole.accept :=
    (accept_around l.events l.sent [] l.connection).symm
  refine h.imp ?_ ?_
  · exact fun h => ⟨by rw [hwhole, accept_accept, h.state], h.failure⟩
  · rintro ⟨hearly, h⟩
    have hsame : (l.call .accept).whole = l.whole := by
      rw [hwhole]
      exact accept_of_started (by rcases h.silent with hphase | hphase <;> simp [hphase])
    exact ⟨hearly, hsame ▸ h.silent, h.silent', hsame ▸ h.account⟩

theorem follows_finish (hprompt : l.Prompt) (hearly : ended) (h : l.Follows ended p) :
    (l.call .finish).Follows ended p := by
  have hwhole := whole_finish l hprompt
  rcases finish_cases l.whole with hsame | ⟨hclosing, hclosed⟩
  · rw [hsame] at hwhole
    rcases h with h | ⟨-, h⟩
    · exact .inl ⟨hwhole ▸ h.state, h.failure⟩
    · exact .inr ⟨hearly, hwhole ▸ h.silent, h.silent', hwhole ▸ h.account⟩
  -- This connection ends, while the one that took in everything may still wait for its peer.
  · have haccount := account_finish l.whole
    rw [← hwhole] at haccount hclosed
    refine .inr ⟨hearly, .inr hclosed, ?_, haccount.trans (account_of_follows h)⟩
    rcases h with h | ⟨-, h⟩
    · have hphase := phase_eq_of_sealed_eq h.state
      rw [accept_of_started (by simp [hclosing])] at hphase
      exact .inl (hphase ▸ hclosing)
    · exact h.silent'

/-- Chunk by chunk, with or without ending in between, a ledger follows a connection that takes in
the same bytes at once. -/
theorem follows_run {data : Bytes} {calls : List Operation} (hfeeds : Feeds data calls)
    (hprompt : l.Prompt) (hstarted : p.ended.phase ≠ .connecting)
    (hfinish : .finish ∈ calls → ended) (h : l.Follows ended p) :
    (l.run calls).Follows ended (p.andThen (intake · data)) := by
  induction hfeeds generalizing l p with
  | nil =>
      refine follows_congr h ?_
      cases p with
      | waiting c => rw [Processed.andThen, intake_nil]
      | failed e c => rfl
      | abandoned c => rfl
  | accept hfeeds ih =>
      exact ih (prompt_call hprompt _) hstarted (by simpa using hfinish) (follows_accept h)
  | @receive data calls chunk hfeeds ih =>
      have hstarted' : (p.andThen (intake · chunk)).ended.phase ≠ .connecting := by
        rw [ended_andThen_intake]
        exact started_intake hstarted chunk
      have hnext : (l.call (.receive chunk)).Follows ended (p.andThen (intake · chunk)) :=
        h.imp (agrees_receive · hstarted chunk) (.imp_right (settled_receive · chunk))
      refine follows_congr (ih (prompt_call hprompt _) hstarted' (by simpa using hfinish) hnext) ?_
      rw [andThen_andThen]
      cases p with
      | waiting c => exact (intake_append c chunk data).symm
      | failed e c => rfl
      | abandoned c => rfl
  | finish hfeeds ih =>
      have hearly := hfinish (by simp)
      exact ih (prompt_call hprompt _) hstarted (fun _ => hearly) (follows_finish hprompt hearly h)
  | takeOutbound hfeeds ih =>
      have hwhole : (l.call .takeOutbound).whole = l.whole := whole_call l hprompt .takeOutbound
      refine ih (prompt_call hprompt _) hstarted (by simpa using hfinish) (h.imp ?_ ?_)
      · exact fun h => ⟨hwhole ▸ h.state, h.failure⟩
      · rintro ⟨hearly, h⟩
        exact ⟨hearly, hwhole ▸ h.silent, h.silent', hwhole ▸ h.account⟩

theorem started_run {data : Bytes} {calls : List Operation} (hfeeds : Feeds data calls)
    (hprompt : l.Prompt) (h : l.whole.phase ≠ .connecting ∨ ∃ chunk, .receive chunk ∈ calls) :
    (l.run calls).whole.phase ≠ .connecting := by
  induction hfeeds generalizing l with
  | nil => simpa using h
  | accept hfeeds ih =>
      refine ih (prompt_call hprompt _) (.inl ?_)
      rw [whole_call l hprompt]
      exact started_accept l.whole
  | receive chunk hfeeds ih =>
      refine ih (prompt_call hprompt _) (.inl ?_)
      rw [whole_receive]
      exact started_intake (started_accept l.whole) chunk
  | finish hfeeds ih =>
      refine ih (prompt_call hprompt _) (h.imp ?_ (by simp))
      intro hphase
      rw [whole_finish l hprompt]
      rcases finish_cases l.whole with hsame | ⟨-, hclosed⟩
      · rwa [hsame]
      · simp [hclosed]
  | takeOutbound hfeeds ih =>
      refine ih (prompt_call hprompt _) (h.imp ?_ (by simp))
      intro hphase
      rwa [whole_call l hprompt]

theorem follows_feeds (ended : Prop) (options : Options) {data : Bytes} {calls : List Operation}
    (hfeeds : Feeds data calls) (hfinish : .finish ∈ calls → ended) :
    ((new options).run calls).Follows ended ((Connection.new options).accept.intake data) :=
  follows_run hfeeds (prompt_new options) (by simp [Processed.ended, accept, Connection.new])
    hfinish (.inl (agrees_new options))

/-- **Chunks do not matter.** Two ways of handing the same bytes to a new connection tell the
application the same and write the same to the network, whether or not the connection is ended in
between. Without that they also leave it in the same phase, after the same first failure. -/
theorem chunks_do_not_matter (options : Options) {data : Bytes} {calls calls' : List Operation}
    (h : Feeds data calls) (h' : Feeds data calls') :
    ((new options).run calls).outcome = ((new options).run calls').outcome ∧
      (.finish ∉ calls → .finish ∉ calls' →
        (∃ chunk, .receive chunk ∈ calls) → (∃ chunk, .receive chunk ∈ calls') →
        ((new options).run calls).connection.phase = ((new options).run calls').connection.phase ∧
          ((new options).run calls).failure = ((new options).run calls').failure) := by
  constructor
  · have hfollows := follows_feeds True options h fun _ => trivial
    have hfollows' := follows_feeds True options h' fun _ => trivial
    rw [outcome_eq_account, outcome_eq_account, account_of_follows hfollows,
      account_of_follows hfollows']
  · intro hnever hnever' hreceive hreceive'
    have hagrees := (follows_feeds False options h hnever).resolve_right (·.1)
    have hagrees' := (follows_feeds False options h' hnever').resolve_right (·.1)
    have hstate := hagrees.state.trans hagrees'.state.symm
    rw [accept_of_started (started_run h (prompt_new options) (.inr hreceive)),
      accept_of_started (started_run h' (prompt_new options) (.inr hreceive'))] at hstate
    have hphase := phase_eq_of_sealed_eq hstate
    exact ⟨hphase, hagrees.failure.trans hagrees'.failure.symm⟩

/-- A small request in the standard scheme. -/
def plainRequest : Bytes :=
  Utf8.encode "GET / HTTP/1.1\r\nSec-WebSocket-Key: AQ==\r\n\r\n"

/-- All that a short-lived peer sends: its request, a text, and a close frame. -/
def visit : Bytes :=
  plainRequest ++ [0x81, 0x82, 1, 2, 3, 4, 0x49, 0x6B] ++ [0x88, 0x80, 5, 6, 7, 8]

/-- The visit cut inside the request and inside the text, with the network served in between. -/
def visitInParts : List Operation :=
  [.receive (visit.take 20), .takeOutbound, .receive ((visit.drop 20).take 26), .receive [],
    .takeOutbound, .receive ((visit.drop 20).drop 26)]

theorem chunks_do_not_matter_for_visit :
    Feeds visit visitInParts ∧ Feeds visit [.receive visit] ∧
      Feeds visit [.receive visit, .takeOutbound, .finish] ∧
      ((new .standard).run visitInParts).outcome = ((new .standard).run [.receive visit]).outcome ∧
      ((new .standard).run [.receive visit, .takeOutbound, .finish]).outcome =
        ((new .standard).run [.receive visit]).outcome ∧
      ((new .standard).run [.receive visit]).outcome.1 = [.opened, .message "Hi", .closed] ∧
      ((new .standard).run [.receive visit]).outcome.2.take 32 =
        Utf8.encode "HTTP/1.1 101 Switching Protocols" ∧
      ((new .standard).run [.receive visit]).outcome.2.drop 125 =
        Handshake.headEnd ++ [0x88, 0x00] ∧
      ((new .standard).run visitInParts).connection.phase = .closing ∧
      ((new .standard).run [.receive visit]).connection.phase = .closing ∧
      ((new .standard).run visitInParts).failure =
        ((new .standard).run [.receive visit]).failure := by
  have hatonce : Feeds visit [.receive visit] := by
    simpa using feeds_map_receive [visit]
  have hparts : Feeds visit visitInParts := by
    have hcut : visit.take 20 ++
        ((visit.drop 20).take 26 ++ ([] ++ ((visit.drop 20).drop 26 ++ []))) = visit := by
      rw [List.append_nil, List.nil_append, List.take_append_drop, List.take_append_drop]
    have hfeeds := Feeds.receive (visit.take 20) <| .takeOutbound <|
      .receive ((visit.drop 20).take 26) <| .receive [] <| .takeOutbound <|
        .receive ((visit.drop 20).drop 26) .nil
    rwa [hcut] at hfeeds
  have hended : Feeds visit [.receive visit, .takeOutbound, .finish] := by
    have hfeeds := Feeds.receive visit (.takeOutbound (.finish .nil))
    rwa [List.append_nil] at hfeeds
  obtain ⟨houtcome, hstate⟩ := chunks_do_not_matter .standard hparts hatonce
  obtain ⟨hphase, hfailure⟩ := hstate (by simp [visitInParts]) (by simp)
    ⟨visit.take 20, by simp [visitInParts]⟩ ⟨visit, by simp⟩
  have hclosing : ((new .standard).run [.receive visit]).connection.phase = .closing := by
    decide +kernel
  exact ⟨hparts, hatonce, hended, houtcome, (chunks_do_not_matter .standard hended hatonce).1,
    by decide +kernel, by decide +kernel, by decide +kernel, hphase.trans hclosing, hclosing,
    hfailure⟩

end Ledger

end WebSocket

import WebSocket.Proofs.MessageDelivery

namespace WebSocket

namespace Connection

theorem silent_iff (c : Connection) : c.Silent ↔ .closing ≤ c.phase := by
  unfold Silent
  cases c.phase <;> simp only [reduceCtorEq, or_self, or_true, true_or, false_iff, true_iff] <;>
    decide

theorem sendText_of_silent {c : Connection} (h : c.Silent) (text : String) :
    c.sendText text = .error .connectionClosed := by
  rcases h with h | h <;> simp [sendText, h]

theorem sendEncoded_of_silent {c : Connection} (h : c.Silent) (bytes : Bytes) :
    c.sendEncoded bytes = .error .connectionClosed := by
  rcases h with h | h <;> simp [sendEncoded, h]

theorem phase_le_accept (c : Connection) : c.phase ≤ c.accept.phase := by
  unfold accept
  split
  · rename_i hphase
    rw [hphase]
    exact (by decide : Phase.connecting ≤ .handshaking)
  · exact le_rfl

theorem phase_le_close (c : Connection) (code : CloseCode) : c.phase ≤ (c.close code).phase := by
  cases hphase : c.phase with
  | established =>
      simp only [close, hphase]
      exact (by decide : Phase.established ≤ .closing)
  | closing | closed =>
      simp only [close, hphase]
      exact le_rfl
  | connecting | handshaking =>
      simp only [close, hphase]
      exact Phase.le_closed _

/-- Whatever is asked of a connection, it does not go back. -/
theorem phase_le_act (c : Connection) (call : Operation) : c.phase ≤ (c.act call).phase := by
  cases call with
  | accept => exact phase_le_accept c
  | receive data => exact (phase_le_accept c).trans (phase_le_intake c.accept data)
  | sendText text =>
      obtain ⟨bytes, hsend⟩ := sendText_getD c text
      simp only [act, hsend]
      exact le_rfl
  | sendEncoded bytes =>
      obtain ⟨sent, hsend⟩ := sendEncoded_getD c bytes
      simp only [act, hsend]
      exact le_rfl
  | close code => exact phase_le_close c code
  | finish =>
      rcases finish_cases c with hsame | ⟨-, hclosed⟩
      · rw [hsame]
      · rw [hclosed]
        exact Phase.le_closed _
  | onTimeout =>
      rw [act, phase_onTimeout]
      exact Phase.le_closed _
  | takeOutbound => exact le_rfl
  | onDisconnect =>
      simp only [act, phase_onDisconnect]
      exact Phase.le_closed _

theorem account_act {c : Connection} (h : c.Silent) (call : Operation) :
    (c.act call).account = c.account := by
  cases call with
  | accept => exact account_accept c
  | receive data =>
      have hsilent : c.accept.Silent := by
        rw [silent_iff] at h ⊢
        exact h.trans (phase_le_accept c)
      exact (account_intake hsilent data).2.trans (account_accept c)
  | sendText text => simp only [act, sendText_of_silent h, Except.toOption, Option.getD_none]
  | sendEncoded bytes =>
      simp only [act, sendEncoded_of_silent h, Except.toOption, Option.getD_none]
  | close code => rcases h with h | h <;> simp only [act, close, h]
  | finish => exact account_finish c
  | onTimeout =>
      rcases h with h | h <;> simp only [act, onTimeout, h] <;> rfl
  | takeOutbound => rfl
  | onDisconnect =>
      simp only [act, onDisconnect_fst]
      simp only [onDisconnect, reportClosed_snd]
      exact account_reported { c with phase := .closed }

end Connection

def Event.text? : Event → Option String
  | .message text => some text
  | _ => none

namespace Ledger

open Connection

/-- The messages that the application was told of, or that wait to be told. -/
def messages (l : Ledger) : List String :=
  (l.events ++ l.connection.pending).filterMap Event.text?

theorem messages_eq_account (l : Ledger) :
    l.messages = l.whole.account.1.filterMap Event.text? := by
  have hfarewell : l.whole.farewell.filterMap Event.text? = [] := by
    unfold farewell
    split <;> rfl
  rw [account, List.filterMap_append, hfarewell, List.append_nil]
  rfl

/-- What may happen to a connection from one time to a later one: it does not go back, and one that
has been closing since then has said no more. -/
structure Onward (l l' : Ledger) : Prop where
  phase : l.connection.phase ≤ l'.connection.phase
  written : l.connection.Silent → l'.written = l.written
  messages : l.connection.Silent → l'.messages = l.messages

variable {l l' l'' : Ledger}

theorem onward_of_account (hphase : l.whole.phase ≤ l'.whole.phase)
    (haccount : l.whole.Silent → l'.whole.account = l.whole.account) : l.Onward l' where
  phase := hphase
  written h := congrArg Prod.snd (haccount h)
  messages h := by rw [messages_eq_account, messages_eq_account, haccount h]

theorem Onward.refl (l : Ledger) : l.Onward l :=
  ⟨le_rfl, fun _ => rfl, fun _ => rfl⟩

theorem Onward.trans (h : l.Onward l') (h' : l'.Onward l'') : l.Onward l'' := by
  have hsilent : l.connection.Silent → l'.connection.Silent := by
    rw [silent_iff, silent_iff]
    exact fun hclosing => hclosing.trans h.phase
  refine ⟨h.phase.trans h'.phase, ?_, ?_⟩
  · exact fun hclosing => (h'.written (hsilent hclosing)).trans (h.written hclosing)
  · exact fun hclosing => (h'.messages (hsilent hclosing)).trans (h.messages hclosing)

theorem onward_call (hprompt : l.Prompt) (call : Operation) : l.Onward (l.call call) := by
  apply onward_of_account
  · rw [whole_call l hprompt]
    exact phase_le_act l.whole call
  · intro hsilent
    rw [whole_call l hprompt]
    exact account_act hsilent call

theorem onward_run (hprompt : l.Prompt) (calls : List Operation) : l.Onward (l.run calls) := by
  induction calls generalizing l with
  | nil => exact .refl l
  | cons call calls ih => exact (onward_call hprompt call).trans (ih (prompt_call hprompt call))

/-- The first part of a chunk already decides what the rest of it can still do. -/
theorem onward_receive (l : Ledger) (first second : Bytes) :
    (l.call (.receive first)).Onward (l.call (.receive (first ++ second))) := by
  have hrest := ended_sealed_congr (intake_append l.whole.accept first second)
  rw [ended_andThen_intake] at hrest
  apply onward_of_account <;> rw [whole_receive, whole_receive]
  · change _ ≤ (l.whole.accept.intake (first ++ second)).ended.phase
    rw [phase_eq_of_sealed_eq hrest]
    exact phase_le_intake _ second
  · intro hsilent
    change (l.whole.accept.intake (first ++ second)).ended.account = _
    rw [← account_sealed, hrest, account_sealed]
    exact (account_intake hsilent second).2

/-- **A connection only goes forward, and falls silent when it is closing.** This holds from every
time to every later one, and from the middle of a chunk to its end; and to send a text or bytes on a
silent connection fails and changes nothing. -/
theorem lifecycle_is_one_way (options : Options) (calls : List Operation) :
    let l := (new options).run calls
    (∀ more, l.Onward (l.run more)) ∧
      (∀ first second,
        (l.call (.receive first)).Onward (l.call (.receive (first ++ second)))) ∧
      (l.connection.Silent →
        (∀ text, l.connection.sendText text = .error .connectionClosed ∧
          l.call (.sendText text) = l) ∧
        ∀ bytes, l.connection.sendEncoded bytes = .error .connectionClosed ∧
          l.call (.sendEncoded bytes) = l) := by
  intro l
  refine ⟨onward_run (prompt_run (prompt_new options) calls), onward_receive l, ?_⟩
  intro hsilent
  constructor
  · intro text
    have hsend := sendText_of_silent hsilent text
    exact ⟨hsend, by simp [call, hsend, Except.toOption]⟩
  · intro bytes
    have hsend := sendEncoded_of_silent hsilent bytes
    exact ⟨hsend, by simp [call, hsend, Except.toOption]⟩

theorem closing_connection_is_silent :
    let l := (new .standard).run [.receive plainRequest, .close .normal]
    l.connection.phase = .closing ∧ l.call (.sendText "Hi") = l ∧
      (l.call (.receive [0x89, 0x80, 1, 2, 3, 4])).written = l.written := by
  intro l
  have hopened : ((new .standard).call (.receive plainRequest)).whole =
      (Connection.new .standard).accept.upgrade plainUpgrade := by
    rw [whole_receive]
    exact congrArg Processed.ended (intake_request (opening_plainRequest .standard rfl)).1
  have hphase : l.connection.phase = .closing := by
    have hwhole := whole_call ((new .standard).call (.receive plainRequest))
      (prompt_receive _ _) (.close .normal)
    rw [hopened] at hwhole
    exact congrArg Connection.phase hwhole
  obtain ⟨honward, -, hsend⟩ := lifecycle_is_one_way .standard
    [.receive plainRequest, .close .normal]
  have hsilent : l.connection.Silent := .inl hphase
  exact ⟨hphase, ((hsend hsilent).1 "Hi").2, (honward [.receive _]).written hsilent⟩

end Ledger

end WebSocket

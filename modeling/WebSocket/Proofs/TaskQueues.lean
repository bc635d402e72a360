import WebSocket.Proofs.OutboundStream
import WebSocket.Proofs.RegistryQueues
import WebSocket.Proofs.SchemeAgreement
import WebSocket.Proofs.TextRoundTrip
import WebSocket.Server.Task

namespace WebSocket

namespace Task

variable {t : Task} {text : String} {message : Outbound}

def result (t : Task) : Outbound → Except Error Connection
  | .text text => t.connection.sendText text
  | .encoded bytes => t.connection.sendEncoded bytes

theorem put_eq (t : Task) (message : Outbound) :
    t.put message = { t with connection := (t.result message).toOption.getD t.connection } := by
  cases message <;> rfl

theorem exists_write_of_result {after : Connection} (h : t.result message = .ok after) :
    ∃ bytes, after = t.connection.write bytes := by
  cases message with
  | text text =>
      simp only [result, Connection.sendText] at h
      split at h
      · exact Connection.eq_write_of_queue h
      · simp at h
  | encoded bytes =>
      simp only [result, Connection.sendEncoded] at h
      split at h
      · exact ⟨bytes, (Except.ok.inj h).symm⟩
      · simp at h

theorem steady_put (t : Task) (message : Outbound) :
    t.connection.Steady (t.put message).connection := by
  rw [put_eq]
  cases hresult : t.result message with
  | error e => exact .refl _
  | ok after =>
      obtain ⟨bytes, rfl⟩ := exists_write_of_result hresult
      exact Connection.steady_write _ bytes

/-- The bytes of a message in the form in which its connection queues them for the network; none if
it cannot be sent. -/
def queues (t : Task) (message : Outbound) : List Bytes :=
  match t.result message with
  | .ok after => [after.outbound.drop t.connection.outbound.length]
  | .error _ => []

/-- The bytes of the messages that a task queues for the network while it hands over `messages`. -/
def queuesAll (t : Task) : List Outbound → List Bytes
  | [] => []
  | message :: messages =>
    if t.backlogged then t.queuesAll messages
    else t.queues message ++ (t.put message).queuesAll messages

theorem result_of_silent (h : t.connection.Silent) (message : Outbound) :
    t.result message = .error .connectionClosed := by
  cases message with
  | text text => exact Connection.sendText_of_silent h text
  | encoded bytes => exact Connection.sendEncoded_of_silent h bytes

theorem put_of_silent (h : t.connection.Silent) (message : Outbound) : t.put message = t := by
  rw [put_eq, result_of_silent h]
  rfl

theorem queues_of_silent (h : t.connection.Silent) (message : Outbound) :
    t.queues message = [] := by
  rw [queues, result_of_silent h]

theorem result_of_carries (hphase : t.connection.phase = .established)
    (htuned : t.connection.Tuned)
    (hcarry : message.Carries t.connection.scheme text) :
    ∃ bytes, t.connection.encodedText text = some bytes ∧
      t.result message = .ok (t.connection.write bytes) := by
  cases hcarry with
  | encoded hbytes =>
      refine ⟨_, hbytes, ?_⟩
      rw [result, Connection.sendEncoded, if_pos hphase]
  | text =>
      obtain ⟨codec, hcodec, hscheme⟩ := htuned
      obtain ⟨bytes, hencode⟩ := codec.scheme.exists_encode_text text
      refine ⟨bytes, ?_, ?_⟩
      · simp [Connection.encodedText, hscheme, hencode, Except.toOption]
      · rw [result, Connection.sendText, if_pos hphase, Connection.queue_eq hcodec, hencode]
        rfl

theorem queues_of_carries (hphase : t.connection.phase = .established)
    (htuned : t.connection.Tuned)
    (hcarry : message.Carries t.connection.scheme text) :
    ∃ bytes, t.connection.encodedText text = some bytes ∧ t.queues message = [bytes] ∧
      t.put message = { t with connection := t.connection.write bytes } := by
  obtain ⟨bytes, hbytes, hresult⟩ := result_of_carries hphase htuned hcarry
  refine ⟨bytes, hbytes, ?_, ?_⟩
  · simp [queues, hresult, Connection.write]
  · simp [put_eq, hresult, Except.toOption]

theorem putAll_cons (t : Task) (message : Outbound) (messages : List Outbound) :
    t.putAll (message :: messages) =
      if t.backlogged then t.putAll messages else (t.put message).putAll messages := by
  rw [putAll, List.foldl_cons]
  split <;> rfl

theorem exists_putAll_eq (t : Task) (messages : List Outbound) :
    ∃ c, t.putAll messages = { t with connection := c } ∧ t.connection.Steady c := by
  induction messages generalizing t with
  | nil => exact ⟨t.connection, rfl, .refl _⟩
  | cons message messages ih =>
      rw [putAll_cons]
      split
      · exact ih t
      · obtain ⟨c, hput, hsteady⟩ := ih (t.put message)
        refine ⟨c, ?_, (steady_put t message).trans hsteady⟩
        rw [hput, put_eq]

theorem putAll_of_backlogged (h : t.backlogged = true) (messages : List Outbound) :
    t.putAll messages = t ∧ t.queuesAll messages = [] := by
  -- Handing over writes nothing, so a task that is backlogged stays so through the whole queue.
  induction messages with
  | nil => exact ⟨rfl, rfl⟩
  | cons message messages ih => rwa [putAll_cons, queuesAll, if_pos h, if_pos h]

theorem putAll_of_silent (h : t.connection.Silent) (messages : List Outbound) :
    t.putAll messages = t ∧ t.queuesAll messages = [] := by
  induction messages with
  | nil => exact ⟨rfl, rfl⟩
  | cons message messages ih =>
      rw [putAll_cons, queuesAll, queues_of_silent h, put_of_silent h]
      simpa using ih

/-- An open connection that is handed texts sends the first ones of them: all, if it is nowhere
backlogged in front of one of them. -/
theorem putAll_of_carries {waiting : List String} {messages : List Outbound}
    (hphase : t.connection.phase = .established) (htuned : t.connection.Tuned)
    (hcarry : List.Forall₂ (Outbound.Carries t.connection.scheme) waiting messages) :
    ∃ texts, texts <+: waiting ∧
      (t.queuesAll messages).map some = texts.map t.connection.encodedText ∧
      t.putAll messages =
        { t with connection := t.connection.write (t.queuesAll messages).flatten } ∧
      ((∀ front, front <+: messages → front ≠ messages → (t.putAll front).backlogged = false) →
        texts = waiting) := by
  generalize hsame : t.connection.scheme = scheme at hcarry
  induction hcarry generalizing t with
  | nil => exact ⟨[], List.prefix_rfl, rfl, by simp [putAll, queuesAll, Connection.write_nil], by simp⟩
  | @cons text message waiting messages hcarry hcarries ih =>
      by_cases hbacklogged : t.backlogged = true
      · obtain ⟨hput, hqueues⟩ := putAll_of_backlogged hbacklogged (message :: messages)
        refine ⟨[], List.nil_prefix, ?_, ?_, fun hfronts => ?_⟩
        · rw [hqueues]
          rfl
        · rw [hput, hqueues, List.flatten_nil, Connection.write_nil]
        · -- The empty front is one at which the task must not be backlogged.
          have hfirst := hfronts [] List.nil_prefix (by simp)
          rw [putAll, List.foldl_nil, hbacklogged] at hfirst
          exact absurd hfirst (by simp)
      · subst hsame
        obtain ⟨bytes, hbytes, hqueues, hput⟩ := queues_of_carries hphase htuned hcarry
        obtain ⟨texts, hprefix, hencoded, hall, hwhole⟩ := ih (t := t.put message)
          (by rw [hput]; exact hphase) (by rw [hput]; exact htuned) (by rw [hput]; rfl)
        have hsteady : (t.put message).connection.encodedText = t.connection.encodedText := by
          rw [hput]
          rfl
        refine ⟨text :: texts, (List.cons_prefix_cons ..).mpr ⟨rfl, hprefix⟩, ?_, ?_,
          fun hfronts => ?_⟩
        · rw [queuesAll, if_neg hbacklogged, hqueues, List.map_append, hencoded, hsteady]
          simp [hbytes]
        · rw [putAll_cons, if_neg hbacklogged, hall, queuesAll, if_neg hbacklogged, hqueues, hput]
          simp [Connection.write]
        · rw [hwhole fun front hfront hproper => ?_]
          have hlonger := hfronts (message :: front) ((List.cons_prefix_cons ..).mpr ⟨rfl, hfront⟩)
            (by simpa using hproper)
          rwa [putAll_cons, if_neg hbacklogged] at hlonger

end Task

theorem Connection.unopened_open_or_silent (c : Connection) :
    c.phase ≤ .handshaking ∨ c.phase = .established ∨ c.Silent := by
  unfold Connection.Silent
  cases c.phase <;> decide

/-- What the messages of one connection have come to: the texts that the registry accepted for it,
and the bytes of the texts that the connection queued for the network. -/
structure Log where
  accepted : List String
  queued : List Bytes

/-- What an entry of the registry has to do with the connection it is about, whose messages have come
to what is in the log. -/
structure Linked (p : Peer) (c : Connection) (log : Log) : Prop where
  unopened : c.phase ≤ .handshaking → c.scheme = none ∧ p.scheme = none ∧
    p.phase ≠ .established ∧ p.queue = [] ∧ log = ⟨[], []⟩
  agreed : c.phase = .established → c.Tuned
  scheme : ∀ scheme, p.scheme = some scheme → c.scheme = some scheme
  /-- As long as the connection can send, the queue holds what was accepted and is not sent. -/
  ordered : ∃ done waiting, log.accepted = done ++ waiting ∧
    log.queued.map some = done.map c.encodedText ∧
    (¬c.Silent → List.Forall₂ (Outbound.Carries c.scheme) waiting p.queue)

namespace Linked

open Connection

variable {p p' : Peer} {c d : Connection} {log : Log} {t : Task}

theorem new (capacity : Nat) (options : Options) :
    Linked (.new capacity) (.new options) ⟨[], []⟩ where
  unopened _ := ⟨rfl, rfl, by simp [Peer.new], rfl, rfl⟩
  agreed hphase := by simp [Connection.new] at hphase
  scheme _ hscheme := by simp [Peer.new] at hscheme
  ordered := ⟨[], [], rfl, rfl, fun _ => .nil⟩

theorem renew (h : Linked p c log) (capacity : Nat) : Linked (.new capacity) c ⟨[], []⟩ where
  unopened hunopened := ⟨(h.unopened hunopened).1, rfl, by simp [Peer.new], rfl, rfl⟩
  agreed := h.agreed
  scheme _ hscheme := by simp [Peer.new] at hscheme
  ordered := ⟨[], [], rfl, rfl, fun _ => .nil⟩

theorem steady (h : Linked p c log) (hsteady : c.Steady d) : Linked p d log := by
  have hsilent : ¬d.Silent → ¬c.Silent := by
    rw [silent_iff, silent_iff]
    exact fun hopen hclosing => hopen (hclosing.trans hsteady.phase)
  have hunopened : d.phase ≤ .handshaking → d.scheme = none ∧ p.scheme = none ∧
      p.phase ≠ .established ∧ p.queue = [] ∧ log = ⟨[], []⟩ := by
    intro hphase
    rw [hsteady.scheme (.inl hphase)]
    exact h.unopened (hsteady.phase.trans hphase)
  -- The scheme may be found while the connection opens, when nothing is queued yet; from then on it
  -- stays, and with it the form in which the queue is written.
  rcases Phase.unopened_or_opened c.phase with hphase | hphase
  · obtain ⟨-, hscheme, -, hqueue, hlog⟩ := h.unopened hphase
    refine ⟨hunopened, hsteady.opens hphase, ?_, [], [], ?_, ?_, ?_⟩
    · simp [hscheme]
    · simp [hlog]
    · simp [hlog]
    · simp [hqueue]
  · have hscheme := hsteady.scheme (.inr hphase)
    obtain ⟨done, waiting, haccepted, hqueued, hqueue⟩ := h.ordered
    have hencoded : d.encodedText = c.encodedText := by
      funext text
      rw [encodedText, encodedText, hscheme]
    refine ⟨hunopened, ?_, ?_, done, waiting, haccepted, ?_, ?_⟩
    · intro hestablished
      have hagreed := h.agreed (le_antisymm (hsteady.phase.trans hestablished.le) hphase)
      exact hagreed.of_keeps (hsteady.settled (.inr hphase))
    · rw [hscheme]
      exact h.scheme
    · rw [hencoded, hqueued]
    · intro hopen
      rw [hscheme]
      exact hqueue (hsilent hopen)

theorem entry (h : Linked p c log) (hqueue : p'.queue = p.queue)
    (hscheme : p'.scheme = p.scheme ∨ p'.scheme = c.scheme)
    (hphase : p'.phase = .established → p.phase = .established ∨ c.phase = .established) :
    Linked p' c log where
  unopened hunopened := by
    obtain ⟨hnone, hnone', hphase', hempty, hlog⟩ := h.unopened hunopened
    refine ⟨hnone, ?_, ?_, hqueue.trans hempty, hlog⟩
    · rcases hscheme with hscheme | hscheme
      · exact hscheme.trans hnone'
      · exact hscheme.trans hnone
    · intro hestablished
      rcases hphase hestablished with hsame | hsame
      · exact hphase' hsame
      · rw [hsame] at hunopened
        exact absurd hunopened (by decide)
  agreed := h.agreed
  scheme scheme hsome := by
    rcases hscheme with hscheme | hscheme
    · exact h.scheme scheme (hscheme.symm.trans hsome)
    · exact hscheme.symm.trans hsome
  ordered := by
    rw [hqueue]
    exact h.ordered

theorem silent (h : Linked p c log) (hsilent : c.Silent) (hscheme : p'.scheme = p.scheme) :
    Linked p' c log where
  unopened hunopened := by
    rw [silent_iff] at hsilent
    exact absurd (hsilent.trans hunopened) (by decide)
  agreed := h.agreed
  scheme := by
    rw [hscheme]
    exact h.scheme
  ordered := by
    obtain ⟨done, waiting, haccepted, hqueued, -⟩ := h.ordered
    exact ⟨done, waiting, haccepted, hqueued, fun hopen => absurd hsilent hopen⟩

theorem offered (h : Linked p c log) {texts : List String} (hoffered : p.Offered p' texts) :
    Linked p' c ⟨log.accepted ++ texts, log.queued⟩ := by
  obtain ⟨messages, hqueue, hcarries⟩ := hoffered.queue
  obtain ⟨done, waiting, haccepted, hqueued, hwaiting⟩ := h.ordered
  have hcarries' : List.Forall₂ (Outbound.Carries c.scheme) texts messages := by
    cases hscheme : p.scheme with
    | some scheme =>
        rw [h.scheme scheme hscheme, ← hscheme]
        exact hcarries
    | none =>
        refine hcarries.imp fun text message hcarry => ?_
        cases hcarry with
        | text => exact .text
        | encoded hbytes => simp [hscheme, textBytes] at hbytes
  constructor
  · intro hunopened
    obtain ⟨hnone, hnone', hphase, hempty, rfl⟩ := h.unopened hunopened
    obtain rfl : texts = [] := by
      by_contra htexts
      exact hphase (hoffered.established htexts)
    cases hcarries
    exact ⟨hnone, hoffered.scheme.trans hnone', hoffered.phase ▸ hphase,
      by rw [hqueue, hempty]; rfl, rfl⟩
  · exact h.agreed
  · rw [hoffered.scheme]
    exact h.scheme
  · refine ⟨done, waiting ++ texts, ?_, hqueued, fun hopen => ?_⟩
    · rw [haccepted, List.append_assoc]
    · rw [hqueue]
      exact List.rel_append (hwaiting hopen) hcarries'

theorem sent (h : Linked p c log) (hphase : c.phase = .established) :
    ∃ waiting, List.Forall₂ (Outbound.Carries c.scheme) waiting p.queue ∧
      (∃ done, log.accepted = done ++ waiting ∧ log.queued.map some = done.map c.encodedText) ∧
      ∀ (texts rest : List String) (pieces : List Bytes) (d : Connection) (p' : Peer),
        waiting = texts ++ rest → pieces.map some = texts.map c.encodedText →
        c.Keeps d → .established ≤ d.phase → p'.scheme = p.scheme →
        (¬d.Silent → List.Forall₂ (Outbound.Carries c.scheme) rest p'.queue) →
        Linked p' d ⟨log.accepted, log.queued ++ pieces⟩ := by
  obtain ⟨done, waiting, haccepted, hqueued, hwaiting⟩ := h.ordered
  have hopen : ¬c.Silent := by
    rintro (hsilent | hsilent) <;> simp [hphase] at hsilent
  refine ⟨waiting, hwaiting hopen, ⟨done, haccepted, hqueued⟩, ?_⟩
  rintro texts rest pieces d p' rfl hpieces hkeeps hopened hscheme' hrest
  have hscheme : d.scheme = c.scheme := hkeeps.scheme
  have hencoded : d.encodedText = c.encodedText := by
    funext text
    rw [encodedText, encodedText, hscheme]
  refine ⟨fun hunopened => absurd hopened (Phase.not_opened hunopened), fun _ => ?_, ?_,
    done ++ texts, rest, ?_, ?_, ?_⟩
  · exact (h.agreed hphase).of_keeps hkeeps
  · rw [hscheme, hscheme']
    exact h.scheme
  · rw [haccepted, List.append_assoc]
  · rw [List.map_append, List.map_append, hqueued, hpieces, hencoded]
  · rw [hscheme]
    exact hrest

theorem put {message : Outbound} (h : Linked p t.connection log)
    (hqueue : p.queue = message :: p'.queue) (hscheme : p'.scheme = p.scheme) :
    Linked p' (t.put message).connection ⟨log.accepted, log.queued ++ t.queues message⟩ := by
  -- Before it opens, a connection has no messages; once it is silent, it drops them.
  rcases unopened_open_or_silent t.connection with hunopened | hphase | hsilent
  · obtain ⟨-, -, -, hempty, -⟩ := h.unopened hunopened
    simp [hempty] at hqueue
  · obtain ⟨waiting, hcarries, -, hsent⟩ := h.sent hphase
    rw [hqueue, List.forall₂_cons_right_iff] at hcarries
    obtain ⟨text, rest, hcarry, hrest, rfl⟩ := hcarries
    obtain ⟨bytes, hbytes, hqueues, hput⟩ := Task.queues_of_carries hphase (h.agreed hphase) hcarry
    refine hsent [text] rest _ _ p' rfl ?_ ?_ ?_ hscheme fun _ => hrest
    · simp [hqueues, hbytes]
    · rw [hput]
      exact ⟨rfl, rfl⟩
    · rw [hput]
      exact hphase.symm.le
  · rw [Task.put_of_silent hsilent, Task.queues_of_silent hsilent, List.append_nil]
    exact h.silent hsilent hscheme

theorem putAll (h : Linked p t.connection log) (hqueue : p'.queue = [])
    (hscheme : p'.scheme = p.scheme) (hphase : p'.phase = p.phase) (code : CloseCode) :
    Linked p' ((t.putAll p.queue).connection.close code)
      ⟨log.accepted, log.queued ++ t.queuesAll p.queue⟩ := by
  rcases unopened_open_or_silent t.connection with hunopened | hestablished | hsilent
  · obtain ⟨-, -, -, hempty, -⟩ := h.unopened hunopened
    rw [hempty, Task.queuesAll, List.append_nil]
    refine (h.entry ?_ (.inl hscheme) fun hsame => .inl ?_).steady (steady_close _ code)
    · rw [hqueue, hempty]
    · rwa [← hphase]
  · obtain ⟨waiting, hcarries, -, hsent⟩ := h.sent hestablished
    obtain ⟨texts, ⟨rest, rfl⟩, hpieces, hput, -⟩ :=
      Task.putAll_of_carries hestablished (h.agreed hestablished) hcarries
    have hsteady := steady_close (t.putAll p.queue).connection code
    have hopened : Phase.established ≤ (t.putAll p.queue).connection.phase := by
      rw [hput]
      exact hestablished.symm.le
    have hclosing : ((t.putAll p.queue).connection.close code).phase = .closing := by
      rw [hput, close]
      simp [write, hestablished]
    have hkeeps : t.connection.Keeps (t.putAll p.queue).connection := by
      rw [hput]
      exact ⟨rfl, rfl⟩
    refine hsent texts rest _ _ p' rfl hpieces (hkeeps.trans (hsteady.settled (.inr hopened))) ?_
      hscheme fun hopen => ?_
    · rw [hclosing]
      decide
    · exact absurd (.inl hclosing) hopen
  · obtain ⟨hput, hqueues⟩ := Task.putAll_of_silent hsilent p.queue
    rw [hput, hqueues, List.append_nil]
    exact (h.silent hsilent hscheme).steady (steady_close _ code)

end Linked

end WebSocket

import WebSocket.Proofs.ConnectionItems

namespace WebSocket

/-- What the owner of a connection can ask of it. -/
inductive Operation where
  | accept
  | receive (data : Bytes)
  | sendText (text : String)
  | sendEncoded (bytes : Bytes)
  | close (code : CloseCode)
  | finish
  | onTimeout
  | takeOutbound
  | onDisconnect
  deriving DecidableEq

namespace Connection

def Received.handedOut : Received → List Event
  | .events handed => handed
  | .failed _ => []
  | .abandoned => []

def Received.failure? : Received → Option Received
  | .events _ => none
  | reply => some reply

end Connection

/-- A connection, and what its owner has seen of it so far. -/
structure Ledger where
  connection : Connection
  events : List Event
  sent : Bytes
  /-- The first reply of `receive` that was not a list of events. -/
  failure : Option Connection.Received

namespace Ledger

def new (options : Options) : Ledger :=
  ⟨.new options, [], [], none⟩

/-- One call, and what the owner learns from it. A call that fails leaves the connection alone,
unless it is `receive`, which closes it. -/
def call (l : Ledger) : Operation → Ledger
  | .accept => { l with connection := l.connection.accept }
  | .receive data =>
    let (reply, after) := l.connection.receive data
    { l with
      connection := after
      events := l.events ++ reply.handedOut
      failure := l.failure.or reply.failure? }
  | .sendText text =>
    { l with connection := (l.connection.sendText text).toOption.getD l.connection }
  | .sendEncoded bytes =>
    { l with connection := (l.connection.sendEncoded bytes).toOption.getD l.connection }
  | .close code => { l with connection := l.connection.close code }
  | .finish =>
    let (event, after) := l.connection.finish
    { l with connection := after, events := l.events ++ event.toList }
  | .onTimeout => { l with connection := l.connection.onTimeout.2 }
  | .takeOutbound =>
    let (bytes, after) := l.connection.takeOutbound
    { l with connection := after, sent := l.sent ++ bytes.getD [] }
  | .onDisconnect =>
    let (events, after) := l.connection.onDisconnect
    { l with connection := after, events := l.events ++ events }

/-- The requests and frames that a call makes the connection act on. -/
def met (l : Ledger) : Operation → List Item
  | .receive data => l.connection.accept.takes data
  | _ => []

def run (l : Ledger) (calls : List Operation) : Ledger :=
  calls.foldl call l

/-- Everything that was ever queued for the network. -/
def written (l : Ledger) : Bytes :=
  l.sent ++ l.connection.outbound

/-- The connection as it would be if nobody had taken anything from it. -/
def whole (l : Ledger) : Connection :=
  l.connection.around l.events l.sent []

@[simp] theorem run_nil (l : Ledger) : l.run [] = l := rfl

@[simp] theorem run_cons (l : Ledger) (call : Operation) (calls : List Operation) :
    l.run (call :: calls) = (l.call call).run calls := rfl

@[simp] theorem written_eq_whole (l : Ledger) : l.whole.outbound = l.written := rfl

/-- The ledger's invariant: only a closed connection keeps events back. -/
def Prompt (l : Ledger) : Prop :=
  l.connection.phase ≠ .closed → l.connection.pending = []

end Ledger

namespace Connection

/-- The connection that a failure or a wait leaves behind. -/
def Processed.ended : Processed → Connection
  | .waiting c => c
  | .failed e c => c.fail e
  | .abandoned c => { c with phase := .closed }

def Processed.failure? : Processed → Option Received
  | .waiting _ => none
  | .failed e _ => some (.failed e)
  | .abandoned _ => some .abandoned

theorem Processed.ended_map_around (events : List Event) (sent : Bytes) (p : Processed) :
    (p.map (around events sent [])).ended = p.ended.around events sent [] := by
  cases p with
  | waiting c => rfl
  | failed e c => exact fail_around events sent [] c e
  | abandoned c => rfl

theorem intake_around (events : List Event) (sent : Bytes) (c : Connection) (data : Bytes) :
    (c.around events sent []).intake data = (c.intake data).map (around events sent []) := by
  induction hn : data.length using Nat.strong_induction_on generalizing c data with
  | h n ih =>
      subst hn
      have hroom : (c.around events sent []).buffer.room = c.buffer.room := by
        simp [Accumulator.room, Accumulator.size]
      have hfilled : ∀ chunk, (c.around events sent []).around [] [] chunk =
          (c.around [] [] chunk).around events sent [] := by
        intro chunk
        simp [around]
      rw [intake, intake]
      simp only [hroom, around_phase, hfilled, process_around_nil]
      split
      · rfl
      rename_i hdata
      split
      · rfl
      split
      · by_cases hphase : c.phase = .handshaking <;>
          simp [hphase, Processed.map, write_around]
      cases ((c.around [] [] (data.take c.buffer.room)).process) with
      | failed e after => rfl
      | abandoned after => rfl
      | waiting after =>
          have hpos := List.length_pos_iff.mpr hdata
          exact ih _ (by rw [List.length_drop]; omega) after _ rfl

/-- What bytes that arrive, steps, errors and the break in the middle of a frame keep is kept by
everything that is taken in. -/
theorem ended_intake {P : Connection → List Item → Prop}
    (hgrow : ∀ {c : Connection} {done : List Item} (data : Bytes), P c done →
      P (c.around [] [] data) done)
    (hstep : ∀ {c after : Connection} {done : List Item} {item : Item}, P c done →
      c.round = .progress (.going after) → c.front? = some item → P after (done ++ [item]))
    (hbroken : ∀ {c after : Connection} {done : List Item} {e : Error}, P c done →
      c.Broken e after → P (after.fail e) done)
    (habandoned : ∀ {c : Connection} {done : List Item}, P c done →
      P { c with phase := .closed } done)
    {c : Connection} (h : P c []) (data : Bytes) : P (c.intake data).ended (c.takes data) := by
  have hstopped := intake_stoppedAt hgrow hstep [] h data
  rw [List.nil_append] at hstopped
  cases hintake : c.intake data with
  | waiting after =>
      rw [hintake] at hstopped
      exact hstopped
  | failed e after =>
      rw [hintake] at hstopped
      obtain ⟨before, hbefore, hbreak⟩ := hstopped
      exact hbroken hbefore hbreak
  | abandoned after =>
      rw [hintake] at hstopped
      exact habandoned hstopped

/-- The effect of a call on a connection from which nobody takes anything. -/
def act (c : Connection) : Operation → Connection
  | .accept => c.accept
  | .receive data => (c.accept.intake data).ended
  | .sendText text => (c.sendText text).toOption.getD c
  | .sendEncoded bytes => (c.sendEncoded bytes).toOption.getD c
  | .close code => c.close code
  | .finish => { c.finish.2 with pending := c.pending ++ c.finish.1.toList }
  | .onTimeout => c.onTimeout.2
  | .takeOutbound => c
  | .onDisconnect => { c.onDisconnect.2 with pending := c.onDisconnect.1 }

theorem pending_finish (c : Connection) : c.finish.2.pending = c.pending := by
  unfold finish reportClosed
  split
  · split <;> rfl
  · rfl

theorem pending_onDisconnect (c : Connection) : c.onDisconnect.2.pending = [] := rfl

theorem phase_onDisconnect (c : Connection) : c.onDisconnect.2.phase = .closed := by
  simp only [onDisconnect, reportClosed]
  split <;> rfl

theorem phase_onTimeout (c : Connection) : c.onTimeout.2.phase = .closed := by
  unfold onTimeout fail
  split <;> rfl

theorem finish_of_closed {c : Connection} (h : c.phase = .closed) : c.finish = (none, c) := by
  simp [finish, h]

theorem write_nil (c : Connection) : c.write [] = c := by
  simp [write]

theorem queue_getD (c : Connection) (frame : Frame) :
    ∃ bytes, (c.queue frame).toOption.getD c = c.write bytes := by
  cases hqueue : c.queue frame with
  | error e => exact ⟨[], (write_nil c).symm⟩
  | ok after => exact eq_write_of_queue hqueue

theorem sendText_getD (c : Connection) (text : String) :
    ∃ bytes, (c.sendText text).toOption.getD c = c.write bytes := by
  unfold sendText
  split
  · exact queue_getD c _
  · exact ⟨[], (write_nil c).symm⟩

theorem sendEncoded_getD (c : Connection) (bytes : Bytes) :
    ∃ sent, (c.sendEncoded bytes).toOption.getD c = c.write sent := by
  unfold sendEncoded
  split
  · exact ⟨bytes, rfl⟩
  · exact ⟨[], (write_nil c).symm⟩

theorem fail_eq_write (c : Connection) (e : Error) :
    ∃ bytes, c.fail e = { c.write bytes with phase := .closed } := by
  simp only [fail]
  split
  · cases e.closeCode? with
    | none => exact ⟨[], by rw [write_nil]⟩
    | some code =>
        obtain ⟨bytes, hqueue⟩ := queue_getD c (.close code (Utf8.encode e.message))
        exact ⟨bytes, by simp only [hqueue]⟩
  · exact ⟨[], by rw [write_nil]⟩

end Connection

namespace Ledger

open Connection

theorem whole_receive (l : Ledger) (data : Bytes) :
    (l.call (.receive data)).whole = l.whole.act (.receive data) := by
  simp only [whole, act, call, receive, accept_around, intake_around, Processed.ended_map_around,
    absorb_eq_conclude]
  cases l.connection.accept.intake data with
  | waiting after =>
      simp [Processed.conclude, takePending, Processed.ended, Received.handedOut, around]
  | failed e after => simp [Processed.conclude, Processed.ended, Received.handedOut, around]
  | abandoned after => simp [Processed.conclude, Processed.ended, Received.handedOut, around]

theorem met_receive (l : Ledger) (data : Bytes) :
    l.met (.receive data) = l.whole.accept.takes data := by
  rw [whole, accept_around, takes_around, met]

theorem failure_receive (l : Ledger) (data : Bytes) :
    (l.call (.receive data)).failure =
      l.failure.or (l.whole.accept.intake data).failure? := by
  simp only [whole, call, receive, accept_around, intake_around, absorb_eq_conclude]
  cases l.connection.accept.intake data <;> rfl

theorem whole_finish (l : Ledger) (h : l.Prompt) :
    (l.call .finish).whole = l.whole.act .finish := by
  simp only [call, act, whole, finish_around]
  by_cases hclosed : l.connection.phase = .closed
  · simp [finish_of_closed hclosed, around]
  · have hpending := h hclosed
    simp [around, pending_finish, hpending]

/-- Taking events and bytes from a connection does not change what comes of it. -/
theorem whole_call (l : Ledger) (h : l.Prompt) (call : Operation) :
    (l.call call).whole = l.whole.act call := by
  cases call with
  | accept => exact (accept_around l.events l.sent [] l.connection).symm
  | receive data => exact whole_receive l data
  | sendText text =>
      simp only [Ledger.call, act, whole, sendText_around]
      cases l.connection.sendText text <;> rfl
  | sendEncoded bytes =>
      simp only [Ledger.call, act, whole, sendEncoded_around]
      cases l.connection.sendEncoded bytes <;> rfl
  | close code => exact (close_around l.events l.sent [] l.connection code).symm
  | finish => exact whole_finish l h
  | onTimeout =>
      simp only [Ledger.call, act, whole, onTimeout_around]
  | takeOutbound =>
      simp only [Ledger.call, act, whole, takeOutbound]
      split <;> simp [around]
  | onDisconnect =>
      simp only [Ledger.call, act, whole, onDisconnect_around]
      simp [around, pending_onDisconnect]

theorem prompt_new (options : Options) : (new options).Prompt := fun _ => rfl

theorem prompt_receive (l : Ledger) (data : Bytes) : (l.call (.receive data)).Prompt := by
  intro hopen
  simp only [call, receive, absorb_eq_conclude] at hopen ⊢
  cases hintake : l.connection.accept.intake data with
  | waiting after => rfl
  | failed e after => simp [hintake, Processed.conclude, fail] at hopen
  | abandoned after => simp [hintake, Processed.conclude] at hopen

theorem prompt_call {l : Ledger} (h : l.Prompt) (call : Operation) : (l.call call).Prompt := by
  cases call with
  | receive data => exact prompt_receive l data
  | accept =>
      intro hopen
      unfold Prompt at h
      cases hphase : l.connection.phase <;> simp_all [Ledger.call, Connection.accept]
  | sendText text =>
      obtain ⟨bytes, hsend⟩ := sendText_getD l.connection text
      intro hopen
      simp only [Ledger.call, hsend] at hopen ⊢
      exact h hopen
  | sendEncoded bytes =>
      obtain ⟨sent, hsend⟩ := sendEncoded_getD l.connection bytes
      intro hopen
      simp only [Ledger.call, hsend] at hopen ⊢
      exact h hopen
  | close code =>
      intro hopen
      cases hphase : l.connection.phase with
      | established =>
          obtain ⟨bytes, hqueue⟩ := queue_getD l.connection (.close code [])
          simp only [Ledger.call, close, hphase, hqueue]
          exact h (by simp [hphase])
      | closing =>
          simp only [Ledger.call, close, hphase]
          exact h (by simp [hphase])
      | connecting | handshaking | closed => simp [Ledger.call, close, hphase] at hopen
  | finish =>
      intro hopen
      simp only [Ledger.call] at hopen ⊢
      rw [pending_finish]
      refine h fun hclosed => ?_
      rw [finish_of_closed hclosed] at hopen
      exact hopen hclosed
  | onTimeout => exact fun hopen => absurd (phase_onTimeout l.connection) hopen
  | takeOutbound =>
      simp only [Prompt, Ledger.call, takeOutbound]
      split <;> exact h
  | onDisconnect => exact fun _ => rfl

/-- What each call keeps is kept by a run. -/
theorem run_keeps {P : Ledger → Prop}
    (hcall : ∀ {l : Ledger}, P l → ∀ call : Operation, P (l.call call)) {l : Ledger} (h : P l)
    (calls : List Operation) : P (l.run calls) := by
  induction calls generalizing l with
  | nil => exact h
  | cons call calls ih => exact ih (hcall h call)

theorem prompt_run {l : Ledger} (h : l.Prompt) (calls : List Operation) : (l.run calls).Prompt :=
  run_keeps prompt_call h calls

/-- A run comes to the same as if nobody had taken anything on the way. -/
theorem whole_run {l : Ledger} (h : l.Prompt) (calls : List Operation) :
    (l.run calls).whole = calls.foldl act l.whole := by
  induction calls generalizing l with
  | nil => rfl
  | cons call calls ih =>
      rw [run_cons, ih (prompt_call h call), whole_call l h, List.foldl_cons]

theorem whole_run_keeps {P : Connection → Prop}
    (hact : ∀ {c : Connection}, P c → ∀ call : Operation, P (c.act call)) {l : Ledger}
    (hprompt : l.Prompt) (h : P l.whole) (calls : List Operation) : P (l.run calls).whole := by
  rw [whole_run hprompt]
  exact List.foldlRecOn calls act h fun _ hc call _ => hact hc call

end Ledger

end WebSocket

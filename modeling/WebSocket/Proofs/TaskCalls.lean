import WebSocket.Proofs.ConnectionBounds
import WebSocket.Proofs.Departure

namespace WebSocket

namespace Connection

/-- From one time to a later one: the owner of the connection has made some calls. -/
def Reaches (c d : Connection) : Prop :=
  ∃ calls, ((⟨c, [], [], none⟩ : Ledger).run calls).connection = d

theorem connection_run {l l' : Ledger} (h : l.connection = l'.connection) (calls : List Operation) :
    (l.run calls).connection = (l'.run calls).connection := by
  induction calls generalizing l l' with
  | nil => exact h
  | cons call calls ih =>
      refine ih ?_
      cases call <;> simp only [Ledger.call, h]

variable {c d e : Connection}

theorem Reaches.refl (c : Connection) : c.Reaches c :=
  ⟨[], rfl⟩

theorem Reaches.trans (h : c.Reaches d) (h' : d.Reaches e) : c.Reaches e := by
  obtain ⟨calls, rfl⟩ := h
  obtain ⟨more, rfl⟩ := h'
  have hall : ∀ l : Ledger, (l.run calls).run more = l.run (calls ++ more) :=
    fun l => (List.foldl_append ..).symm
  refine ⟨calls ++ more, ?_⟩
  rw [← hall]
  exact connection_run (by rfl) more

theorem reaches_call (c : Connection) (call : Operation) :
    c.Reaches ((⟨c, [], [], none⟩ : Ledger).call call).connection :=
  ⟨[call], rfl⟩

theorem reaches_receive {data : Bytes} {reply : Received} (h : c.receive data = (reply, d)) :
    c.Reaches d := by
  have hcall := reaches_call c (.receive data)
  simpa only [Ledger.call, h] using hcall

theorem reaches_onTimeout {outcome : Except Error Unit} (h : c.onTimeout = (outcome, d)) :
    c.Reaches d := by
  have hcall := reaches_call c .onTimeout
  simpa only [Ledger.call, h] using hcall

theorem steady_call (l : Ledger) (call : Operation) :
    l.connection.Steady (l.call call).connection := by
  cases call with
  | accept => exact steady_accept _
  | receive data => exact steady_receive _ data
  | sendText text =>
      obtain ⟨bytes, hsend⟩ := sendText_getD l.connection text
      simp only [Ledger.call, hsend]
      exact steady_write _ bytes
  | sendEncoded bytes =>
      obtain ⟨sent, hsend⟩ := sendEncoded_getD l.connection bytes
      simp only [Ledger.call, hsend]
      exact steady_write _ sent
  | close code => exact steady_close _ code
  | finish => exact steady_finish _
  | onTimeout => exact steady_onTimeout _
  | takeOutbound => exact steady_takeOutbound _
  | onDisconnect => exact steady_onDisconnect _

theorem steady_run (l : Ledger) (calls : List Operation) :
    l.connection.Steady (l.run calls).connection := by
  induction calls generalizing l with
  | nil => exact .refl _
  | cons call calls ih => exact (steady_call l call).trans (ih _)

theorem Reaches.steady (h : c.Reaches d) : c.Steady d := by
  obtain ⟨calls, rfl⟩ := h
  exact steady_run ⟨c, [], [], none⟩ calls

theorem Coherent.scheme_of_unopened {options : Options} (hc : c.Coherent options)
    (hphase : c.phase ≤ .handshaking) : c.scheme = none := by
  refine hc.unframed ?_
  revert hphase
  cases c.phase <;> decide

theorem Reaches.coherent {options : Options} (h : c.Reaches d) (hc : c.Coherent options) :
    d.Coherent options := by
  obtain ⟨calls, rfl⟩ := h
  exact Ledger.coherent_run (l := ⟨c, [], [], none⟩) hc calls

end Connection

namespace Task

open Connection

variable {c : Connection} {t t' : Task} {p p' : Peer} {now : Time} {action : Action}

theorem reaches_put (t : Task) (message : Outbound) :
    t.connection.Reaches (t.put message).connection := by
  cases message with
  | text text => exact reaches_call _ (.sendText text)
  | encoded bytes => exact reaches_call _ (.sendEncoded bytes)

theorem reaches_putAll (t : Task) (messages : List Outbound) :
    t.connection.Reaches (t.putAll messages).connection := by
  induction messages generalizing t with
  | nil => exact .refl _
  | cons message messages ih =>
      rw [putAll_cons]
      split
      · exact ih t
      · exact (reaches_put t message).trans (ih _)

theorem reaches_load (h : c.Reaches t.connection) : c.Reaches t.load.connection := by
  refine h.trans ?_
  unfold load
  split
  · exact reaches_call _ .takeOutbound
  · exact .refl _

theorem reaches_departed (h : c.Reaches t.connection) (now : Time) :
    c.Reaches (t.departed now).connection :=
  reaches_load h

theorem connection_settled (t : Task) (now : Time) :
    (t.settled now).connection = t.connection.finish.2 := by
  unfold settled
  dsimp only
  split <;> rfl

theorem reaches_completed (h : c.Reaches t.connection) (now : Time) :
    c.Reaches (t.completed now).connection := by
  have hsettled : c.Reaches (t.settled now).connection := by
    rw [connection_settled]
    exact h.trans (reaches_call _ .finish)
  unfold completed
  split
  · exact reaches_departed hsettled now
  · exact reaches_load hsettled

theorem reaches_refreshed (h : c.Reaches t.connection) (now : Time) :
    c.Reaches (t.refreshed now).connection := by
  rwa [connection_refreshed]

theorem reaches_dismissed (t : Task) (p : Peer) :
    t.connection.Reaches (t.dismissed p).connection :=
  (reaches_putAll t p.queue).trans (reaches_call _ (.close _))

/-- In every step a task asks some things of its connection, and does nothing else to it. -/
theorem reaches_turn (hturn : Turn now t p action t' p') :
    t.connection.Reaches t'.connection := by
  cases hturn with
  | start => exact reaches_call _ .accept
  | heard _ _ _ hreceive | abandoned _ _ _ hreceive => exact reaches_receive hreceive
  | unheard _ _ _ hreceive =>
      exact reaches_completed (reaches_refreshed (reaches_receive hreceive) now) now
  | failed _ _ _ hreceive => exact reaches_departed (reaches_receive hreceive) now
  | hangUp | breakOff => exact reaches_departed (.refl _) now
  | @write count =>
      exact reaches_completed (t := { t with writing := t.writing.drop count }) (.refl _) now
  | wake => exact reaches_completed (.refl _) now
  | @flush count => exact reaches_load (t := { t with writing := t.writing.drop count }) (.refl _)
  | cutOff | giveUp | drained => exact reaches_call _ .onDisconnect
  | take => exact reaches_completed (reaches_put t _) now
  | dismiss => exact reaches_completed (reaches_dismissed t p) now
  | fail _ _ htimeout => exact reaches_departed (reaches_onTimeout htimeout) now
  | timeOut _ _ htimeout => exact reaches_completed (reaches_onTimeout htimeout) now
  | pass | finish => exact .refl _
  | @passLast event =>
      exact reaches_completed (reaches_refreshed (t := t.passing event []) (.refl _) now) now

theorem exists_load_eq (t : Task) : ∃ writing outbound, t.load =
    { t with writing := writing, connection := { t.connection with outbound := outbound } } := by
  by_cases hwriting : t.writing = []
  · by_cases houtbound : t.connection.outbound = []
    · have hsame : { t.connection with outbound := [] } = t.connection := by rw [← houtbound]
      refine ⟨[], [], ?_⟩
      simp [load, Connection.takeOutbound, hwriting, houtbound, hsame]
    · refine ⟨t.connection.outbound, [], ?_⟩
      simp [load, Connection.takeOutbound, hwriting, houtbound]
  · refine ⟨t.writing, t.connection.outbound, ?_⟩
    simp [load, hwriting]

theorem finish_eq_self {c : Connection} (h : c.finish.2.phase ≠ .closed) : c.finish.2 = c := by
  unfold Connection.finish at h ⊢
  split
  · rename_i hover
    rw [if_pos hover] at h
    simp [Connection.reportClosed_snd] at h
  · rfl

theorem stage_refreshed (t : Task) (now : Time) : (t.refreshed now).stage = t.stage := by
  unfold refreshed
  split <;> rfl

theorem finish_eq_of_open {c : Connection} (h : c.finish.2.phase ≠ .closed) :
    c.finish = (none, c) := by
  refine Prod.ext ?_ (finish_eq_self h)
  unfold Connection.finish at h ⊢
  split
  · rename_i hover
    rw [if_pos hover] at h
    simp [reportClosed_snd] at h
  · rfl

theorem exists_completed_eq (h : t.connection.finish.2.phase ≠ .closed) (now : Time) :
    ∃ writing outbound, t.completed now = { t with
      writing := writing
      connection := { t.connection with outbound := outbound }
      timed := t.connection.phase
      deadline := if t.connection.phase = t.timed then t.deadline else t.freshDeadline now } := by
  obtain ⟨writing, outbound, hload⟩ := exists_load_eq (t.settled now)
  refine ⟨writing, outbound, ?_⟩
  rw [completed, if_neg h, hload, settled, finish_eq_of_open h]
  by_cases hphase : t.connection.phase = t.timed
  · simp [hphase]
  · simp [hphase, freshDeadline]

end Task

namespace Server

open Connection

variable {options : Options} {application : Application} {s s' : Server} {id : ConnectionId}
  {action : Action} {t : Task} {steps : List (Application × Action)}

/-- What every step takes from the steps that are still to come to those behind it holds in the
end. -/
theorem invariant_run {P : List (Application × Action) → Server → Prop}
    (hstep : ∀ {s s' : Server} {application : Application} {action : Action}
      {steps : List (Application × Action)}, P ((application, action) :: steps) s →
      (s.serving application).act action = some s' → P steps s')
    (h : P steps s) (hrun : s.runWith steps = some s') : P [] s' := by
  induction steps generalizing s with
  | nil =>
      cases hrun
      exact h
  | cons step steps ih =>
      obtain ⟨application, action⟩ := step
      rw [runWith_cons, Option.bind_eq_some_iff] at hrun
      obtain ⟨next, hact, hrun⟩ := hrun
      exact ih (hstep h hact) hrun

theorem runWith_append (s : Server) (first second : List (Application × Action)) :
    s.runWith (first ++ second) = (s.runWith first).bind (·.runWith second) :=
  List.foldlM_append ..

theorem known_run (hknown : s.Known id) (hrun : s.runWith steps = some s') : s'.Known id :=
  invariant_run (P := fun _ s => s.Known id)
    (fun {s _ application _ _} hknown hact => known_act (s := s.serving application) hknown hact)
    hknown hrun

theorem exists_turn (hknown : s.Known id) (hact : s.act action = some s')
    (hown : action.task? = some id) :
    ∃ t t' p p', s.task? id = some t ∧ t.id = id ∧ s'.task? id = some t' ∧
      Turn s.now t p action t' p' := by
  cases glance_of_act hact hknown with
  | accepted haction =>
      rw [haction] at hown
      simp [Action.task?] at hown
  | turned hbefore _ hturn hafter =>
      exact ⟨_, _, _, _, hbefore, id_of_task? hbefore, hafter, hturn⟩
  | aside hother => exact absurd hown hother

theorem task_run {P : Task → Prop} {K : Action → Prop}
    (hturn : ∀ {now : Time} {t t' : Task} {p p' : Peer} {action : Action}, P t → t.id = id →
      Turn now t p action t' p' → K action → P t')
    (hknown : s.Known id) (htask : s.task? id = some t) (h : P t)
    (hkind : ∀ step ∈ steps, K step.2) (hrun : s.runWith steps = some s') :
    ∃ t', s'.task? id = some t' ∧ P t' := by
  have hlast := invariant_run (P := fun steps s => (∀ step ∈ steps, K step.2) ∧ s.Known id ∧
    ∃ t, s.task? id = some t ∧ P t) ?_ ⟨hkind, hknown, t, htask, h⟩ hrun
  · exact hlast.2.2
  rintro s s' application action steps ⟨hkind, hknown, t, htask, h⟩ hact
  obtain ⟨hfirst, hrest⟩ := List.forall_mem_cons.mp hkind
  have hknown : (s.serving application).Known id := hknown
  refine ⟨hrest, known_act hknown hact, ?_⟩
  cases glance_of_act hact hknown with
  | accepted _ _ htask' =>
      have hfound : (s.serving application).task? id = some t := htask
      rw [hfound, Option.some_or] at htask'
      exact ⟨t, htask', h⟩
  | turned hbefore _ hturned hafter =>
      obtain rfl := Option.some.inj (hbefore.symm.trans htask)
      exact ⟨_, hafter, hturn h (id_of_task? htask) hturned hfirst⟩
  | aside _ htask' => exact ⟨t, htask'.trans htask, h⟩

/-- A connection keeps its task, and the task only makes calls of the connection. -/
theorem reaches_run (hknown : s.Known id) (htask : s.task? id = some t)
    (hrun : s.runWith steps = some s') :
    ∃ t', s'.task? id = some t' ∧ t.connection.Reaches t'.connection :=
  task_run (P := fun t' => t.connection.Reaches t'.connection) (K := fun _ => True)
    (fun hreaches _ hturn _ => hreaches.trans (Task.reaches_turn hturn)) hknown htask (.refl _)
    (fun _ _ => trivial) hrun

end Server

end WebSocket

import WebSocket.Proofs.Backpressure

namespace WebSocket

namespace Connection

variable {c d : Connection} {data : Bytes}

/-- Bytes make a connection closing only by a close frame among them. -/
theorem bidden_of_receive (hphase : c.phase ≠ .closing) (data : Bytes) :
    (c.receive data).2.Bidden := by
  have haccept : c.accept.Bidden := by
    intro hclosing
    unfold accept at hclosing
    split at hclosing
    · simp at hclosing
    · exact absurd hclosing hphase
  have hended : (c.accept.intake data).ended.Bidden := bidden_intake haccept data
  rw [receive_eq_conclude]
  cases hintake : c.accept.intake data with
  | waiting after =>
      rw [hintake] at hended
      exact hended
  | failed e after | abandoned after => rwa [hintake] at hended

theorem phase_of_failed {e : Error} (h : c.receive data = (.failed e, d)) : d.phase = .closed := by
  rw [receive_eq_conclude] at h
  cases hintake : c.accept.intake data with
  | waiting after => simp [hintake, Processed.conclude, takePending] at h
  | abandoned after => simp [hintake, Processed.conclude] at h
  | failed e' after =>
      simp only [hintake, Processed.conclude, Prod.mk.injEq] at h
      rw [← h.2]
      rfl

end Connection

namespace Task

variable {t t' : Task} {p p' : Peer} {now : Time} {action : Action}

theorem stage_departed (t : Task) (now : Time) :
    (t.departed now).stage = .draining (now + t.connection.options.closeTimeout.nanoseconds) := by
  rw [departed, Server.stage_load]

theorem stage_completed (h : t.stage = .driving) (now : Time) :
    (t.completed now).stage ≠ .spawned := by
  by_cases hclosed : t.connection.finish.2.phase = .closed
  · rw [completed, if_pos hclosed, stage_departed]
    simp
  · obtain ⟨writing, outbound, hsame⟩ := exists_completed_eq hclosed now
    simp [hsame, h]

theorem begun_of_turn (hturn : Turn now t p action t' p') : t'.stage ≠ .spawned := by
  have hdriving : ∀ {u : Task}, u.isWaiting = true → u.stage = .driving :=
    fun hwaiting => (undelivered_of_isWaiting hwaiting).1
  cases hturn with
  | start => simp [started]
  | heard hcan => simp [hdriving (isWaiting_of_canRead hcan)]
  | unheard hcan =>
      have hstage := hdriving (isWaiting_of_canRead hcan)
      refine stage_completed ((stage_refreshed ..).trans ?_) now
      exact hstage
  | failed | hangUp | breakOff | fail => simp [stage_departed]
  | write _ _ _ hstage | timeOut _ hstage =>
      refine stage_completed ?_ now
      exact hstage
  | flush hcan _ _ hstage =>
      obtain ⟨limit, hdrains⟩ := draining_of_canWrite hcan hstage
      simp [Server.stage_load, hdrains]
  | take hcan =>
      refine stage_completed ?_ now
      exact hdriving (isWaiting_put (isWaiting_of_canTake hcan) _)
  | wake hcan => exact stage_completed (hdriving hcan) now
  | dismiss hcan => exact stage_completed (hdriving (isWaiting_dismissed hcan p)) now
  | abandoned | cutOff | giveUp | drained | finish => simp [stopped]
  | pass hcan =>
      intro hspawned
      change t.stage = .spawned at hspawned
      simp [canDeliver, hspawned] at hcan
  | passLast _ _ hstage =>
      refine stage_completed ((stage_refreshed ..).trans ?_) now
      exact hstage

theorem refreshed_of_ne (h : t.connection.phase ≠ .established) (now : Time) :
    t.refreshed now = t := by
  rw [refreshed, if_neg h]

theorem phase_completed (hstage : (t.completed now).stage = .driving) :
    (t.completed now).connection.phase = t.connection.phase := by
  by_cases hclosed : t.connection.finish.2.phase = .closed
  · rw [completed, if_pos hclosed, stage_departed] at hstage
    simp at hstage
  · obtain ⟨writing, outbound, hsame⟩ := exists_completed_eq hclosed now
    rw [hsame]

theorem deadline_completed (hstage : (t.completed now).stage = .driving)
    (hphase : (t.completed now).connection.phase = t.timed) :
    (t.completed now).deadline = t.deadline ∧ (t.completed now).timed = t.timed ∧
      (t.completed now).undelivered = t.undelivered := by
  by_cases hclosed : t.connection.finish.2.phase = .closed
  · rw [completed, if_pos hclosed, stage_departed] at hstage
    simp at hstage
  · obtain ⟨writing, outbound, hsame⟩ := exists_completed_eq hclosed now
    rw [hsame] at hphase ⊢
    exact ⟨if_pos hphase, hphase, rfl⟩

/-- A deadline that was set for a phase, for as long as the connection is in this phase. -/
structure Holds (t : Task) (phase : Phase) (deadline : Option Time) : Prop where
  begun : t.stage ≠ .spawned
  onward : phase ≤ t.connection.phase
  held : t.stage = .driving → t.connection.phase = phase →
    t.deadline = deadline ∧ t.timed = phase ∧ (phase = .established → t.undelivered = [])

theorem holds_turn {phase : Phase} {deadline : Option Time} (h : t.Holds phase deadline)
    (hturn : Turn now t p action t' p')
    (hquiet : phase = .established → ∀ data, action ≠ .read t.id data) :
    t'.Holds phase deadline := by
  have hsteady := (reaches_turn hturn).steady
  refine ⟨begun_of_turn hturn, h.onward.trans hsteady.phase, fun hstage' hphase' => ?_⟩
  have hphase : t.connection.phase = phase :=
    le_antisymm (hsteady.phase.trans hphase'.le) h.onward
  have hheld : t.isWaiting = true →
      t.deadline = deadline ∧ t.timed = phase ∧ t.undelivered = [] := by
    intro hwaiting
    obtain ⟨hstage, hnone⟩ := undelivered_of_isWaiting hwaiting
    obtain ⟨hdeadline, htimed, -⟩ := h.held hstage hphase
    exact ⟨hdeadline, htimed, hnone⟩
  -- The end of a step in which deadline and phase of the deadline were not touched before.
  have hcompleted : ∀ u : Task, t' = u.completed now →
      u.deadline = deadline ∧ u.timed = phase ∧ u.undelivered = [] →
      t'.deadline = deadline ∧ t'.timed = phase ∧ (phase = .established → t'.undelivered = []) := by
    rintro u rfl ⟨hdeadline, htimed, hnone⟩
    obtain ⟨hdeadline', htimed', hnone'⟩ :=
      deadline_completed hstage' (hphase'.trans htimed.symm)
    exact ⟨hdeadline'.trans hdeadline, htimed'.trans htimed, fun _ => hnone'.trans hnone⟩
  cases hturn with
  | start hstage => exact absurd hstage h.begun
  | heard hcan =>
      obtain ⟨hdeadline, htimed, -⟩ := hheld (isWaiting_of_canRead hcan)
      exact ⟨hdeadline, htimed, fun hopen => absurd rfl (hquiet hopen _)⟩
  | @unheard data c hcan =>
      obtain ⟨hdeadline, htimed, -⟩ := hheld (isWaiting_of_canRead hcan)
      have hlast := phase_completed hstage'
      rw [connection_refreshed] at hlast
      have hopen : c.phase ≠ .established := by
        intro hopen
        exact hquiet (hphase'.symm.trans (hlast.trans hopen)) _ rfl
      refine hcompleted _ rfl ?_
      rw [refreshed_of_ne hopen]
      exact ⟨hdeadline, htimed, rfl⟩
  | failed | hangUp | breakOff | fail => simp [stage_departed] at hstage'
  | @write count hcan _ _ hstage =>
      exact hcompleted { t with writing := t.writing.drop count } rfl
        (hheld (isWaiting_of_canWrite hcan hstage))
  | flush hcan _ _ hstage => exact absurd (by rwa [Server.stage_load] at hstage') hstage
  | @take message _ hcan =>
      refine hcompleted (t.put message) rfl ?_
      rw [put_eq]
      exact hheld (isWaiting_of_canTake hcan)
  | wake hcan => exact hcompleted t rfl (hheld hcan)
  | dismiss hcan =>
      refine hcompleted (t.dismissed p) rfl ?_
      obtain ⟨c, hput, -⟩ := t.exists_putAll_eq p.queue
      rw [dismissed, hput]
      exact hheld hcan
  | @timeOut c hdue hstage =>
      exact hcompleted { t with connection := c } rfl (hheld (isWaiting_of_isDue hdue hstage))
  | abandoned | cutOff | giveUp | drained | finish => simp [stopped] at hstage'
  | pass hcan hevents hmore =>
      obtain ⟨hdeadline, htimed, hnone⟩ := h.held hstage' hphase
      refine ⟨hdeadline, htimed, fun hopen => ?_⟩
      simp [hevents] at hnone
      exact absurd hopen hnone
  | @passLast event _ hevents hstage =>
      obtain ⟨hdeadline, htimed, hnone⟩ := h.held hstage hphase
      have hopen : t.connection.phase ≠ .established := by
        intro hopen
        simp [hnone (hphase.symm.trans hopen)] at hevents
      refine hcompleted _ rfl ?_
      rw [refreshed_of_ne (t := t.passing event []) hopen]
      exact ⟨hdeadline, htimed, rfl⟩

/-- A task that waits has the deadline of the phase in which its connection is. -/
def Punctual (t : Task) : Prop :=
  t.isWaiting = true → t.timed = t.connection.phase

theorem punctual_of_stage (hstage : t.stage ≠ .driving) : t.Punctual := by
  intro hwaiting
  exact absurd (undelivered_of_isWaiting hwaiting).1 hstage

theorem punctual_departed (t : Task) (now : Time) : (t.departed now).Punctual :=
  punctual_of_stage (by simp [stage_departed])

theorem punctual_completed (t : Task) (now : Time) : (t.completed now).Punctual := by
  by_cases hclosed : t.connection.finish.2.phase = .closed
  · rw [completed, if_pos hclosed]
    exact punctual_departed _ now
  · obtain ⟨writing, outbound, hsame⟩ := exists_completed_eq hclosed now
    rw [hsame]
    exact fun _ => rfl

theorem punctual_turn (hturn : Turn now t p action t' p') : t'.Punctual := by
  cases hturn with
  | start => exact fun _ => rfl
  | heard _ _ _ _ hevents =>
      intro hwaiting
      exact absurd (undelivered_of_isWaiting hwaiting).2 hevents
  | unheard | write | take | wake | dismiss | timeOut | passLast => exact punctual_completed _ now
  | failed | hangUp | breakOff | fail => exact punctual_departed _ now
  | flush hcan _ _ hstage => exact punctual_of_stage (by rwa [Server.stage_load])
  | abandoned | cutOff | giveUp | drained | finish => exact punctual_of_stage (by simp [stopped])
  | pass _ _ hmore =>
      intro hwaiting
      obtain ⟨hstage, hnone⟩ := undelivered_of_isWaiting hwaiting
      exact absurd ⟨hnone, hstage⟩ (not_and_or.mpr hmore)

/-- A task whose connection will be closed when the application has been told what waits, or is
closed. It does not wait again. -/
def Doomed (t : Task) : Prop :=
  t.connection.phase = .closed ∨
    t.stage = .driving ∧ t.undelivered ≠ [] ∧ t.connection.finish.2.phase = .closed

theorem phase_departed (t : Task) (now : Time) :
    (t.departed now).connection.phase = t.connection.phase := by
  obtain ⟨writing, outbound, hload⟩ := exists_load_eq { t with
    stage := .draining (now + t.connection.options.closeTimeout.nanoseconds), undelivered := [] }
  rw [departed, hload]

theorem phase_completed_of_closed (h : t.connection.finish.2.phase = .closed) (now : Time) :
    (t.completed now).connection.phase = .closed := by
  rw [completed, if_pos h, phase_departed, connection_settled, h]

theorem doomed_turn (h : t.Doomed) (hturn : Turn now t p action t' p') : t'.Doomed := by
  rcases h with hclosed | ⟨hstage, hevents, hfinish⟩
  · left
    have hphase := (reaches_turn hturn).steady.phase
    rw [hclosed] at hphase
    exact le_antisymm (Phase.le_closed _) hphase
  · have hbusy : t.isWaiting ≠ true := fun hwaiting =>
      hevents (undelivered_of_isWaiting hwaiting).2
    cases hturn with
    | start hspawned => simp [hspawned] at hstage
    | heard hcan | unheard hcan | failed hcan | abandoned hcan | hangUp hcan =>
        exact absurd (isWaiting_of_canRead hcan) hbusy
    | write hcan | breakOff hcan => exact absurd (isWaiting_of_canWrite hcan hstage) hbusy
    | take hcan => exact absurd (isWaiting_of_canTake hcan) hbusy
    | wake hcan | dismiss hcan => exact absurd hcan hbusy
    | fail hdue | timeOut hdue => exact absurd (isWaiting_of_isDue hdue hstage) hbusy
    | flush _ _ _ hdriving | cutOff _ hdriving | giveUp _ hdriving => exact absurd hstage hdriving
    | drained hcan =>
        obtain ⟨limit, hdraining⟩ := draining_of_isDrained hcan
        simp [hdraining] at hstage
    | pass _ _ hmore => exact .inr ⟨hstage, hmore.resolve_right (not_not.mpr hstage), hfinish⟩
    | @passLast event =>
        refine .inl (phase_completed_of_closed ?_ now)
        rw [connection_refreshed]
        exact hfinish
    | finish _ hnone => exact absurd hnone hevents

theorem open_of_completed (h : (t.completed now).connection.phase ≠ .closed) :
    t.connection.finish.2.phase ≠ .closed :=
  fun hclosed => h (phase_completed_of_closed hclosed now)

theorem closing_of_completed (h : (t.completed now).connection.phase = .closing) :
    t.connection.phase = .closing := by
  have hopen := open_of_completed (h.trans_ne (by decide))
  obtain ⟨writing, outbound, hsame⟩ := exists_completed_eq hopen now
  rw [hsame] at h
  exact h

/-- A connection that is left closing at the end of a step has not been closed by its peer, and has
a new deadline, if the old one was set for another phase. -/
theorem holds_completed {options : Options} (hc : t.connection.Coherent options)
    (hstage : t.stage = .driving) (htimed : t.timed ≠ .closing)
    (hclosing : (t.completed now).connection.phase = .closing) :
    (t.completed now).Holds .closing (some (now + options.closeTimeout.nanoseconds)) ∧
      t.connection.peerClosed = false := by
  have hphase := closing_of_completed hclosing
  have hopen := open_of_completed (hclosing.trans_ne (by decide))
  obtain ⟨writing, outbound, hsame⟩ := exists_completed_eq hopen now
  rw [hsame]
  refine ⟨⟨by simp [hstage], hphase.symm.le, fun _ _ => ⟨?_, hphase, by simp⟩⟩, ?_⟩
  · rw [if_neg (hphase ▸ htimed.symm), freshDeadline, Connection.timeout, hphase, hc.settings]
    rfl
  · rw [Bool.eq_false_iff]
    intro hpeer
    simp [Connection.finish, hphase, hpeer, Connection.reportClosed_snd] at hopen

theorem phase_put (t : Task) (message : Outbound) :
    (t.put message).connection.phase = t.connection.phase := by
  rw [put_eq]
  cases hresult : t.result message with
  | error e => rfl
  | ok after =>
      obtain ⟨bytes, rfl⟩ := exists_write_of_result hresult
      rfl

theorem holds_of_closing (hpunctual : t.Punctual) {options : Options}
    (hc : t.connection.Coherent options) (hturn : Turn now t p action t' p')
    (hbefore : t.connection.phase ≠ .closing) (hafter : t'.connection.phase = .closing) :
    t'.Holds .closing (some (now + options.closeTimeout.nanoseconds)) ∨ t'.Doomed := by
  have htimed : t.isWaiting = true → t.timed ≠ .closing := fun hwaiting =>
    hpunctual hwaiting ▸ hbefore
  have hsame : t'.connection.phase ≠ t.connection.phase := hafter ▸ hbefore.symm
  have hopen : t'.connection.phase ≠ .closed := by simp [hafter]
  cases hturn with
  | start =>
      have haccept : t.connection.accept.phase = .closing := hafter
      unfold Connection.accept at haccept
      split at haccept
      · simp at haccept
      · exact absurd haccept hbefore
  | @heard data events c hcan _ _ hreceive hevents =>
      have hpeer : c.peerClosed = true := by
        have hbidden := Connection.bidden_of_receive hbefore data
        rw [hreceive] at hbidden
        exact hbidden hafter
      have hphase : c.phase = .closing := hafter
      refine .inr (.inr ⟨(undelivered_of_isWaiting (isWaiting_of_canRead hcan)).1, hevents, ?_⟩)
      simp [Connection.finish, hphase, hpeer, Connection.reportClosed_snd]
  | @unheard data c hcan _ _ hreceive =>
      have hwaiting := isWaiting_of_canRead hcan
      have hphase : c.phase = .closing := by
        have hclosing := closing_of_completed hafter
        rwa [connection_refreshed] at hclosing
      have hpeer : c.peerClosed = true := by
        have hbidden := Connection.bidden_of_receive hbefore data
        rw [hreceive] at hbidden
        exact hbidden hphase
      have hquiet : c.phase ≠ .established := by simp [hphase]
      rw [refreshed_of_ne hquiet] at hafter
      obtain ⟨-, hunbidden⟩ := holds_completed (t := { t with connection := c, undelivered := [] })
        ((Connection.reaches_receive hreceive).coherent hc) (undelivered_of_isWaiting hwaiting).1
        (htimed hwaiting) hafter
      exact absurd (hunbidden.symm.trans hpeer) (by simp)
  | failed _ _ _ hreceive =>
      rw [phase_departed] at hopen
      exact absurd (Connection.phase_of_failed hreceive) hopen
  | abandoned _ _ _ hreceive => exact absurd (Server.phase_of_abandoned hreceive) hopen
  | hangUp | breakOff => exact absurd (phase_departed t now) hsame
  | write => exact absurd (closing_of_completed hafter) hbefore
  | wake => exact absurd (closing_of_completed hafter) hbefore
  | @flush count =>
      obtain ⟨writing, outbound, hload⟩ := exists_load_eq { t with writing := t.writing.drop count }
      exact absurd (by rw [hload]) hsame
  | cutOff | giveUp | drained => exact absurd (Connection.phase_onDisconnect t.connection) hopen
  | take => exact absurd ((phase_put t _).symm.trans (closing_of_completed hafter)) hbefore
  | dismiss hcan =>
      have hstage := (undelivered_of_isWaiting (isWaiting_dismissed hcan p)).1
      refine .inl (holds_completed ((reaches_dismissed t p).coherent hc) hstage ?_ hafter).1
      obtain ⟨c, hput, -⟩ := t.exists_putAll_eq p.queue
      rw [dismissed, hput]
      exact htimed hcan
  | fail _ _ htimeout =>
      have hclosed := Connection.phase_onTimeout t.connection
      rw [htimeout] at hclosed
      rw [phase_departed] at hopen
      exact absurd hclosed hopen
  | @timeOut c _ _ htimeout =>
      have hclosed := Connection.phase_onTimeout t.connection
      have hclosing : c.phase = .closing := closing_of_completed hafter
      rw [htimeout] at hclosed
      exact absurd (hclosing.symm.trans hclosed) (by simp)
  | pass | finish => exact absurd rfl hsame
  | @passLast event =>
      have hphase := closing_of_completed hafter
      rw [connection_refreshed] at hphase
      exact absurd hphase hbefore

theorem holds_of_waiting (hpunctual : t.Punctual) (hwaiting : t.isWaiting = true) :
    t.Holds t.connection.phase t.deadline := by
  obtain ⟨hstage, hnone⟩ := undelivered_of_isWaiting hwaiting
  exact ⟨by simp [hstage], le_rfl, fun _ _ => ⟨rfl, hpunctual hwaiting, fun _ => hnone⟩⟩

theorem holds_started {options : Options} (hc : t.connection.Coherent options) (now : Time) :
    (t.started now).Holds .handshaking
      (options.handshakeTimeout.map fun d => now + d.nanoseconds) := by
  have honward : Phase.handshaking ≤ t.connection.accept.phase := by
    unfold Connection.accept
    split
    · exact le_rfl
    · rename_i hphase
      cases hnext : t.connection.phase
      · exact absurd hnext hphase
      all_goals decide
  refine ⟨by simp [started], honward, fun _ (hphase : t.connection.accept.phase = .handshaking) =>
    ⟨?_, hphase, by simp⟩⟩
  have hsettings := (Connection.coherent_accept hc).settings
  rw [started, freshDeadline, Connection.timeout, hphase, hsettings]

theorem phase_of_expired (hturn : Turn now t p (.expire t.id) t' p') :
    t'.connection.phase = .closed := by
  have hclosed := Connection.phase_onTimeout t.connection
  cases hturn with
  | fail _ _ htimeout =>
      rw [htimeout] at hclosed
      rw [phase_departed]
      exact hclosed
  | timeOut _ _ htimeout =>
      rw [htimeout] at hclosed
      refine phase_completed_of_closed ?_ now
      rw [Connection.finish_of_closed hclosed]
      exact hclosed
  | giveUp => exact Connection.phase_onDisconnect t.connection

end Task

namespace Server

variable {options : Options} {application : Application} {s s' : Server} {id : ConnectionId}
  {action : Action} {t t' : Task} {steps later : List (Application × Action)}

/-- What is known of the deadlines of a connection in every state of a server. -/
structure Timely (s : Server) (options : Options) (id : ConnectionId) : Prop where
  attends : s.Attends options id
  punctual : ∀ t, s.task? id = some t → t.Punctual

theorem timely_act (h : s.Timely options id) (hact : (s.serving application).act action = some s') :
    s'.Timely options id := by
  have hattends : (s.serving application).Attends options id :=
    ⟨h.attends.settings, h.attends.known, h.attends.attentive⟩
  refine ⟨attends_act hattends hact, fun t' htask' => ?_⟩
  cases glance_of_act hact hattends.known with
  | accepted _ _ htask =>
      rw [htask'] at htask
      cases hbefore : (s.serving application).task? id with
      | none =>
          rw [hbefore, Option.none_or, Option.some.injEq] at htask
          rw [htask]
          exact Task.punctual_of_stage (by simp [Task.new])
      | some t =>
          rw [hbefore, Option.some_or, Option.some.injEq] at htask
          rw [htask]
          exact h.punctual t hbefore
  | turned _ _ hturn hafter =>
      obtain rfl := Option.some.inj (hafter.symm.trans htask')
      exact Task.punctual_turn hturn
  | aside _ htask => exact h.punctual t' (htask.symm.trans htask')

theorem timely_run (hrun : (new options application).runWith steps = some s) (id : ConnectionId) :
    s.Timely options id := by
  have hnew : (new options application).Timely options id :=
    ⟨attends_new options application id, fun t htask => by simp [new, task?] at htask⟩
  exact invariant_run (P := fun _ s => s.Timely options id) timely_act hnew hrun

theorem held_run {phase : Phase} {deadline : Option Time} (hknown : s.Known id)
    (htask : s.task? id = some t) (h : t.Holds phase deadline)
    (hquiet : phase = .established → ∀ step ∈ later, ∀ data, step.2 ≠ .read id data)
    (hrun : s.runWith later = some s') (htask' : s'.task? id = some t') :
    t'.Holds phase deadline := by
  obtain ⟨found, hfound, hheld⟩ := task_run (P := fun t => t.Holds phase deadline)
    (K := fun action => phase = .established → ∀ data, action ≠ .read id data)
    (fun h hid hturn hkind => Task.holds_turn h hturn (hid ▸ hkind)) hknown htask h
    (fun step hstep hopen => hquiet hopen step hstep) hrun
  obtain rfl := Option.some.inj (hfound.symm.trans htask')
  exact hheld

theorem doomed_run (hknown : s.Known id) (htask : s.task? id = some t) (h : t.Doomed)
    (hrun : s.runWith later = some s') (htask' : s'.task? id = some t') : t'.Doomed := by
  obtain ⟨found, hfound, hdoomed⟩ := task_run (P := Task.Doomed) (K := fun _ => True)
    (fun h _ hturn _ => Task.doomed_turn h hturn) hknown htask h (fun _ _ => trivial) hrun
  obtain rfl := Option.some.inj (hfound.symm.trans htask')
  exact hdoomed

/-- **A deadline cannot be put off.** Whatever the clients send, however slowly they read, and
whatever is asked of the server, a task that waits keeps its deadline for as long as its connection
is in the same phase; in an open connection, for as long as it reads nothing. So while a connection
waits for a request, its deadline is as long after the task began as the settings say, and while it
waits for the answer to its close, as long after the close as the settings say. When the deadline is
over, and not before, the task may give up, and then the connection is closed. A task looks at its
deadline only while it waits; while it tells the application what its client has sent, the deadline
does not matter. -/
theorem deadlines_are_kept (hrun : (new options application).runWith steps = some s)
    (id : ConnectionId) :
    (∀ t, s.task? id = some t → t.isWaiting = true →
      ∀ (later : List (Application × Action)) (s' : Server) (t' : Task),
        s.runWith later = some s' → s'.task? id = some t' → t'.stage = .driving →
        t'.connection.phase = t.connection.phase →
        (t.connection.phase = .established →
          ∀ step ∈ later, ∀ data, step.2 ≠ .read id data) →
        t'.deadline = t.deadline) ∧
    (∀ (answers : Application) (next : Server) (later : List (Application × Action)) (s' : Server)
      (t' : Task), (s.serving answers).act (.start id) = some next →
        next.runWith later = some s' → s'.task? id = some t' → t'.stage = .driving →
        t'.connection.phase = .handshaking →
        t'.deadline = options.handshakeTimeout.map fun d => s.now + d.nanoseconds) ∧
    (∀ (answers : Application) (action : Action) (t t₁ : Task) (next : Server)
      (later : List (Application × Action)) (s' : Server) (t' : Task),
        s.task? id = some t → t.connection.phase ≠ .closing →
        (s.serving answers).act action = some next → next.task? id = some t₁ →
        t₁.connection.phase = .closing →
        next.runWith later = some s' → s'.task? id = some t' → t'.isWaiting = true →
        t'.connection.phase = .closing →
        t'.deadline = some (s.now + options.closeTimeout.nanoseconds)) ∧
    (∀ t, s.task? id = some t → t.isWaiting = true →
      (s.act (.expire id)).isSome = t.deadline.any (· ≤ s.now)) ∧
    ∀ (answers : Application) (next : Server), (s.serving answers).act (.expire id) = some next →
      ∃ t', next.task? id = some t' ∧ t'.connection.phase = .closed := by
  have htimely := timely_run hrun id
  have hknown := htimely.attends.known
  refine ⟨?_, ?_, ?_, ?_, ?_⟩
  · intro t htask hwaiting later s' t' hlater htask' hstage hphase hquiet
    have hholds := Task.holds_of_waiting (htimely.punctual t htask) hwaiting
    exact ((held_run hknown htask hholds hquiet hlater htask').held hstage hphase).1
  · intro answers next later s' t' hact hlater htask' hstage hphase
    have hserving : (s.serving answers).Known id := hknown
    obtain ⟨t, t₁, p, p₁, htask, rfl, htask₁, hturn⟩ := exists_turn hserving hact rfl
    have hholds : t₁.Holds .handshaking
        (options.handshakeTimeout.map fun d => s.now + d.nanoseconds) := by
      cases hturn with
      | start =>
          obtain ⟨q, hq⟩ := hknown t htask
          exact Task.holds_started (htimely.attends.attentive t q htask hq).connection s.now
    have hafter := known_act hserving hact
    exact ((held_run hafter htask₁ hholds (by simp) hlater htask').held hstage hphase).1
  · intro answers action t t₁ next later s' t' htask hbefore hact htask₁ hclosing hlater htask'
      hwaiting hphase
    have hserving : (s.serving answers).Known id := hknown
    have hafter := known_act hserving hact
    have hbegins : t₁.Holds .closing (some (s.now + options.closeTimeout.nanoseconds)) ∨
        t₁.Doomed := by
      cases glance_of_act hact hserving with
      | accepted _ _ hsame =>
          have hfound : (s.serving answers).task? id = some t := htask
          rw [hfound, Option.some_or, htask₁, Option.some.injEq] at hsame
          exact absurd (hsame ▸ hclosing) hbefore
      | turned hsame hentry hturn hafter =>
          obtain rfl := Option.some.inj (hsame.symm.trans htask)
          obtain rfl := Option.some.inj (hafter.symm.trans htask₁)
          obtain ⟨q, hq⟩ := hknown _ htask
          exact Task.holds_of_closing (htimely.punctual _ htask)
            (htimely.attends.attentive _ q htask hq).connection hturn hbefore hclosing
      | aside _ hsame =>
          have hfound := hsame.symm.trans htask₁
          obtain rfl := Option.some.inj (hfound.symm.trans htask)
          exact absurd hclosing hbefore
    obtain ⟨hstage, hnone⟩ := Task.undelivered_of_isWaiting hwaiting
    rcases hbegins with hholds | hdoomed
    · exact ((held_run hafter htask₁ hholds (by simp) hlater htask').held hstage hphase).1
    · rcases doomed_run hafter htask₁ hdoomed hlater htask' with hclosed | ⟨-, hevents, -⟩
      · exact absurd (hphase.symm.trans hclosed) (by simp)
      · exact absurd hnone hevents
  · intro t htask hwaiting
    obtain ⟨hstage, hnone⟩ := Task.undelivered_of_isWaiting hwaiting
    have hdue : t.isDue s.now = t.deadline.any (· ≤ s.now) := by
      simp [Task.isDue, Task.limit?, hstage, hnone]
    rw [← hdue]
    cases hover : t.isDue s.now <;> simp [act, onTask, htask, hover]
  · intro answers next hact
    have hserving : (s.serving answers).Known id := hknown
    obtain ⟨t, t', p, p', -, rfl, htask', hturn⟩ := exists_turn hserving hact rfl
    exact ⟨t', htask', Task.phase_of_expired hturn⟩

/-- A client that connects, and waits two seconds before the server gets to it. -/
def slowClient : List (Application × Action) :=
  [.accept, .wait (.ofSeconds 2)].map fun action => (.silent, action)

/-- The client sends its request byte by byte. -/
def slowRequest : List (Application × Action) :=
  [.read ⟨1⟩ [0x47], .wait (.ofSeconds 4), .read ⟨1⟩ [0x45], .wait (.ofSeconds 4),
    .read ⟨1⟩ [0x54], .wait (.ofSeconds 2)].map fun action => (.silent, action)

theorem slow_client_is_timed_out :
    ∃ s next s' t', (new .standard .silent).runWith slowClient = some s ∧
      (s.serving .silent).act (.start ⟨1⟩) = some next ∧ next.runWith slowRequest = some s' ∧
      s'.task? ⟨1⟩ = some t' ∧ s'.now = 12000000000 ∧ t'.deadline = some 12000000000 ∧
      ∃ s'' t'', s'.act (.expire ⟨1⟩) = some s'' ∧ s''.task? ⟨1⟩ = some t'' ∧
        t''.connection.phase = .closed := by
  have hrun : ((new .standard .silent).runWith slowClient).any (fun s =>
      ((s.serving .silent).act (.start ⟨1⟩)).any fun next =>
        (next.runWith slowRequest).any fun s' => (s'.task? ⟨1⟩).any fun t' =>
          s.now = 2000000000 ∧ s'.now = 12000000000 ∧ t'.isWaiting = true ∧
            t'.connection.phase = .handshaking) = true := by
    decide +kernel
  obtain ⟨s, hsteps, hnexts⟩ := (Option.any_eq_true ..).mp hrun
  obtain ⟨next, hact, hlaters⟩ := (Option.any_eq_true ..).mp hnexts
  obtain ⟨s', hlater, htasks⟩ := (Option.any_eq_true ..).mp hlaters
  obtain ⟨t', htask', hfacts⟩ := (Option.any_eq_true ..).mp htasks
  obtain ⟨hstart, hend, hwaiting, hphase⟩ := of_decide_eq_true hfacts
  obtain ⟨-, hbegins, -, -, -⟩ := deadlines_are_kept hsteps ⟨1⟩
  have hdeadline : t'.deadline = some 12000000000 := by
    rw [hbegins .silent next slowRequest s' t' hact hlater htask'
      (Task.undelivered_of_isWaiting hwaiting).1 hphase, hstart]
    rfl
  have hwhole : (new .standard .silent).runWith
      (slowClient ++ (.silent, .start ⟨1⟩) :: slowRequest) = some s' := by
    rw [runWith_append, hsteps, Option.bind_some, runWith_cons, hact, Option.bind_some, hlater]
  obtain ⟨-, -, -, hdue, hexpires⟩ := deadlines_are_kept hwhole ⟨1⟩
  have hover : (s'.act (.expire ⟨1⟩)).isSome = true := by
    rw [hdue t' htask' hwaiting, hdeadline, hend]
    rfl
  obtain ⟨s'', hexpire⟩ := Option.isSome_iff_exists.mp hover
  obtain ⟨t'', htask'', hclosed⟩ := hexpires s'.application s'' hexpire
  exact ⟨s, next, s', t', hsteps, hact, hlater, htask', hend, hdeadline, s'', t'', hexpire, htask'',
    hclosed⟩

end Server

end WebSocket

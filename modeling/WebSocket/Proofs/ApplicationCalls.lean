import WebSocket.Proofs.Departure
import WebSocket.Proofs.EventDiscipline

namespace WebSocket

/-- The call of the application for an event, at the time at which the event is handed on. -/
def Event.notice? : Event → Option Notice
  | .opened => some .opened
  | .message text => some (.message text)
  | .closed => none

namespace Assembly

/-- What the application is to be told while the connection is there. -/
def notices (a : Assembly) : List Notice :=
  (if a.opened then [.opened] else []) ++ a.messages.map .message

theorem filterMap_messages (messages : List String) :
    (messages.map Event.message).filterMap Event.notice? = messages.map .message := by
  rw [List.filterMap_map, ← List.filterMap_eq_map]
  rfl

theorem filterMap_events (a : Assembly) : a.events.filterMap Event.notice? = a.notices := by
  rw [events, notices, List.filterMap_append, filterMap_messages]
  cases a.opened <;> rfl

end Assembly

namespace Connection

theorem fst_finish (c : Connection) : c.finish.1 = none ∨ c.finish.1 = some .closed := by
  unfold finish reportClosed
  split
  · split
    · exact .inr rfl
    · exact .inl rfl
  · exact .inl rfl

end Connection

/-- A task that has handed on the events in `handed` and told the application what is in `told`, and
whose connection has acted on requests and frames that amount to `a`. -/
structure Task.Reports (t : Task) (a : Assembly) (handed : List Event) (told : List Notice)
    (l : Ledger) : Prop where
  connection : l.connection = t.connection
  prompt : l.Prompt
  whole : l.whole.Told a
  events : l.events = handed ++ t.undelivered
  reporting : t.reporting = true ↔ .closed ∈ handed
  unfinished : t.stage ≠ .finished → told = handed.filterMap Event.notice?
  /-- The end is told when nothing else is left. -/
  finished : t.stage = .finished →
    told = handed.filterMap Event.notice? ++ if .closed ∈ handed then [.closed] else []
  quiet : t.stage ≠ .driving → t.stage ≠ .ending → t.undelivered = []
  ended : t.stage = .ending ∨ t.stage = .finished →
    l.events = a.events ++ if a.opened then [.closed] else []

/-- What the application was told by a task, and what it will be told, is what the requests and
frames amount to on which the connection has acted. -/
def Task.Informs (t : Task) (a : Assembly) (told : List Notice) : Prop :=
  ∃ handed l, t.Reports a handed told l

namespace Task

variable {t t' : Task} {a : Assembly} {told : List Notice} {now : Time}

theorem informs_new (id : ConnectionId) (options : Options) :
    (new id options).Informs .empty [] := by
  refine ⟨[], .new options, rfl, Ledger.prompt_new options, Connection.told_new options, rfl, ?_,
    fun _ => rfl, ?_, fun _ _ => rfl, ?_⟩
  all_goals simp [new]

theorem informs_of_driving (handed : List Event) (l : Ledger) (hstage : t.stage = .driving)
    (hconnection : l.connection = t.connection) (hprompt : l.Prompt) (hwhole : l.whole.Told a)
    (hevents : l.events = handed ++ t.undelivered)
    (hreporting : t.reporting = true ↔ .closed ∈ handed)
    (htold : told = handed.filterMap Event.notice?) : t.Informs a told := by
  refine ⟨handed, l, hconnection, hprompt, hwhole, hevents, hreporting, fun _ => htold, ?_, ?_, ?_⟩
  · simp [hstage]
  · exact fun hdriving => absurd hstage hdriving
  · simp [hstage]

theorem Informs.congr (h : t.Informs a told) (hconnection : t'.connection = t.connection)
    (hundelivered : t'.undelivered = t.undelivered) (hreporting : t'.reporting = t.reporting)
    (hstage : t'.stage = t.stage) : t'.Informs a told := by
  obtain ⟨handed, l, h⟩ := h
  refine ⟨handed, l, h.connection.trans hconnection.symm, h.prompt, h.whole, ?_, ?_, ?_, ?_, ?_, ?_⟩
  · rw [hundelivered]
    exact h.events
  · rw [hreporting]
    exact h.reporting
  · rw [hstage]
    exact h.unfinished
  · rw [hstage]
    exact h.finished
  · rw [hstage, hundelivered]
    exact h.quiet
  · rw [hstage]
    exact h.ended

theorem Informs.call (h : t.Informs a told) (call : Operation)
    (hcall : ∀ l : Ledger, l.connection = t.connection →
      (l.call call).connection = t'.connection ∧ (l.call call).events = l.events ∧ l.met call = [])
    (hundelivered : t'.undelivered = t.undelivered) (hreporting : t'.reporting = t.reporting)
    (hstage : t'.stage = t.stage) : t'.Informs a told := by
  obtain ⟨handed, l, h⟩ := h
  obtain ⟨hconnection, hevents, hmet⟩ := hcall l h.connection
  have htold := Ledger.told_call h.prompt h.whole call
  rw [hmet] at htold
  have hcalled : ({ t with connection := t'.connection } : Task).Informs a told := by
    refine ⟨handed, l.call call, hconnection, Ledger.prompt_call h.prompt call, htold, ?_,
      h.reporting, h.unfinished, h.finished, h.quiet, ?_⟩
    · exact hevents.trans h.events
    · rw [hevents]
      exact h.ended
  exact hcalled.congr rfl hundelivered hreporting hstage

theorem Informs.accept (h : t.Informs a told) :
    ({ t with connection := t.connection.accept } : Task).Informs a told :=
  h.call .accept (fun l hl => ⟨by rw [← hl]; rfl, rfl, rfl⟩) rfl rfl rfl

theorem Informs.onTimeout (h : t.Informs a told) :
    ({ t with connection := t.connection.onTimeout.2 } : Task).Informs a told :=
  h.call .onTimeout (fun l hl => ⟨by rw [← hl]; rfl, rfl, rfl⟩) rfl rfl rfl

theorem Informs.close (h : t.Informs a told) (code : CloseCode) :
    ({ t with connection := t.connection.close code } : Task).Informs a told :=
  h.call (.close code) (fun l hl => ⟨by rw [← hl]; rfl, rfl, rfl⟩) rfl rfl rfl

theorem Informs.put (h : t.Informs a told) (message : Outbound) :
    (t.put message).Informs a told := by
  cases message with
  | text text =>
      refine h.call (.sendText text) (fun l hl => ⟨?_, rfl, rfl⟩) rfl rfl rfl
      rw [Ledger.call, hl]
      rfl
  | encoded bytes =>
      refine h.call (.sendEncoded bytes) (fun l hl => ⟨?_, rfl, rfl⟩) rfl rfl rfl
      rw [Ledger.call, hl]
      rfl

theorem Informs.putAll (h : t.Informs a told) (messages : List Outbound) :
    (t.putAll messages).Informs a told := by
  induction messages generalizing t with
  | nil => exact h
  | cons message messages ih =>
      rw [putAll_cons]
      split
      · exact ih h
      · exact ih (h.put message)

theorem Informs.load (h : t.Informs a told) : t.load.Informs a told := by
  unfold Task.load
  split
  · exact h.call .takeOutbound (fun l hl => ⟨by rw [← hl]; rfl, rfl, rfl⟩) rfl rfl rfl
  · exact h

theorem Informs.enter (h : t.Informs a told) (stage : Stage)
    (hfrom : t.stage ≠ .finished) (hto : stage ≠ .ending ∧ stage ≠ .finished)
    (hnone : stage = .driving ∨ t.undelivered = []) :
    ({ t with stage := stage } : Task).Informs a told := by
  obtain ⟨handed, l, h⟩ := h
  refine ⟨handed, l, h.connection, h.prompt, h.whole, h.events, h.reporting,
    fun _ => h.unfinished hfrom, fun hfinished => absurd hfinished hto.2, ?_, ?_⟩
  · intro hdriving _
    exact hnone.resolve_left hdriving
  · rintro (hending | hfinished)
    · exact absurd hending hto.1
    · exact absurd hfinished hto.2

theorem Informs.departed (h : t.Informs a told) (hwaiting : t.isWaiting = true) :
    (t.departed now).Informs a told := by
  obtain ⟨hstage, hnone⟩ := undelivered_of_isWaiting hwaiting
  unfold Task.departed
  refine Informs.load ?_
  have hdraining := h.enter (.draining (now + t.connection.options.closeTimeout.nanoseconds))
    (by simp [hstage]) (by simp) (.inr hnone)
  rw [← hnone]
  exact hdraining

theorem Informs.finish (h : t.Informs a told) (hwaiting : t.isWaiting = true) :
    ({ t with
      connection := t.connection.finish.2
      reporting := t.reporting || t.connection.finish.1.isSome } : Task).Informs a told := by
  obtain ⟨hstage, hnone⟩ := undelivered_of_isWaiting hwaiting
  obtain ⟨handed, l, h⟩ := h
  have hwhole := Ledger.told_call h.prompt h.whole .finish
  have hevents : (l.call .finish).events = handed ++ t.connection.finish.1.toList := by
    have hbefore := h.events
    rw [hnone, List.append_nil] at hbefore
    rw [← h.connection, ← hbefore]
    rfl
  refine informs_of_driving (handed ++ t.connection.finish.1.toList) (l.call .finish) hstage ?_
    (Ledger.prompt_call h.prompt .finish) hwhole (hevents.trans ?_) ?_ ?_
  · rw [← h.connection]
    rfl
  · rw [hnone, List.append_nil]
  · rw [Bool.or_eq_true, h.reporting, List.mem_append]
    rcases t.connection.fst_finish with hnothing | hclosed
    · simp [hnothing]
    · simp [hclosed]
  · rw [List.filterMap_append, ← h.unfinished (by simp [hstage])]
    rcases t.connection.fst_finish with hnothing | hclosed
    · simp [hnothing]
    · simp [hclosed, Event.notice?]

theorem Informs.settled (h : t.Informs a told) (hwaiting : t.isWaiting = true) (now : Time) :
    (t.settled now).Informs a told := by
  have hfinished := h.finish hwaiting
  unfold Task.settled
  dsimp only
  split
  · exact hfinished
  · exact hfinished.congr rfl rfl rfl rfl

theorem Informs.completed (h : t.Informs a told) (hwaiting : t.isWaiting = true) :
    (t.completed now).Informs a told := by
  have hsettled := h.settled hwaiting now
  unfold Task.completed
  split
  · exact hsettled.departed (isWaiting_settled hwaiting now)
  · exact hsettled.load

theorem Informs.refreshed (h : t.Informs a told) : (t.refreshed now).Informs a told := by
  unfold Task.refreshed
  split
  · exact h.congr rfl rfl rfl rfl
  · exact h

theorem Informs.receive (h : t.Informs a told) (hwaiting : t.isWaiting = true) {data : Bytes}
    {reply : Connection.Received} {c : Connection}
    (hreceive : t.connection.receive data = (reply, c)) :
    ({ t with connection := c, undelivered := reply.handedOut } : Task).Informs
      ((t.connection.accept.takes data).foldl .read a) told := by
  obtain ⟨hstage, hnone⟩ := undelivered_of_isWaiting hwaiting
  obtain ⟨handed, l, h⟩ := h
  have hwhole := Ledger.told_call h.prompt h.whole (.receive data)
  have hconnection := h.connection
  refine informs_of_driving handed (l.call (.receive data)) hstage ?_
    (Ledger.prompt_call h.prompt _) ?_ ?_ h.reporting (h.unfinished (by simp [hstage]))
  · simp only [Ledger.call, hconnection, hreceive]
  · rw [← hconnection]
    exact hwhole
  · have hevents := h.events
    rw [hnone, List.append_nil] at hevents
    simp only [Ledger.call, hconnection, hreceive, hevents]

theorem Informs.stopped (h : t.Informs a told) (hdraining : ∃ limit, t.stage = .draining limit) :
    t.stopped.Informs a told := by
  obtain ⟨limit, hstage⟩ := hdraining
  obtain ⟨handed, l, h⟩ := h
  have hnone : t.undelivered = [] := h.quiet (by simp [hstage]) (by simp [hstage])
  have hconnection := h.connection
  refine ⟨handed, l.call .onDisconnect, ?_, Ledger.prompt_call h.prompt _,
    Ledger.told_call h.prompt h.whole .onDisconnect, ?_, h.reporting, ?_, ?_, ?_, ?_⟩
  · rw [Task.stopped, ← hconnection]
    rfl
  · have hevents := h.events
    rw [hnone, List.append_nil] at hevents
    rw [Task.stopped, ← hconnection, ← hevents]
    rfl
  · exact fun _ => h.unfinished (by simp [hstage])
  · simp [Task.stopped]
  · exact fun _ hending => absurd rfl hending
  · exact fun _ => Ledger.events_onDisconnect h.whole

theorem Informs.passing (h : t.Informs a told) (hcan : t.canDeliver = true) {event : Event}
    {rest : List Event} (hevents : t.undelivered = event :: rest) (id : ConnectionId) :
    (t.passing event rest).Informs a (told ++ t.tells (.deliver id)) := by
  have hstage : t.stage = .driving ∨ t.stage = .ending := by
    cases hstage : t.stage <;> simp [canDeliver, hstage] at hcan ⊢
  have hunfinished : t.stage ≠ .finished := by
    rcases hstage with hstage | hstage <;> simp [hstage]
  obtain ⟨handed, l, h⟩ := h
  refine ⟨handed ++ [event], l, h.connection, h.prompt, h.whole, ?_, ?_, ?_,
    fun hfinished => absurd hfinished hunfinished, ?_, h.ended⟩
  · rw [h.events, hevents, List.append_assoc]
    rfl
  · simp only [Task.passing, Bool.or_eq_true, h.reporting, decide_eq_true_eq, List.mem_append,
      List.mem_singleton]
    exact or_congr_right eq_comm
  · intro _
    rw [h.unfinished hunfinished, List.filterMap_append]
    cases event <;> simp [Task.tells, hevents, Event.notice?]
  · intro hdriving hending
    rcases hstage with hstage | hstage
    · exact absurd hstage hdriving
    · exact absurd hstage hending

theorem Informs.finished (h : t.Informs a told) (hcan : t.canDeliver = true)
    (hevents : t.undelivered = []) (id : ConnectionId) :
    ({ t with stage := .finished } : Task).Informs a (told ++ t.tells (.deliver id)) := by
  have hstage : t.stage = .ending := by
    cases hstage : t.stage <;> simp [canDeliver, hstage, hevents] at hcan ⊢
  obtain ⟨handed, l, h⟩ := h
  refine ⟨handed, l, h.connection, h.prompt, h.whole, h.events, h.reporting,
    fun hunfinished => absurd rfl hunfinished, ?_, ?_, ?_⟩
  · intro _
    rw [h.unfinished (by simp [hstage]), Task.tells, hevents]
    simp [h.reporting]
  · exact fun _ _ => hevents
  · exact fun _ => h.ended (.inl hstage)

/-- The requests and frames on which the connection acts in a step of its task. -/
def meets (t : Task) : Action → List Item
  | .read _ data => t.connection.accept.takes data
  | _ => []

/-- Every step of a task keeps what the application is told in step with what the connection has
acted on. -/
theorem informs_turn (h : t.Informs a told) {p p' : Peer} {action : Action}
    (hturn : Turn now t p action t' p') :
    t'.Informs ((t.meets action).foldl .read a) (told ++ t.tells action) := by
  -- The application is told something only in the last three cases.
  have hquiet : ∀ {t' : Task} {a : Assembly}, t'.Informs a told → t'.Informs a (told ++ []) := by
    intro t' a h
    rwa [List.append_nil]
  cases hturn with
  | start hstage =>
      refine hquiet (Informs.congr (h.accept.enter .driving ?_ ?_ ?_) rfl rfl rfl rfl)
      · simp [hstage]
      · simp
      · exact .inl rfl
  | heard hcan _ _ hreceive => exact hquiet (h.receive (isWaiting_of_canRead hcan) hreceive)
  | unheard hcan _ _ hreceive =>
      have hwaiting := isWaiting_of_canRead hcan
      have hreceived := h.receive hwaiting hreceive
      refine hquiet (hreceived.refreshed.completed (isWaiting_refreshed ?_ now))
      simp [isWaiting, (undelivered_of_isWaiting hwaiting).1, Connection.Received.handedOut]
  | failed hcan _ _ hreceive =>
      have hwaiting := isWaiting_of_canRead hcan
      have hreceived := h.receive hwaiting hreceive
      refine hquiet (hreceived.departed ?_)
      simp [isWaiting, (undelivered_of_isWaiting hwaiting).1, Connection.Received.handedOut]
  | abandoned hcan _ _ hreceive =>
      obtain ⟨hstage, hnone⟩ := undelivered_of_isWaiting (isWaiting_of_canRead hcan)
      have hreceived := h.receive (isWaiting_of_canRead hcan) hreceive
      refine hquiet ((hreceived.enter .abandoned ?_ ?_ ?_).congr rfl hnone rfl rfl)
      · simp [hstage]
      · simp
      · exact .inr rfl
  | hangUp hcan => exact hquiet (h.departed (isWaiting_of_canRead hcan))
  | write hcan _ _ hstage =>
      have hwaiting := isWaiting_of_canWrite hcan hstage
      exact hquiet (Informs.completed (h.congr rfl rfl rfl rfl) hwaiting)
  | flush => exact hquiet (Informs.load (h.congr rfl rfl rfl rfl))
  | breakOff hcan hstage => exact hquiet (h.departed (isWaiting_of_canWrite hcan hstage))
  | cutOff hcan hstage => exact hquiet (h.stopped (draining_of_canWrite hcan hstage))
  | take hcan =>
      exact hquiet ((h.put _).completed (isWaiting_put (isWaiting_of_canTake hcan) _))
  | wake hcan => exact hquiet (h.completed hcan)
  | dismiss hcan =>
      exact hquiet (((h.putAll _).close _).completed (isWaiting_dismissed hcan p))
  | fail hdue hstage htimeout =>
      have hlate := h.onTimeout
      rw [htimeout] at hlate
      exact hquiet (hlate.departed (isWaiting_of_isDue hdue hstage))
  | timeOut hdue hstage htimeout =>
      have hlate := h.onTimeout
      rw [htimeout] at hlate
      exact hquiet (hlate.completed (isWaiting_of_isDue hdue hstage))
  | giveUp hdue hstage => exact hquiet (h.stopped (draining_of_isDue hdue hstage))
  | drained hcan => exact hquiet (h.stopped (draining_of_isDrained hcan))
  | pass hcan hevents => exact h.passing hcan hevents t.id
  | passLast hcan hevents hstage =>
      refine Informs.completed (h.passing hcan hevents t.id).refreshed (isWaiting_refreshed ?_ now)
      simp [isWaiting, Task.passing, hstage]
  | finish hcan hevents => exact h.finished hcan hevents t.id

theorem Informs.told_eq (h : t.Informs a told) (hstage : t.stage = .finished) :
    told = a.notices ++ if a.opened then [.closed] else [] := by
  obtain ⟨handed, l, h⟩ := h
  -- Nothing waits any more, so what was handed on is all that the connection has handed out.
  have hhanded : handed = a.events ++ if a.opened then [.closed] else [] := by
    have hevents := h.events
    rw [h.quiet (by simp [hstage]) (by simp [hstage]), List.append_nil] at hevents
    rw [← hevents]
    exact h.ended (.inr hstage)
  have hclosed : Event.closed ∈ handed ↔ a.opened = true := by
    have hnone : Event.closed ∉ a.events :=
      List.count_eq_zero.mp (Ledger.count_closed_events a)
    cases hopened : a.opened <;> simp [hhanded, hopened, hnone]
  rw [h.finished hstage, hhanded, List.filterMap_append, Assembly.filterMap_events, ← hhanded]
  cases hopened : a.opened <;> simp [hclosed, hopened, Event.notice?]

/-- At any time the application has been told a beginning of the whole story. -/
theorem Informs.told_begins (h : t.Informs a told) :
    told <+: .opened :: a.messages.map .message ++ [.closed] := by
  by_cases hfinished : t.stage = .finished
  · rw [h.told_eq hfinished, Assembly.notices]
    obtain ⟨handed, l, h⟩ := h
    cases hopened : a.opened with
    | true => exact List.prefix_refl _
    | false =>
        -- A connection that never opened has no messages either.
        simp [h.whole.messages hopened]
  · obtain ⟨handed, l, h⟩ := h
    have hhanded : handed <+: l.events := h.events ▸ List.prefix_append ..
    have hbegins := (hhanded.trans (Ledger.events_begin h.whole)).filterMap Event.notice?
    have hstory : (Event.opened :: a.messages.map .message ++ [Event.closed]).filterMap
        Event.notice? =
        .opened :: a.messages.map .message := by
      rw [List.cons_append, List.filterMap_cons, List.filterMap_append,
        Assembly.filterMap_messages]
      exact congrArg _ (List.append_nil _)
    rw [hstory] at hbegins
    rw [h.unfinished hfinished]
    exact hbegins.trans (List.prefix_append ..)

theorem Informs.finished_of_closed (h : t.Informs a told) (hclosed : Notice.closed ∈ told) :
    t.stage = .finished := by
  obtain ⟨handed, l, h⟩ := h
  by_contra hfinished
  rw [h.unfinished hfinished, List.mem_filterMap] at hclosed
  obtain ⟨event, -, hevent⟩ := hclosed
  cases event <;> simp [Event.notice?] at hevent

theorem hasLeft_of_tells {action : Action} {p p' : Peer} (hturn : Turn now t p action t' p')
    (hclosed : .closed ∈ t.tells action) : t.hasLeft = true := by
  cases hturn with
  | @pass event rest hcan hevents => cases event <;> simp [tells, hevents] at hclosed
  | @passLast event hcan hevents => cases event <;> simp [tells, hevents] at hclosed
  | finish hcan hevents =>
      cases hstage : t.stage <;> simp [canDeliver, hevents, hasLeft, hstage] at hcan ⊢
  | _ => simp [tells] at hclosed

end Task

namespace Server

/-- The requests and frames on which a connection acts in a step of the server. -/
def meets (s : Server) (id : ConnectionId) (action : Action) : List Item :=
  if action.task? = some id then (s.task? id).elim [] (·.meets action) else []

/-- The requests and frames on which a connection acts while the server takes some steps. -/
def taken (s : Server) (id : ConnectionId) : List (Application × Action) → List Item
  | [] => []
  | (application, action) :: steps =>
    ((s.serving application).act action).elim [] fun s' =>
      (s.serving application).meets id action ++ s'.taken id steps

/-- What the application was told about a connection, and what it will be told, is what the requests
and frames amount to on which the connection has acted. -/
inductive Informs (s : Server) (id : ConnectionId) (a : Assembly) : Prop where
  | unknown (htask : s.task? id = none) (hnotices : s.notices id = []) (hnothing : a = .empty)
  | known {t : Task} (htask : s.task? id = some t) (hinforms : t.Informs a (s.notices id))

variable {s s' : Server} {id : ConnectionId} {a : Assembly} {action : Action}
  {steps : List (Application × Action)}

theorem action_task?_of_turn {now : Time} {t t' : Task} {p p' : Peer}
    (h : Turn now t p action t' p') :
    action.task? = some t.id := by
  cases h <;> rfl

theorem informs_act (h : s.Informs id a) (hknown : s.Known id) (hact : s.act action = some s') :
    s'.Informs id ((s.meets id action).foldl .read a) := by
  cases glance_of_act hact hknown with
  | accepted haction hid htask hentry hnotices =>
      subst haction
      have hnone : s.meets id .accept = [] := rfl
      rw [hnone, List.foldl_nil]
      cases h with
      | unknown hbefore hempty hnothing =>
          rw [hbefore, Option.none_or] at htask
          refine .known htask ?_
          rw [hnotices, hempty, hnothing]
          exact Task.informs_new id s.options
      | known hbefore hinforms =>
          rw [hbefore, Option.some_or] at htask
          refine .known htask ?_
          rwa [hnotices]
  | turned htask hentry hturn htask' hentry' hnotices =>
      have hown : action.task? = some id := by
        rw [action_task?_of_turn hturn, id_of_task? htask]
      cases h with
      | unknown hnone => simp [hnone] at htask
      | known hbefore hinforms =>
          obtain rfl := Option.some.inj (hbefore.symm.trans htask)
          rw [meets, if_pos hown, htask, Option.elim_some]
          refine .known htask' ?_
          rw [hnotices]
          exact Task.informs_turn hinforms hturn
  | aside hother htask hentry hnotices =>
      rw [meets, if_neg hother, List.foldl_nil]
      cases h with
      | unknown hbefore hempty hnothing =>
          exact .unknown (htask.trans hbefore) (hnotices.trans hempty) hnothing
      | known hbefore hinforms =>
          refine .known (htask.trans hbefore) ?_
          rwa [hnotices]

theorem Informs.serving (h : s.Informs id a) (application : Application) :
    (s.serving application).Informs id a := by
  cases h with
  | unknown htask hnotices hnothing => exact .unknown htask hnotices hnothing
  | known htask hinforms => exact .known htask hinforms

theorem informs_run (h : s.Informs id a) (hknown : s.Known id) (hrun : s.runWith steps = some s') :
    s'.Informs id ((s.taken id steps).foldl .read a) := by
  induction steps generalizing s a with
  | nil =>
      cases hrun
      exact h
  | cons step steps ih =>
      obtain ⟨application, action⟩ := step
      rw [runWith_cons, Option.bind_eq_some_iff] at hrun
      obtain ⟨next, hact, hrun⟩ := hrun
      rw [taken, hact, Option.elim_some, List.foldl_append]
      have hserving : (s.serving application).Known id := hknown
      exact ih (informs_act (h.serving application) hknown hact) (known_act hserving hact) hrun

/-- The application is told of the end of a connection when the task is done with it. -/
theorem hasLeft_of_closed (h : s.Informs id a) (hknown : s.Known id) (hact : s.act action = some s')
    (hclosed : .closed ∈ s'.notices id) : ∃ t, s.task? id = some t ∧ t.hasLeft = true := by
  have htold : .closed ∈ s.notices id → ∃ t, s.task? id = some t ∧ t.hasLeft = true := by
    intro htold
    cases h with
    | unknown htask hnotices => simp [hnotices] at htold
    | @known t htask hinforms =>
        exact ⟨t, htask, by rw [Task.hasLeft, hinforms.finished_of_closed htold]⟩
  cases glance_of_act hact hknown with
  | accepted _ _ _ _ hnotices => exact htold (hnotices ▸ hclosed)
  | @turned t _ _ _ htask _ hturn _ _ hnotices =>
      rw [hnotices, List.mem_append] at hclosed
      rcases hclosed with hearlier | hnow
      · exact htold hearlier
      · exact ⟨t, htask, Task.hasLeft_of_tells hturn hnow⟩
  | aside _ _ _ hnotices => exact htold (hnotices ▸ hclosed)

theorem notices_prefix_act (hknown : s.Known id) (hact : s.act action = some s') :
    s.notices id <+: s'.notices id := by
  cases glance_of_act hact hknown with
  | accepted _ _ _ _ hnotices | aside _ _ _ hnotices => rw [hnotices]
  | turned _ _ _ _ _ hnotices =>
      rw [hnotices]
      exact List.prefix_append ..

theorem notices_prefix_run (hknown : s.Known id) (hrun : s.runWith steps = some s') :
    s.notices id <+: s'.notices id := by
  induction steps generalizing s with
  | nil =>
      cases hrun
      exact List.prefix_refl _
  | cons step steps ih =>
      obtain ⟨application, action⟩ := step
      rw [runWith_cons, Option.bind_eq_some_iff] at hrun
      obtain ⟨next, hact, hrun⟩ := hrun
      have hserving : (s.serving application).Known id := hknown
      exact (notices_prefix_act hserving hact).trans (ih (known_act hserving hact) hrun)

theorem forgets_of_closed (h : s.Informs id a) {n : Nat} (horderly : s.Orderly id n)
    (hclosed : .closed ∈ s.notices id) : s.registry.Forgets id := by
  cases h with
  | unknown htask hnotices => simp [hnotices] at hclosed
  | @known t htask hinforms =>
      have hleft : t.hasLeft = true := by
        rw [Task.hasLeft, hinforms.finished_of_closed hclosed]
      exact forgets_of_orderly horderly htask hleft

/-- **The application is told everything, in order, and of the end last.** Whatever the clients
send, however the tasks take turns and whatever is asked of the server: of a connection the
application is told a beginning of opening, messages, end. When the task of the connection is at its
end the application has been told of exactly the messages that the frames amount to on which the
connection has acted, each once and in order, and of the end if and only if it was told of the
opening. And when it is told of the end the connection has left the registry: from then on, as long
as no number of a connection is given out a second time, it is unknown to every request. -/
theorem application_is_told_in_order {options : Options} {application : Application}
    {steps : List (Application × Action)} {s : Server}
    (h : (new options application).runWith steps = some s) (id : ConnectionId) :
    let heard := Assembly.ofItems ((new options application).taken id steps)
    s.notices id <+: .opened :: heard.messages.map .message ++ [.closed] ∧
    (s.notices id).count .opened ≤ 1 ∧ (s.notices id).count .closed ≤ 1 ∧
    (∀ t, s.task? id = some t → t.stage = .finished →
      s.notices id = heard.notices ++ (if heard.opened then [.closed] else []) ∧
      (.closed ∈ s.notices id ↔ .opened ∈ s.notices id)) ∧
    ∀ answers action s' later s'', (s.serving answers).act action = some s' →
      .closed ∈ s'.notices id → s'.runWith later = some s'' →
      (steps ++ (answers, action) :: later).countP (·.2 = .accept) < UInt64.size →
      s.registry.Forgets id ∧ s''.registry.Forgets id := by
  intro heard
  have hinforms : s.Informs id heard :=
    informs_run (.unknown rfl rfl rfl) (known_new options application id) h
  have hbegins : s.notices id <+: .opened :: heard.messages.map .message ++ [.closed] := by
    cases hinforms with
    | unknown htask hnotices =>
        rw [hnotices]
        exact List.nil_prefix
    | known htask hinforms => exact hinforms.told_begins
  refine ⟨hbegins, ?_, ?_, ?_, ?_⟩
  · refine (hbegins.sublist.count_le _).trans ?_
    simp [List.count_eq_zero]
  · refine (hbegins.sublist.count_le _).trans ?_
    simp [List.count_eq_zero]
  · intro t htask hstage
    cases hinforms with
    | unknown hnone => simp [hnone] at htask
    | known hknown hinforms =>
        obtain rfl := Option.some.inj (hknown.symm.trans htask)
        have htold := hinforms.told_eq hstage
        refine ⟨htold, ?_⟩
        rw [htold]
        cases hopened : heard.opened <;> simp [Assembly.notices, hopened]
  · intro answers action s' later s'' hact hclosed hlater hcount
    have hrest : s.runWith ((answers, action) :: later) = some s'' := by
      rw [runWith_cons, hact]
      exact hlater
    rw [List.countP_append] at hcount
    have horderly := orderly_run (orderly_new options application id) h (by omega)
    have hlast := orderly_run horderly hrest (by omega)
    constructor
    · obtain ⟨t, htask, hleft⟩ :=
        hasLeft_of_closed (hinforms.serving answers) horderly.known hact hclosed
      exact forgets_of_orderly horderly htask hleft
    · have hafter := informs_run hinforms horderly.known hrest
      have hknown := known_act (s := s.serving answers) horderly.known hact
      exact forgets_of_closed hafter hlast ((notices_prefix_run hknown hlater).subset hclosed)

/-- A connection opens, sends one text and goes away; its task finds that nobody reads what is left,
and has only the end still to tell. -/
def visit : List (Application × Action) :=
  [.accept, .start ⟨1⟩, .read ⟨1⟩ Ledger.plainRequest, .deliver ⟨1⟩,
    .read ⟨1⟩ [0x81, 0x82, 0, 0, 0, 0, 0x48, 0x69], .deliver ⟨1⟩, .hangUp ⟨1⟩, .breakOff ⟨1⟩,
    .deliver ⟨1⟩].map fun action => (.echo, action)

/-- When the application is told of the end of the visit, and when somebody writes to the visitor
after that, the registry has forgotten the connection. -/
theorem visit_is_told_in_order :
    ∃ s s' s'', (new .standard .echo).runWith visit = some s ∧
      s.notices ⟨1⟩ = [.opened, .message "Hi"] ∧
      (s.serving .echo).act (.deliver ⟨1⟩) = some s' ∧
      s'.notices ⟨1⟩ = [.opened, .message "Hi", .closed] ∧
      s'.runWith [(.echo, .request (.send ⟨1⟩ "Ho"))] = some s'' ∧
      s.registry.Forgets ⟨1⟩ ∧ s''.registry.Forgets ⟨1⟩ := by
  have hrun : ((new .standard .echo).runWith visit).any (fun s =>
      s.notices ⟨1⟩ = [.opened, .message "Hi"] &&
      ((s.serving .echo).act (.deliver ⟨1⟩)).any fun s' =>
        s'.notices ⟨1⟩ = [.opened, .message "Hi", .closed] &&
          (s'.runWith [(.echo, .request (.send ⟨1⟩ "Ho"))]).isSome) = true := by
    decide +kernel
  obtain ⟨s, hsteps, hfacts⟩ := (Option.any_eq_true ..).mp hrun
  simp only [Bool.and_eq_true, decide_eq_true_eq, Option.any_eq_true] at hfacts
  obtain ⟨hbefore, s', hact, htold, hlater⟩ := hfacts
  obtain ⟨s'', hlater⟩ := Option.isSome_iff_exists.mp hlater
  have hclosed : .closed ∈ s'.notices ⟨1⟩ := by simp [htold]
  obtain ⟨-, -, -, -, hforgets⟩ := application_is_told_in_order hsteps ⟨1⟩
  obtain ⟨hthen, hafter⟩ := hforgets .echo _ s' _ s'' hact hclosed hlater (by decide)
  exact ⟨s, s', s'', hsteps, hbefore, hact, htold, hlater, hthen, hafter⟩

end Server

end WebSocket

import Mathlib.Data.List.Infix
import WebSocket.Proofs.FailureNotice
import WebSocket.Proofs.ServerSteps

namespace WebSocket

/-- The requests that an application makes when a task tells it what comes next. -/
def Application.answers (application : Application) (t : Task) : List Request :=
  match t.undelivered with
  | [] => if t.reporting then application.respond t.id .closed else []
  | .opened :: _ => application.respond t.id .opened
  | .message text :: _ => application.respond t.id (.message text)
  | .closed :: _ => []

namespace Server

/-- The requests that a step carries out, in their order. -/
def requests (s : Server) : Action → List Request
  | .request request => [request]
  | .deliver id => (s.task? id).elim [] s.application.answers
  | _ => []

/-- The bytes of the texts that a step makes a connection queue for the network: of the first message
that waits for its task, or, when the task has found a request to close, of all that it hands over. -/
def handsOver (s : Server) (id : ConnectionId) (action : Action) : List Bytes :=
  match s.task? id, s.registry.peer? id with
  | some t, some p =>
    if action = .take id then p.queue.head?.elim [] t.queues
    else if action = .wake id then handsOverAll t p
    else []
  | _, _ => []

/-- What the messages of a connection have come to after one more step. A new connection begins
anew. -/
def noted (s : Server) (id : ConnectionId) (log : Log) (action : Action) : Log :=
  if action = .accept ∧ s.registry.nextId.1 = id then ⟨[], []⟩
  else ⟨log.accepted ++ s.registry.acceptsAll id (s.requests action),
    log.queued ++ s.handsOver id action⟩

/-- The server, with another application from now on. -/
def serving (s : Server) (application : Application) : Server :=
  { s with application := application }

/-- The state after some steps, in each of which the application may answer in another way: it may
remember what it was told, or ask somebody else. -/
def runWith (s : Server) (steps : List (Application × Action)) : Option Server :=
  steps.foldlM (fun s step => (s.serving step.1).act step.2) s

/-- What the messages of a connection have come to after some steps. -/
def history (s : Server) (id : ConnectionId) (log : Log) : List (Application × Action) → Log
  | [] => log
  | (application, action) :: steps =>
    match (s.serving application).act action with
    | some s' => s'.history id ((s.serving application).noted id log action) steps
    | none => log

variable {s s' : Server} {id : ConnectionId} {log : Log} {t : Task}

theorem Tracks.deliver (h : (s.setTask t).Tracks id log) (hcan : t.canDeliver = true) :
    (s.deliver t).Tracks id
      ⟨log.accepted ++ s.registry.acceptsAll id (s.application.answers t), log.queued⟩ := by
  unfold Server.deliver Application.answers
  cases hevents : t.undelivered with
  | nil =>
      refine h.finish ?_
      cases hstage : t.stage <;> simp [Task.canDeliver, hstage, hevents] at hcan
      rfl
  | cons event rest =>
      have hrest : ∀ (reporting : Bool) {s : Server} {log : Log}, (s.setTask t).Tracks id log →
          (s.setTask { t with undelivered := rest, reporting := reporting }).Tracks id log :=
        fun _ _ _ h => h.steady rfl (.refl _) fun hending => hending
      have hgo : ∀ (reporting : Bool) {s : Server} {log : Log}, (s.setTask t).Tracks id log →
          (if rest.isEmpty && t.stage = .driving then
            s.completeRead { t with undelivered := rest, reporting := reporting }
          else s.setTask { t with undelivered := rest, reporting := reporting }).Tracks id log := by
        intro reporting s log h
        split
        · exact (hrest reporting h).completeRead
        · exact hrest reporting h
      cases event with
      | opened => exact hgo _ (h.notify t.id .opened)
      | message text => exact hgo _ (h.notify t.id (.message text))
      | closed =>
          rw [Registry.acceptsAll, List.append_nil]
          exact hgo _ h

theorem task?_accept (s : Server) (id : ConnectionId) :
    s.accept.task? id = (s.task? id).or
      (if s.registry.nextId.1 = id then some (.new id s.options) else none) := by
  unfold Server.accept task?
  rw [List.find?_append]
  congr 1
  by_cases hid : s.registry.nextId.1 = id
  · rw [if_pos hid, hid]
    simp [Task.new]
  · simp [Task.new, hid]

theorem tracks_accept (h : s.Tracks id log) :
    s.accept.Tracks id (if s.registry.nextId.1 = id then ⟨[], []⟩ else log) := by
  have hpeer : s.accept.registry.peer? id =
      if id = s.registry.nextId.1 then some (.new (max s.options.maxQueued 1))
      else s.registry.peer? id := Registry.peer?_insert ..
  rw [Tracks, task?_accept, hpeer]
  by_cases hid : s.registry.nextId.1 = id
  · rw [if_pos hid, if_pos hid, if_pos hid.symm]
    unfold Tracks at h
    generalize s.task? id = found at h ⊢
    generalize s.registry.peer? id = entry at h
    cases h with
    | unknown => exact .known (.new _ _) (by simp [Task.Over, Task.new])
    | known hlinked hover => exact .known (hlinked.renew _) hover
  · rw [if_neg hid, if_neg hid, if_neg (Ne.symm hid), Option.or_none]
    exact h

theorem handsOver_of_ne {action : Action} (htake : action ≠ .take id) (hwake : action ≠ .wake id) :
    s.handsOver id action = [] := by
  unfold handsOver
  split
  · rw [if_neg htake, if_neg hwake]
  · rfl

theorem handsOver_take (htask : s.task? t.id = some t) {p : Peer} {message : Outbound}
    {rest : List Outbound} (hpeer : s.registry.peer? t.id = some p)
    (hqueue : p.queue = message :: rest) :
    s.handsOver id (.take t.id) = if id = t.id then t.queues message else [] := by
  by_cases hid : id = t.id
  · rw [hid, handsOver, htask, hpeer]
    simp [hqueue]
  · rw [if_neg hid]
    exact handsOver_of_ne (by simpa using Ne.symm hid) (by simp)

theorem handsOver_wake (htask : s.task? t.id = some t) :
    s.handsOver id (.wake t.id) =
      if id = t.id then (s.registry.peer? t.id).elim [] (handsOverAll t) else [] := by
  by_cases hid : id = t.id
  · rw [hid, handsOver, htask]
    cases s.registry.peer? t.id <;> simp
  · rw [if_neg hid]
    exact handsOver_of_ne (by simp) (by simpa using Ne.symm hid)

theorem noted_of_quiet {action : Action} (haccept : action ≠ .accept)
    (hrequests : s.requests action = []) (htake : action ≠ .take id) (hwake : action ≠ .wake id) :
    s.noted id log action = log := by
  rw [noted, if_neg fun h => haccept h.1, hrequests, handsOver_of_ne htake hwake]
  simp [Registry.acceptsAll]

theorem Tracks.onTask (h : s.Tracks id log) {other : ConnectionId} {possible : Task → Bool}
    {step : Task → Server} (hact : s.onTask other possible (fun t => some (step t)) = some s')
    (hstep : ∀ t, (s.setTask t).Tracks id log → (step t).Tracks id log) : s'.Tracks id log := by
  obtain ⟨t, htask, rfl, -, hsome⟩ := exists_of_onTask hact
  cases hsome
  exact hstep t (tracks_setTask h htask)

/-- Every step keeps task, entry and messages of every connection together. -/
theorem tracks_act (h : s.Tracks id log) {action : Action} (hact : s.act action = some s') :
    s'.Tracks id (s.noted id log action) := by
  -- Only four actions write to the log: an accepted connection empties the log of its id, requests
  -- and deliveries add to what is accepted, and `take` and `wake` to what is queued.
  cases action with
  | accept =>
      cases hact
      have haccepted := tracks_accept h
      by_cases hid : s.registry.nextId.1 = id
      · rw [noted, if_pos ⟨rfl, hid⟩]
        rwa [if_pos hid] at haccepted
      · rw [noted, if_neg fun hboth => hid hboth.2, handsOver_of_ne (by simp) (by simp)]
        rw [if_neg hid] at haccepted
        simpa [requests, Registry.acceptsAll] using haccepted
  | request request =>
      cases hact
      rw [noted, if_neg (by simp), handsOver_of_ne (by simp) (by simp), List.append_nil]
      exact Kept.passed h (Registry.passed_performAll s.registry id [request])
  | wait duration =>
      cases hact
      rw [noted_of_quiet (by simp) rfl (by simp) (by simp)]
      exact h
  | start other =>
      rw [noted_of_quiet (by simp) rfl (by simp) (by simp)]
      exact h.onTask hact fun t ht => ht.start
  | read other data =>
      rw [noted_of_quiet (by simp) rfl (by simp) (by simp)]
      exact h.onTask hact fun t ht => ht.read data
  | hangUp other =>
      rw [noted_of_quiet (by simp) rfl (by simp) (by simp)]
      exact h.onTask hact fun t ht => ht.leave
  | write other count =>
      rw [noted_of_quiet (by simp) rfl (by simp) (by simp)]
      refine h.onTask hact fun t ht => ?_
      have hwritten : (s.setTask { t with writing := t.writing.drop count }).Tracks id log :=
        ht.steady rfl (.refl _) fun hending => hending
      split
      · exact hwritten.complete
      · exact hwritten.load
  | breakOff other =>
      rw [noted_of_quiet (by simp) rfl (by simp) (by simp)]
      refine h.onTask hact fun t ht => ?_
      split
      · exact ht.leave
      · exact ht.stopWriting
  | expire other =>
      rw [noted_of_quiet (by simp) rfl (by simp) (by simp)]
      exact h.onTask hact fun t ht => ht.expire
  | drained other =>
      rw [noted_of_quiet (by simp) rfl (by simp) (by simp)]
      exact h.onTask hact fun t ht => ht.stopWriting
  | take other =>
      obtain ⟨t, htask, rfl, -, hstep⟩ := exists_of_onTask hact
      unfold Server.take at hstep
      split at hstep
      · rename_i message r htake
        obtain ⟨p, rest, hpeer, hqueue, rfl⟩ := exists_of_take htake
        cases hstep
        have hnone : s.requests (.take t.id) = [] := rfl
        rw [noted, if_neg (by simp), handsOver_take htask hpeer hqueue, hnone, Registry.acceptsAll,
          List.append_nil]
        exact (tracks_setTask h htask).take hpeer hqueue
      · simp at hstep
  | wake other =>
      obtain ⟨t, htask, rfl, -, hstep⟩ := exists_of_onTask hact
      cases hstep
      have hnone : s.requests (.wake t.id) = [] := rfl
      rw [noted, if_neg (by simp), handsOver_wake htask, hnone, Registry.acceptsAll,
        List.append_nil]
      exact (tracks_setTask h htask).wake
  | deliver other =>
      obtain ⟨t, htask, rfl, hcan, hstep⟩ := exists_of_onTask hact
      cases hstep
      rw [noted, if_neg (by simp), handsOver_of_ne (by simp) (by simp), List.append_nil, requests,
        htask, Option.elim_some]
      exact (tracks_setTask h htask).deliver hcan

theorem tracks_new (options : Options) (application : Application) (id : ConnectionId) :
    (new options application).Tracks id ⟨[], []⟩ :=
  .unknown

theorem runWith_of_run {actions : List Action} (h : s.run actions = some s') :
    s.runWith (actions.map fun action => (s.application, action)) = some s' := by
  induction actions generalizing s with
  | nil => exact h
  | cons action actions ih =>
      rw [run, List.foldlM_cons] at h
      rw [runWith, List.map_cons, List.foldlM_cons]
      -- The application that is put in place before the step is the one that is there already.
      cases hact : s.act action with
      | none => simp [hact] at h
      | some next =>
          rw [hact] at h
          have hserving : (s.serving s.application).act action = some next := hact
          rw [hserving, ← application_act hact]
          exact ih h

theorem runWith_cons (s : Server) (application : Application) (action : Action)
    (steps : List (Application × Action)) :
    s.runWith ((application, action) :: steps) =
      ((s.serving application).act action).bind (·.runWith steps) :=
  List.foldlM_cons ..

theorem tracks_runWith (h : s.Tracks id log) {steps : List (Application × Action)}
    (hrun : s.runWith steps = some s') : s'.Tracks id (s.history id log steps) := by
  induction steps generalizing s log with
  | nil =>
      cases hrun
      exact h
  | cons step steps ih =>
      obtain ⟨application, action⟩ := step
      rw [runWith, List.foldlM_cons] at hrun
      rw [history]
      have hserving : (s.serving application).Tracks id log := h
      cases hact : (s.serving application).act action with
      | none => simp [hact] at hrun
      | some next =>
          rw [hact] at hrun
          exact ih (tracks_act hserving hact) hrun

end Server

namespace Task

/-- The bytes that were queued for the network and that it has not taken. -/
def unsent (t : Task) : Bytes :=
  t.writing ++ t.connection.outbound

theorem unsent_load (t : Task) : t.load.unsent = t.unsent := by
  by_cases hwritten : t.writing = []
  · by_cases hempty : t.connection.outbound = []
    · simp [load, Connection.takeOutbound, unsent, hwritten, hempty]
    · simp [load, Connection.takeOutbound, unsent, hwritten, hempty]
  · simp [load, hwritten]

end Task

namespace Connection

theorem outbound_finish (c : Connection) : c.finish.2.outbound = c.outbound := by
  unfold finish
  split
  · simp only [reportClosed_snd]
  · rfl

end Connection

namespace Server

variable {s s' : Server} {id : ConnectionId} {log : Log} {t : Task}

end Server

end WebSocket

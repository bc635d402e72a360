import WebSocket.Proofs.DeliveryOrder

/-!
Everything that one step of a server can do to one task and to the entry of its connection, and what
the application is told by it. Whatever is to be known about tasks follows from this and from the
initial state of a task, without a look at the steps of the server again.
-/

namespace WebSocket

namespace Peer

/-- The entry of a connection whose task has reported its phase and scheme. -/
def mirroring (p : Peer) (c : Connection) : Peer :=
  { p with phase := c.phase, scheme := c.scheme.or p.scheme }

/-- The entry of a connection that has left the registry because its task is done with it. -/
def departed (p : Peer) : Peer :=
  { p with phase := .closed, listed := false }

/-- The entry at the end of a step that leaves the connection as `c`. -/
def completed (p : Peer) (c : Connection) : Peer :=
  if c.phase = .closed then (p.mirroring c).departed else p.mirroring c

end Peer

namespace Task

def started (t : Task) (now : Time) : Task :=
  { t with
    connection := t.connection.accept
    stage := .driving
    deadline := { t with connection := t.connection.accept }.freshDeadline now
    timed := t.connection.accept.phase }

def departed (t : Task) (now : Time) : Task :=
  { t with
    stage := .draining (now + t.connection.options.closeTimeout.nanoseconds)
    undelivered := [] }.load

/-- The task when a closing handshake that is over has ended its connection, with a new deadline in
a new phase. -/
def settled (t : Task) (now : Time) : Task :=
  let t := { t with
    connection := t.connection.finish.2
    reporting := t.reporting || t.connection.finish.1.isSome }
  if t.connection.phase = t.timed then t
  else { t with timed := t.connection.phase, deadline := t.freshDeadline now }

/-- The task at the end of a step. -/
def completed (t : Task) (now : Time) : Task :=
  if t.connection.finish.2.phase = .closed then (t.settled now).departed now
  else (t.settled now).load

/-- The task whose peer has sent something. -/
def refreshed (t : Task) (now : Time) : Task :=
  if t.connection.phase = .established then { t with deadline := t.freshDeadline now } else t

/-- The task that has told the application of the first event that waits. -/
def passing (t : Task) (event : Event) (rest : List Event) : Task :=
  { t with undelivered := rest, reporting := t.reporting || event = Event.closed }

/-- The task that closes its connection because the registry asks for it. -/
def dismissed (t : Task) (p : Peer) : Task :=
  { t.putAll p.queue with
    connection := (t.putAll p.queue).connection.close (.ofNumber p.closeNumber) }

def stopped (t : Task) : Task :=
  { t with
    connection := t.connection.onDisconnect.2
    undelivered := t.connection.onDisconnect.1
    stage := .ending }

/-- What the application is told in a step of a task. -/
def tells (t : Task) : Action → List Notice
  | .deliver _ =>
    match t.undelivered with
    | [] => if t.reporting then [.closed] else []
    | .opened :: _ => [.opened]
    | .message text :: _ => [.message text]
    | .closed :: _ => []
  | _ => []

theorem id_departed (t : Task) (now : Time) : (t.departed now).id = t.id := by
  rw [departed, Server.id_load]

theorem id_settled (t : Task) (now : Time) : (t.settled now).id = t.id := by
  unfold settled
  dsimp only
  split <;> rfl

theorem id_completed (t : Task) (now : Time) : (t.completed now).id = t.id := by
  unfold completed
  split
  · rw [id_departed, id_settled]
  · rw [Server.id_load, id_settled]

theorem id_refreshed (t : Task) (now : Time) : (t.refreshed now).id = t.id := by
  unfold refreshed
  split <;> rfl

theorem id_completedRead (t : Task) (now : Time) :
    ((t.refreshed now).completed now).id = t.id :=
  (id_completed ..).trans (id_refreshed t now)

theorem connection_refreshed (t : Task) (now : Time) :
    (t.refreshed now).connection = t.connection := by
  unfold refreshed
  split <;> rfl

theorem id_dismissed (t : Task) (p : Peer) : (t.dismissed p).id = t.id := by
  obtain ⟨c, hput, -⟩ := t.exists_putAll_eq p.queue
  rw [dismissed, hput]

/-! ## When a task may take a step -/

section

variable {t : Task} {now : Time}

theorem undelivered_of_isWaiting (h : t.isWaiting = true) :
    t.stage = .driving ∧ t.undelivered = [] := by
  simpa [isWaiting] using h

theorem isWaiting_of_canRead (h : t.canRead = true) : t.isWaiting = true := by
  rw [canRead, Bool.and_eq_true] at h
  exact h.1

theorem isWaiting_of_canTake (h : t.canTake = true) : t.isWaiting = true := by
  rw [canTake, Bool.and_eq_true] at h
  exact h.1

theorem isWaiting_of_canWrite (h : t.canWrite = true) (hstage : t.stage = .driving) :
    t.isWaiting = true := by
  simp only [canWrite, hstage, Bool.and_eq_true] at h
  simp [isWaiting, hstage, h.2]

theorem isWaiting_of_isDue (h : t.isDue now = true) (hstage : t.stage = .driving) :
    t.isWaiting = true := by
  cases hnone : t.undelivered with
  | nil => simp [isWaiting, hstage, hnone]
  | cons event rest => simp [isDue, limit?, hstage, hnone] at h

theorem isWaiting_put (h : t.isWaiting = true) (message : Outbound) :
    (t.put message).isWaiting = true := by
  rw [put_eq]
  exact h

theorem isWaiting_dismissed (h : t.isWaiting = true) (p : Peer) :
    (t.dismissed p).isWaiting = true := by
  obtain ⟨c, hput, -⟩ := t.exists_putAll_eq p.queue
  rw [dismissed, hput]
  exact h

theorem draining_of_canWrite (h : t.canWrite = true) (hstage : t.stage ≠ .driving) :
    ∃ limit, t.stage = .draining limit := by
  cases hdraining : t.stage <;> simp_all [canWrite]

theorem draining_of_isDue (h : t.isDue now = true) (hstage : t.stage ≠ .driving) :
    ∃ limit, t.stage = .draining limit := by
  cases hdraining : t.stage <;> simp_all [isDue, limit?]

theorem draining_of_isDrained (h : t.isDrained = true) : ∃ limit, t.stage = .draining limit := by
  cases hdraining : t.stage <;> simp_all [isDrained]

theorem isWaiting_settled (h : t.isWaiting = true) (now : Time) :
    (t.settled now).isWaiting = true := by
  unfold Task.settled
  dsimp only
  split <;> exact h

theorem isWaiting_refreshed (h : t.isWaiting = true) (now : Time) :
    (t.refreshed now).isWaiting = true := by
  unfold Task.refreshed
  split <;> exact h

end

end Task

/-- One step of a task at the time `now`, and what it makes of the task and of its entry in the
registry. When the application is told something in the step, `p` is the entry after what the
application has asked for. -/
inductive Turn (now : Time) (t : Task) (p : Peer) : Action → Task → Peer → Prop where
  | start (hstage : t.stage = .spawned) :
      Turn now t p (.start t.id) (t.started now) (p.mirroring t.connection.accept)
  | heard {data : Bytes} {events : List Event} {c : Connection} (hcan : t.canRead = true)
      (hdata : data ≠ []) (hlength : data.length ≤ Task.readChunk)
      (hreceive : t.connection.receive data = (.events events, c)) (hevents : events ≠ []) :
      Turn now t p (.read t.id data) { t with connection := c, undelivered := events }
        (p.mirroring c)
  | unheard {data : Bytes} {c : Connection} (hcan : t.canRead = true) (hdata : data ≠ [])
      (hlength : data.length ≤ Task.readChunk)
      (hreceive : t.connection.receive data = (.events [], c)) :
      Turn now t p (.read t.id data)
        (({ t with connection := c, undelivered := [] }.refreshed now).completed now)
        ((p.mirroring c).completed c.finish.2)
  | failed {data : Bytes} {e : Error} {c : Connection} (hcan : t.canRead = true)
      (hdata : data ≠ []) (hlength : data.length ≤ Task.readChunk)
      (hreceive : t.connection.receive data = (.failed e, c)) :
      Turn now t p (.read t.id data) ({ t with connection := c }.departed now) p.departed
  | abandoned {data : Bytes} {c : Connection} (hcan : t.canRead = true) (hdata : data ≠ [])
      (hlength : data.length ≤ Task.readChunk)
      (hreceive : t.connection.receive data = (.abandoned, c)) :
      Turn now t p (.read t.id data) { t with connection := c, stage := .abandoned } p.stopReceiving
  | hangUp (hcan : t.canRead = true) : Turn now t p (.hangUp t.id) (t.departed now) p.departed
  | write {count : Nat} (hcan : t.canWrite = true) (hpos : 0 < count)
      (hle : count ≤ t.writing.length) (hstage : t.stage = .driving) :
      Turn now t p (.write t.id count) ({ t with writing := t.writing.drop count }.completed now)
        (p.completed t.connection.finish.2)
  | flush {count : Nat} (hcan : t.canWrite = true) (hpos : 0 < count)
      (hle : count ≤ t.writing.length) (hstage : t.stage ≠ .driving) :
      Turn now t p (.write t.id count) { t with writing := t.writing.drop count }.load p
  | breakOff (hcan : t.canWrite = true) (hstage : t.stage = .driving) :
      Turn now t p (.breakOff t.id) (t.departed now) p.departed
  | cutOff (hcan : t.canWrite = true) (hstage : t.stage ≠ .driving) :
      Turn now t p (.breakOff t.id) t.stopped p
  | take {message : Outbound} {rest : List Outbound} (hcan : t.canTake = true)
      (hqueue : p.queue = message :: rest) :
      Turn now t p (.take t.id) ((t.put message).completed now)
        ({ p with queue := rest }.completed (t.put message).connection.finish.2)
  | wake (hcan : t.isWaiting = true) (hwoken : p.woken = true) (hcode : p.closeNumber = 0) :
      Turn now t p (.wake t.id) (t.completed now)
        ({ p with woken := false, closeNumber := 0 }.completed t.connection.finish.2)
  | dismiss (hcan : t.isWaiting = true) (hwoken : p.woken = true) (hcode : p.closeNumber ≠ 0) :
      Turn now t p (.wake t.id) ((t.dismissed p).completed now)
        ({ p with woken := false, closeNumber := 0, queue := [] }.completed
          (t.dismissed p).connection.finish.2)
  | fail {e : Error} {c : Connection} (hdue : t.isDue now = true) (hstage : t.stage = .driving)
      (htimeout : t.connection.onTimeout = (.error e, c)) :
      Turn now t p (.expire t.id) ({ t with connection := c }.departed now) p.departed
  | timeOut {c : Connection} (hdue : t.isDue now = true) (hstage : t.stage = .driving)
      (htimeout : t.connection.onTimeout = (.ok (), c)) :
      Turn now t p (.expire t.id) ({ t with connection := c }.completed now)
        (p.completed c.finish.2)
  | giveUp (hdue : t.isDue now = true) (hstage : t.stage ≠ .driving) :
      Turn now t p (.expire t.id) t.stopped p
  | drained (hcan : t.isDrained = true) : Turn now t p (.drained t.id) t.stopped p
  | pass {event : Event} {rest : List Event} (hcan : t.canDeliver = true)
      (hevents : t.undelivered = event :: rest) (hmore : rest ≠ [] ∨ t.stage ≠ .driving) :
      Turn now t p (.deliver t.id) (t.passing event rest) p
  | passLast {event : Event} (hcan : t.canDeliver = true) (hevents : t.undelivered = [event])
      (hstage : t.stage = .driving) :
      Turn now t p (.deliver t.id) (((t.passing event []).refreshed now).completed now)
        (p.completed t.connection.finish.2)
  | finish (hcan : t.canDeliver = true) (hevents : t.undelivered = []) :
      Turn now t p (.deliver t.id) { t with stage := .finished } p.stopReceiving

namespace Registry

theorem lastNumber_send (r : Registry) (id : ConnectionId) (message : Outbound) :
    (r.send id message).2.lastNumber = r.lastNumber := by
  have hsent := sent_send r id message
  generalize r.send id message = outcome at hsent
  cases hsent <;> rfl

theorem lastNumber_close (r : Registry) (id : ConnectionId) (code : CloseCode) :
    (r.close id code).2.lastNumber = r.lastNumber := by
  have hclosed := closed_close r id code
  generalize r.close id code = outcome at hclosed
  cases hclosed <;> rfl

theorem lastNumber_performAll (r : Registry) (requests : List Request) :
    (r.performAll requests).2.lastNumber = r.lastNumber := by
  induction requests generalizing r with
  | nil => rfl
  | cons request requests ih =>
      refine (ih _).trans ?_
      cases request with
      | send id text => exact lastNumber_send r id _
      | broadcast text =>
          change (r.broadcast text).2.lastNumber = _
          rw [broadcast_eq]
      | disconnect id => exact lastNumber_close r id _

theorem lastNumber_takeWakeUp (r : Registry) (id : ConnectionId) :
    (r.takeWakeUp id).2.lastNumber = r.lastNumber := by
  unfold takeWakeUp
  split <;> rfl

theorem lastNumber_takeCloseRequest (r : Registry) (id : ConnectionId) :
    (r.takeCloseRequest id).2.lastNumber = r.lastNumber := by
  unfold takeCloseRequest
  split <;> rfl

theorem lastNumber_woken (r : Registry) (id : ConnectionId) :
    (r.woken id).lastNumber = r.lastNumber :=
  (lastNumber_takeCloseRequest ..).trans (lastNumber_takeWakeUp r id)

end Registry

namespace Server

/-- What the application was told about a connection, in its order. -/
def notices (s : Server) (id : ConnectionId) : List Notice :=
  (s.calls.filter (·.id = id)).map (·.notice)

/-- From `s` to `s'`, a task has become `t`, its entry what `f` makes of it, and nothing else has
changed. -/
def Puts (s : Server) (t : Task) (f : Peer → Peer) (s' : Server) : Prop :=
  ∃ r, s' = { s with registry := r }.setTask t ∧ s.registry.Changes t.id f r ∧
    r.lastNumber = s.registry.lastNumber

variable {s s' : Server} {t t' : Task} {f g : Peer → Peer}

theorem puts_setTask (s : Server) (t : Task) : s.Puts t (fun p => p) (s.setTask t) :=
  ⟨s.registry, rfl, Registry.changes_refl _ _, rfl⟩

theorem puts_update (s : Server) (t : Task) (f : Peer → Peer) :
    s.Puts t f ({ s with registry := s.registry.update t.id f }.setTask t) :=
  ⟨_, rfl, Registry.changes_update s.registry t.id f, rfl⟩

theorem Puts.after {r : Registry} (h : { s with registry := r }.Puts t g s')
    (hchanges : s.registry.Changes t.id f r) (hnumber : r.lastNumber = s.registry.lastNumber) :
    s.Puts t (fun p => g (f p)) s' := by
  obtain ⟨r', rfl, hchanges', hnumber'⟩ := h
  exact ⟨r', rfl, hchanges.trans hchanges', hnumber'.trans hnumber⟩

theorem changes_sync (s : Server) (t : Task) :
    s.registry.Changes t.id (·.mirroring t.connection) (s.sync t).registry :=
  peer?_sync s t

theorem lastNumber_sync (s : Server) (t : Task) :
    (s.sync t).registry.lastNumber = s.registry.lastNumber := by
  unfold sync
  cases t.connection.scheme <;> rfl

theorem puts_start (s : Server) (t : Task) :
    s.Puts (t.started s.now) (·.mirroring t.connection.accept) (s.start t) :=
  ⟨_, rfl, changes_sync s { t with connection := t.connection.accept }, lastNumber_sync ..⟩

theorem puts_leave (s : Server) (t : Task) :
    s.Puts (t.departed s.now) Peer.departed (s.leave t) := by
  refine ⟨_, rfl, ?_, rfl⟩
  rw [Task.id_departed]
  exact (Registry.changes_update s.registry t.id fun p => { p with phase := .closed }).trans
    (Registry.changes_update _ t.id Peer.unlist)

theorem puts_complete (s : Server) (t : Task) :
    s.Puts (t.completed s.now) (·.completed t.connection.finish.2) (s.complete t) := by
  -- The task is settled with a look at the clock only, so the registry can be reported to first.
  have hcomplete : s.complete t =
      if t.connection.finish.2.phase = .closed then
        (s.sync { t with connection := t.connection.finish.2 }).leave (t.settled s.now)
      else (s.sync { t with connection := t.connection.finish.2 }).setTask (t.settled s.now).load :=
    rfl
  have hid : (t.settled s.now).load.id = t.id := by rw [id_load, Task.id_settled]
  have hsync := changes_sync s { t with connection := t.connection.finish.2 }
  have hnumber := lastNumber_sync s { t with connection := t.connection.finish.2 }
  rw [hcomplete, Task.completed]
  unfold Peer.completed
  split
  · have hleave := puts_leave (s.sync { t with connection := t.connection.finish.2 })
      (t.settled s.now)
    refine Puts.after (r := (s.sync { t with connection := t.connection.finish.2 }).registry)
      (g := Peer.departed) hleave ?_ hnumber
    rw [Task.id_departed, Task.id_settled]
    exact hsync
  · exact ⟨_, rfl, by rw [hid]; exact hsync, hnumber⟩

theorem puts_completeRead (s : Server) (t : Task) :
    s.Puts ((t.refreshed s.now).completed s.now) (·.completed t.connection.finish.2)
      (s.completeRead t) := by
  have hcomplete := puts_complete s (t.refreshed s.now)
  rw [Task.connection_refreshed] at hcomplete
  exact hcomplete

theorem puts_complete_after {r : Registry} (hchanges : s.registry.Changes t.id f r)
    (hnumber : r.lastNumber = s.registry.lastNumber) :
    s.Puts (t.completed s.now) (fun p => (f p).completed t.connection.finish.2)
      ({ s with registry := r }.complete t) := by
  refine (puts_complete { s with registry := r } t).after ?_ hnumber
  rw [Task.id_completed]
  exact hchanges

/-- The registry when the requests of a step have been carried out. -/
def asked (s : Server) (action : Action) : Registry :=
  (s.registry.performAll (s.requests action)).2

/-- A step of the task `t`, seen from everywhere: it makes `t'` of the task, changes its entry by
`f` after what the application asks for on the way, and tells the application what there is to tell.
-/
structure Turned (s : Server) (action : Action) (t t' : Task) (f : Peer → Peer) (s' : Server) :
    Prop where
  turn : ∀ p, (s.asked action).peer? t.id = some p → Turn s.now t p action t' (f p)
  same : t'.id = t.id
  entries : (s.asked action).Changes t.id f s'.registry
  tasks : s'.tasks = (s.setTask t').tasks
  notices : ∀ id, s'.notices id = s.notices id ++ if id = t.id then t.tells action else []
  now : s'.now = s.now
  lastNumber : s'.registry.lastNumber = s.registry.lastNumber

theorem notices_notify (s : Server) (caller id : ConnectionId) (notice : Notice) :
    (s.notify caller notice).notices id =
      s.notices id ++ if id = caller then [notice] else [] := by
  unfold notices notify
  by_cases hid : id = caller
  · simp [hid]
  · simp [hid, Ne.symm hid]

theorem turned_of_puts {action : Action} (hputs : s.Puts t' f s')
    (hturn : ∀ p, s.registry.peer? t.id = some p → Turn s.now t p action t' (f p))
    (hid : t'.id = t.id) (hrequests : s.requests action = []) (htells : t.tells action = []) :
    s.Turned action t t' f s' := by
  obtain ⟨r, rfl, hchanges, hnumber⟩ := hputs
  rw [hid] at hchanges
  have hasked : s.asked action = s.registry := by rw [asked, hrequests]; rfl
  refine ⟨?_, hid, ?_, rfl, fun id => ?_, rfl, hnumber⟩
  · rw [hasked]
    exact hturn
  · rw [hasked]
    exact hchanges
  · rw [htells, ite_self, List.append_nil]
    rfl

theorem turned_read (s : Server) {data : Bytes} (hcan : t.canRead = true) (hdata : data ≠ [])
    (hlength : data.length ≤ Task.readChunk) :
    ∃ t' f, s.Turned (.read t.id data) t t' f (s.read t data) := by
  unfold Server.read
  split
  · rename_i events c hreceive
    have hsync := changes_sync s { t with connection := c }
    have hnumber := lastNumber_sync s { t with connection := c }
    dsimp only
    split
    · rename_i hempty
      obtain rfl : events = [] := List.isEmpty_iff.mp hempty
      have hputs := puts_completeRead (s.sync { t with connection := c })
        { t with connection := c, undelivered := [] }
      refine ⟨_, _, turned_of_puts (hputs.after ?_ hnumber)
        (fun p _ => .unheard hcan hdata hlength hreceive) (Task.id_completedRead ..) rfl rfl⟩
      rw [Task.id_completedRead]
      exact hsync
    · rename_i hevents
      refine ⟨_, _, turned_of_puts ⟨_, rfl, hsync, hnumber⟩
        (fun p _ => .heard hcan hdata hlength hreceive ?_) rfl rfl rfl⟩
      simpa using hevents
  · rename_i e c hreceive
    exact ⟨_, _, turned_of_puts (puts_leave s { t with connection := c })
      (fun p _ => .failed hcan hdata hlength hreceive) (Task.id_departed _ _) rfl rfl⟩
  · rename_i c hreceive
    exact ⟨_, _, turned_of_puts (puts_update s { t with connection := c, stage := .abandoned } _)
      (fun p _ => .abandoned hcan hdata hlength hreceive) rfl rfl rfl⟩

theorem turned_take (hcan : t.canTake = true) (h : s.take t = some s') :
    ∃ t' f, s.Turned (.take t.id) t t' f s' := by
  unfold Server.take at h
  split at h
  · rename_i message r htake
    obtain ⟨p, rest, hentry, hqueue, rfl⟩ := exists_of_take htake
    cases h
    have hid : (t.put message).id = t.id := by rw [Task.put_eq]
    have hchanges : s.registry.Changes (t.put message).id (fun p => { p with queue := rest })
        (s.registry.update t.id fun p => { p with queue := rest }) := by
      rw [hid]
      exact Registry.changes_update _ _ _
    refine ⟨_, _, turned_of_puts (puts_complete_after hchanges rfl) (fun q hq => ?_)
      ((Task.id_completed ..).trans hid) rfl rfl⟩
    obtain rfl : p = q := Option.some.inj (hentry.symm.trans hq)
    exact .take hcan hqueue
  · simp at h

theorem turned_wake (hcan : t.isWaiting = true)
    (hwoken : (s.registry.peer? t.id).any Peer.woken = true) :
    ∃ t' f, s.Turned (.wake t.id) t t' f (s.wake t) := by
  obtain ⟨p, hentry, hp⟩ := (Option.any_eq_true ..).mp hwoken
  have hsame : ∀ q, s.registry.peer? t.id = some q → p = q :=
    fun q hq => Option.some.inj (hentry.symm.trans hq)
  have hchanges : s.registry.Changes t.id (fun p => { p with woken := false, closeNumber := 0 })
      (s.registry.woken t.id) :=
    Registry.peer?_woken s.registry t.id
  by_cases hcode : p.closeNumber = 0
  · rw [wake_of_none fun q hq => hsame q hq ▸ hcode]
    refine ⟨_, _, turned_of_puts (puts_complete_after hchanges (Registry.lastNumber_woken ..))
      (fun q hq => ?_) (Task.id_completed ..) rfl rfl⟩
    obtain rfl := hsame q hq
    exact .wake hcan hp hcode
  · rw [wake_of_request hentry hcode]
    have hid := t.id_dismissed p
    have hdropped : s.registry.Changes (t.dismissed p).id
        (fun p => { p with woken := false, closeNumber := 0, queue := [] })
        ((s.registry.woken t.id).update t.id fun p => { p with queue := [] }) := by
      rw [hid]
      exact hchanges.trans (Registry.changes_update _ _ _)
    refine ⟨_, _, turned_of_puts (puts_complete_after hdropped (Registry.lastNumber_woken ..))
      (fun q hq => ?_) ((Task.id_completed ..).trans hid) rfl rfl⟩
    obtain rfl := hsame q hq
    exact .dismiss hcan hp hcode

theorem turned_expire (hdue : t.isDue s.now = true) :
    ∃ t' f, s.Turned (.expire t.id) t t' f (s.expire t) := by
  unfold Server.expire
  split
  · rename_i hstage
    split
    · rename_i e c htimeout
      exact ⟨_, _, turned_of_puts (puts_leave s { t with connection := c })
        (fun p _ => .fail hdue hstage htimeout) (Task.id_departed _ _) rfl rfl⟩
    · rename_i c htimeout
      exact ⟨_, _, turned_of_puts (puts_complete s { t with connection := c })
        (fun p _ => .timeOut hdue hstage htimeout) (Task.id_completed _ _) rfl rfl⟩
  · rename_i hstage
    exact ⟨_, _, turned_of_puts (puts_setTask s t.stopped) (fun p _ => .giveUp hdue hstage) rfl rfl
      rfl⟩

theorem turned_of_notify {notice : Notice} (htask : s.task? t.id = some t)
    (hrespond : s.application.answers t = s.application.respond t.id notice)
    (htells : t.tells (.deliver t.id) = [notice])
    (hputs : (s.notify t.id notice).Puts t' f s')
    (hturn : ∀ p, Turn s.now t p (.deliver t.id) t' (f p)) (hid : t'.id = t.id) :
    s.Turned (.deliver t.id) t t' f s' := by
  obtain ⟨r, rfl, hchanges, hnumber⟩ := hputs
  have hrequests : s.requests (.deliver t.id) = s.application.respond t.id notice := by
    rw [requests, htask, Option.elim_some, hrespond]
  have hasked : (s.notify t.id notice).registry = s.asked (.deliver t.id) := by
    rw [asked, hrequests]
    rfl
  rw [hasked, hid] at hchanges
  refine ⟨fun p _ => hturn p, hid, hchanges, rfl, fun id => ?_, rfl, ?_⟩
  · rw [htells]
    exact notices_notify s t.id id notice
  · rw [hasked] at hnumber
    exact hnumber.trans (Registry.lastNumber_performAll ..)

theorem exists_puts_of_pass {event : Event} {rest : List Event} (hcan : t.canDeliver = true)
    (hevents : t.undelivered = event :: rest) (s : Server) :
    ∃ t' f, s.Puts t' f
        (if rest.isEmpty && t.stage = .driving then s.completeRead (t.passing event rest)
        else s.setTask (t.passing event rest)) ∧
      (∀ p, Turn s.now t p (.deliver t.id) t' (f p)) ∧ t'.id = t.id := by
  split
  · rename_i hlast
    simp only [Bool.and_eq_true, List.isEmpty_iff, decide_eq_true_eq] at hlast
    obtain ⟨rfl, hstage⟩ := hlast
    refine ⟨_, _, puts_completeRead s (t.passing event []),
      fun p => .passLast hcan hevents hstage, Task.id_completedRead ..⟩
  · rename_i hmore
    refine ⟨_, _, puts_setTask s (t.passing event rest), fun p => .pass hcan hevents ?_, rfl⟩
    rw [← not_and_or]
    simpa using hmore

theorem turned_deliver (htask : s.task? t.id = some t) (hcan : t.canDeliver = true) :
    ∃ t' f, s.Turned (.deliver t.id) t t' f (s.deliver t) := by
  unfold Server.deliver
  split
  · rename_i hevents
    unfold Server.finish
    by_cases hreporting : t.reporting = true
    · rw [if_pos hreporting]
      refine ⟨_, _, turned_of_notify htask ?_ ?_
        (puts_update (s.notify t.id .closed) { t with stage := .finished } Peer.stopReceiving)
        (fun p => .finish hcan hevents) rfl⟩
      · simp [Application.answers, hevents, hreporting]
      · simp [Task.tells, hevents, hreporting]
    · rw [if_neg hreporting]
      refine ⟨_, _, turned_of_puts (puts_update s { t with stage := .finished } Peer.stopReceiving)
        (fun p _ => .finish hcan hevents) rfl ?_ ?_⟩
      · simp [requests, htask, Application.answers, hevents, hreporting]
      · simp [Task.tells, hevents, hreporting]
  · rename_i event rest hevents
    have hpass := exists_puts_of_pass hcan hevents
    cases event with
    | opened =>
        obtain ⟨t', f, hputs, hturn, hid⟩ := hpass (s.notify t.id .opened)
        refine ⟨t', f, turned_of_notify htask ?_ ?_ hputs hturn hid⟩
        · rw [Application.answers, hevents]
        · rw [Task.tells, hevents]
    | message text =>
        obtain ⟨t', f, hputs, hturn, hid⟩ := hpass (s.notify t.id (.message text))
        refine ⟨t', f, turned_of_notify htask ?_ ?_ hputs hturn hid⟩
        · rw [Application.answers, hevents]
        · rw [Task.tells, hevents]
    | closed =>
        obtain ⟨t', f, hputs, hturn, hid⟩ := hpass s
        refine ⟨t', f, turned_of_puts hputs (fun p _ => hturn p) hid ?_ ?_⟩
        · rw [requests, htask, Option.elim_some, Application.answers, hevents]
        · rw [Task.tells, hevents]

end Server

/-- The connection whose task takes the step, if it is the step of a task. -/
def Action.task? : Action → Option ConnectionId
  | .accept | .request _ | .wait _ => none
  | .start id | .read id _ | .hangUp id | .write id _ | .breakOff id | .take id | .wake id
  | .expire id | .drained id | .deliver id => some id

namespace Server

variable {s s' : Server} {id : ConnectionId} {action : Action}

/-- A step of a task is a turn of it, whatever else there is in the server. -/
theorem turned_of_act (h : s.act action = some s') (hown : action.task? = some id) :
    ∃ t t' f, s.task? id = some t ∧ t.id = id ∧ s.Turned action t t' f s' := by
  cases action with
  | accept | request | wait => simp [Action.task?] at hown
  | start other =>
      obtain ⟨t, htask, rfl, hstage, hstep⟩ := exists_of_onTask h
      cases hown
      cases hstep
      have hstage : t.stage = .spawned := by simpa using hstage
      exact ⟨t, _, _, htask, rfl, turned_of_puts (puts_start s t) (fun p _ => .start hstage) rfl rfl
        rfl⟩
  | read other data =>
      obtain ⟨t, htask, rfl, hcan, hstep⟩ := exists_of_onTask h
      cases hown
      cases hstep
      simp only [Bool.and_eq_true, Bool.not_eq_true', List.isEmpty_eq_false_iff,
        decide_eq_true_eq] at hcan
      obtain ⟨t', f, hturned⟩ := turned_read s hcan.1.1 hcan.1.2 hcan.2
      exact ⟨t, t', f, htask, rfl, hturned⟩
  | hangUp other =>
      obtain ⟨t, htask, rfl, hcan, hstep⟩ := exists_of_onTask h
      cases hown
      cases hstep
      exact ⟨t, _, _, htask, rfl, turned_of_puts (puts_leave s t) (fun p _ => .hangUp hcan)
        (Task.id_departed ..) rfl rfl⟩
  | write other count =>
      obtain ⟨t, htask, rfl, hcan, hstep⟩ := exists_of_onTask h
      cases hown
      cases hstep
      simp only [Bool.and_eq_true, decide_eq_true_eq] at hcan
      obtain ⟨⟨hcan, hpos⟩, hle⟩ := hcan
      split
      · rename_i hstage
        exact ⟨t, _, _, htask, rfl, turned_of_puts
          (puts_complete s { t with writing := t.writing.drop count })
          (fun p _ => .write hcan hpos hle hstage) (Task.id_completed ..) rfl rfl⟩
      · rename_i hstage
        exact ⟨t, _, _, htask, rfl, turned_of_puts
          (puts_setTask s { t with writing := t.writing.drop count }.load)
          (fun p _ => .flush hcan hpos hle hstage) (id_load _) rfl rfl⟩
  | breakOff other =>
      obtain ⟨t, htask, rfl, hcan, hstep⟩ := exists_of_onTask h
      cases hown
      cases hstep
      split
      · rename_i hstage
        exact ⟨t, _, _, htask, rfl, turned_of_puts (puts_leave s t)
          (fun p _ => .breakOff hcan hstage) (Task.id_departed ..) rfl rfl⟩
      · rename_i hstage
        exact ⟨t, _, _, htask, rfl, turned_of_puts (puts_setTask s t.stopped)
          (fun p _ => .cutOff hcan hstage) rfl rfl rfl⟩
  | take other =>
      obtain ⟨t, htask, rfl, hcan, hstep⟩ := exists_of_onTask h
      cases hown
      obtain ⟨t', f, hturned⟩ := turned_take hcan hstep
      exact ⟨t, t', f, htask, rfl, hturned⟩
  | wake other =>
      obtain ⟨t, htask, rfl, hcan, hstep⟩ := exists_of_onTask h
      cases hown
      cases hstep
      simp only [Bool.and_eq_true] at hcan
      obtain ⟨t', f, hturned⟩ := turned_wake hcan.1 hcan.2
      exact ⟨t, t', f, htask, rfl, hturned⟩
  | expire other =>
      obtain ⟨t, htask, rfl, hdue, hstep⟩ := exists_of_onTask h
      cases hown
      cases hstep
      obtain ⟨t', f, hturned⟩ := turned_expire hdue
      exact ⟨t, t', f, htask, rfl, hturned⟩
  | drained other =>
      obtain ⟨t, htask, rfl, hcan, hstep⟩ := exists_of_onTask h
      cases hown
      cases hstep
      exact ⟨t, _, _, htask, rfl, turned_of_puts (puts_setTask s t.stopped)
        (fun p _ => .drained hcan) rfl rfl rfl⟩
  | deliver other =>
      obtain ⟨t, htask, rfl, hcan, hstep⟩ := exists_of_onTask h
      cases hown
      cases hstep
      obtain ⟨t', f, hturned⟩ := turned_deliver htask hcan
      exact ⟨t, t', f, htask, rfl, hturned⟩

/-- The registry has an entry for a connection that has a task. -/
def Known (s : Server) (id : ConnectionId) : Prop :=
  ∀ t, s.task? id = some t → ∃ p, s.registry.peer? id = some p

theorem known_new (options : Options) (application : Application) (id : ConnectionId) :
    (new options application).Known id := by
  intro t ht
  simp [new, task?] at ht

/-- A step as it looks from one connection: the connection is new, or its own task takes the step,
or the step only asks for something, which may concern the connection. -/
inductive Glance (s : Server) (id : ConnectionId) (action : Action) (s' : Server) : Prop where
  | accepted (haction : action = .accept) (hid : s.registry.nextId.1 = id)
      (htask : s'.task? id = (s.task? id).or (some (.new id s.options)))
      (hentry : s'.registry.peer? id = some (.new (max s.options.maxQueued 1)))
      (hnotices : s'.notices id = s.notices id)
  | turned {t t' : Task} {p p' : Peer} (htask : s.task? id = some t)
      (hentry : (s.asked action).peer? id = some p) (hturn : Turn s.now t p action t' p')
      (htask' : s'.task? id = some t') (hentry' : s'.registry.peer? id = some p')
      (hnotices : s'.notices id = s.notices id ++ t.tells action)
  | aside (hother : action.task? ≠ some id) (htask : s'.task? id = s.task? id)
      (hentry : s'.registry.peer? id = (s.asked action).peer? id)
      (hnotices : s'.notices id = s.notices id)

theorem exists_peer?_performAll {r : Registry} {p : Peer} (h : r.peer? id = some p)
    (requests : List Request) : ∃ p', (r.performAll requests).2.peer? id = some p' := by
  have hpassed := Registry.passed_performAll r id requests
  rw [h] at hpassed
  generalize (r.performAll requests).2.peer? id = entry at hpassed
  cases hpassed with
  | offered => exact ⟨_, rfl⟩

theorem task?_of_tasks {s₁ s₂ : Server} (h : s₁.tasks = s₂.tasks) (id : ConnectionId) :
    s₁.task? id = s₂.task? id := by
  rw [task?, task?, h]

/-- Every step looks from every connection like one of three. -/
theorem glance_of_act (h : s.act action = some s') (hknown : s.Known id) :
    s.Glance id action s' := by
  cases hown : action.task? with
  | some other =>
      obtain ⟨t, t', f, htask, rfl, hturned⟩ := turned_of_act h hown
      have htasks := task?_of_tasks hturned.tasks id
      rw [task?_setTask, hturned.same] at htasks
      have hnotices := hturned.notices id
      by_cases hid : id = t.id
      · subst hid
        obtain ⟨q, hq⟩ := hknown t htask
        obtain ⟨p, hp⟩ := exists_peer?_performAll hq (s.requests action)
        rw [htask, Option.map_some, if_pos rfl] at htasks
        rw [if_pos rfl] at hnotices
        exact .turned htask hp (hturned.turn p hp) htasks
          (Registry.own_of_changes hturned.entries hp) hnotices
      · rw [if_neg hid, List.append_nil] at hnotices
        simp only [hid, if_false, Option.map_id'] at htasks
        refine .aside ?_ htasks (Registry.others_of_changes hturned.entries hid) hnotices
        rw [hown]
        simpa using Ne.symm hid
  | none =>
      cases action with
      | accept =>
          cases h
          have htask := task?_accept s id
          have hentry := Registry.peer?_insert s.registry.nextId.2 s.registry.nextId.1 id
            (.new (max s.options.maxQueued 1))
          by_cases hid : s.registry.nextId.1 = id
          · rw [if_pos hid] at htask
            rw [if_pos hid.symm] at hentry
            exact .accepted rfl hid htask hentry rfl
          · rw [if_neg hid, Option.or_none] at htask
            rw [if_neg (Ne.symm hid)] at hentry
            exact .aside (by simp [Action.task?]) htask hentry rfl
      | request request =>
          cases h
          exact .aside (by simp [Action.task?]) rfl rfl rfl
      | wait duration =>
          cases h
          exact .aside (by simp [Action.task?]) rfl rfl rfl
      | _ => simp [Action.task?] at hown

theorem known_act (hknown : s.Known id) (h : s.act action = some s') : s'.Known id := by
  intro t' htask'
  cases glance_of_act h hknown with
  | accepted _ _ _ hentry => exact ⟨_, hentry⟩
  | turned _ _ _ _ hentry => exact ⟨_, hentry⟩
  | aside _ htask hentry =>
      obtain ⟨p, hp⟩ := hknown t' (htask ▸ htask')
      obtain ⟨p', hp'⟩ := exists_peer?_performAll hp (s.requests action)
      exact ⟨p', hentry.trans hp'⟩

end Server

end WebSocket

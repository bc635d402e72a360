import WebSocket.Proofs.RegistryOperations
import WebSocket.Proofs.TaskQueues
import WebSocket.Server.Basic

namespace WebSocket

namespace Registry

/-- The registry when a task has taken its wake-up and the request to close, if there is one. -/
def woken (r : Registry) (id : ConnectionId) : Registry :=
  ((r.takeWakeUp id).2.takeCloseRequest id).2

theorem peer?_woken (r : Registry) (id other : ConnectionId) :
    (r.woken id).peer? other = (r.peer? other).map fun p =>
      if other = id then { p with woken := false, closeNumber := 0 } else p := by
  rw [woken, peer?_takeCloseRequest, peer?_takeWakeUp, Option.map_map]
  congr 1
  funext p
  by_cases hsame : other = id <;> simp [hsame]

theorem takeCloseRequest_takeWakeUp (r : Registry) (id : ConnectionId) :
    ((r.takeWakeUp id).2.takeCloseRequest id).1 =
      (r.peer? id).bind fun p => p.takeCloseRequest.1 := by
  have hpeer := peer?_takeWakeUp r id id
  cases hentry : r.peer? id with
  | none =>
      rw [hentry] at hpeer
      simp [takeCloseRequest, hpeer]
  | some p =>
      rw [hentry] at hpeer
      simp [takeCloseRequest, hpeer, Peer.takeCloseRequest]

end Registry

/-- A task that only tells the application of the end has a closed connection. -/
def Task.Over (t : Task) : Prop :=
  t.stage = .ending → t.connection.phase = .closed

theorem Task.Over.steady {t t' : Task} (h : t.Over) (hstage : t'.stage = .ending → t.stage = .ending)
    (hsteady : t.connection.Steady t'.connection) : t'.Over := by
  intro hending
  have hclosed := hsteady.phase
  rw [h (hstage hending)] at hclosed
  exact le_antisymm (Phase.le_closed _) hclosed

namespace Server

theorem id_of_task? {s : Server} {id : ConnectionId} {t : Task} (h : s.task? id = some t) :
    t.id = id := by
  simpa using List.find?_some h

theorem task?_setTask (s : Server) (t : Task) (id : ConnectionId) :
    (s.setTask t).task? id = (s.task? id).map fun other => if id = t.id then t else other := by
  unfold task? setTask
  induction s.tasks with
  | nil => rfl
  | cons other tasks ih =>
      rw [List.map_cons, List.find?_cons, List.find?_cons, ih]
      by_cases hother : other.id = id
      · by_cases hsame : id = t.id <;> simp [hother, hsame]
      · by_cases hsame : other.id = t.id
        · rw [hsame] at hother
          simp [hsame, hother]
        · simp [hsame, hother]

@[simp] theorem registry_setTask (s : Server) (t : Task) : (s.setTask t).registry = s.registry := rfl

/-- What a server knows about one connection, and what the messages of the connection have come
to. -/
inductive Kept : Option Task → Option Peer → Log → Prop where
  | unknown : Kept none none ⟨[], []⟩
  | known {t : Task} {p : Peer} {log : Log} : Linked p t.connection log → t.Over →
      Kept (some t) (some p) log

/-- The server keeps task, entry and messages of a connection together. -/
def Tracks (s : Server) (id : ConnectionId) (log : Log) : Prop :=
  Kept (s.task? id) (s.registry.peer? id) log

variable {s s' : Server} {id : ConnectionId} {log log' : Log} {t t' : Task}

theorem tracks_setTask (h : s.Tracks id log) (htask : s.task? t.id = some t) :
    (s.setTask t).Tracks id log := by
  have hsame : (s.setTask t).task? id = s.task? id := by
    rw [task?_setTask]
    by_cases hid : id = t.id
    · rw [hid, htask]
      simp
    · simp [hid]
  rw [Tracks, hsame]
  exact h

/-- A step that works on the task in hand and on the entry of its connection. -/
theorem Tracks.change (f : Peer → Peer) (h : (s.setTask t).Tracks id log) (hid : t'.id = t.id)
    (htask : s'.task? id = s.task? id)
    (hpeer : s'.registry.peer? id =
      (s.registry.peer? id).map fun p => if id = t.id then f p else p)
    (hother : (id = t.id → s.registry.peer? t.id = none) → log' = log)
    (hown : id = t.id → ∀ p, s.registry.peer? t.id = some p → Linked p t.connection log → t.Over →
      Linked (f p) t'.connection log')
    (hover : t.Over → t'.Over) : (s'.setTask t').Tracks id log' := by
  unfold Tracks at h ⊢
  rw [task?_setTask, registry_setTask] at h
  rw [task?_setTask, registry_setTask, htask, hpeer, hid]
  by_cases hsame : id = t.id
  · subst hsame
    simp only [if_true] at h ⊢
    generalize s.task? t.id = found at h ⊢
    cases hentry : s.registry.peer? t.id with
    | none =>
        rw [hentry] at h
        rw [hother fun _ => hentry]
        cases found with
        | none => exact h
        | some found => cases h
    | some p =>
        rw [hentry] at h
        cases found with
        | none => cases h
        | some found =>
            cases h with
            | known hlinked hover' => exact .known (hown rfl p hentry hlinked hover') (hover hover')
  · simp only [hsame, if_false, Option.map_id'] at h ⊢
    rw [hother fun heq => absurd heq hsame]
    exact h

theorem Tracks.steady (h : (s.setTask t).Tracks id log) (hid : t'.id = t.id)
    (hsteady : t.connection.Steady t'.connection) (hstage : t'.stage = .ending → t.stage = .ending) :
    (s.setTask t').Tracks id log :=
  h.change (fun p => p) hid rfl (by simp) (fun _ => rfl)
    (fun _ _ _ hlinked _ => hlinked.steady hsteady) fun hover => hover.steady hstage hsteady

theorem steady_load (t : Task) : t.connection.Steady t.load.connection := by
  unfold Task.load
  split
  · exact Connection.steady_takeOutbound _
  · exact .refl _

theorem id_load (t : Task) : t.load.id = t.id := by
  unfold Task.load
  split <;> rfl

theorem stage_load (t : Task) : t.load.stage = t.stage := by
  unfold Task.load
  split <;> rfl

theorem Tracks.load (h : (s.setTask t).Tracks id log) : (s.setTask t.load).Tracks id log := by
  refine h.steady (id_load t) (steady_load t) fun hending => ?_
  rwa [stage_load] at hending

theorem peer?_sync (s : Server) (t : Task) (id : ConnectionId) :
    (s.sync t).registry.peer? id = (s.registry.peer? id).map fun p =>
      if id = t.id then
        { p with phase := t.connection.phase, scheme := t.connection.scheme.or p.scheme }
      else p := by
  unfold sync
  cases hscheme : t.connection.scheme with
  | none =>
      simp only [Registry.setPhase, Registry.peer?_update, Option.or]
  | some scheme =>
      simp only [Registry.setPhase, Registry.setScheme, Registry.peer?_update, Option.map_map]
      congr 1
      funext p
      by_cases hsame : id = t.id <;> simp [hsame]

theorem Tracks.sync (h : (s.setTask t).Tracks id log) :
    ((s.sync t).setTask t).Tracks id log := by
  refine h.change _ rfl rfl (peer?_sync s t id) (fun _ => rfl) (fun _ p _ hlinked _ => ?_)
    fun hover => hover
  refine hlinked.entry rfl ?_ fun hphase => .inr hphase
  cases hscheme : t.connection.scheme with
  | none => exact .inl rfl
  | some scheme => exact .inr rfl

theorem Tracks.leave (h : (s.setTask t).Tracks id log) : (s.leave t).Tracks id log := by
  unfold Server.leave
  refine Tracks.load ?_
  refine h.change (fun p => { p with phase := .closed, listed := false }) rfl rfl ?_ (fun _ => rfl)
    (fun _ p _ hlinked _ => hlinked.entry rfl (.inl rfl) (by simp)) (by simp [Task.Over])
  simp only [Registry.remove, Registry.setPhase, Registry.peer?_update, Option.map_map]
  congr 1
  funext p
  by_cases hsame : id = t.id <;> simp [hsame, Peer.unlist]

theorem Tracks.complete (h : (s.setTask t).Tracks id log) : (s.complete t).Tracks id log := by
  have hfinished : (s.setTask { t with
      connection := t.connection.finish.2
      reporting := t.reporting || t.connection.finish.1.isSome }).Tracks id log :=
    h.steady rfl (Connection.steady_finish _) fun hending => hending
  have hsynced := hfinished.sync
  unfold Server.complete
  dsimp only
  split
  · split
    · exact hsynced.leave
    · exact Tracks.leave (hsynced.steady rfl (.refl _) fun hending => hending)
  · split
    · exact hsynced.load
    · exact Tracks.load (hsynced.steady rfl (.refl _) fun hending => hending)

theorem Tracks.completeRead (h : (s.setTask t).Tracks id log) :
    (s.completeRead t).Tracks id log := by
  unfold Server.completeRead
  split
  · exact Tracks.complete (h.steady rfl (.refl _) fun hending => hending)
  · exact h.complete

theorem Tracks.start (h : (s.setTask t).Tracks id log) : (s.start t).Tracks id log := by
  unfold Server.start
  exact Tracks.sync (h.steady rfl (Connection.steady_accept _) (by simp))

theorem Tracks.stopWriting (h : (s.setTask t).Tracks id log) : (s.stopWriting t).Tracks id log :=
  h.change (fun p => p) rfl rfl (by simp) (fun _ => rfl)
    (fun _ _ _ hlinked _ => hlinked.steady (Connection.steady_onDisconnect _))
    fun _ _ => Connection.phase_onDisconnect _

theorem Tracks.expire (h : (s.setTask t).Tracks id log) : (s.expire t).Tracks id log := by
  have hlate : (s.setTask { t with connection := t.connection.onTimeout.2 }).Tracks id log :=
    h.steady rfl (Connection.steady_onTimeout _) fun hending => hending
  unfold Server.expire
  split
  · split
    · rename_i e c htimeout
      rw [htimeout] at hlate
      exact hlate.leave
    · rename_i c htimeout
      rw [htimeout] at hlate
      exact hlate.complete
  · exact h.stopWriting

theorem Tracks.stopReceiving (h : (s.setTask t).Tracks id log) (hid : t'.id = t.id)
    (hsteady : t.connection.Steady t'.connection)
    (hclosed : t.Over → t'.connection.phase = .closed) :
    ({ s with registry := s.registry.update t.id Peer.stopReceiving }.setTask t').Tracks id log := by
  -- The queue is thrown away with what it holds: a closed connection would not have sent it.
  refine h.change Peer.stopReceiving hid rfl (Registry.peer?_update ..) (fun _ => rfl)
    (fun _ p _ hlinked hover => ?_) fun hover _ => hclosed hover
  exact (hlinked.steady hsteady).silent (.inr (hclosed hover)) rfl

theorem phase_of_abandoned {c d : Connection} {data : Bytes} (h : c.receive data = (.abandoned, d)) :
    d.phase = .closed := by
  rw [Connection.receive_eq_conclude] at h
  cases hintake : c.accept.intake data with
  | waiting after => simp [hintake, Connection.Processed.conclude, Connection.takePending] at h
  | failed e after => simp [hintake, Connection.Processed.conclude] at h
  | abandoned after =>
      simp only [hintake, Connection.Processed.conclude, Prod.mk.injEq, true_and] at h
      rw [← h]

theorem Tracks.read (h : (s.setTask t).Tracks id log) (data : Bytes) :
    (s.read t data).Tracks id log := by
  have hsteady := Connection.steady_receive t.connection data
  unfold Server.read
  split
  · rename_i events c hreceive
    rw [hreceive] at hsteady
    have hreceived : (s.setTask { t with connection := c, undelivered := events }).Tracks id log :=
      h.steady rfl hsteady fun hending => hending
    have hsynced := hreceived.sync
    dsimp only
    split
    · exact hsynced.completeRead
    · exact hsynced
  · rename_i e c hreceive
    rw [hreceive] at hsteady
    exact Tracks.leave (h.steady rfl hsteady fun hending => hending)
  · rename_i c hreceive
    rw [hreceive] at hsteady
    exact h.stopReceiving rfl hsteady fun _ => phase_of_abandoned hreceive

theorem Kept.passed {entry entry' : Option Peer} {found : Option Task} {texts : List String}
    (h : Kept found entry log) (hpassed : Registry.Passed entry entry' texts) :
    Kept found entry' ⟨log.accepted ++ texts, log.queued⟩ := by
  cases h with
  | unknown =>
      cases hpassed
      exact .unknown
  | known hlinked hover =>
      cases hpassed with
      | offered hoffered => exact .known (hlinked.offered hoffered) hover

theorem Tracks.notify (h : (s.setTask t).Tracks id log) (caller : ConnectionId) (notice : Notice) :
    ((s.notify caller notice).setTask t).Tracks id
      ⟨log.accepted ++ s.registry.acceptsAll id (s.application.respond caller notice),
        log.queued⟩ :=
  Kept.passed h (Registry.passed_performAll s.registry id _)

theorem Tracks.finish (h : (s.setTask t).Tracks id log) (hending : t.stage = .ending) :
    (s.finish t).Tracks id
      ⟨log.accepted ++ s.registry.acceptsAll id
        (if t.reporting then s.application.respond t.id .closed else []), log.queued⟩ := by
  unfold Server.finish
  split
  · exact (h.notify t.id .closed).stopReceiving rfl (.refl _) fun hover => hover hending
  · rw [Registry.acceptsAll, List.append_nil]
    exact h.stopReceiving rfl (.refl _) fun hover => hover hending

theorem Log.queued_nil (log : Log) : (⟨log.accepted, log.queued ++ []⟩ : Log) = log := by
  simp

theorem exists_of_take {r r' : Registry} {message : Outbound}
    (h : r.take id = (.message message, r')) :
    ∃ p rest, r.peer? id = some p ∧ p.queue = message :: rest ∧
      r' = r.update id fun p => { p with queue := rest } := by
  unfold Registry.take at h
  split at h
  · simp at h
  rename_i p hpeer
  split at h
  · simp at h
  split at h
  · rename_i first rest hqueue
    simp only [Prod.mk.injEq, Registry.Taken.message.injEq] at h
    obtain ⟨rfl, rfl⟩ := h
    exact ⟨p, rest, hpeer, hqueue, rfl⟩
  · split at h <;> simp at h

theorem Tracks.take (h : (s.setTask t).Tracks id log) {p : Peer} {message : Outbound}
    {rest : List Outbound} (hpeer : s.registry.peer? t.id = some p)
    (hqueue : p.queue = message :: rest) :
    ({ s with registry := s.registry.update t.id fun p => { p with queue := rest } }.complete
      (t.put message)).Tracks id
        ⟨log.accepted, log.queued ++ if id = t.id then t.queues message else []⟩ := by
  have hput := Task.put_eq t message
  refine Tracks.complete (h.change (fun p => { p with queue := rest }) ?_ rfl
    (Registry.peer?_update ..) (fun hother => ?_) (fun hsame p' hpeer' hlinked _ => ?_) fun hover => ?_)
  · rw [hput]
  · rw [if_neg fun hsame => by simp [hother hsame] at hpeer]
    exact Log.queued_nil log
  · obtain rfl : p' = p := Option.some.inj (hpeer'.symm.trans hpeer)
    rw [if_pos hsame]
    exact hlinked.put hqueue rfl
  · exact hover.steady (fun hending => by rwa [hput] at hending) (Task.steady_put t message)

theorem wake_of_request {p : Peer} (hpeer : s.registry.peer? t.id = some p)
    (hcode : p.closeNumber ≠ 0) :
    s.wake t =
      { s with
        registry := (s.registry.woken t.id).update t.id fun p => { p with queue := [] } }.complete
        { t.putAll p.queue with
          connection := (t.putAll p.queue).connection.close (.ofNumber p.closeNumber) } := by
  have hfirst := Registry.takeCloseRequest_takeWakeUp s.registry t.id
  have hwoken := Registry.peer?_woken s.registry t.id t.id
  rw [hpeer, Option.bind_some, Peer.takeCloseRequest, if_neg hcode] at hfirst
  rw [hpeer, Option.map_some, if_pos rfl, Registry.woken] at hwoken
  unfold Server.wake Registry.woken
  dsimp only
  generalize (s.registry.takeWakeUp t.id).2.takeCloseRequest t.id = taken at hfirst hwoken ⊢
  obtain ⟨code, r⟩ := taken
  subst hfirst
  simp only at hwoken
  simp [hwoken]

theorem wake_of_none
    (h : ∀ p, s.registry.peer? t.id = some p → p.closeNumber = 0) :
    s.wake t = { s with registry := s.registry.woken t.id }.complete t := by
  have hfirst := Registry.takeCloseRequest_takeWakeUp s.registry t.id
  have hnone : (s.registry.peer? t.id).bind (fun p => p.takeCloseRequest.1) = none := by
    cases hpeer : s.registry.peer? t.id with
    | none => rfl
    | some p => simp [Peer.takeCloseRequest, h p hpeer]
  rw [hnone] at hfirst
  unfold Server.wake Registry.woken
  dsimp only
  generalize (s.registry.takeWakeUp t.id).2.takeCloseRequest t.id = taken at hfirst ⊢
  obtain ⟨code, r⟩ := taken
  subst hfirst
  rfl

/-- What a task queues for the network when it wakes up. -/
def handsOverAll (t : Task) (p : Peer) : List Bytes :=
  if p.closeNumber = 0 then [] else t.queuesAll p.queue

theorem Tracks.wake (h : (s.setTask t).Tracks id log) :
    (s.wake t).Tracks id ⟨log.accepted, log.queued ++
      if id = t.id then (s.registry.peer? t.id).elim [] (handsOverAll t) else []⟩ := by
  -- Without an entry, or without a request to close in it, the task has been woken for nothing.
  by_cases hrequest : ∃ p, s.registry.peer? t.id = some p ∧ p.closeNumber ≠ 0
  · obtain ⟨p, hpeer, hcode⟩ := hrequest
    rw [wake_of_request hpeer hcode, hpeer, Option.elim_some, handsOverAll, if_neg hcode]
    obtain ⟨c, hput, hsteady⟩ := t.exists_putAll_eq p.queue
    have hclosed : t.connection.Steady
        ((t.putAll p.queue).connection.close (.ofNumber p.closeNumber)) := by
      rw [hput]
      exact hsteady.trans (Connection.steady_close c _)
    refine Tracks.complete (h.change
      (fun p => { p with woken := false, closeNumber := 0, queue := [] }) ?_ rfl ?_
      (fun hother => ?_) (fun hsame p' hpeer' hlinked _ => ?_) fun hover => ?_)
    · rw [hput]
    · rw [Registry.peer?_update, Registry.peer?_woken, Option.map_map]
      congr 1
      funext p
      by_cases hsame : id = t.id <;> simp [hsame]
    · rw [if_neg fun hsame => by simp [hother hsame] at hpeer]
      exact Log.queued_nil log
    · obtain rfl : p' = p := Option.some.inj (hpeer'.symm.trans hpeer)
      rw [if_pos hsame]
      refine Linked.putAll hlinked ?_ ?_ ?_ _ <;> rfl
    · exact hover.steady (fun hending => by simpa [hput] using hending) hclosed
  · have hnone : ∀ p, s.registry.peer? t.id = some p → p.closeNumber = 0 := by
      intro p hpeer
      by_contra hcode
      exact hrequest ⟨p, hpeer, hcode⟩
    rw [wake_of_none hnone]
    refine Tracks.complete (h.change (fun p => { p with woken := false, closeNumber := 0 }) rfl rfl
      (Registry.peer?_woken ..) (fun hother => ?_) (fun hsame p hpeer hlinked _ => ?_)
      fun hover => hover)
    · by_cases hsame : id = t.id
      · rw [hother hsame, Option.elim_none, ite_self]
        exact Log.queued_nil log
      · rw [if_neg hsame]
        exact Log.queued_nil log
    · rw [if_pos hsame, hpeer, Option.elim_some, handsOverAll, if_pos (hnone p hpeer),
        Log.queued_nil]
      exact hlinked.entry rfl (.inl rfl) .inl

theorem exists_of_onTask {possible : Task → Bool} {step : Task → Option Server}
    (h : s.onTask id possible step = some s') :
    ∃ t, s.task? id = some t ∧ t.id = id ∧ possible t = true ∧ step t = some s' := by
  unfold onTask at h
  split at h
  · simp at h
  · rename_i t htask
    split at h
    · rename_i hpossible
      exact ⟨t, htask, id_of_task? htask, hpossible, h⟩
    · simp at h

/-- What a server is set up with. -/
def setup (s : Server) : Options × Application :=
  (s.options, s.application)

theorem setup_complete (s : Server) (t : Task) : (s.complete t).setup = s.setup := by
  unfold Server.complete
  dsimp only
  split <;> rfl

theorem setup_read (s : Server) (t : Task) (data : Bytes) :
    (s.read t data).setup = s.setup := by
  unfold Server.read
  split
  · dsimp only
    split
    · exact setup_complete _ _
    · rfl
  · rfl
  · rfl

theorem setup_wake (s : Server) (t : Task) : (s.wake t).setup = s.setup := by
  unfold Server.wake
  dsimp only
  split <;> exact setup_complete _ _

theorem setup_expire (s : Server) (t : Task) : (s.expire t).setup = s.setup := by
  unfold Server.expire
  split
  · split
    · rfl
    · exact setup_complete _ _
  · rfl

theorem setup_deliver (s : Server) (t : Task) : (s.deliver t).setup = s.setup := by
  unfold Server.deliver
  split
  · unfold Server.finish
    split <;> rfl
  · rename_i event rest hevents
    dsimp only
    split
    · rw [Server.completeRead, setup_complete]
      cases event <;> rfl
    · cases event <;> rfl

theorem setup_act {action : Action} (h : s.act action = some s') : s'.setup = s.setup := by
  cases action with
  | accept | request | wait =>
      cases h
      rfl
  | start | hangUp | drained =>
      obtain ⟨t, -, -, -, hstep⟩ := exists_of_onTask h
      cases hstep
      rfl
  | read =>
      obtain ⟨t, -, -, -, hstep⟩ := exists_of_onTask h
      cases hstep
      exact setup_read ..
  | write =>
      obtain ⟨t, -, -, -, hstep⟩ := exists_of_onTask h
      cases hstep
      split
      · exact setup_complete _ _
      · rfl
  | breakOff =>
      obtain ⟨t, -, -, -, hstep⟩ := exists_of_onTask h
      cases hstep
      split <;> rfl
  | take =>
      obtain ⟨t, -, -, -, hstep⟩ := exists_of_onTask h
      unfold Server.take at hstep
      split at hstep
      · cases hstep
        exact setup_complete _ _
      · simp at hstep
  | wake =>
      obtain ⟨t, -, -, -, hstep⟩ := exists_of_onTask h
      cases hstep
      exact setup_wake ..
  | expire =>
      obtain ⟨t, -, -, -, hstep⟩ := exists_of_onTask h
      cases hstep
      exact setup_expire ..
  | deliver =>
      obtain ⟨t, -, -, -, hstep⟩ := exists_of_onTask h
      cases hstep
      exact setup_deliver ..

theorem application_act {action : Action} (h : s.act action = some s') :
    s'.application = s.application :=
  congrArg Prod.snd (setup_act h)

theorem options_act {action : Action} (h : s.act action = some s') : s'.options = s.options :=
  congrArg Prod.fst (setup_act h)

end Server

end WebSocket

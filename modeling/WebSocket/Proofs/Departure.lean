import WebSocket.Proofs.TaskTurns

namespace WebSocket

/-- What a request is for the registry. -/
def Request.operation : Request → Registry.Operation
  | .send id text => .send id (.text text)
  | .broadcast text => .broadcast text
  | .disconnect id => .close id .normal

namespace Registry

/-- Whatever is asked of the registry, the connection is unknown to it then. -/
def Forgets (r : Registry) (id : ConnectionId) : Prop :=
  ∀ requests, let after := (r.performAll requests).2
    after.listed? id = none ∧
    (∀ text, (after.perform (.send id text)).1 = .done (.error (.unknownConnection id))) ∧
    (after.perform (.disconnect id)).1 = .done (.error (.unknownConnection id))

variable {r : Registry} {id : ConnectionId}

theorem apply_operation (r : Registry) (request : Request) :
    r.apply request.operation = some (r.perform request).2 := by
  cases request <;> rfl

theorem listed?_perform (h : r.listed? id = none) (request : Request) :
    (r.perform request).2.listed? id = none := by
  rcases entry_of_apply (r.apply_operation request) id with ⟨capacity, hinsert, -⟩ | hentry
  · cases request <;> simp [Request.operation] at hinsert
  rw [listed?, hentry]
  cases hbefore : r.peer? id with
  | none => rfl
  | some p =>
      have hunlisted := unlisted_of_listed? h hbefore
      have hwanes := p.wanes_under id request.operation
      rw [Option.map_some, Option.filter_some, if_neg]
      intro hlisted
      simp [hwanes.listed hlisted] at hunlisted

theorem listed?_performAll (h : r.listed? id = none) (requests : List Request) :
    (r.performAll requests).2.listed? id = none := by
  induction requests generalizing r with
  | nil => exact h
  | cons request requests ih => exact ih (listed?_perform h request)

theorem forgets_of_listed? (h : r.listed? id = none) : r.Forgets id := by
  intro requests after
  have hafter : after.listed? id = none := listed?_performAll h requests
  refine ⟨hafter, fun text => ?_, ?_⟩
  · simp [perform, send, hafter]
  · simp [perform, close, hafter]

end Registry

namespace Task

/-- Whether the task is done with its connection. -/
def hasLeft (t : Task) : Bool :=
  match t.stage with
  | .draining _ | .ending | .finished => true
  | .spawned | .driving | .abandoned => false

variable {t t' : Task} {p p' : Peer} {now : Time}

theorem unlisted_completed (h : (t.completed now).hasLeft = true) (hwaiting : t.isWaiting = true)
    {c : Connection} (hc : t.connection.finish.2 = c) (p : Peer) :
    (p.completed c).listed = false := by
  unfold Peer.completed
  split
  · rfl
  · rename_i hopen
    obtain ⟨hstage, -⟩ := undelivered_of_isWaiting (isWaiting_settled hwaiting now)
    rw [completed, hc, if_neg hopen, hasLeft, Server.stage_load, hstage] at h
    simp at h

/-- A task leaves the registry when it is done with its connection, and does not come back. -/
theorem unlisted_turn {action : Action} (hturn : Turn now t p action t' p')
    (h : t.hasLeft = true → p.listed = false) : t'.hasLeft = true → p'.listed = false := by
  intro hleft
  -- A task gets on in its stages only from one in which it has left already, or by leaving now.
  have hdraining : (∃ limit, t.stage = .draining limit) → p.listed = false := by
    rintro ⟨limit, hstage⟩
    exact h (by rw [hasLeft, hstage])
  cases hturn with
  | start => simp [hasLeft, started] at hleft
  | heard hcan => simp [hasLeft, (undelivered_of_isWaiting (isWaiting_of_canRead hcan)).1] at hleft
  | unheard hcan =>
      obtain ⟨hstage, -⟩ := undelivered_of_isWaiting (isWaiting_of_canRead hcan)
      refine unlisted_completed hleft (isWaiting_refreshed ?_ now) ?_ _
      · simp [isWaiting, hstage]
      · rw [connection_refreshed]
  | abandoned => simp [hasLeft] at hleft
  | failed | hangUp | breakOff | fail => rfl
  | write hcan _ _ hstage =>
      have hwaiting := isWaiting_of_canWrite hcan hstage
      exact unlisted_completed hleft hwaiting rfl _
  | flush =>
      rw [hasLeft, Server.stage_load] at hleft
      exact h hleft
  | cutOff hcan hstage => exact hdraining (draining_of_canWrite hcan hstage)
  | take hcan =>
      exact unlisted_completed hleft (isWaiting_put (isWaiting_of_canTake hcan) _) rfl _
  | wake hcan => exact unlisted_completed hleft hcan rfl _
  | dismiss hcan => exact unlisted_completed hleft (isWaiting_dismissed hcan p) rfl _
  | timeOut hdue hstage =>
      have hwaiting := isWaiting_of_isDue hdue hstage
      exact unlisted_completed hleft hwaiting rfl _
  | giveUp hdue hstage => exact hdraining (draining_of_isDue hdue hstage)
  | drained hcan => exact hdraining (draining_of_isDrained hcan)
  | pass => exact h hleft
  | passLast hcan hevents hstage =>
      refine unlisted_completed hleft (isWaiting_refreshed ?_ now) ?_ _
      · simp [isWaiting, passing, hstage]
      · rw [connection_refreshed]
        rfl
  | finish hcan hevents =>
      refine h ?_
      cases hstage : t.stage <;> simp [canDeliver, hevents, hasLeft, hstage] at hcan ⊢

end Task

namespace Server

variable {s s' : Server} {id : ConnectionId} {action : Action} {n : Nat}
  {steps : List (Application × Action)}

/-- A connection whose task is done with it is not in the registry. -/
def Released (s : Server) (id : ConnectionId) : Prop :=
  ∀ t, s.task? id = some t → t.hasLeft = true → s.registry.listed? id = none

/-- There have been `n` connections, and they have got the numbers from one to `n`. -/
structure Numbered (s : Server) (n : Nat) : Prop where
  last : s.registry.lastNumber.toNat = n
  tasks : ∀ t ∈ s.tasks, t.id.number.toNat ≤ n

theorem numbered_new (options : Options) (application : Application) :
    (new options application).Numbered 0 where
  last := rfl
  tasks := by simp [new]

theorem toNat_nextId (h : s.Numbered n) (hn : n + 1 < UInt64.size) :
    s.registry.nextId.1.number.toNat = n + 1 := by
  change (s.registry.lastNumber + 1).toNat = n + 1
  rw [UInt64.toNat_add, h.last]
  exact Nat.mod_eq_of_lt hn

theorem numbered_act (h : s.Numbered n) (hact : s.act action = some s')
    (hn : n + (if action = .accept then 1 else 0) < UInt64.size) :
    s'.Numbered (n + if action = .accept then 1 else 0) := by
  cases hown : action.task? with
  | some id =>
      obtain ⟨t, t', f, htask, -, hturned⟩ := turned_of_act hact hown
      have haccept : action ≠ .accept := by
        rintro rfl
        simp [Action.task?] at hown
      rw [if_neg haccept]
      refine ⟨hturned.lastNumber ▸ h.last, fun other hother => ?_⟩
      rw [hturned.tasks] at hother
      obtain ⟨before, hbefore, rfl⟩ := List.mem_map.mp hother
      split
      · rw [hturned.same]
        exact h.tasks t (List.mem_of_find?_eq_some htask)
      · exact h.tasks before hbefore
  | none =>
      cases action with
      | accept =>
          rw [if_pos rfl] at hn ⊢
          have hnumber := toNat_nextId h hn
          cases hact
          refine ⟨hnumber, fun t ht => ?_⟩
          rcases List.mem_append.mp ht with hold | hnew
          · exact Nat.le_succ_of_le (h.tasks t hold)
          · rw [List.mem_singleton.mp hnew]
            exact hnumber.le
      | request request =>
          cases hact
          rw [if_neg (by simp)]
          refine ⟨?_, h.tasks⟩
          exact (congrArg _ (Registry.lastNumber_performAll s.registry [request])).trans h.last
      | wait duration =>
          cases hact
          rw [if_neg (by simp)]
          exact ⟨h.last, h.tasks⟩
      | _ => simp [Action.task?] at hown

theorem task?_nextId (h : s.Numbered n) (hn : n + 1 < UInt64.size) :
    s.task? s.registry.nextId.1 = none := by
  rw [task?, List.find?_eq_none]
  intro t ht hid
  have hle := h.tasks t ht
  have hnumber := toNat_nextId h hn
  have hid : t.id = s.registry.nextId.1 := by simpa using hid
  rw [← hid] at hnumber
  omega

theorem released_act (h : s.Released id) (hknown : s.Known id) (hnumbered : s.Numbered n)
    (hact : s.act action = some s')
    (hn : n + (if action = .accept then 1 else 0) < UInt64.size) : s'.Released id := by
  intro t' htask' hleft
  cases glance_of_act hact hknown with
  | accepted haction hid htask =>
      -- A fresh number belongs to no task, so the new entry is not one of a task that has left.
      rw [if_pos haction] at hn
      have hfresh := task?_nextId hnumbered hn
      rw [hid] at hfresh
      rw [hfresh, Option.none_or, htask', Option.some.injEq] at htask
      simp [htask, Task.new, Task.hasLeft] at hleft
  | @turned t _ p p' htask hentry hturn hafter hentry' =>
      obtain rfl := Option.some.inj (hafter.symm.trans htask')
      have hbefore : t.hasLeft = true → p.listed = false := by
        intro hleft
        exact Registry.unlisted_of_listed? (Registry.listed?_performAll (h t htask hleft) _) hentry
      have hunlisted : p'.listed = false := Task.unlisted_turn hturn hbefore hleft
      rw [Registry.listed?, hentry', Option.filter_some, if_neg (by simp [hunlisted])]
  | aside hother htask hentry =>
      rw [htask] at htask'
      have hafter := Registry.listed?_performAll (h t' htask' hleft) (s.requests action)
      rw [Registry.listed?, hentry]
      exact hafter

/-- After `n` connections: what is known of the connection `id` as long as the numbers last. -/
structure Orderly (s : Server) (id : ConnectionId) (n : Nat) : Prop where
  known : s.Known id
  numbered : s.Numbered n
  released : s.Released id

theorem orderly_new (options : Options) (application : Application) (id : ConnectionId) :
    (new options application).Orderly id 0 where
  known := known_new options application id
  numbered := numbered_new options application
  released t ht := by simp [new, task?] at ht

theorem orderly_act (h : s.Orderly id n) (hact : s.act action = some s')
    (hn : n + (if action = .accept then 1 else 0) < UInt64.size) :
    s'.Orderly id (n + if action = .accept then 1 else 0) where
  known := known_act h.known hact
  numbered := numbered_act h.numbered hact hn
  released := released_act h.released h.known h.numbered hact hn

theorem orderly_run (h : s.Orderly id n) (hrun : s.runWith steps = some s')
    (hn : n + steps.countP (·.2 = .accept) < UInt64.size) :
    s'.Orderly id (n + steps.countP (·.2 = .accept)) := by
  induction steps generalizing s n with
  | nil =>
      cases hrun
      exact h
  | cons step steps ih =>
      obtain ⟨application, action⟩ := step
      have hcount : n + ((application, action) :: steps).countP (·.2 = .accept) =
          n + (if action = .accept then 1 else 0) + steps.countP (·.2 = .accept) := by
        rw [List.countP_cons, Nat.add_assoc, Nat.add_comm (steps.countP _)]
        simp only [decide_eq_true_eq]
      rw [hcount] at hn ⊢
      rw [runWith_cons, Option.bind_eq_some_iff] at hrun
      obtain ⟨next, hact, hrun⟩ := hrun
      have hserving : (s.serving application).Orderly id n :=
        ⟨h.known, ⟨h.numbered.last, h.numbered.tasks⟩, h.released⟩
      exact ih (orderly_act hserving hact (Nat.lt_of_le_of_lt (Nat.le_add_right ..) hn)) hrun hn

theorem forgets_of_orderly (h : s.Orderly id n) {t : Task} (htask : s.task? id = some t)
    (hleft : t.hasLeft = true) : s.registry.Forgets id :=
  Registry.forgets_of_listed? (h.released t htask hleft)

end Server

end WebSocket

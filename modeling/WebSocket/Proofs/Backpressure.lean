import WebSocket.Proofs.TaskCalls

namespace WebSocket

theorem Peer.receiving_completed (p : Peer) (c : Connection) :
    (p.completed c).receiving = p.receiving := by
  unfold Peer.completed
  split <;> rfl

namespace Task

variable {options : Options} {now : Time} {t t' : Task} {p p' : Peer} {action : Action}

/-- A task that waits, or has not begun, has taken over what its connection has for it, and its
connection is not at its end. -/
structure Rested (t : Task) : Prop where
  loaded : t.stage = .spawned ∨ t.isWaiting = true → t.writing = [] → t.connection.outbound = []
  lasting : t.stage = .spawned ∨ t.isWaiting = true → t.connection.finish.2.phase ≠ .closed

theorem rested_new (id : ConnectionId) (options : Options) : (new id options).Rested where
  loaded _ _ := rfl
  lasting _ := by simp [new, Connection.new, Connection.finish]

theorem rested_of_stage (hstage : t.stage ≠ .spawned)
    (hbusy : t.stage ≠ .driving ∨ t.undelivered ≠ []) : t.Rested := by
  have hnot : ¬(t.stage = .spawned ∨ t.isWaiting = true) := by
    rintro (hspawned | hwaiting)
    · exact hstage hspawned
    · obtain ⟨hdriving, hnone⟩ := undelivered_of_isWaiting hwaiting
      exact hbusy.elim (absurd hdriving) (absurd hnone)
  exact ⟨fun h => absurd h hnot, fun h => absurd h hnot⟩

theorem rested_departed (t : Task) (now : Time) : (t.departed now).Rested := by
  refine rested_of_stage ?_ (.inl ?_)
  all_goals simp [departed, Server.stage_load]

theorem outbound_load (h : t.load.writing = []) : t.load.connection.outbound = [] := by
  by_cases hwriting : t.writing = []
  · by_cases houtbound : t.connection.outbound = []
    · simp [load, Connection.takeOutbound, hwriting, houtbound]
    · simp [load, Connection.takeOutbound, hwriting, houtbound] at h
  · simp [load, hwriting] at h

theorem phase_finish_outbound (c : Connection) (bytes : Bytes) :
    ({ c with outbound := bytes } : Connection).finish.2.phase = c.finish.2.phase := by
  unfold Connection.finish
  dsimp only
  split
  · simp only [Connection.reportClosed_snd]
  · rfl

theorem rested_completed (t : Task) (now : Time) : (t.completed now).Rested := by
  unfold completed
  split
  · exact rested_departed _ _
  · rename_i hopen
    refine ⟨fun _ => outbound_load, fun _ => ?_⟩
    obtain ⟨writing, outbound, hload⟩ := exists_load_eq (t.settled now)
    rw [hload, phase_finish_outbound, connection_settled, finish_eq_self hopen]
    exact hopen

theorem rested_started (h : t.Rested) (hstage : t.stage = .spawned) (now : Time) :
    (t.started now).Rested := by
  have hloaded : t.writing = [] → t.connection.outbound = [] := h.loaded (.inl hstage)
  have hlasting := h.lasting (.inl hstage)
  unfold started Connection.accept
  split
  · exact ⟨fun _ => hloaded, fun _ => by simp [Connection.finish]⟩
  · exact ⟨fun _ => hloaded, fun _ => hlasting⟩

theorem rested_turn (h : t.Rested) (hturn : Turn now t p action t' p') : t'.Rested := by
  cases hturn with
  | start hstage => exact rested_started h hstage now
  | heard hcan _ _ _ hevents =>
      have hstage := (undelivered_of_isWaiting (isWaiting_of_canRead hcan)).1
      exact rested_of_stage (by simp [hstage]) (.inr hevents)
  | unheard | write | take | wake | dismiss | timeOut | passLast => exact rested_completed _ _
  | failed | hangUp | breakOff | fail => exact rested_departed _ _
  | flush hcan _ _ hdriving =>
      obtain ⟨limit, hstage⟩ := draining_of_canWrite hcan hdriving
      refine rested_of_stage ?_ (.inl ?_)
      all_goals simp [Server.stage_load, hstage]
  | abandoned | cutOff | giveUp | drained | finish =>
      exact rested_of_stage (by simp [stopped]) (.inl (by simp [stopped]))
  | pass hcan hevents hmore =>
      refine rested_of_stage ?_ hmore.symm
      rintro (hspawned : t.stage = .spawned)
      simp [canDeliver, hspawned] at hcan

/-- A task that waits has something to write as long as anything is left. -/
theorem canWrite_iff (h : t.Rested) (hwaiting : t.isWaiting = true) :
    t.canWrite = true ↔ 0 < t.unwritten := by
  obtain ⟨hstage, hnone⟩ := undelivered_of_isWaiting hwaiting
  have hloaded := h.loaded (.inr hwaiting)
  by_cases hwriting : t.writing = []
  · simp [canWrite, unwritten, hwriting, hloaded hwriting]
  · have hpos := List.length_pos_iff.mpr hwriting
    have hunwritten : 0 < t.unwritten := Nat.add_pos_left hpos _
    simpa [canWrite, hstage, hnone, hwriting] using hunwritten

theorem writing_of_canWrite (h : t.canWrite = true) : t.writing ≠ [] := by
  simp only [canWrite, Bool.and_eq_true, Bool.not_eq_true', List.isEmpty_eq_false_iff] at h
  exact h.1

theorem canRead_iff (h : t.connection.Coherent options) (hwaiting : t.isWaiting = true) :
    t.canRead = true ↔ t.unwritten < options.backpressureBoundary := by
  simp [canRead, hwaiting, backlogged, h.settings]

theorem canTake_iff (h : t.connection.Coherent options) (hwaiting : t.isWaiting = true) :
    t.canTake = true ↔ t.unwritten < options.backpressureBoundary :=
  canRead_iff h hwaiting

theorem unwritten_load (t : Task) : t.load.unwritten = t.unwritten := by
  have hunsent := congrArg List.length (unsent_load t)
  rwa [unsent, unsent, List.length_append, List.length_append] at hunsent

theorem unwritten_settled (t : Task) (now : Time) :
    (t.settled now).unwritten = t.unwritten := by
  rw [unwritten, connection_settled, Connection.outbound_finish]
  unfold settled
  dsimp only
  split <;> rfl

theorem written_turn {count : Nat} (h : t.Rested) (hwaiting : t.isWaiting = true)
    (hturn : Turn now t p (.write t.id count) t' p') :
    t'.isWaiting = true ∧ t'.unwritten + count = t.unwritten := by
  obtain ⟨hstage, -⟩ := undelivered_of_isWaiting hwaiting
  cases hturn with
  | write _ _ hle =>
      have hlasting := h.lasting (.inr hwaiting)
      have hsettled := isWaiting_settled (t := { t with writing := t.writing.drop count }) hwaiting
        now
      rw [completed, if_neg hlasting]
      constructor
      · obtain ⟨writing, outbound, hload⟩ :=
          exists_load_eq ({ t with writing := t.writing.drop count }.settled now)
        rw [hload]
        exact hsettled
      · have hdrop : (t.writing.drop count).length + count = t.writing.length := by
          rw [List.length_drop, Nat.sub_add_cancel hle]
        rw [unwritten_load, unwritten_settled, unwritten, unwritten, ← hdrop]
        exact Nat.add_right_comm ..
  | flush _ _ _ hdriving => exact absurd hstage hdriving

/-- A task whose connection is coherent, that is rested, and that takes messages until its end. -/
structure Attentive (options : Options) (t : Task) (p : Peer) : Prop where
  connection : t.connection.Coherent options
  rested : t.Rested
  receiving : t.stage ≠ .finished → t.stage ≠ .abandoned → p.receiving = true

theorem attentive_new (id : ConnectionId) (options : Options) (capacity : Nat) :
    (new id options).Attentive options (.new capacity) where
  connection := Connection.coherent_new options
  rested := rested_new id options
  receiving _ _ := rfl

theorem lives_of_turn (hturn : Turn now t p action t' p') :
    t.stage ≠ .finished ∧ t.stage ≠ .abandoned := by
  have hwaiting : t.isWaiting = true → t.stage ≠ .finished ∧ t.stage ≠ .abandoned := by
    intro hwaiting
    simp [(undelivered_of_isWaiting hwaiting).1]
  cases hturn with
  | start hstage => simp [hstage]
  | heard hcan | unheard hcan | failed hcan | abandoned hcan | hangUp hcan =>
      exact hwaiting (isWaiting_of_canRead hcan)
  | take hcan => exact hwaiting (isWaiting_of_canTake hcan)
  | wake hcan | dismiss hcan => exact hwaiting hcan
  | write _ _ _ hstage | breakOff _ hstage | fail _ hstage | timeOut _ hstage => simp [hstage]
  | flush hcan _ _ hdriving | cutOff hcan hdriving =>
      obtain ⟨limit, hstage⟩ := draining_of_canWrite hcan hdriving
      simp [hstage]
  | giveUp hdue hdriving =>
      obtain ⟨limit, hstage⟩ := draining_of_isDue hdue hdriving
      simp [hstage]
  | drained hcan =>
      obtain ⟨limit, hstage⟩ := draining_of_isDrained hcan
      simp [hstage]
  | pass hcan | passLast hcan | finish hcan =>
      constructor
      all_goals
        intro hstage
        simp [canDeliver, hstage] at hcan

theorem receiving_turn (h : p.receiving = true) (hturn : Turn now t p action t' p') :
    t'.stage ≠ .finished → t'.stage ≠ .abandoned → p'.receiving = true := by
  intro hfinished habandoned
  cases hturn with
  | start | heard | failed | hangUp | flush | breakOff | cutOff | fail | giveUp | drained | pass =>
      exact h
  | unheard | write | take | wake | dismiss | timeOut | passLast =>
      rw [Peer.receiving_completed]
      exact h
  | abandoned => exact absurd rfl habandoned
  | finish => exact absurd rfl hfinished

theorem attentive_turn (h : t.Attentive options p) (hturn : Turn now t p action t' p') :
    t'.Attentive options p' where
  connection := (reaches_turn hturn).coherent h.connection
  rested := rested_turn h.rested hturn
  receiving :=
    have hlives := lives_of_turn hturn
    receiving_turn (h.receiving hlives.1 hlives.2) hturn

end Task

namespace Registry

theorem receiving_operation (p : Peer) (id : ConnectionId) (request : Request) :
    (p.under id request.operation).receiving = p.receiving := by
  cases request with
  | send other text =>
      simp only [Request.operation, Peer.under, Peer.handed, Peer.deliver]
      split_ifs <;> rfl
  | broadcast text =>
      have hhears := hears_hear text p
      simp only [Request.operation, Peer.under]
      generalize hear text p = outcome at hhears
      obtain ⟨p', took⟩ := outcome
      cases hhears <;> rfl
  | disconnect other =>
      simp only [Request.operation, Peer.under, Peer.asked]
      split_ifs <;> rfl

theorem receiving_performAll (r : Registry) (requests : List Request) (id : ConnectionId) :
    ((r.performAll requests).2.peer? id).map Peer.receiving = (r.peer? id).map Peer.receiving := by
  induction requests generalizing r with
  | nil => rfl
  | cons request requests ih =>
      refine (ih (r.perform request).2).trans ?_
      rcases entry_of_apply (r.apply_operation request) id with ⟨capacity, hinsert, -⟩ | hentry
      · cases request <;> simp [Request.operation] at hinsert
      · rw [hentry, Option.map_map]
        congr 1
        funext p
        exact receiving_operation p id request

end Registry

namespace Server

variable {options : Options} {s s' : Server} {id : ConnectionId} {action : Action} {t : Task}
  {steps : List (Application × Action)}

/-- What is known of a connection in every state of a server with these settings. -/
structure Attends (s : Server) (options : Options) (id : ConnectionId) : Prop where
  settings : s.options = options
  known : s.Known id
  attentive : ∀ t p, s.task? id = some t → s.registry.peer? id = some p → t.Attentive options p

theorem attends_new (options : Options) (application : Application) (id : ConnectionId) :
    (new options application).Attends options id where
  settings := rfl
  known := known_new options application id
  attentive t p htask := by simp [new, task?] at htask

theorem Attends.asked (h : s.Attends options id) (htask : s.task? id = some t) {p : Peer}
    (hentry : (s.asked action).peer? id = some p) : t.Attentive options p := by
  have hreceiving := Registry.receiving_performAll s.registry (s.requests action) id
  obtain ⟨q, hq⟩ := h.known t htask
  have hbefore := h.attentive t q htask hq
  rw [Server.asked] at hentry
  rw [hentry, hq, Option.map_some, Option.map_some, Option.some.injEq] at hreceiving
  exact ⟨hbefore.connection, hbefore.rested, hreceiving ▸ hbefore.receiving⟩

theorem attends_act (h : s.Attends options id) (hact : s.act action = some s') :
    s'.Attends options id := by
  refine ⟨(options_act hact).trans h.settings, known_act h.known hact, fun t' p' ht' hp' => ?_⟩
  cases glance_of_act hact h.known with
  | accepted _ _ htask hentry =>
      rw [h.settings] at htask
      obtain rfl := Option.some.inj (hentry.symm.trans hp')
      rw [ht'] at htask
      cases hbefore : s.task? id with
      | none =>
          rw [hbefore, Option.none_or, Option.some.injEq] at htask
          rw [htask]
          exact Task.attentive_new ..
      | some t =>
          -- The numbers of connections have run out; the entry is fresh, so it takes messages.
          rw [hbefore, Option.some_or, Option.some.injEq] at htask
          obtain ⟨p, hp⟩ := h.known t hbefore
          have hattentive := h.attentive t p hbefore hp
          rw [htask]
          exact ⟨hattentive.connection, hattentive.rested, fun _ _ => rfl⟩
  | turned htask hentry hturn hafter hentry' =>
      obtain rfl := Option.some.inj (hafter.symm.trans ht')
      obtain rfl := Option.some.inj (hentry'.symm.trans hp')
      exact Task.attentive_turn (h.asked htask hentry) hturn
  | aside _ htask hentry =>
      rw [htask] at ht'
      rw [hentry] at hp'
      exact h.asked ht' hp'

theorem attends_run (h : s.Attends options id) (hrun : s.runWith steps = some s') :
    s'.Attends options id :=
  invariant_run (P := fun _ s => s.Attends options id)
    (fun {s _ application _ _} h hact =>
      attends_act (s := s.serving application) ⟨h.settings, h.known, h.attentive⟩ hact) h hrun

theorem run_cons (s : Server) (action : Action) (actions : List Action) :
    s.run (action :: actions) = (s.act action).bind (·.run actions) :=
  List.foldlM_cons ..

theorem isSome_write (htask : s.task? id = some t) (hwaiting : t.isWaiting = true) {count : Nat}
    (hpos : 0 < count) (hle : count ≤ t.writing.length) :
    (s.act (.write id count)).isSome = true := by
  obtain ⟨hstage, hnone⟩ := Task.undelivered_of_isWaiting hwaiting
  have hwriting : t.writing ≠ [] := List.length_pos_iff.mp (Nat.lt_of_lt_of_le hpos hle)
  have hcan : t.canWrite = true := by simp [Task.canWrite, hstage, hnone, hwriting]
  simp [act, onTask, htask, hcan, hpos, hle]

theorem written_act (h : s.Attends options id) (htask : s.task? id = some t)
    (hwaiting : t.isWaiting = true) {count : Nat} (hact : s.act (.write id count) = some s') :
    ∃ t', s'.task? id = some t' ∧ t'.isWaiting = true ∧ t'.unwritten + count = t.unwritten := by
  cases glance_of_act hact h.known with
  | accepted haction => cases haction
  | turned hbefore hentry hturn hafter =>
      obtain rfl := Option.some.inj (hbefore.symm.trans htask)
      obtain rfl := id_of_task? htask
      exact ⟨_, hafter, Task.written_turn (h.asked htask hentry).rested hwaiting hturn⟩
  | aside hother => exact absurd rfl hother

theorem written_run (h : s.Attends options id) (htask : s.task? id = some t)
    (hwaiting : t.isWaiting = true) {counts : List Nat}
    (hrun : s.run (counts.map (.write id)) = some s') :
    ∃ t', s'.task? id = some t' ∧ t'.isWaiting = true ∧
      t'.unwritten + counts.sum = t.unwritten := by
  induction counts generalizing s t with
  | nil =>
      cases hrun
      exact ⟨t, htask, hwaiting, rfl⟩
  | cons count counts ih =>
      rw [List.map_cons, run_cons, Option.bind_eq_some_iff] at hrun
      obtain ⟨next, hact, hrun⟩ := hrun
      obtain ⟨t₁, htask₁, hwaiting₁, hfirst⟩ := written_act h htask hwaiting hact
      obtain ⟨t', htask', hwaiting', hrest⟩ := ih (attends_act h hact) htask₁ hwaiting₁ hrun
      refine ⟨t', htask', hwaiting', ?_⟩
      rw [List.sum_cons, Nat.add_comm count, ← Nat.add_assoc, hrest, hfirst]

/-- A network that goes on taking bytes gets everything that is left of a task that waits. -/
theorem exists_writes (h : s.Attends options id) (htask : s.task? id = some t)
    (hwaiting : t.isWaiting = true) :
    ∃ (counts : List Nat) (s' : Server), s.run (counts.map (.write id)) = some s' ∧
      counts.sum = t.unwritten := by
  induction hleft : t.unwritten using Nat.strong_induction_on generalizing s t with
  | h n ih =>
      obtain rfl | hpos := Nat.eq_zero_or_pos n
      · exact ⟨[], s, rfl, rfl⟩
      · obtain ⟨q, hq⟩ := h.known t htask
        have hrested := (h.attentive t q htask hq).rested
        have hcan := (Task.canWrite_iff hrested hwaiting).mpr (hleft ▸ hpos)
        have hwriting := List.length_pos_iff.mpr (Task.writing_of_canWrite hcan)
        -- The first write takes all that is in hand, which may leave what the connection still has.
        obtain ⟨next, hact⟩ :=
          Option.isSome_iff_exists.mp (isSome_write htask hwaiting hwriting le_rfl)
        obtain ⟨t₁, htask₁, hwaiting₁, hfirst⟩ := written_act h htask hwaiting hact
        obtain ⟨counts, s', hrun, hsum⟩ :=
          ih t₁.unwritten (by omega) (attends_act h hact) htask₁ hwaiting₁ rfl
        refine ⟨t.writing.length :: counts, s', ?_, ?_⟩
        · rw [List.map_cons, run_cons, hact, Option.bind_some]
          exact hrun
        · rw [List.sum_cons, hsum, Nat.add_comm, hfirst, hleft]

theorem isSome_read (htask : s.task? id = some t) (hcan : t.canRead = true) {data : Bytes}
    (hdata : data ≠ []) (hlength : data.length ≤ Task.readChunk) :
    (s.act (.read id data)).isSome = true := by
  simp [act, onTask, htask, hcan, hdata, hlength]

theorem isSome_take (h : s.Attends options id) (htask : s.task? id = some t)
    (hcan : t.canTake = true) {p : Peer} (hentry : s.registry.peer? id = some p)
    (hqueue : p.queue ≠ []) : (s.act (.take id)).isSome = true := by
  obtain ⟨hstage, -⟩ := Task.undelivered_of_isWaiting (Task.isWaiting_of_canTake hcan)
  have hreceiving : p.receiving = true :=
    (h.attentive t p htask hentry).receiving (by simp [hstage]) (by simp [hstage])
  obtain ⟨message, rest, hnext⟩ := List.exists_cons_of_ne_nil hqueue
  obtain rfl := id_of_task? htask
  simp [act, onTask, htask, hcan, take, Registry.take, hentry, hreceiving, hnext]

/-- **A task that stops reading has bytes to write.** Whatever the clients send and whatever is
asked of the server, a task that waits reads what its client sends and takes the messages in its
queue as long as fewer bytes than the boundary wait to be written, and it can write as long as any
bytes wait. With any boundary but zero it can do one or the other: when it is backlogged it can
write, and when nothing waits to be written it reads and takes. Each write takes away as many bytes
as the network has room for and leaves the task waiting, and there are writes until nothing is left;
so however the network takes the bytes, in the end the task reads and takes again. -/
theorem backlogged_task_can_write {application : Application}
    (hrun : (new options application).runWith steps = some s) (htask : s.task? id = some t)
    (hwaiting : t.isWaiting = true) :
    (0 < options.backpressureBoundary →
      (t.backlogged = true → t.canWrite = true) ∧
      (t.unwritten = 0 → t.canRead = true ∧ t.canTake = true)) ∧
    (t.canWrite = true ↔ 0 < t.unwritten) ∧
    (t.canRead = true ↔ t.unwritten < options.backpressureBoundary) ∧
    (t.canTake = true ↔ t.unwritten < options.backpressureBoundary) ∧
    (t.canWrite = true → t.writing ≠ [] ∧ ∀ count, 0 < count → count ≤ t.writing.length →
      (s.act (.write id count)).isSome = true) ∧
    (t.canRead = true → ∀ data : Bytes, data ≠ [] → data.length ≤ Task.readChunk →
      (s.act (.read id data)).isSome = true) ∧
    (t.canTake = true → ∀ p, s.registry.peer? id = some p → p.queue ≠ [] →
      (s.act (.take id)).isSome = true) ∧
    (∃ (counts : List Nat) (s' : Server), s.run (counts.map (.write id)) = some s' ∧
      counts.sum = t.unwritten) ∧
    ∀ (counts : List Nat) (s' : Server), s.run (counts.map (.write id)) = some s' →
      ∃ t', s'.task? id = some t' ∧ t'.isWaiting = true ∧
        t'.unwritten + counts.sum = t.unwritten ∧
        (t.unwritten < options.backpressureBoundary + counts.sum →
          t'.canRead = true ∧ t'.canTake = true) := by
  have hattends : s.Attends options id := attends_run (attends_new options application id) hrun
  obtain ⟨p, hp⟩ := hattends.known t htask
  have hattentive := hattends.attentive t p htask hp
  have hwrite := Task.canWrite_iff hattentive.rested hwaiting
  have hread := Task.canRead_iff hattentive.connection hwaiting
  have htake := Task.canTake_iff hattentive.connection hwaiting
  refine ⟨fun hboundary => ⟨fun hbacklogged => ?_, fun hnone => ?_⟩, hwrite, hread, htake,
    fun hcan => ⟨Task.writing_of_canWrite hcan, fun _ => isSome_write htask hwaiting⟩,
    fun hcan _ => isSome_read htask hcan, fun hcan _ => isSome_take hattends htask hcan,
    exists_writes hattends htask hwaiting, fun counts s' hwrites => ?_⟩
  · have hle : options.backpressureBoundary ≤ t.unwritten := by
      simpa [Task.backlogged, hattentive.connection.settings] using hbacklogged
    exact hwrite.mpr (Nat.lt_of_lt_of_le hboundary hle)
  · exact ⟨hread.mpr (hnone ▸ hboundary), htake.mpr (hnone ▸ hboundary)⟩
  · obtain ⟨t', htask', hwaiting', hwritten⟩ := written_run hattends htask hwaiting hwrites
    have hattends' : s'.Attends options id := attends_run hattends (runWith_of_run hwrites)
    obtain ⟨p', hp'⟩ := hattends'.known t' htask'
    have hconnection := (hattends'.attentive t' p' htask' hp').connection
    refine ⟨t', htask', hwaiting', hwritten, fun henough => ?_⟩
    rw [← hwritten, Nat.add_lt_add_iff_right] at henough
    exact ⟨(Task.canRead_iff hconnection hwaiting').mpr henough,
      (Task.canTake_iff hconnection hwaiting').mpr henough⟩

/-- A connection opens at a server whose tasks are backlogged by a single byte. -/
def greeting : List (Application × Action) :=
  [.accept, .start ⟨1⟩, .read ⟨1⟩ Ledger.plainRequest, .deliver ⟨1⟩].map fun action =>
    (.silent, action)

/-- The task that has answered a request is backlogged until its answer is written. -/
theorem answering_task_can_write :
    ∃ s t, (new { Options.standard with backpressureBoundary := 1 } .silent).runWith greeting =
        some s ∧
      s.task? ⟨1⟩ = some t ∧ t.isWaiting = true ∧ t.backlogged = true ∧ t.canWrite = true ∧
      ∃ (counts : List Nat) (s' : Server) (t' : Task), s.run (counts.map (.write ⟨1⟩)) = some s' ∧
        s'.task? ⟨1⟩ = some t' ∧ t'.canRead = true ∧ t'.canTake = true := by
  have hrun : ((new { Options.standard with backpressureBoundary := 1 } .silent).runWith
      greeting).any (fun s => (s.task? ⟨1⟩).any fun t => t.isWaiting && t.backlogged) = true := by
    decide +kernel
  obtain ⟨s, hsteps, htasks⟩ := (Option.any_eq_true ..).mp hrun
  obtain ⟨t, htask, hfacts⟩ := (Option.any_eq_true ..).mp htasks
  rw [Bool.and_eq_true] at hfacts
  obtain ⟨hwaiting, hbacklogged⟩ := hfacts
  obtain ⟨hactive, -, -, -, -, -, -, ⟨counts, s', hwrites, hsum⟩, hlater⟩ :=
    backlogged_task_can_write hsteps htask hwaiting
  obtain ⟨t', htask', -, -, hagain⟩ := hlater counts s' hwrites
  obtain ⟨hread, htake⟩ := hagain (hsum ▸ Nat.lt_add_of_pos_left Nat.one_pos)
  exact ⟨s, t, hsteps, htask, hwaiting, hbacklogged, (hactive Nat.one_pos).1 hbacklogged, counts, s',
    t', hwrites, htask', hread, htake⟩

/-- With zero for the boundary a task is backlogged by no bytes at all: one that has just begun
neither reads nor takes nor writes. -/
theorem boundary_zero_starves_task :
    ¬∀ (options : Options) (application : Application) (steps : List (Application × Action))
      (s : Server) (id : ConnectionId) (t : Task),
      (new options application).runWith steps = some s → s.task? id = some t →
      t.isWaiting = true → t.canRead = false ∧ t.canTake = false → t.canWrite = true := by
  intro hall
  have hrun : ((new { Options.standard with backpressureBoundary := 0 } .silent).runWith
      [(.silent, .accept), (.silent, .start ⟨1⟩)]).any (fun s => (s.task? ⟨1⟩).any fun t =>
        t.isWaiting && !t.canRead && !t.canTake && !t.canWrite) = true := by
    decide +kernel
  obtain ⟨s, hsteps, htasks⟩ := (Option.any_eq_true ..).mp hrun
  obtain ⟨t, htask, hfacts⟩ := (Option.any_eq_true ..).mp htasks
  simp only [Bool.and_eq_true, Bool.not_eq_true'] at hfacts
  obtain ⟨⟨⟨hwaiting, hread⟩, htake⟩, hwrite⟩ := hfacts
  have hcan := hall _ _ _ s ⟨1⟩ t hsteps htask hwaiting ⟨hread, htake⟩
  exact Bool.false_ne_true (hwrite.symm.trans hcan)

end Server

end WebSocket

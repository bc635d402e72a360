import WebSocket.Proofs.TextSending

namespace WebSocket

namespace Connection

variable {options : Options} {c d : Connection}

theorem Steady.or_scheme (h : c.Steady d) (hc : c.Coherent options) :
    d.scheme.or c.scheme = d.scheme := by
  rcases Phase.unopened_or_opened c.phase with hunopened | hopened
  · rw [hc.scheme_of_unopened hunopened, Option.or_none]
  · rw [h.scheme (.inr hopened), Option.or_self]

end Connection

/-- What the registry shows of a task and its connection. -/
structure Task.Mirrored (t : Task) (p : Peer) : Prop where
  begins : t.stage = .spawned →
    p.phase = .connecting ∧ p.scheme = none ∧ t.connection.phase = .connecting
  driven : t.stage = .driving → p.phase = t.connection.phase ∧ p.scheme = t.connection.scheme
  left : t.hasLeft = true → p.phase = .closed
  /-- A task whose run has broken off takes nothing any more. -/
  broken : t.stage = .abandoned → p.receiving = false
  opened : p.phase = .established → p.scheme.isSome = true

namespace Task

variable {options : Options} {now : Time} {t t' : Task} {p p' : Peer} {action : Action}

theorem mirrored_new (id : ConnectionId) (options : Options) (capacity : Nat) :
    (new id options).Mirrored (.new capacity) where
  begins _ := ⟨rfl, rfl, rfl⟩
  driven := by simp [new]
  left := by simp [new, hasLeft]
  broken := by simp [new]
  opened := by simp [Peer.new]

theorem mirrored_of_driving (hstage : t.stage = .driving) (hphase : p.phase = t.connection.phase)
    (hscheme : p.scheme = t.connection.scheme) (hc : t.connection.Coherent options) :
    t.Mirrored p where
  begins := by simp [hstage]
  driven _ := ⟨hphase, hscheme⟩
  left := by simp [hasLeft, hstage]
  broken := by simp [hstage]
  opened hopen := by
    rw [hscheme]
    exact hc.framed (.inl (hphase.symm.trans hopen))

theorem mirrored_of_left (hleft : t.hasLeft = true) (hphase : p.phase = .closed) :
    t.Mirrored p where
  begins hstage := by simp [hasLeft, hstage] at hleft
  driven hstage := by simp [hasLeft, hstage] at hleft
  left _ := hphase
  broken hstage := by simp [hasLeft, hstage] at hleft
  opened := by simp [hphase]

theorem mirrored_departed (t : Task) (now : Time) (p : Peer) :
    (t.departed now).Mirrored p.departed :=
  mirrored_of_left (by simp [departed, hasLeft, Server.stage_load]) rfl

/-- At the end of a step of a task that drives, the entry shows what has become of the connection,
if the scheme that it showed before is not another one. -/
theorem mirrored_completed (hstage : t.stage = .driving) (hc : t.connection.Coherent options)
    (hscheme : t.connection.scheme.or p.scheme = t.connection.scheme) (now : Time) :
    (t.completed now).Mirrored (p.completed t.connection.finish.2) := by
  by_cases hclosed : t.connection.finish.2.phase = .closed
  · rw [completed, if_pos hclosed, Peer.completed, if_pos hclosed]
    exact mirrored_departed ..
  · have hcompleted := (reaches_completed (.refl _) now).coherent hc
    obtain ⟨writing, outbound, hsame⟩ := exists_completed_eq hclosed now
    rw [Peer.completed, if_neg hclosed, finish_eq_self hclosed]
    rw [hsame] at hcompleted ⊢
    exact mirrored_of_driving hstage rfl hscheme hcompleted

theorem Mirrored.or_scheme (h : t.Mirrored p) (hc : t.connection.Coherent options)
    (hstage : t.stage = .driving) {c : Connection} (hreaches : t.connection.Reaches c) :
    c.scheme.or p.scheme = c.scheme := by
  rw [(h.driven hstage).2]
  exact hreaches.steady.or_scheme hc

theorem Mirrored.completed (h : t.Mirrored p) (hc : t.connection.Coherent options) {u : Task}
    {q : Peer} (hstage : t.stage = .driving) (hstage' : u.stage = .driving)
    (hreaches : t.connection.Reaches u.connection)
    (hscheme : q.scheme = p.scheme ∨ q.scheme = u.connection.scheme) (now : Time) :
    (u.completed now).Mirrored (q.completed u.connection.finish.2) := by
  refine mirrored_completed hstage' (hreaches.coherent hc) ?_ now
  rcases hscheme with hscheme | hscheme
  · rw [hscheme]
    exact h.or_scheme hc hstage hreaches
  · rw [hscheme, Option.or_self]

theorem Mirrored.completedRead (h : t.Mirrored p) (hc : t.connection.Coherent options) {u : Task}
    {q : Peer} (hstage : t.stage = .driving) (hstage' : u.stage = .driving)
    (hreaches : t.connection.Reaches u.connection)
    (hscheme : q.scheme = p.scheme ∨ q.scheme = u.connection.scheme) (now : Time) :
    ((u.refreshed now).completed now).Mirrored (q.completed u.connection.finish.2) := by
  rw [← connection_refreshed u now] at hreaches hscheme ⊢
  exact h.completed hc hstage ((stage_refreshed u now).trans hstage') hreaches hscheme now

theorem mirrored_turn (h : t.Mirrored p) (hc : t.connection.Coherent options)
    (hturn : Turn now t p action t' p') : t'.Mirrored p' := by
  have hdriving : t.isWaiting = true → t.stage = .driving :=
    fun hwaiting => (undelivered_of_isWaiting hwaiting).1
  have hdraining : (∃ limit, t.stage = .draining limit) → p.phase = .closed := by
    rintro ⟨limit, hstage⟩
    exact h.left (by rw [hasLeft, hstage])
  cases hturn with
  | start hstage =>
      obtain ⟨-, hnone, -⟩ := h.begins hstage
      refine mirrored_of_driving rfl rfl ?_ (Connection.coherent_accept hc)
      rw [Peer.mirroring, hnone, Option.or_none]
      rfl
  | heard hcan _ _ hreceive =>
      have hstage := hdriving (isWaiting_of_canRead hcan)
      exact mirrored_of_driving hstage rfl
        (h.or_scheme hc hstage (Connection.reaches_receive hreceive))
        ((Connection.reaches_receive hreceive).coherent hc)
  | @unheard data c hcan _ _ hreceive =>
      have hstage := hdriving (isWaiting_of_canRead hcan)
      have hreaches := Connection.reaches_receive hreceive
      exact h.completedRead hc (u := { t with connection := c, undelivered := [] })
        (q := p.mirroring c) hstage hstage hreaches (.inr (h.or_scheme hc hstage hreaches)) now
  | abandoned => exact ⟨by simp, by simp, by simp [hasLeft], fun _ => rfl, h.opened⟩
  | failed | hangUp | breakOff | fail => exact mirrored_departed ..
  | @write count hcan _ _ hstage =>
      exact h.completed hc (u := { t with writing := t.writing.drop count }) hstage hstage (.refl _)
        (.inl rfl) now
  | flush hcan _ _ hstage =>
      obtain ⟨limit, hdrains⟩ := draining_of_canWrite hcan hstage
      refine mirrored_of_left ?_ (hdraining ⟨limit, hdrains⟩)
      rw [hasLeft, Server.stage_load, hdrains]
  | cutOff hcan hstage => exact mirrored_of_left rfl (hdraining (draining_of_canWrite hcan hstage))
  | @take message rest hcan =>
      have hwaiting := isWaiting_of_canTake hcan
      have hstage := (undelivered_of_isWaiting (isWaiting_put hwaiting message)).1
      exact h.completed hc (q := { p with queue := rest }) (hdriving hwaiting) hstage
        (reaches_put t message) (.inl rfl) now
  | wake hcan =>
      exact h.completed hc (q := { p with woken := false, closeNumber := 0 }) (hdriving hcan)
        (hdriving hcan) (.refl _) (.inl rfl) now
  | dismiss hcan =>
      have hstage := (undelivered_of_isWaiting (isWaiting_dismissed hcan p)).1
      exact h.completed hc (q := { p with woken := false, closeNumber := 0, queue := [] })
        (hdriving hcan) hstage (reaches_dismissed t p) (.inl rfl) now
  | @timeOut c hdue hstage htimeout =>
      exact h.completed hc (u := { t with connection := c }) hstage hstage
        (Connection.reaches_onTimeout htimeout) (.inl rfl) now
  | giveUp hdue hstage => exact mirrored_of_left rfl (hdraining (draining_of_isDue hdue hstage))
  | drained hcan => exact mirrored_of_left rfl (hdraining (draining_of_isDrained hcan))
  | pass => exact ⟨h.begins, h.driven, h.left, h.broken, h.opened⟩
  | @passLast event hcan hevents hstage =>
      exact h.completedRead hc (u := t.passing event []) hstage hstage (.refl _) (.inl rfl) now
  | finish hcan hevents =>
      refine mirrored_of_left rfl (h.left ?_)
      cases hstage : t.stage <;> simp [canDeliver, hevents, hasLeft, hstage] at hcan ⊢

end Task

namespace Registry

variable {r : Registry} {id : ConnectionId} {p p' : Peer}

theorem shown_performAll {requests : List Request} (hbefore : r.peer? id = some p)
    (hafter : (r.performAll requests).2.peer? id = some p') :
    p'.phase = p.phase ∧ p'.scheme = p.scheme ∧ p'.receiving = p.receiving := by
  have hpassed := passed_performAll r id requests
  have hreceiving := receiving_performAll r requests id
  rw [hbefore, hafter] at hpassed hreceiving
  cases hpassed with
  | offered hoffered => exact ⟨hoffered.phase, hoffered.scheme, by simpa using hreceiving⟩

end Registry

namespace Task

theorem Mirrored.performAll {t : Task} {r : Registry} {id : ConnectionId} {p p' : Peer}
    (h : t.Mirrored p) {requests : List Request} (hbefore : r.peer? id = some p)
    (hafter : (r.performAll requests).2.peer? id = some p') : t.Mirrored p' := by
  obtain ⟨hphase, hscheme, hreceiving⟩ := Registry.shown_performAll hbefore hafter
  constructor
  · rw [hphase, hscheme]
    exact h.begins
  · rw [hphase, hscheme]
    exact h.driven
  · rw [hphase]
    exact h.left
  · rw [hreceiving]
    exact h.broken
  · rw [hphase, hscheme]
    exact h.opened

end Task

namespace Server

variable {options : Options} {application : Application} {s s' : Server} {id : ConnectionId}
  {action : Action} {n : Nat} {steps : List (Application × Action)}

/-- Of a connection the registry shows what there is. -/
def Mirrors (s : Server) (id : ConnectionId) : Prop :=
  ∀ t p, s.task? id = some t → s.registry.peer? id = some p → t.Mirrored p

theorem mirrors_new (options : Options) (application : Application) (id : ConnectionId) :
    (new options application).Mirrors id := by
  intro t p htask
  simp [new, task?] at htask

theorem Mirrors.asked (h : s.Mirrors id) (hknown : s.Known id) {t : Task}
    (htask : s.task? id = some t) {p : Peer} (hentry : (s.asked action).peer? id = some p) :
    t.Mirrored p := by
  obtain ⟨q, hq⟩ := hknown t htask
  exact (h t q htask hq).performAll hq hentry

theorem mirrors_act (h : s.Mirrors id) (hattends : s.Attends options id) (hnumbered : s.Numbered n)
    (hact : s.act action = some s')
    (hn : n + (if action = .accept then 1 else 0) < UInt64.size) : s'.Mirrors id := by
  intro t' p' htask' hentry'
  cases glance_of_act hact hattends.known with
  | accepted haction hid htask hentry =>
      -- A fresh number belongs to no task.
      rw [if_pos haction] at hn
      have hfresh := task?_nextId hnumbered hn
      rw [hid] at hfresh
      rw [hfresh, Option.none_or, htask', Option.some.injEq] at htask
      obtain rfl := Option.some.inj (hentry.symm.trans hentry')
      rw [htask]
      exact Task.mirrored_new ..
  | @turned t _ p _ htask hentry hturn hafter hafter' =>
      obtain rfl := Option.some.inj (hafter.symm.trans htask')
      obtain rfl := Option.some.inj (hafter'.symm.trans hentry')
      have hcoherent := (hattends.asked htask hentry).connection
      exact Task.mirrored_turn (h.asked hattends.known htask hentry) hcoherent hturn
  | aside _ htask hentry =>
      rw [htask] at htask'
      rw [hentry] at hentry'
      exact h.asked hattends.known htask' hentry'

/-- After `n` connections: what the registry shows of one of them, as long as the numbers last. -/
structure Watched (s : Server) (options : Options) (id : ConnectionId) (n : Nat) : Prop where
  attends : s.Attends options id
  orderly : s.Orderly id n
  mirrors : s.Mirrors id

theorem watched_new (options : Options) (application : Application) (id : ConnectionId) :
    (new options application).Watched options id 0 where
  attends := attends_new options application id
  orderly := orderly_new options application id
  mirrors := mirrors_new options application id

theorem watched_act (h : s.Watched options id n)
    (hact : (s.serving application).act action = some s')
    (hn : n + (if action = .accept then 1 else 0) < UInt64.size) :
    s'.Watched options id (n + if action = .accept then 1 else 0) := by
  have hattends : (s.serving application).Attends options id :=
    ⟨h.attends.settings, h.attends.known, h.attends.attentive⟩
  have horderly : (s.serving application).Orderly id n :=
    ⟨h.orderly.known, ⟨h.orderly.numbered.last, h.orderly.numbered.tasks⟩, h.orderly.released⟩
  have hmirrors : (s.serving application).Mirrors id := h.mirrors
  exact ⟨attends_act hattends hact, orderly_act horderly hact hn,
    mirrors_act hmirrors hattends horderly.numbered hact hn⟩

theorem watched_run (hrun : (new options application).runWith steps = some s)
    (hn : steps.countP (·.2 = .accept) < UInt64.size) (id : ConnectionId) :
    ∃ n, s.Watched options id n := by
  refine (invariant_run (P := fun steps s => ∃ n, s.Watched options id n ∧
    n + steps.countP (·.2 = .accept) < UInt64.size) ?_
    ⟨0, watched_new options application id, by rwa [Nat.zero_add]⟩ hrun).imp fun _ hlast => hlast.1
  rintro s s' application action steps ⟨n, hwatched, hn⟩ hact
  rw [List.countP_cons, Nat.add_comm (steps.countP _), ← Nat.add_assoc] at hn
  simp only [decide_eq_true_eq] at hn
  exact ⟨_, watched_act hwatched hact (Nat.lt_of_le_of_lt (Nat.le_add_right ..) hn), hn⟩

theorem isSome_peer?_performAll (hrun : (new options application).runWith steps = some s)
    (id : ConnectionId) (requests : List Request) :
    ((s.registry.performAll requests).2.peer? id).isSome = (s.task? id).isSome := by
  have htracks := tracks_runWith (tracks_new options application id) hrun
  have hpassed := Registry.passed_performAll s.registry id requests
  rw [Tracks] at htracks
  generalize (new options application).history id ⟨[], []⟩ steps = log at htracks
  generalize (s.registry.performAll requests).2.peer? id = entry at hpassed ⊢
  generalize s.registry.acceptsAll id requests = texts at hpassed
  generalize s.registry.peer? id = before at htracks hpassed
  generalize s.task? id = found at htracks ⊢
  cases htracks with
  | unknown =>
      cases hpassed
      rfl
  | known =>
      cases hpassed
      rfl

end Server

/-- A listed connection that is open, has room in its queue, and is driven by its task. -/
structure Task.Listens (t : Task) (p : Peer) : Prop where
  listed : p.listed = true
  room : p.hasRoom = true
  driven : t.stage = .driving
  established : t.connection.phase = .established

namespace Task

variable {options : Options} {t : Task} {p : Peer}

/-- The connections that a broadcast reaches are those that it should reach. -/
theorem Mirrored.isReachable_iff (h : t.Mirrored p) (hattentive : t.Attentive options p) :
    p.isReachable = true ↔ t.Listens p := by
  rw [Peer.isReachable_iff]
  constructor
  · rintro ⟨hlisted, hlive, hphase, -, hroom⟩
    have hstage : t.stage = .driving := by
      have hleft : t.hasLeft ≠ true := by
        intro hleft
        simp [h.left hleft] at hphase
      cases hstage : t.stage with
      | driving => rfl
      | spawned => simp [(h.begins hstage).1] at hphase
      | abandoned => simp [Peer.isStale, h.broken hstage] at hlive
      | draining | ending | finished => simp [hasLeft, hstage] at hleft
    exact ⟨hlisted, hroom, hstage, (h.driven hstage).1.symm.trans hphase⟩
  · rintro ⟨hlisted, hroom, hstage, hphase⟩
    have hshown : p.phase = .established := (h.driven hstage).1.trans hphase
    have hreceiving : p.receiving = true :=
      hattentive.receiving (by simp [hstage]) (by simp [hstage])
    exact ⟨hlisted, by simp [Peer.isStale, hreceiving, hshown], hshown, h.opened hshown, hroom⟩

end Task

namespace Server

variable {options : Options} {application : Application} {s : Server}
  {steps : List (Application × Action)}

/-- **The registry shows what there is.** Between two steps of a server, and in the middle of a step
in which the application is told something and has made some requests, every connection has an entry
in the registry. As long as its task drives it, the entry shows its phase and its scheme; when the
task is done with it, the entry shows that it is closed, and it is not listed. So an entry that
shows an open connection always shows a scheme, and a broadcast puts the framed text into the queues
of just the listed connections that are open, have room and are driven by their tasks. All this
lasts as long as there are numbers for new connections. -/
theorem registry_mirrors_connections (hrun : (new options application).runWith steps = some s)
    (hn : steps.countP (·.2 = .accept) < UInt64.size) (requests : List Request)
    (id : ConnectionId) :
    let r := (s.registry.performAll requests).2
    (r.peer? id).isSome = (s.task? id).isSome ∧
    ∀ t p, s.task? id = some t → r.peer? id = some p →
      (t.stage = .driving →
        p.phase = t.connection.phase ∧ p.scheme = t.connection.scheme) ∧
      (t.hasLeft = true → p.phase = .closed ∧ r.listed? id = none) ∧
      (p.phase = .established → p.scheme.isSome = true) ∧
      ∀ text,
        (t.Listens p → ∃ bytes, t.connection.encodedText text = some bytes ∧
          (r.broadcast text).2.peer? id = some (p.push (.encoded bytes))) ∧
        (¬t.Listens p → ∃ p', (r.broadcast text).2.peer? id = some p' ∧ p'.queue = p.queue) := by
  intro r
  refine ⟨isSome_peer?_performAll hrun id requests, fun t p htask hentry => ?_⟩
  obtain ⟨n, hwatched⟩ := watched_run hrun hn id
  obtain ⟨q, hq⟩ := hwatched.attends.known t htask
  have hmirrored : t.Mirrored p := (hwatched.mirrors t q htask hq).performAll hq hentry
  have hattentive : t.Attentive options p := by
    have hbefore := hwatched.attends.attentive t q htask hq
    obtain ⟨-, -, hreceiving⟩ := Registry.shown_performAll hq hentry
    exact ⟨hbefore.connection, hbefore.rested, hreceiving ▸ hbefore.receiving⟩
  have hbroadcast : ∀ text,
      (r.broadcast text).2.peer? id = some (Registry.hear text p).1 := by
    intro text
    rw [Registry.peer?_broadcast, hentry, Option.map_some]
  refine ⟨hmirrored.driven, fun hleft => ⟨hmirrored.left hleft, ?_⟩, hmirrored.opened,
    fun text => ⟨fun hlistens => ?_, fun hdeaf => ?_⟩⟩
  · exact Registry.listed?_performAll (hwatched.orderly.released t htask hleft) requests
  · have hreachable := (hmirrored.isReachable_iff hattentive).mpr hlistens
    obtain ⟨-, hscheme⟩ := hmirrored.driven hlistens.driven
    obtain ⟨-, -, -, hsome, -⟩ := Peer.isReachable_iff.mp hreachable
    obtain ⟨scheme, hshown⟩ := Option.isSome_iff_exists.mp hsome
    obtain ⟨bytes, hencode⟩ := scheme.exists_encode_text text
    refine ⟨bytes, ?_, ?_⟩
    · rw [Connection.encodedText, ← hscheme, hshown, Option.bind_some, hencode]
      rfl
    · rw [hbroadcast, Peer.hear_of_isReachable hreachable hshown hencode]
  · refine ⟨_, hbroadcast text, ?_⟩
    have hhears := Registry.hears_hear text p
    have hunreached : p.isReachable = false :=
      Bool.eq_false_iff.mpr (mt (hmirrored.isReachable_iff hattentive).mp hdeaf)
    rw [Registry.hear_snd, hunreached] at hhears
    generalize (Registry.hear text p).1 = after at hhears
    cases hhears <;> rfl

/-- One connection has opened, and another one has gone away without a request. -/
def openAndGone : List (Application × Action) :=
  [.accept, .start ⟨1⟩, .read ⟨1⟩ Ledger.plainRequest, .deliver ⟨1⟩, .accept, .start ⟨2⟩,
    .hangUp ⟨2⟩].map fun action => (.silent, action)

/-- In the middle of a step that has asked for one text to be sent, the open connection is shown as
open and gets another one, and the other connection is shown as closed and has left. -/
theorem open_and_gone_are_mirrored :
    ∃ s t p p', (new .standard .silent).runWith openAndGone = some s ∧
      let r := (s.registry.performAll [.send ⟨1⟩ "Ho"]).2
      s.task? ⟨1⟩ = some t ∧ r.peer? ⟨1⟩ = some p ∧ t.Listens p ∧
      p.phase = t.connection.phase ∧ p.scheme = t.connection.scheme ∧ p.queue = [.text "Ho"] ∧
      (r.broadcast "Hi").2.peer? ⟨1⟩ = some (p.push (.encoded [0x81, 0x02, 0x48, 0x69])) ∧
      r.peer? ⟨2⟩ = some p' ∧ p'.phase = .closed ∧ r.listed? ⟨2⟩ = none := by
  have hrun : ((new .standard .silent).runWith openAndGone).any (fun s =>
      (s.task? ⟨1⟩).any fun t => (s.task? ⟨2⟩).any fun t' =>
        ((s.registry.performAll [.send ⟨1⟩ "Ho"]).2.peer? ⟨1⟩).any fun p =>
          p.listed ∧ p.hasRoom ∧ t.stage = .driving ∧ t.connection.phase = .established ∧
            p.queue = [.text "Ho"] ∧
            t.connection.encodedText "Hi" = some [0x81, 0x02, 0x48, 0x69] ∧ t'.hasLeft) = true := by
    decide +kernel
  obtain ⟨s, hsteps, htasks⟩ := (Option.any_eq_true ..).mp hrun
  obtain ⟨t, htask, htasks'⟩ := (Option.any_eq_true ..).mp htasks
  obtain ⟨t', htask', hpeers⟩ := (Option.any_eq_true ..).mp htasks'
  obtain ⟨p, hentry, hfacts⟩ := (Option.any_eq_true ..).mp hpeers
  obtain ⟨hlisted, hroom, hstage, hphase, hqueue, hframe, hleft⟩ := of_decide_eq_true hfacts
  have hlistens : t.Listens p := ⟨hlisted, hroom, hstage, hphase⟩
  have hmirror := registry_mirrors_connections hsteps (by decide) [.send ⟨1⟩ "Ho"]
  obtain ⟨-, hopen⟩ := hmirror ⟨1⟩
  obtain ⟨hdriven, -, -, hbroadcast⟩ := hopen t p htask hentry
  obtain ⟨bytes, hbytes, hheard⟩ := (hbroadcast "Hi").1 hlistens
  obtain rfl := Option.some.inj (hbytes.symm.trans hframe)
  obtain ⟨hknown, hgone⟩ := hmirror ⟨2⟩
  rw [htask', Option.isSome_some] at hknown
  obtain ⟨p', hentry'⟩ := Option.isSome_iff_exists.mp hknown
  obtain ⟨-, hclosed, -⟩ := hgone t' p' htask' hentry'
  exact ⟨s, t, p, p', hsteps, htask, hentry, hlistens, (hdriven hstage).1, (hdriven hstage).2,
    hqueue, hheard, hentry', (hclosed hleft).1, (hclosed hleft).2⟩

end Server

end WebSocket

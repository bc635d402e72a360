import Mathlib.Data.List.MinMax
import WebSocket.Proofs.ApplicationCalls
import WebSocket.Proofs.Backpressure
import WebSocket.Proofs.ReplyLength

/-!
How many bytes wait for the network at most. A task adds to them only while they are fewer than the
settings allow: the answers to one chunk, or one message. Whatever else ends the connection adds one
short frame, and for that there is always room, because it is the last one.
-/

namespace WebSocket

namespace Connection

variable {options : Options} {c d : Connection} {texts more : List String}

/-! ## The last word -/

/-- The bytes that wait for the network, with room for the last word of a connection that has not
said it. -/
def reserved (c : Connection) : Nat :=
  c.outbound.length + if c.phase ≤ .established then Frame.maxControlSize else 0

theorem length_outbound_le (c : Connection) : c.outbound.length ≤ c.reserved :=
  Nat.le_add_right ..

theorem reserved_le (c : Connection) : c.reserved ≤ c.outbound.length + Frame.maxControlSize := by
  unfold reserved
  split
  · exact le_rfl
  · exact Nat.add_le_add_left (Nat.zero_le _) _

theorem reserved_of_silent (h : c.Silent) : c.reserved = c.outbound.length := by
  unfold reserved
  rw [if_neg, Nat.add_zero]
  rcases h with h | h <;> rw [h] <;> decide

theorem reserved_of_open (h : c.phase ≤ .established) :
    c.reserved = c.outbound.length + Frame.maxControlSize := by
  rw [reserved, if_pos h]

theorem reserved_accept (c : Connection) : c.accept.reserved = c.reserved := by
  unfold accept
  split
  · rename_i hphase
    rw [reserved_of_open (c := c) (by rw [hphase]; decide)]
    rfl
  · rfl

theorem reserved_close (c : Connection) (code : CloseCode) :
    (c.close code).reserved ≤ c.reserved := by
  have hclose := length_outbound_close c code
  cases hphase : c.phase with
  | established =>
      rw [reserved_of_silent (by simp [close, hphase, Silent]),
        reserved_of_open (by rw [hphase])]
      exact hclose
  | connecting | handshaking =>
      rw [reserved_of_silent (by simp [close, hphase, Silent]),
        reserved_of_open (by rw [hphase]; decide)]
      exact hclose
  | closing | closed => simp only [close, hphase, le_refl]

theorem reserved_fail (c : Connection) (e : Error) : (c.fail e).reserved ≤ c.reserved := by
  rw [reserved_of_silent (.inr rfl)]
  by_cases hphase : c.phase = .established
  · rw [reserved_of_open hphase.le]
    exact length_outbound_fail c e
  · rw [outbound_fail_of_ne hphase]
    exact length_outbound_le c

theorem reserved_closed (c : Connection) :
    ({ c with phase := .closed } : Connection).reserved ≤ c.reserved := by
  rw [reserved_of_silent (.inr rfl)]
  exact length_outbound_le c

theorem reserved_onTimeout (c : Connection) : c.onTimeout.2.reserved ≤ c.reserved := by
  unfold onTimeout
  split
  · exact reserved_fail c _
  · exact reserved_fail c _
  · exact reserved_fail c _
  · exact reserved_closed c
  · exact reserved_closed c

theorem reserved_finish (c : Connection) : c.finish.2.reserved ≤ c.reserved := by
  unfold finish
  split
  · rw [reportClosed_snd]
    exact reserved_closed c
  · exact le_rfl

theorem reserved_onDisconnect (c : Connection) : c.onDisconnect.2.reserved ≤ c.reserved := by
  rw [reserved_of_silent (.inr (phase_onDisconnect c)), outbound_onDisconnect]
  exact length_outbound_le c

/-! ## The largest message -/

/-- How long the largest of some texts is as a frame of the connection; zero as long as it has no
framing. -/
def largest (c : Connection) (texts : List String) : Nat :=
  (texts.map fun text => (c.encodedText text).elim 0 List.length).foldr max 0

theorem length_le_largest {text : String} {bytes : Bytes} (htext : text ∈ texts)
    (hbytes : c.encodedText text = some bytes) : bytes.length ≤ c.largest texts := by
  refine List.le_max_of_le (List.mem_map_of_mem htext) ?_
  simp [hbytes]

theorem largest_le {n : Nat}
    (h : ∀ text ∈ texts, ∀ bytes, c.encodedText text = some bytes → bytes.length ≤ n) :
    c.largest texts ≤ n := by
  refine List.max_le_of_forall_le _ _ fun size hsize => ?_
  obtain ⟨text, htext, rfl⟩ := List.mem_map.mp hsize
  cases hbytes : c.encodedText text with
  | none => exact Nat.zero_le _
  | some bytes => exact h text htext bytes hbytes

theorem Steady.largest_le (h : c.Steady d) (hc : c.Coherent options) (hmore : texts ⊆ more) :
    c.largest texts ≤ d.largest more := by
  refine Connection.largest_le fun text htext bytes hbytes => length_le_largest (hmore htext) ?_
  rcases Phase.unopened_or_opened c.phase with hunopened | hopened
  · simp [encodedText, hc.scheme_of_unopened hunopened] at hbytes
  · rwa [encodedText, h.scheme (.inr hopened)]

end Connection

namespace Task

open Connection

variable {options : Options} {t t' : Task} {p p' : Peer} {now : Time} {action : Action}
  {texts : List String} {items : List Item}

/-- The bytes that wait for the network, with room for the last word of the connection. -/
def reserved (t : Task) : Nat :=
  t.writing.length + t.connection.reserved

theorem unwritten_le (t : Task) : t.unwritten ≤ t.reserved :=
  Nat.add_le_add_left (length_outbound_le _) _

theorem reserved_le (t : Task) : t.reserved ≤ t.unwritten + Frame.maxControlSize := by
  have hconnection := t.connection.reserved_le
  unfold reserved unwritten
  omega

/-! ## Steps that add nothing -/

theorem reserved_load (t : Task) : t.load.reserved = t.reserved := by
  have hunwritten := t.unwritten_load
  obtain ⟨writing, outbound, hload⟩ := exists_load_eq t
  rw [hload] at hunwritten ⊢
  simp only [unwritten] at hunwritten
  simp only [reserved, Connection.reserved]
  omega

theorem reserved_departed (t : Task) (now : Time) : (t.departed now).reserved = t.reserved :=
  reserved_load _

theorem reserved_refreshed (t : Task) (now : Time) : (t.refreshed now).reserved = t.reserved := by
  unfold refreshed
  split <;> rfl

theorem reserved_settled (t : Task) (now : Time) : (t.settled now).reserved ≤ t.reserved := by
  have hwriting : (t.settled now).writing = t.writing := by
    unfold settled
    dsimp only
    split <;> rfl
  rw [reserved, connection_settled, hwriting]
  exact Nat.add_le_add_left (reserved_finish _) _

theorem reserved_completed (t : Task) (now : Time) : (t.completed now).reserved ≤ t.reserved := by
  have hsettled := t.reserved_settled now
  unfold completed
  split
  · rwa [reserved_departed]
  · rwa [reserved_load]

theorem reserved_stopped (t : Task) : t.stopped.reserved ≤ t.reserved :=
  Nat.add_le_add_left (reserved_onDisconnect _) _

/-! ## Messages -/

/-- The messages are texts among these, in the framing of the connection if that is open. -/
def Awaits (t : Task) (texts : List String) (messages : List Outbound) : Prop :=
  t.connection.phase = .established → t.connection.Tuned ∧
    ∀ message ∈ messages, ∃ text ∈ texts, message.Carries t.connection.scheme text

theorem Awaits.mono {messages fewer : List Outbound} (h : t.Awaits texts messages)
    (hfewer : fewer ⊆ messages) : t.Awaits texts fewer := fun hphase =>
  ⟨(h hphase).1, fun message hmessage => (h hphase).2 message (hfewer hmessage)⟩

theorem put_of_ne (h : t.connection.phase ≠ .established) (message : Outbound) :
    t.put message = t := by
  cases message <;> simp [put, sendText, sendEncoded, h, Except.toOption]

theorem exists_put_eq {message : Outbound} (h : t.Awaits texts [message]) :
    ∃ bytes, t.put message = { t with connection := t.connection.write bytes } ∧
      bytes.length ≤ t.connection.largest texts := by
  by_cases hphase : t.connection.phase = .established
  · obtain ⟨htuned, hmessages⟩ := h hphase
    obtain ⟨text, htext, hcarry⟩ := hmessages message (List.mem_singleton_self _)
    obtain ⟨bytes, hbytes, -, hput⟩ := queues_of_carries hphase htuned hcarry
    exact ⟨bytes, hput, length_le_largest htext hbytes⟩
  · refine ⟨[], ?_, Nat.zero_le _⟩
    rw [put_of_ne hphase, write_nil]

theorem reserved_put_lt {message : Outbound} (h : t.Awaits texts [message])
    (hroom : t.backlogged = false) :
    (t.put message).reserved < t.connection.options.backpressureBoundary +
      t.connection.largest texts + Frame.maxControlSize := by
  obtain ⟨bytes, hput, hlength⟩ := exists_put_eq h
  have hreserved := reserved_le (t.put message)
  simp only [backlogged, decide_eq_false_iff_not, not_le] at hroom
  rw [hput] at hreserved ⊢
  simp only [unwritten, write, List.length_append] at hreserved hroom ⊢
  omega

/-- However many messages wait, handing them over stops in time. -/
theorem reserved_putAll_lt {messages : List Outbound} (h : t.Awaits texts messages) {limit : Nat}
    (hlimit : t.connection.options.backpressureBoundary + t.connection.largest texts ≤ limit)
    (hreserved : t.reserved < limit + Frame.maxControlSize) :
    (t.putAll messages).reserved < limit + Frame.maxControlSize := by
  induction messages generalizing t with
  | nil => exact hreserved
  | cons message messages ih =>
      have hlater : t.Awaits texts messages := h.mono (List.subset_cons_self _ _)
      rw [putAll_cons]
      split
      · exact ih hlater hlimit hreserved
      · rename_i hroom
        have hfirst : t.Awaits texts [message] := h.mono (by simp)
        have hput := reserved_put_lt hfirst (by simpa using hroom)
        obtain ⟨bytes, hsame, -⟩ := exists_put_eq hfirst
        rw [hsame] at hput ⊢
        exact ih hlater hlimit (hput.trans_le (Nat.add_le_add_right hlimit _))

theorem awaits_of_linked {log : Log} (h : Linked p t.connection log)
    (htexts : log.accepted ⊆ texts) : t.Awaits texts p.queue := by
  intro hphase
  refine ⟨h.agreed hphase, fun message hmessage => ?_⟩
  obtain ⟨done, waiting, haccepted, -, hwaiting⟩ := h.ordered
  have hopen : ¬t.connection.Silent := by
    rintro (hsilent | hsilent) <;> simp [hphase] at hsilent
  obtain ⟨hlength, hcarries⟩ := List.forall₂_iff_get.mp (hwaiting hopen)
  obtain ⟨n, hn, rfl⟩ := List.getElem_of_mem hmessage
  have htext : waiting[n] ∈ log.accepted := by
    rw [haccepted]
    exact List.mem_append_right _ (List.getElem_mem _)
  exact ⟨waiting[n], htexts htext, hcarries n (hlength ▸ hn) hn⟩

/-! ## One step -/

theorem reserved_read {data : Bytes} {reply : Received} {c : Connection}
    (hc : t.connection.Coherent options) (hidle : t.connection.Idle) (hcan : t.canRead = true)
    (hlength : data.length ≤ readChunk) (hreceive : t.connection.receive data = (reply, c)) :
    ({ t with connection := c } : Task).reserved < options.backpressureBoundary +
      (Item.openingLength (t.connection.accept.takes data) + readChunk + 2 * Frame.maxControlSize) +
      Frame.maxControlSize := by
  have hroom := (canRead_iff hc (isWaiting_of_canRead hcan)).mp hcan
  obtain ⟨said, houtbound, hsaid⟩ := receive_says hidle data
  rw [hreceive] at houtbound
  change c.outbound = _ at houtbound
  have hreserved := reserved_le { t with connection := c }
  simp only [unwritten, houtbound, List.length_append] at hreserved hroom
  omega

theorem reserved_turn (hc : t.connection.Coherent options) (hidle : t.connection.Idle)
    (hawaits : t.Awaits texts p.queue) {limit : Nat}
    (hmessages : options.backpressureBoundary + t.connection.largest texts ≤ limit)
    (hreads : options.backpressureBoundary + (Item.openingLength (t.meets action) + readChunk +
      2 * Frame.maxControlSize) ≤ limit)
    (h : t.reserved < limit + Frame.maxControlSize) (hturn : Turn now t p action t' p') :
    t'.reserved < limit + Frame.maxControlSize := by
  rw [← hc.settings] at hmessages
  have hread : ∀ {data : Bytes} {reply : Received} {c : Connection}, t.canRead = true →
      data.length ≤ readChunk → t.connection.receive data = (reply, c) →
      options.backpressureBoundary + (Item.openingLength (t.connection.accept.takes data) +
        readChunk + 2 * Frame.maxControlSize) ≤ limit →
      ({ t with connection := c } : Task).reserved < limit + Frame.maxControlSize :=
    fun hcan hlength hreceive hle =>
      (reserved_read hc hidle hcan hlength hreceive).trans_le (Nat.add_le_add_right hle _)
  have htimes : ∀ {outcome : Except Error Unit} {c : Connection},
      t.connection.onTimeout = (outcome, c) →
      ({ t with connection := c } : Task).reserved < limit + Frame.maxControlSize := by
    intro outcome c htimeout
    have hlast := reserved_onTimeout t.connection
    rw [htimeout] at hlast
    exact (Nat.add_le_add_left hlast _).trans_lt h
  have hwritten : ∀ count, ({ t with writing := t.writing.drop count } : Task).reserved <
      limit + Frame.maxControlSize := by
    intro count
    have hdrop := Nat.sub_le t.writing.length count
    rw [← List.length_drop] at hdrop
    exact (Nat.add_le_add_right hdrop _).trans_lt h
  cases hturn with
  | start =>
      refine Nat.lt_of_le_of_lt ?_ h
      exact Nat.add_le_add_left (reserved_accept _).le _
  | heard hcan _ hlength hreceive => exact hread hcan hlength hreceive hreads
  | abandoned hcan _ hlength hreceive => exact hread hcan hlength hreceive hreads
  | unheard hcan _ hlength hreceive =>
      refine (reserved_completed _ now).trans_lt ?_
      rw [reserved_refreshed]
      exact hread hcan hlength hreceive hreads
  | failed hcan _ hlength hreceive =>
      rw [reserved_departed]
      exact hread hcan hlength hreceive hreads
  | hangUp | breakOff => rwa [reserved_departed]
  | @write count => exact (reserved_completed _ now).trans_lt (hwritten count)
  | @flush count =>
      rw [reserved_load]
      exact hwritten count
  | wake => exact (reserved_completed t now).trans_lt h
  | cutOff | giveUp | drained => exact (reserved_stopped t).trans_lt h
  | @take message rest hcan hqueue =>
      have hmessage : t.Awaits texts [message] := hawaits.mono (by simp [hqueue])
      have hroom : t.backlogged = false := by
        simpa [canTake, isWaiting_of_canTake hcan] using hcan
      refine (reserved_completed _ now).trans_lt ?_
      exact (reserved_put_lt hmessage hroom).trans_le (Nat.add_le_add_right hmessages _)
  | dismiss =>
      refine (reserved_completed _ now).trans_lt ?_
      exact (Nat.add_le_add_left (reserved_close _ _) _).trans_lt
        (reserved_putAll_lt hawaits hmessages h)
  | fail _ _ htimeout =>
      rw [reserved_departed]
      exact htimes htimeout
  | timeOut _ _ htimeout => exact (reserved_completed _ now).trans_lt (htimes htimeout)
  | pass | finish => exact h
  | @passLast event =>
      refine (reserved_completed _ now).trans_lt ?_
      rwa [reserved_refreshed]

/-- A task whose connection has acted on `items`, and for which texts among `texts` were accepted, lets
only so many bytes wait. -/
structure Restrained (options : Options) (texts : List String) (items : List Item) (t : Task) :
    Prop where
  idle : t.connection.Idle
  opening : (items.filterMap Item.upgrade?).length + t.connection.unopened ≤ 1
  reserved : t.reserved < options.backpressureBoundary + max (t.connection.largest texts)
    (Item.openingLength items + readChunk + 2 * Frame.maxControlSize) + Frame.maxControlSize

theorem restrained_new (id : ConnectionId) (options : Options) (texts : List String) :
    (new id options).Restrained options texts [] where
  idle := idle_new options
  opening := (by decide : 0 + 1 ≤ 1)
  reserved := by
    have hreserved : (new id options).reserved = Frame.maxControlSize := Nat.zero_add _
    have hchunk : 0 < readChunk := by decide
    rw [hreserved]
    omega

theorem upgrades_turn (hturn : Turn now t p action t' p') :
    ((t.meets action).filterMap Item.upgrade?).length + t'.connection.unopened ≤
      t.connection.unopened := by
  have hread : ∀ {data : Bytes} {reply : Received} {c d : Connection},
      t.connection.receive data = (reply, c) → c.Reaches d →
      ((t.connection.accept.takes data).filterMap Item.upgrade?).length + d.unopened ≤
        t.connection.unopened := by
    intro data reply c d hreceive hreaches
    have hupgrades := upgrades_receive t.connection data
    rw [hreceive] at hupgrades
    exact (Nat.add_le_add_left (unopened_le hreaches.steady.phase) _).trans hupgrades
  have hlater := unopened_le (reaches_turn hturn).steady.phase
  cases hturn with
  | heard _ _ _ hreceive | abandoned _ _ _ hreceive => exact hread hreceive (.refl _)
  | @unheard data c _ _ _ hreceive =>
      exact hread hreceive (reaches_completed (reaches_refreshed
        (t := { t with connection := c, undelivered := [] }) (.refl c) now) now)
  | @failed data e c _ _ _ hreceive =>
      exact hread hreceive (reaches_departed (t := { t with connection := c }) (.refl c) now)
  | _ => exact (Nat.zero_add _).trans_le hlater

theorem restrained_turn (h : t.Restrained options texts items)
    (hc : t.connection.Coherent options) (hawaits : t.Awaits texts p.queue)
    (hturn : Turn now t p action t' p') :
    t'.Restrained options texts (items ++ t.meets action) := by
  have hreaches := reaches_turn hturn
  have hlargest := hreaches.steady.largest_le hc (List.Subset.refl texts)
  have hopening := h.opening
  have hupgrades := upgrades_turn hturn
  have hreserved := h.reserved
  refine ⟨hreaches.idle h.idle, ?_, reserved_turn hc h.idle hawaits ?_ ?_ ?_ hturn⟩
  · rw [List.filterMap_append, List.length_append]
    omega
  all_goals
    rw [Item.openingLength_append]
    omega

theorem Restrained.mono {more : List String} (h : t.Restrained options texts items)
    (hmore : texts ⊆ more) : t.Restrained options more items := by
  have hlargest : t.connection.largest texts ≤ t.connection.largest more :=
    largest_le fun text htext bytes hbytes => length_le_largest (hmore htext) hbytes
  have hreserved := h.reserved
  exact ⟨h.idle, h.opening, by omega⟩

end Task

namespace Server

open Connection

variable {options : Options} {application : Application} {s s' : Server} {id : ConnectionId}
  {action : Action} {texts : List String} {items : List Item}
  {steps : List (Application × Action)}

/-- The texts that the registry accepts for a connection in a step of the server. -/
def accepts (s : Server) (id : ConnectionId) (action : Action) : List String :=
  s.registry.acceptsAll id (s.requests action)

/-- The texts that the registry accepts for a connection while the server takes some steps. -/
def accepted (s : Server) (id : ConnectionId) : List (Application × Action) → List String
  | [] => []
  | (application, action) :: steps =>
    ((s.serving application).act action).elim [] fun s' =>
      (s.serving application).accepts id action ++ s'.accepted id steps

/-- A connection that has acted on `items`, and for which `texts` were accepted, lets only so many
bytes wait. -/
structure Restrains (s : Server) (options : Options) (id : ConnectionId) (texts : List String)
    (items : List Item) : Prop where
  attends : s.Attends options id
  tracks : ∃ log, s.Tracks id log ∧ log.accepted ⊆ texts
  absent : s.task? id = none → items = []
  restrained : ∀ t, s.task? id = some t → t.Restrained options texts items

theorem restrains_new (options : Options) (application : Application) (id : ConnectionId) :
    (new options application).Restrains options id [] [] where
  attends := attends_new options application id
  tracks := ⟨⟨[], []⟩, tracks_new options application id, List.Subset.refl _⟩
  absent _ := rfl
  restrained t htask := by simp [new, task?] at htask

theorem Restrains.awaits (h : s.Restrains options id texts items) {t : Task} {p : Peer}
    (htask : s.task? id = some t) (hentry : (s.asked action).peer? id = some p) :
    t.Awaits (texts ++ s.accepts id action) p.queue := by
  obtain ⟨log, htracks, hlog⟩ := h.tracks
  have hpassed := Kept.passed htracks (Registry.passed_performAll s.registry id (s.requests action))
  rw [asked] at hentry
  rw [htask, hentry] at hpassed
  cases hpassed with
  | known hlinked =>
      refine Task.awaits_of_linked hlinked ?_
      exact List.append_subset.mpr
        ⟨List.Subset.trans hlog (List.subset_append_left ..), List.subset_append_right ..⟩

theorem restrains_act (h : s.Restrains options id texts items) (hact : s.act action = some s') :
    s'.Restrains options id (texts ++ s.accepts id action) (items ++ s.meets id action) := by
  have hmore : texts ⊆ texts ++ s.accepts id action := List.subset_append_left ..
  obtain ⟨log, htracks, hlog⟩ := h.tracks
  have hnoted : (s.noted id log action).accepted ⊆ texts ++ s.accepts id action := by
    unfold noted
    split
    · exact List.nil_subset _
    · exact List.append_subset.mpr ⟨List.Subset.trans hlog hmore, List.subset_append_right ..⟩
  suffices hnow : (s'.task? id = none → items ++ s.meets id action = []) ∧
      ∀ t, s'.task? id = some t →
        t.Restrained options (texts ++ s.accepts id action) (items ++ s.meets id action) from
    ⟨attends_act h.attends hact, ⟨_, tracks_act htracks hact, hnoted⟩, hnow.1, hnow.2⟩
  cases glance_of_act hact h.attends.known with
  | accepted haction _ htask =>
      have hquiet : s.meets id action = [] := by
        rw [haction]
        rfl
      rw [htask, hquiet, List.append_nil, h.attends.settings]
      cases hbefore : s.task? id with
      | none =>
          rw [h.absent hbefore]
          refine ⟨fun _ => rfl, fun t ht => ?_⟩
          cases ht
          exact Task.restrained_new ..
      | some t =>
          refine ⟨by simp, fun t' ht' => ?_⟩
          cases ht'
          exact (h.restrained t hbefore).mono hmore
  | @turned t t' p _ htask hentry hturn hafter =>
      have hown : action.task? = some id := by rw [action_task?_of_turn hturn, id_of_task? htask]
      rw [hafter, meets, if_pos hown, htask, Option.elim_some]
      refine ⟨by simp, fun u hu => ?_⟩
      cases hu
      exact Task.restrained_turn ((h.restrained t htask).mono hmore)
        (h.attends.asked htask hentry).connection (h.awaits htask hentry) hturn
  | aside hother htask =>
      rw [meets, if_neg hother, List.append_nil, htask]
      exact ⟨h.absent, fun t ht => (h.restrained t ht).mono hmore⟩

theorem restrains_run (h : s.Restrains options id texts items)
    (hrun : s.runWith steps = some s') :
    s'.Restrains options id (texts ++ s.accepted id steps) (items ++ s.taken id steps) := by
  induction steps generalizing s texts items with
  | nil =>
      cases hrun
      simpa [accepted, taken] using h
  | cons step steps ih =>
      obtain ⟨application, action⟩ := step
      rw [runWith_cons, Option.bind_eq_some_iff] at hrun
      obtain ⟨next, hact, hrun⟩ := hrun
      rw [accepted, taken, hact, Option.elim_some, Option.elim_some, ← List.append_assoc,
        ← List.append_assoc]
      have hserving : (s.serving application).Restrains options id texts items :=
        ⟨⟨h.attends.settings, h.attends.known, h.attends.attentive⟩, h.tracks, h.absent,
          h.restrained⟩
      exact ih (restrains_act hserving hact) hrun

/-- **What waits for the network is bounded**, whatever the peer sends, whether or not it reads, and
however the task takes turns. Of all the requests of a connection one at most is accepted. At any
time fewer bytes wait than the settings allow before the task takes no more, together with the
larger of two things, the largest message that was accepted for the connection, or the answer to the
upgrade, one chunk and two short frames, and with one more short frame. In particular an open
connection answers a chunk, whatever it has been through, with no more bytes than the chunk has and
two short frames. -/
theorem output_is_bounded (hrun : (new options application).runWith steps = some s)
    (id : ConnectionId) :
    (((new options application).taken id steps).filterMap Item.upgrade?).length ≤ 1 ∧
    (∀ t, s.task? id = some t →
      let largest := t.connection.largest ((new options application).accepted id steps)
      let response := Item.openingLength ((new options application).taken id steps)
      t.unwritten < options.backpressureBoundary +
        max largest (response + Task.readChunk + 254) + 127) ∧
    ∀ (calls : List Operation) (data : Bytes),
      let c := ((Ledger.new options).run calls).connection
      c.phase = .established →
        ∃ said, (c.receive data).2.outbound = c.outbound ++ said ∧
          said.length ≤ data.length + 254 := by
  have hrestrains := restrains_run (restrains_new options application id) hrun
  rw [List.nil_append, List.nil_append] at hrestrains
  refine ⟨?_, fun t htask => ?_, ?_⟩
  · cases htask : s.task? id with
    | none =>
        rw [hrestrains.absent htask]
        exact Nat.zero_le _
    | some t => exact (Nat.le_add_right ..).trans (hrestrains.restrained t htask).opening
  · exact t.unwritten_le.trans_lt (hrestrains.restrained t htask).reserved
  · intro calls data c hphase
    have hidle : c.Idle := Ledger.idle_run (idle_new options) calls
    obtain ⟨said, houtbound, hsaid⟩ := receive_says hidle data
    rw [openingLength_of_opened hphase.ge, Nat.zero_add] at hsaid
    exact ⟨said, houtbound, hsaid⟩

/-- The settings of a server that takes no more work from 256 unwritten bytes on. -/
def shortBacklog : Options :=
  { Options.standard with backpressureBoundary := 256 }

/-- A client opens a connection and sends forty pings, and reads nothing. -/
def pingFlood : List (Application × Action) :=
  [.accept, .start ⟨1⟩, .read ⟨1⟩ Ledger.plainRequest, .deliver ⟨1⟩,
    .read ⟨1⟩ (List.replicate 40 [0x89, 0x82, 0, 0, 0, 0, 0x48, 0x69]).flatten].map
    fun action => (.echo, action)

theorem ping_flood_is_bounded :
    ∃ s t, (new shortBacklog .echo).runWith pingFlood = some s ∧ s.task? ⟨1⟩ = some t ∧
      t.unwritten = 289 ∧ t.canRead = false ∧
      t.unwritten < 256 + max
        (t.connection.largest ((new shortBacklog .echo).accepted ⟨1⟩ pingFlood))
        (Item.openingLength ((new shortBacklog .echo).taken ⟨1⟩ pingFlood) + 8192 + 254) + 127 := by
  have hrun : ((new shortBacklog .echo).runWith pingFlood).any (fun s =>
      (s.task? ⟨1⟩).any fun t => t.unwritten = 289 && !t.canRead) = true := by
    decide +kernel
  obtain ⟨s, hsteps, htasks⟩ := (Option.any_eq_true ..).mp hrun
  obtain ⟨t, htask, hfacts⟩ := (Option.any_eq_true ..).mp htasks
  simp only [Bool.and_eq_true, decide_eq_true_eq, Bool.not_eq_true'] at hfacts
  exact ⟨s, t, hsteps, htask, hfacts.1, hfacts.2, (output_is_bounded hsteps ⟨1⟩).2.1 t htask⟩

end Server

end WebSocket

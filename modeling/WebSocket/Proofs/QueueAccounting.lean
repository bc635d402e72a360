import WebSocket.Proofs.BroadcastOutcome
import WebSocket.Proofs.RegistryOperations

/-!
The queues of a registry over whole runs of operations: what a task has taken and what it still
finds is what the registry has accepted for it, in that order. What one operation does to a queue is
proved for the one entry, and the run follows by induction.
-/

namespace WebSocket

namespace Peer

/-- Whether a message for a connection is accepted. -/
def accepts (p : Peer) : Bool :=
  p.listed && !p.isStale && p.phase = .established && p.hasRoom

end Peer

namespace Registry

/-- The messages that an operation makes the registry accept for a connection: the one that `send`
says was accepted, or the text of a broadcast that has counted the connection, framed for it. -/
def admits (r : Registry) (id : ConnectionId) : Operation → List Outbound
  | .send other message => if id = other ∧ (r.send other message).1.isOk then [message] else []
  | .broadcast text =>
    (((r.peer? id).filter fun p => (hear text p).2).bind fun p =>
      (textBytes p.scheme text).map .encoded).toList
  | _ => []

/-- What comes out of a queue. -/
def Taken.message? : Taken → Option Outbound
  | .message taken => some taken
  | .empty => none
  | .disconnected => none
  | .gone => none

/-- The messages that the task of a connection gets in an operation. -/
def serves (r : Registry) (id : ConnectionId) : Operation → List Outbound
  | .take other => if id = other then (r.take other).1.message?.toList else []
  | _ => []

/-- The registry after some operations, if all of them are possible one after another. -/
def run (r : Registry) (ops : List Operation) : Option Registry :=
  ops.foldlM apply r

/-- What was accepted for a connection in a run of operations, the first message first. -/
def admitted (r : Registry) (id : ConnectionId) : List Operation → List Outbound
  | [] => []
  | op :: ops => r.admits id op ++ (r.apply op).elim [] fun after => after.admitted id ops

/-- What the task of a connection has taken in a run of operations, the first message first. -/
def served (r : Registry) (id : ConnectionId) : List Operation → List Outbound
  | [] => []
  | op :: ops => r.serves id op ++ (r.apply op).elim [] fun after => after.served id ops

/-- What waits for the task of a connection. -/
def waiting (r : Registry) (id : ConnectionId) : List Outbound :=
  (r.peer? id).elim [] Peer.queue

variable {r after : Registry} {id : ConnectionId} {op : Operation} {ops : List Operation}

/-! ## One operation at one entry -/

theorem isOk_send (r : Registry) (id : ConnectionId) (message : Outbound) :
    (r.send id message).1.isOk = (r.peer? id).any Peer.accepts := by
  have hfound : ∀ {p : Peer}, r.listed? id = some p →
      (r.peer? id).any Peer.accepts = (!p.isStale && p.phase = .established && p.hasRoom) := by
    intro p hlisted
    rw [listed?_eq_some hlisted, Option.any_some, Peer.accepts, listed_of_listed? hlisted,
      Bool.true_and]
  have hsent := sent_send r id message
  generalize r.send id message = outcome at hsent
  cases hsent with
  | unknown hnone =>
      cases hentry : r.peer? id with
      | none => rfl
      | some p => simp [Peer.accepts, unlisted_of_listed? hnone hentry, Except.isOk, Except.toBool]
  | stale hlisted hstale => simp [hfound hlisted, hstale, Except.isOk, Except.toBool]
  | unopened hlisted hlive hphase => simp [hfound hlisted, hphase, Except.isOk, Except.toBool]
  | accepted hlisted hlive hphase hroom =>
      simp [hfound hlisted, hlive, hphase, hroom, Except.isOk, Except.toBool]
  | evicted hlisted hlive hphase hfull =>
      simp [hfound hlisted, hfull, Except.isOk, Except.toBool]

theorem queue_handed (p : Peer) (message : Outbound) :
    (p.handed message).queue = p.queue ++ if p.accepts then [message] else [] := by
  unfold Peer.handed
  split
  · rename_i hunlisted
    have hunlisted : p.listed = false := by simpa using hunlisted
    simp [Peer.accepts, hunlisted]
  rename_i hlisted
  split
  · rename_i hstale
    simp [Peer.accepts, hstale, Peer.unlist]
  rename_i hlive
  split
  · rename_i hphase
    simp [Peer.accepts, hphase]
  rename_i hphase
  have haccepts : p.accepts = p.hasRoom := by
    have hlisted : p.listed = true := by simpa using hlisted
    have hlive : p.isStale = false := by simpa using hlive
    have hphase : p.phase = .established := by simpa using hphase
    simp [Peer.accepts, hlisted, hlive, hphase]
  unfold Peer.deliver
  cases hroom : p.hasRoom <;> simp [haccepts, hroom, Peer.push, Peer.evict, Peer.requestClose,
    Peer.unlist]

theorem queue_asked (p : Peer) (code : CloseCode) : (p.asked code).queue = p.queue := by
  unfold Peer.asked
  split
  · rfl
  split <;> rfl

theorem queue_hear (text : String) (p : Peer) :
    (hear text p).1.queue = p.queue ++
      (((some p).filter fun p => (hear text p).2).bind fun p =>
        (textBytes p.scheme text).map .encoded).toList := by
  have hhears := hears_hear text p
  rw [Option.filter_some]
  generalize hear text p = outcome at hhears
  obtain ⟨p', took⟩ := outcome
  cases hhears with
  | reached _ _ _ hscheme _ hencode => simp [textBytes, hscheme, hencode, Except.toOption]
  | evicted | forgotten | passed => simp

theorem message?_take (r : Registry) (id : ConnectionId) :
    (r.take id).1.message? =
      (r.peer? id).bind fun p => if p.receiving then p.queue.head? else none := by
  unfold take
  split
  · rename_i hnone
    rw [hnone]
    rfl
  rename_i p hentry
  rw [hentry, Option.bind_some]
  split
  · rename_i hgone
    have hgone : p.receiving = false := by simpa using hgone
    simp [hgone, Taken.message?]
  rename_i hreceiving
  have hreceiving : p.receiving = true := by simpa using hreceiving
  split
  · rename_i message rest hqueue
    simp [hreceiving, hqueue, Taken.message?]
  · rename_i hqueue
    cases hlisted : p.listed <;> simp [hreceiving, hqueue, Taken.message?]

/-! ## Runs -/

/-- Nothing has been lost with the task of a connection so far. -/
def Alive (r : Registry) (id : ConnectionId) : Prop :=
  ∀ p, r.peer? id = some p → p.receiving = true

theorem queue_under {p : Peer} (hentry : r.peer? id = some p) (op : Operation)
    (halive : (p.under id op).receiving = true) :
    r.serves id op ++ (p.under id op).queue = p.queue ++ r.admits id op := by
  have hreceiving := (p.wanes_under id op).receiving halive
  cases op with
  | nextId | insert => simp [Peer.under, serves, admits]
  | setPhase other | setScheme other | remove other =>
      by_cases hid : id = other <;> simp [Peer.under, serves, admits, hid, Peer.unlist]
  | close other code =>
      by_cases hid : id = other <;> simp [Peer.under, serves, admits, hid, queue_asked]
  | send other message =>
      by_cases hid : id = other
      · subst hid
        simp [Peer.under, serves, admits, queue_handed, isOk_send, hentry]
      · simp [Peer.under, serves, admits, hid]
  | broadcast text => simp [Peer.under, queue_hear, serves, admits, hentry]
  | take other =>
      by_cases hid : id = other
      · subst hid
        cases hqueue : p.queue <;>
          simp [Peer.under, serves, admits, message?_take, hentry, Peer.served, hreceiving, hqueue]
      · simp [Peer.under, serves, admits, hid]
  | stopReceiving other =>
      by_cases hid : id = other
      · simp [Peer.under, hid, Peer.stopReceiving] at halive
      · simp [Peer.under, serves, admits, hid]

/-- What one operation takes out of a queue and puts behind it. -/
theorem account_apply (h : r.apply op = some after) (halive : after.Alive id) :
    r.Alive id ∧ r.serves id op ++ after.waiting id = r.waiting id ++ r.admits id op := by
  rcases entry_of_apply h id with ⟨capacity, rfl, hnone, hnew⟩ | hlocal
  · refine ⟨fun p hp => by simp [hnone] at hp, ?_⟩
    simp [serves, admits, waiting, hnone, hnew, Peer.new]
  cases hentry : r.peer? id with
  | none =>
      rw [hentry, Option.map_none] at hlocal
      refine ⟨fun p hp => by simp [hentry] at hp, ?_⟩
      cases op with
      | send other message =>
          by_cases hid : id = other
          · subst hid
            simp [serves, admits, waiting, hentry, hlocal, isOk_send]
          · simp [serves, admits, waiting, hentry, hlocal, hid]
      | take other =>
          by_cases hid : id = other
          · subst hid
            simp [serves, admits, waiting, hentry, hlocal, message?_take]
          · simp [serves, admits, waiting, hentry, hlocal, hid]
      | _ => simp [serves, admits, waiting, hentry, hlocal]
  | some p =>
      rw [hentry, Option.map_some] at hlocal
      have hreceiving := halive _ hlocal
      refine ⟨fun q hq => ?_, ?_⟩
      · obtain rfl : q = p := Option.some.inj (hq.symm.trans hentry)
        exact (q.wanes_under id op).receiving hreceiving
      · rw [waiting, waiting, hentry, hlocal]
        exact queue_under hentry op hreceiving

theorem run_cons (r : Registry) (op : Operation) (ops : List Operation) :
    r.run (op :: ops) = (r.apply op).bind (·.run ops) :=
  List.foldlM_cons ..

theorem account_run (h : r.run ops = some after) (halive : after.Alive id) :
    r.Alive id ∧ r.served id ops ++ after.waiting id = r.waiting id ++ r.admitted id ops := by
  induction ops generalizing r with
  | nil =>
      cases h
      exact ⟨halive, by simp [served, admitted]⟩
  | cons op ops ih =>
      rw [run_cons, Option.bind_eq_some_iff] at h
      obtain ⟨next, hop, h⟩ := h
      obtain ⟨hnext, hrun⟩ := ih h
      obtain ⟨hfirst, hstep⟩ := account_apply hop hnext
      refine ⟨hfirst, ?_⟩
      rw [served, admitted, hop, Option.elim_some, Option.elim_some, List.append_assoc, hrun,
        ← List.append_assoc, hstep, List.append_assoc]

/-- No queue of a registry holds more than it has room for. -/
def Bounded (r : Registry) : Prop :=
  ∀ id p, r.peer? id = some p → p.queue.length ≤ p.capacity

theorem length_le_hear (text : String) {p : Peer} (h : p.queue.length ≤ p.capacity) :
    (hear text p).1.queue.length ≤ (hear text p).1.capacity := by
  have hhears := hears_hear text p
  generalize hear text p = outcome at hhears
  obtain ⟨p', took⟩ := outcome
  cases hhears with
  | reached _ _ _ _ hroom =>
      rw [List.length_append]
      exact hroom
  | evicted | forgotten | passed => exact h

theorem length_le_handed (message : Outbound) {p : Peer} (h : p.queue.length ≤ p.capacity) :
    (p.handed message).queue.length ≤ p.capacity := by
  rw [queue_handed]
  cases haccepts : p.accepts with
  | false => simpa using h
  | true =>
      have hroom : p.queue.length < p.capacity := by
        simp only [Peer.accepts, Peer.hasRoom, Bool.and_eq_true, decide_eq_true_eq] at haccepts
        exact haccepts.2
      simpa using Nat.succ_le_of_lt hroom

theorem length_le_under {p : Peer} (h : p.queue.length ≤ p.capacity) (id : ConnectionId)
    (op : Operation) : (p.under id op).queue.length ≤ (p.under id op).capacity := by
  rw [(p.wanes_under id op).capacity]
  have hat : ∀ {other : ConnectionId} {p' : Peer}, p'.queue.length ≤ p.capacity →
      (if id = other then p' else p).queue.length ≤ p.capacity := by
    intro other p' h'
    split
    · exact h'
    · exact h
  cases op with
  | nextId | insert => exact h
  | setPhase | setScheme | remove => exact hat h
  | send other message => exact hat (length_le_handed message h)
  | broadcast text =>
      rw [← (Peer.wanes_hear text p).capacity]
      exact length_le_hear text h
  | close other code => exact hat (queue_asked p code ▸ h)
  | take other =>
      refine hat ?_
      unfold Peer.served
      split
      · rw [List.length_tail]
        omega
      · exact h
  | stopReceiving other => exact hat (Nat.zero_le _)

theorem bounded_apply (hbounded : r.Bounded) (h : r.apply op = some after) : after.Bounded := by
  intro id p hp
  rcases entry_of_apply h id with ⟨capacity, -, -, hnew⟩ | hlocal
  · obtain rfl : Peer.new capacity = p := Option.some.inj (hnew.symm.trans hp)
    exact Nat.zero_le _
  · rw [hp] at hlocal
    obtain ⟨before, hentry, rfl⟩ := Option.map_eq_some_iff.mp hlocal.symm
    exact length_le_under (hbounded id before hentry) id op

theorem bounded_run (hbounded : r.Bounded) (h : r.run ops = some after) : after.Bounded := by
  induction ops generalizing r with
  | nil =>
      cases h
      exact hbounded
  | cons op ops ih =>
      rw [run_cons, Option.bind_eq_some_iff] at h
      obtain ⟨next, hop, h⟩ := h
      exact ih (bounded_apply hbounded hop) h

theorem nodup_keys_run (hkeys : (r.peers.map Prod.fst).Nodup) (h : r.run ops = some after) :
    (after.peers.map Prod.fst).Nodup := by
  induction ops generalizing r with
  | nil =>
      cases h
      exact hkeys
  | cons op ops ih =>
      rw [run_cons, Option.bind_eq_some_iff] at h
      obtain ⟨next, hop, h⟩ := h
      exact ih (nodup_keys_apply hop hkeys) h

/-! ## Sending and closing -/

/-- What the answer to a request for the connection `id` says about it, and that the request leaves
the others alone; `evicts` says which connections it removes. -/
structure Confined (r : Registry) (id : ConnectionId) (evicts : Peer → Prop)
    (outcome : Except Error Unit × Registry) : Prop where
  others : ∀ other, other ≠ id → outcome.2.peer? other = r.peer? other
  queues : outcome.1.isOk = false →
    ∀ other, (outcome.2.peer? other).map Peer.queue = (r.peer? other).map Peer.queue
  unknown : outcome.1 = .error (.unknownConnection id) ↔ r.listed? id = none
  refused : outcome.1.isOk = false → r.listed? id ≠ none → outcome.1 = .error .connectionClosed
  removed : ∀ p, r.listed? id = some p → (outcome.2.listed? id = none ↔ evicts p)

theorem queues_of_changes {f : Peer → Peer} (h : r.Changes id f after)
    (hqueue : ∀ p, r.peer? id = some p → (f p).queue = p.queue) (other : ConnectionId) :
    (after.peer? other).map Peer.queue = (r.peer? other).map Peer.queue := by
  by_cases hother : other = id
  · subst hother
    rw [h other]
    cases hentry : r.peer? other with
    | none => rfl
    | some p => simp [hqueue p hentry]
  · rw [others_of_changes h hother]

theorem removed_of_changes {f : Peer → Peer} (h : r.Changes id f after) {p : Peer}
    (hlisted : r.listed? id = some p) : after.listed? id = none ↔ (f p).listed = false := by
  rw [listed?, h id, listed?_eq_some hlisted, Option.map_some, if_pos rfl, Option.filter_some]
  cases (f p).listed <;> simp

theorem listed_handed {p : Peer} (hlisted : p.listed = true) (message : Outbound) :
    (p.handed message).listed = false ↔
      p.isStale = true ∨ p.phase = .established ∧ p.capacity ≤ p.queue.length := by
  unfold Peer.handed
  rw [if_neg (by simp [hlisted])]
  split
  · rename_i hstale
    simp [hstale, Peer.unlist]
  rename_i hlive
  have hlive : p.isStale = false := by simpa using hlive
  split
  · rename_i hphase
    simp [hlive, hphase, hlisted]
  rename_i hphase
  have hphase : p.phase = .established := by simpa using hphase
  unfold Peer.deliver
  cases hroom : p.hasRoom with
  | true =>
      have hroom : p.queue.length < p.capacity := by simpa [Peer.hasRoom] using hroom
      simp [hlive, hphase, Peer.push, hlisted, hroom]
  | false =>
      have hfull : p.capacity ≤ p.queue.length := by simpa [Peer.hasRoom] using hroom
      simp [hlive, hphase, Peer.evict, Peer.unlist, hfull]

theorem confined_send (r : Registry) (id : ConnectionId) (message : Outbound) :
    r.Confined id
      (fun p => p.isStale = true ∨ p.phase = .established ∧ p.capacity ≤ p.queue.length)
      (r.send id message) where
  others _ hother := others_of_changes (changes_send r id message) hother
  queues hfailed := by
    refine queues_of_changes (changes_send r id message) fun p hentry => ?_
    have hrefused : p.accepts = false := by
      rwa [isOk_send, hentry, Option.any_some] at hfailed
    rw [queue_handed, hrefused]
    simp
  unknown := by
    have hsent := sent_send r id message
    generalize r.send id message = outcome at hsent
    cases hsent with
    | unknown hnone => simp [hnone]
    | stale hlisted | unopened hlisted | accepted hlisted | evicted hlisted => simp [hlisted]
  refused hfailed hknown := by
    have hsent := sent_send r id message
    generalize r.send id message = outcome at hsent hfailed
    cases hsent with
    | unknown hnone => exact absurd hnone hknown
    | stale | unopened | evicted => rfl
    | accepted => simp [Except.isOk, Except.toBool] at hfailed
  removed p hlisted := by
    rw [removed_of_changes (changes_send r id message) hlisted,
      listed_handed (listed_of_listed? hlisted)]

theorem listed_asked {p : Peer} (hlisted : p.listed = true) (code : CloseCode) :
    (p.asked code).listed = false ↔ p.isStale = true := by
  unfold Peer.asked
  rw [if_neg (by simp [hlisted])]
  split
  · rename_i hstale
    simp [hstale, Peer.unlist]
  · rename_i hlive
    simp [hlive, Peer.requestClose, hlisted]

theorem confined_close (r : Registry) (id : ConnectionId) (code : CloseCode) :
    r.Confined id (fun p => p.isStale = true) (r.close id code) where
  others _ hother := others_of_changes (changes_close r id code) hother
  queues _ := queues_of_changes (changes_close r id code) fun p _ => queue_asked p code
  unknown := by
    have hclosed := closed_close r id code
    generalize r.close id code = outcome at hclosed
    cases hclosed with
    | unknown hnone => simp [hnone]
    | stale hlisted | asked hlisted => simp [hlisted]
  refused hfailed hknown := by
    have hclosed := closed_close r id code
    generalize r.close id code = outcome at hclosed hfailed
    cases hclosed with
    | unknown hnone => exact absurd hnone hknown
    | stale => rfl
    | asked => simp [Except.isOk, Except.toBool] at hfailed
  removed p hlisted := by
    rw [removed_of_changes (changes_close r id code) hlisted,
      listed_asked (listed_of_listed? hlisted)]

theorem accepts_of_isReachable {p : Peer} (h : p.isReachable = true) : p.accepts = true := by
  simp only [Peer.isReachable, Bool.and_eq_true] at h
  obtain ⟨⟨⟨⟨hlisted, hlive⟩, hphase⟩, -⟩, hroom⟩ := h
  simp only [Peer.accepts, hlisted, hlive, hphase, hroom, Bool.and_self]

theorem exists_of_admits (h : r.admits id op ≠ []) :
    ∃ p, r.listed? id = some p ∧ p.isStale = false ∧ p.phase = .established ∧
      p.queue.length < p.capacity := by
  have hfound : ∀ {p : Peer}, r.peer? id = some p → p.accepts = true →
      ∃ p, r.listed? id = some p ∧ p.isStale = false ∧ p.phase = .established ∧
        p.queue.length < p.capacity := by
    intro p hentry haccepts
    simp only [Peer.accepts, Peer.hasRoom, Bool.and_eq_true, Bool.not_eq_true',
      decide_eq_true_eq] at haccepts
    obtain ⟨⟨⟨hlisted, hlive⟩, hphase⟩, hroom⟩ := haccepts
    exact ⟨p, by rw [listed?, hentry, Option.filter_some, if_pos hlisted], hlive, hphase, hroom⟩
  cases op with
  | send other message =>
      simp only [admits, ne_eq, ite_eq_right_iff, reduceCtorEq, imp_false, not_not] at h
      obtain ⟨rfl, hok⟩ := h
      rw [isOk_send, Option.any_eq_true] at hok
      obtain ⟨p, hentry, haccepts⟩ := hok
      exact hfound hentry haccepts
  | broadcast text =>
      cases hentry : r.peer? id with
      | none => simp [admits, hentry] at h
      | some p =>
          have htook : (hear text p).2 = true := by
            by_contra htook
            simp [admits, hentry, Option.filter_some, htook] at h
          rw [hear_snd] at htook
          exact hfound hentry (accepts_of_isReachable htook)
  | _ => simp [admits] at h

/-- **Queues neither lose nor double nor reorder, and requests stay with their connection.** After
any run of operations there is at most one entry for each connection, and as long as a task takes
messages, those that it has taken and those that wait are the ones that were accepted for it, in the
order in which they were accepted, and no more wait than there is room for. A message is accepted
only for a listed, live and established connection with room in its queue. Sending to a connection
and closing it change no other connection; when they fail they change no queue, and they say whether
the connection is unknown; and they remove it just when it is stale or, in sending, established with
a full queue. -/
theorem queues_account_for_messages (h : empty.run ops = some r) (id : ConnectionId) :
    (r.peers.map Prod.fst).Nodup ∧
    (∀ p, r.peer? id = some p → p.receiving = true →
      empty.served id ops ++ p.queue = empty.admitted id ops ∧ p.queue.length ≤ p.capacity) ∧
    (∀ op, r.admits id op ≠ [] → ∃ p, r.listed? id = some p ∧ p.isStale = false ∧
      p.phase = .established ∧ p.queue.length < p.capacity) ∧
    (∀ message, r.Confined id
      (fun p => p.isStale = true ∨ p.phase = .established ∧ p.capacity ≤ p.queue.length)
      (r.send id message)) ∧
    ∀ code, r.Confined id (fun p => p.isStale = true) (r.close id code) := by
  refine ⟨nodup_keys_run (by simp [empty]) h, fun p hentry hreceiving => ⟨?_, ?_⟩,
    fun op hadmits => exists_of_admits hadmits, confined_send r id, confined_close r id⟩
  · have halive : r.Alive id := by
      intro q hq
      obtain rfl : q = p := Option.some.inj (hq.symm.trans hentry)
      exact hreceiving
    obtain ⟨-, haccount⟩ := account_run h halive
    rw [waiting, hentry] at haccount
    simpa [waiting, empty, peer?] using haccount
  · exact bounded_run (fun id p hp => by simp [empty, peer?] at hp) h id p hentry

/-- A connection is listed and opens with room for one message; it gets a text and takes it, then
hears a broadcast, and has no room for the last text. -/
def slowReader : List Operation :=
  [.nextId, .insert ⟨1⟩ 1, .setScheme ⟨1⟩ .legacy, .setPhase ⟨1⟩ .established,
    .send ⟨1⟩ (.text "Hi"), .take ⟨1⟩, .broadcast "Ho", .send ⟨1⟩ (.text "Hu")]

theorem slow_reader_is_accounted_for :
    ∃ r p, empty.run slowReader = some r ∧ r.peer? ⟨1⟩ = some p ∧ p.receiving = true ∧
      p.listed = false ∧ [.text "Hi"] ++ p.queue = [.text "Hi", .encoded [0x00, 0x48, 0x6F, 0xFF]] ∧
      p.queue.length ≤ 1 := by
  have hrun : (empty.run slowReader).any (fun r => (r.peer? ⟨1⟩).any fun p =>
      p.receiving && !p.listed && p.capacity = 1) = true := by
    decide +kernel
  have hserved : empty.served ⟨1⟩ slowReader = [.text "Hi"] := by decide +kernel
  have hadmitted : empty.admitted ⟨1⟩ slowReader =
      [.text "Hi", .encoded [0x00, 0x48, 0x6F, 0xFF]] := by
    decide +kernel
  obtain ⟨r, hops, hpeers⟩ := (Option.any_eq_true ..).mp hrun
  obtain ⟨p, hentry, hfacts⟩ := (Option.any_eq_true ..).mp hpeers
  simp only [Bool.and_eq_true, Bool.not_eq_true', decide_eq_true_eq] at hfacts
  obtain ⟨⟨hreceiving, hunlisted⟩, hcapacity⟩ := hfacts
  obtain ⟨haccount, hbound⟩ := (queues_account_for_messages hops ⟨1⟩).2.1 p hentry hreceiving
  rw [hserved, hadmitted] at haccount
  exact ⟨r, p, hops, hentry, hreceiving, hunlisted, haccount, hcapacity ▸ hbound⟩

end Registry

end WebSocket

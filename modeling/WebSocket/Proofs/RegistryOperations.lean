import WebSocket.Proofs.BroadcastOutcome

namespace WebSocket

namespace Registry

theorem lookup_filter_ne {id other : ConnectionId} (h : other ≠ id)
    (peers : List (ConnectionId × Peer)) :
    (peers.filter (·.1 ≠ id)).lookup other = peers.lookup other := by
  induction peers with
  | nil => rfl
  | cons entry peers ih =>
      obtain ⟨key, peer⟩ := entry
      by_cases hkey : key = id
      · rw [List.filter_cons_of_neg (by simpa using hkey), List.lookup_cons, ih, hkey,
          beq_false_of_ne h]
      · rw [List.filter_cons_of_pos (by simpa using hkey), List.lookup_cons, List.lookup_cons, ih]

theorem peer?_insert (r : Registry) (id other : ConnectionId) (peer : Peer) :
    (r.insert id peer).peer? other = if other = id then some peer else r.peer? other := by
  rw [peer?, insert, List.lookup_cons]
  by_cases hsame : other = id
  · simp [hsame]
  · rw [if_neg hsame, beq_false_of_ne hsame]
    exact lookup_filter_ne hsame r.peers

theorem peer?_update_of_some {r : Registry} {id : ConnectionId} {p : Peer} (f : Peer → Peer)
    (h : r.peer? id = some p) (other : ConnectionId) :
    (r.update id fun _ => f p).peer? other =
      (r.peer? other).map fun p => if other = id then f p else p := by
  rw [peer?_update]
  by_cases hsame : other = id
  · rw [hsame, h]
    simp
  · simp [hsame]

theorem map_of_none {r : Registry} {id : ConnectionId} (f : Peer → Peer) (h : r.peer? id = none)
    (other : ConnectionId) :
    r.peer? other = (r.peer? other).map fun p => if other = id then f p else p := by
  by_cases hsame : other = id
  · rw [hsame, h, Option.map_none]
  · simp [hsame]

theorem peer?_takeWakeUp (r : Registry) (id other : ConnectionId) :
    (r.takeWakeUp id).2.peer? other =
      (r.peer? other).map fun p => if other = id then { p with woken := false } else p := by
  unfold takeWakeUp
  split
  · rename_i hnone
    exact map_of_none _ hnone other
  · rename_i peer hsome
    exact peer?_update_of_some (fun p => { p with woken := false }) hsome other

theorem peer?_takeCloseRequest (r : Registry) (id other : ConnectionId) :
    (r.takeCloseRequest id).2.peer? other =
      (r.peer? other).map fun p => if other = id then { p with closeNumber := 0 } else p := by
  unfold takeCloseRequest
  split
  · rename_i hnone
    exact map_of_none _ hnone other
  · rename_i peer hsome
    exact peer?_update_of_some (fun p => { p with closeNumber := 0 }) hsome other

/-- What can be asked of a registry and of what it shares with the tasks. A new connection comes
with a fresh entry, under an identifier that no connection has had; a task reports its phase and
scheme, takes messages, and stops to take them. -/
inductive Operation where
  | nextId
  | insert (id : ConnectionId) (capacity : Nat)
  | setPhase (id : ConnectionId) (phase : Phase)
  | setScheme (id : ConnectionId) (scheme : Scheme)
  | send (id : ConnectionId) (message : Outbound)
  | broadcast (text : String)
  | close (id : ConnectionId) (code : CloseCode)
  | remove (id : ConnectionId)
  | take (id : ConnectionId)
  | stopReceiving (id : ConnectionId)
  deriving DecidableEq

/-- The registry after an operation, if it is possible. -/
def apply (r : Registry) : Operation → Option Registry
  | .nextId => some r.nextId.2
  | .insert id capacity =>
    if (r.peer? id).isNone then some (r.insert id (.new capacity)) else none
  | .setPhase id phase => some (r.setPhase id phase)
  | .setScheme id scheme => some (r.setScheme id scheme)
  | .send id message => some (r.send id message).2
  | .broadcast text => some (r.broadcast text).2
  | .close id code => some (r.close id code).2
  | .remove id => some (r.remove id).2
  | .take id => some (r.take id).2
  | .stopReceiving id => some (r.update id Peer.stopReceiving)

end Registry

namespace Peer

/-- A connection whose task is to get a message: forgotten when it is stale, left alone unless it is
established, and evicted when its queue is full. -/
def handed (p : Peer) (message : Outbound) : Peer :=
  if !p.listed then p
  else if p.isStale then p.unlist
  else if p.phase ≠ .established then p
  else (p.deliver message).2

/-- A connection that is to be closed. -/
def asked (p : Peer) (code : CloseCode) : Peer :=
  if !p.listed then p else if p.isStale then p.unlist else p.requestClose code

/-- A connection whose task looks into its queue. -/
def served (p : Peer) : Peer :=
  if p.receiving then { p with queue := p.queue.tail } else p

/-- What an operation makes of the connection `id`. -/
def under (p : Peer) (id : ConnectionId) : Registry.Operation → Peer
  | .nextId => p
  | .insert _ _ => p
  | .setPhase other phase => if id = other then { p with phase := phase } else p
  | .setScheme other scheme => if id = other then { p with scheme := some scheme } else p
  | .send other message => if id = other then p.handed message else p
  | .broadcast text => (Registry.hear text p).1
  | .close other code => if id = other then p.asked code else p
  | .remove other => if id = other then p.unlist else p
  | .take other => if id = other then p.served else p
  | .stopReceiving other => if id = other then p.stopReceiving else p

end Peer

namespace Peer

/-- From `p` to `p'`: what a connection has lost it does not get back, be it its place in the
registry or its task. -/
structure Wanes (p p' : Peer) : Prop where
  capacity : p'.capacity = p.capacity
  receiving : p'.receiving = true → p.receiving = true
  listed : p'.listed = true → p.listed = true

variable {p : Peer}

theorem Wanes.refl (p : Peer) : p.Wanes p :=
  ⟨rfl, fun h => h, fun h => h⟩

theorem wanes_unlist (p : Peer) : p.Wanes p.unlist :=
  ⟨rfl, fun h => h, fun h => by simp [unlist] at h⟩

theorem wanes_handed (p : Peer) (message : Outbound) : p.Wanes (p.handed message) := by
  unfold handed deliver
  split
  · exact .refl p
  split
  · exact wanes_unlist p
  split
  · exact .refl p
  split
  · exact ⟨rfl, fun h => h, fun h => h⟩
  · exact ⟨rfl, fun h => h, fun h => by simp [evict, unlist] at h⟩

theorem wanes_asked (p : Peer) (code : CloseCode) : p.Wanes (p.asked code) := by
  unfold asked
  split
  · exact .refl p
  split
  · exact wanes_unlist p
  · exact ⟨rfl, fun h => h, fun h => h⟩

theorem wanes_served (p : Peer) : p.Wanes p.served := by
  unfold served
  split
  · exact ⟨rfl, fun h => h, fun h => h⟩
  · exact .refl p

theorem wanes_hear (text : String) (p : Peer) : p.Wanes (Registry.hear text p).1 := by
  have hhears := Registry.hears_hear text p
  generalize Registry.hear text p = outcome at hhears
  obtain ⟨p', took⟩ := outcome
  cases hhears with
  | reached => exact ⟨rfl, fun h => h, fun h => h⟩
  | evicted | forgotten => exact ⟨rfl, fun h => h, fun h => by simp at h⟩
  | passed => exact .refl _

theorem wanes_under (p : Peer) (id : ConnectionId) (op : Registry.Operation) :
    p.Wanes (p.under id op) := by
  have hat : ∀ {other : ConnectionId} {p' : Peer}, p.Wanes p' →
      p.Wanes (if id = other then p' else p) := by
    intro other p' h
    split
    · exact h
    · exact .refl p
  cases op with
  | nextId | insert => exact .refl p
  | setPhase | setScheme => exact hat ⟨rfl, fun h => h, fun h => h⟩
  | send other message => exact hat (wanes_handed p message)
  | broadcast text => exact wanes_hear text p
  | close other code => exact hat (wanes_asked p code)
  | remove other => exact hat (wanes_unlist p)
  | take other => exact hat (wanes_served p)
  | stopReceiving other => exact hat ⟨rfl, fun h => by simp [stopReceiving] at h, fun h => h⟩

end Peer

namespace Registry

/-- From `r` to `after`, the entry of `id` has become what `f` makes of it, and nothing else has
changed. -/
def Changes (r : Registry) (id : ConnectionId) (f : Peer → Peer) (after : Registry) : Prop :=
  ∀ other, after.peer? other = (r.peer? other).map fun p => if other = id then f p else p

variable {r after : Registry} {id : ConnectionId} {f g : Peer → Peer}

theorem changes_refl (r : Registry) (id : ConnectionId) : r.Changes id (fun p => p) r := by
  intro other
  simp

theorem changes_update (r : Registry) (id : ConnectionId) (f : Peer → Peer) :
    r.Changes id f (r.update id f) :=
  fun other => peer?_update r id other f

theorem Changes.congr (h : r.Changes id f after) (hsame : ∀ p, r.peer? id = some p → f p = g p) :
    r.Changes id g after := by
  intro other
  rw [h other]
  by_cases hother : other = id
  · subst hother
    cases hentry : r.peer? other with
    | none => rfl
    | some p => simp [hsame p hentry]
  · simp [hother]

theorem Changes.trans {later : Registry} (h : r.Changes id f after)
    (h' : after.Changes id g later) :
    r.Changes id (fun p => g (f p)) later := by
  intro other
  rw [h' other, h other, Option.map_map]
  congr 1
  funext p
  by_cases hsame : other = id <;> simp [hsame]

theorem own_of_changes (h : r.Changes id f after) {p : Peer} (hp : r.peer? id = some p) :
    after.peer? id = some (f p) := by
  rw [h id, hp]
  simp

theorem others_of_changes (h : r.Changes id f after) {other : ConnectionId} (hother : other ≠ id) :
    after.peer? other = r.peer? other := by
  rw [h other]
  simp [hother]

theorem listed_of_listed? {p : Peer} (h : r.listed? id = some p) : p.listed = true :=
  (Option.filter_eq_some_iff.mp h).2

theorem unlisted_of_listed? (h : r.listed? id = none) {p : Peer} (hp : r.peer? id = some p) :
    p.listed = false := by
  cases hlisted : p.listed with
  | false => rfl
  | true => simp [listed?, hp, Option.filter_some, hlisted] at h

/-- What can come of a message for the connection `id`. -/
inductive Sent (r : Registry) (id : ConnectionId) (message : Outbound) :
    Except Error Unit × Registry → Prop where
  | unknown (hnone : r.listed? id = none) :
      Sent r id message (.error (.unknownConnection id), r)
  | stale {p : Peer} (hlisted : r.listed? id = some p) (hstale : p.isStale = true) :
      Sent r id message (.error .connectionClosed, r.update id Peer.unlist)
  | unopened {p : Peer} (hlisted : r.listed? id = some p) (hlive : p.isStale = false)
      (hphase : p.phase ≠ .established) :
      Sent r id message (.error .connectionClosed, r)
  | accepted {p : Peer} (hlisted : r.listed? id = some p) (hlive : p.isStale = false)
      (hphase : p.phase = .established) (hroom : p.hasRoom = true) :
      Sent r id message (.ok (), r.update id fun _ => p.push message)
  | evicted {p : Peer} (hlisted : r.listed? id = some p) (hlive : p.isStale = false)
      (hphase : p.phase = .established) (hfull : p.hasRoom = false) :
      Sent r id message (.error .connectionClosed, r.update id fun _ => p.evict)

theorem sent_send (r : Registry) (id : ConnectionId) (message : Outbound) :
    Sent r id message (r.send id message) := by
  unfold send
  split
  · rename_i hnone
    exact .unknown hnone
  rename_i p hlisted
  split
  · rename_i hstale
    exact .stale hlisted hstale
  rename_i hlive
  have hlive : p.isStale = false := by simpa using hlive
  split
  · rename_i hphase
    exact .unopened hlisted hlive hphase
  rename_i hphase
  have hphase : p.phase = .established := by simpa using hphase
  unfold Peer.deliver
  cases hroom : p.hasRoom with
  | true => exact .accepted hlisted hlive hphase hroom
  | false => exact .evicted hlisted hlive hphase hroom

/-- What can come of asking for the end of the connection `id`. -/
inductive Closed (r : Registry) (id : ConnectionId) (code : CloseCode) :
    Except Error Unit × Registry → Prop where
  | unknown (hnone : r.listed? id = none) : Closed r id code (.error (.unknownConnection id), r)
  | stale {p : Peer} (hlisted : r.listed? id = some p) (hstale : p.isStale = true) :
      Closed r id code (.error .connectionClosed, r.update id Peer.unlist)
  | asked {p : Peer} (hlisted : r.listed? id = some p) (hlive : p.isStale = false) :
      Closed r id code (.ok (), r.update id (Peer.requestClose · code))

theorem closed_close (r : Registry) (id : ConnectionId) (code : CloseCode) :
    Closed r id code (r.close id code) := by
  unfold close
  split
  · rename_i hnone
    exact .unknown hnone
  rename_i p hlisted
  split
  · rename_i hstale
    exact .stale hlisted hstale
  · rename_i hlive
    exact .asked hlisted (by simpa using hlive)

theorem Changes.of_listed (h : r.Changes id f after) {p : Peer} (hlisted : r.listed? id = some p)
    (hsame : p.listed = true → f p = g p) : r.Changes id g after := by
  refine h.congr fun q hq => ?_
  obtain rfl : q = p := Option.some.inj (hq.symm.trans (listed?_eq_some hlisted))
  exact hsame (listed_of_listed? hlisted)

theorem changes_send (r : Registry) (id : ConnectionId) (message : Outbound) :
    r.Changes id (·.handed message) (r.send id message).2 := by
  have hsent := sent_send r id message
  generalize r.send id message = outcome at hsent
  cases hsent with
  | unknown hnone =>
      refine (changes_refl r id).congr fun p hp => ?_
      simp [Peer.handed, unlisted_of_listed? hnone hp]
  | stale hlisted hstale =>
      refine (changes_update r id _).of_listed hlisted fun hp => ?_
      simp [Peer.handed, hp, hstale]
  | unopened hlisted hlive hphase =>
      refine (changes_refl r id).of_listed hlisted fun hp => ?_
      simp [Peer.handed, hp, hlive, hphase]
  | accepted hlisted hlive hphase hroom =>
      refine (changes_update r id _).of_listed hlisted fun hp => ?_
      simp [Peer.handed, Peer.deliver, hp, hlive, hphase, hroom]
  | evicted hlisted hlive hphase hfull =>
      refine (changes_update r id _).of_listed hlisted fun hp => ?_
      simp [Peer.handed, Peer.deliver, hp, hlive, hphase, hfull]

theorem changes_close (r : Registry) (id : ConnectionId) (code : CloseCode) :
    r.Changes id (·.asked code) (r.close id code).2 := by
  have hclosed := closed_close r id code
  generalize r.close id code = outcome at hclosed
  cases hclosed with
  | unknown hnone =>
      refine (changes_refl r id).congr fun p hp => ?_
      simp [Peer.asked, unlisted_of_listed? hnone hp]
  | stale hlisted hstale =>
      refine (changes_update r id _).of_listed hlisted fun hp => ?_
      simp [Peer.asked, hp, hstale]
  | asked hlisted hlive =>
      refine (changes_update r id _).of_listed hlisted fun hp => ?_
      simp [Peer.asked, hp, hlive]

theorem changes_take (r : Registry) (id : ConnectionId) :
    r.Changes id Peer.served (r.take id).2 := by
  unfold take
  split
  · rename_i hnone
    refine (changes_refl r id).congr fun p hp => ?_
    simp [hnone] at hp
  rename_i p hentry
  split
  · rename_i hgone
    refine (changes_refl r id).congr fun q hq => ?_
    obtain rfl : q = p := Option.some.inj (hq.symm.trans hentry)
    have hgone : q.receiving = false := by simpa using hgone
    simp [Peer.served, hgone]
  rename_i hreceiving
  have hreceiving : p.receiving = true := by simpa using hreceiving
  split
  · rename_i message rest hqueue
    refine (changes_update r id fun p => { p with queue := rest }).congr fun q hq => ?_
    obtain rfl : q = p := Option.some.inj (hq.symm.trans hentry)
    simp [Peer.served, hreceiving, hqueue]
  · rename_i hqueue
    refine (changes_refl r id).congr fun q hq => ?_
    obtain rfl : q = p := Option.some.inj (hq.symm.trans hentry)
    rw [Peer.served, if_pos hreceiving, hqueue, List.tail_nil, ← hqueue]

/-- **Every operation is local.** It lists a new connection, whose entry is fresh, or makes of each
entry what it is meant to, whatever the other entries are. -/
theorem entry_of_apply {op : Operation} (h : r.apply op = some after) (id : ConnectionId) :
    (∃ capacity, op = .insert id capacity ∧ r.peer? id = none ∧
      after.peer? id = some (.new capacity)) ∨
    after.peer? id = (r.peer? id).map (·.under id op) := by
  have hlocal : ∀ {other : ConnectionId} {f : Peer → Peer} {after : Registry},
      r.Changes other f after →
      after.peer? id = (r.peer? id).map fun p => if id = other then f p else p :=
    fun hchanges => hchanges id
  cases op with
  | nextId =>
      cases h
      exact .inr (by simp [Peer.under, nextId, peer?])
  | insert other capacity =>
      simp only [apply, Option.isNone_iff_eq_none, Option.ite_none_right_eq_some,
        Option.some.injEq] at h
      obtain ⟨hfresh, rfl⟩ := h
      by_cases hid : id = other
      · subst hid
        exact .inl ⟨capacity, rfl, hfresh, by rw [peer?_insert, if_pos rfl]⟩
      · exact .inr (by simp [peer?_insert, hid, Peer.under])
  | setPhase other phase =>
      cases h
      exact .inr (hlocal (changes_update r other _))
  | setScheme other scheme =>
      cases h
      exact .inr (hlocal (changes_update r other _))
  | send other message =>
      cases h
      exact .inr (hlocal (changes_send r other message))
  | broadcast text =>
      cases h
      exact .inr (peer?_broadcast r text id)
  | close other code =>
      cases h
      exact .inr (hlocal (changes_close r other code))
  | remove other =>
      cases h
      exact .inr (hlocal (changes_update r other _))
  | take other =>
      cases h
      exact .inr (hlocal (changes_take r other))
  | stopReceiving other =>
      cases h
      exact .inr (hlocal (changes_update r other _))

theorem keys_update (r : Registry) (id : ConnectionId) (f : Peer → Peer) :
    (r.update id f).peers.map Prod.fst = r.peers.map Prod.fst := by
  rw [update, List.map_map]
  rfl

theorem nodup_keys_apply {op : Operation} (h : r.apply op = some after)
    (hkeys : (r.peers.map Prod.fst).Nodup) : (after.peers.map Prod.fst).Nodup := by
  have hupdate : ∀ (id : ConnectionId) (f : Peer → Peer),
      ((r.update id f).peers.map Prod.fst).Nodup := by
    intro id f
    rw [keys_update]
    exact hkeys
  cases op with
  | nextId =>
      cases h
      exact hkeys
  | insert id capacity =>
      simp only [apply, Option.ite_none_right_eq_some, Option.some.injEq] at h
      obtain ⟨-, rfl⟩ := h
      rw [insert, List.map_cons, List.nodup_cons]
      constructor
      · simp
      · exact hkeys.sublist (List.filter_sublist.map _)
  | setPhase id | setScheme id | remove id | stopReceiving id =>
      cases h
      exact hupdate id _
  | send id message =>
      cases h
      have hsent := sent_send r id message
      generalize r.send id message = outcome at hsent
      cases hsent with
      | unknown | unopened => exact hkeys
      | stale | accepted | evicted => exact hupdate id _
  | broadcast text =>
      cases h
      rw [broadcast_eq, List.map_map]
      exact hkeys
  | close id code =>
      cases h
      have hclosed := closed_close r id code
      generalize r.close id code = outcome at hclosed
      cases hclosed with
      | unknown => exact hkeys
      | stale | asked => exact hupdate id _
  | take id =>
      cases h
      unfold take
      split
      · exact hkeys
      split
      · exact hkeys
      split
      · exact hupdate id _
      · exact hkeys

end Registry

end WebSocket

import WebSocket.Proofs.RegistryQueues
import WebSocket.Proofs.TextRoundTrip

namespace WebSocket

namespace Peer

/-- What a broadcast of `text` makes of a connection, and whether the connection counts as reached.
A listed connection is reached, evicted because its queue is full, or forgotten because it is stale;
every other one is passed over. -/
inductive Hears (text : String) (p : Peer) : Peer → Bool → Prop where
  | reached {scheme : Scheme} {bytes : Bytes} (hlisted : p.listed = true)
      (hlive : p.isStale = false)
      (hphase : p.phase = .established) (hscheme : p.scheme = some scheme)
      (hroom : p.queue.length < p.capacity)
      (hencode : scheme.encode (.text (Utf8.encode text)) = .ok bytes) :
      Hears text p { p with queue := p.queue ++ [.encoded bytes] } true
  | evicted {scheme : Scheme} (hlisted : p.listed = true) (hlive : p.isStale = false)
      (hphase : p.phase = .established) (hscheme : p.scheme = some scheme)
      (hfull : p.capacity ≤ p.queue.length) :
      Hears text p
        { p with
          listed := false
          closeNumber := if p.closeNumber = 0 then 1008 else p.closeNumber
          woken := true }
        false
  | forgotten (hlisted : p.listed = true) (hstale : p.isStale = true) :
      Hears text p { p with listed := false } false
  | passed (hpassed : p.listed = false ∨
      p.isStale = false ∧ (p.phase ≠ .established ∨ p.scheme = none)) :
      Hears text p p false

/-- Whether a broadcast reaches a connection. -/
def isReachable (p : Peer) : Bool :=
  p.listed && !p.isStale && p.phase = .established && p.scheme.isSome && p.hasRoom

theorem Hears.eq_isReachable {text : String} {p p' : Peer} {took : Bool}
    (h : p.Hears text p' took) : took = p.isReachable := by
  unfold isReachable hasRoom
  cases h with
  | reached hlisted hlive hphase hscheme hroom => simp [hlisted, hlive, hphase, hscheme, hroom]
  | evicted _ _ _ _ hfull => simp [Nat.not_lt.mpr hfull]
  | forgotten _ hstale => simp [hstale]
  | passed hpassed =>
      rcases hpassed with hunlisted | ⟨-, hphase | hscheme⟩
      · simp [hunlisted]
      · simp [hphase]
      · simp [hscheme]

end Peer

namespace Registry

theorem hears_hear (text : String) (p : Peer) :
    p.Hears text (hear text p).1 (hear text p).2 := by
  unfold hear broadcastTo
  split
  · rename_i hunlisted
    exact .passed (.inl (by simpa using hunlisted))
  rename_i hlisted
  have hlisted : p.listed = true := by simpa using hlisted
  split
  · rename_i hstale
    exact .forgotten hlisted hstale
  rename_i hlive
  have hlive : p.isStale = false := by simpa using hlive
  split
  · rename_i hphase
    exact .passed (.inr ⟨hlive, .inl hphase⟩)
  rename_i hphase
  have hphase : p.phase = .established := by simpa using hphase
  split
  · rename_i hnone
    exact .passed (.inr ⟨hlive, .inr hnone⟩)
  rename_i scheme hscheme
  obtain ⟨bytes, hencode⟩ := scheme.exists_encode_text text
  have hfirst : (Encodings.none.encode scheme text).1 = some bytes := by
    rw [Encodings.encode_fst (Encodings.sound_none text), textBytes, Option.bind_some, hencode]
    rfl
  generalize Encodings.none.encode scheme text = framed at hfirst
  obtain ⟨framed, known⟩ := framed
  obtain rfl : framed = some bytes := hfirst
  dsimp only
  unfold Peer.deliver Peer.hasRoom
  by_cases hroom : p.queue.length < p.capacity
  · simp only [hroom, decide_true, if_true]
    exact .reached hlisted hlive hphase hscheme hroom hencode
  · simp only [hroom, decide_false, Bool.false_eq_true, if_false]
    exact .evicted hlisted hlive hphase hscheme (Nat.le_of_not_lt hroom)

theorem hear_snd (text : String) (p : Peer) : (hear text p).2 = p.isReachable :=
  (hears_hear text p).eq_isReachable

theorem lookup_of_perm {first second : List (ConnectionId × Peer)} (h : first.Perm second)
    (hkeys : (first.map Prod.fst).Nodup) (id : ConnectionId) :
    first.lookup id = second.lookup id := by
  induction h with
  | nil => rfl
  | cons entry _ ih =>
      rw [List.map_cons, List.nodup_cons] at hkeys
      rw [List.lookup_cons, List.lookup_cons, ih hkeys.2]
  | swap entry other rest =>
      obtain ⟨key, p⟩ := entry
      obtain ⟨key', p'⟩ := other
      have hne : key' ≠ key := by
        simp only [List.map_cons, List.nodup_cons, List.mem_cons, not_or] at hkeys
        exact hkeys.1.1
      simp only [List.lookup_cons]
      by_cases hsame : id = key'
      · subst hsame
        simp [beq_false_of_ne hne]
      · simp [beq_false_of_ne hsame]
  | trans hfirst _ ih ih' =>
      exact (ih hkeys).trans (ih' ((hfirst.map Prod.fst).nodup_iff.mp hkeys))

/-- **A broadcast is exact, in whatever order the connections are visited.** It says how many
connections it has reached, which are the listed ones that are neither stale nor full, are
established and have a scheme; each of them has the framed text at the end of its queue. Those that
are full or stale leave the registry, the full ones with a request to close, and all others stay as
they are. -/
theorem broadcast_is_exact (r : Registry) (text : String) (order : List (ConnectionId × Peer))
    (hkeys : (r.peers.map Prod.fst).Nodup) (horder : order.Perm r.peers) :
    let outcome := ({ r with peers := order } : Registry).broadcast text
    outcome.1 = r.peers.countP (fun entry => entry.2.isReachable) ∧
    (∀ id p, r.peer? id = some p → ∃ p',
      outcome.2.peer? id = some p' ∧ p.Hears text p' p.isReachable) ∧
    (∀ id, r.peer? id = none → outcome.2.peer? id = none) ∧
    outcome.2.lastNumber = r.lastNumber ∧
    outcome.1 = (r.broadcast text).1 ∧
    ∀ id, outcome.2.peer? id = (r.broadcast text).2.peer? id := by
  intro outcome
  have hcount : ∀ peers : List (ConnectionId × Peer),
      peers.countP (fun entry => (hear text entry.2).2) =
        peers.countP fun entry => entry.2.isReachable := by
    intro peers
    simp only [hear_snd]
  have hreached : outcome.1 = r.peers.countP fun entry => entry.2.isReachable := by
    change (broadcast _ text).1 = _
    rw [broadcast_eq, hcount]
    exact horder.countP_eq _
  have hpeer : ∀ id, outcome.2.peer? id = (r.peer? id).map fun p => (hear text p).1 := by
    intro id
    have hkeys' : (order.map Prod.fst).Nodup := (horder.map Prod.fst).nodup_iff.mpr hkeys
    change (broadcast _ text).2.peer? id = _
    rw [peer?_broadcast, peer?, lookup_of_perm horder hkeys' id]
    rfl
  refine ⟨hreached, ?_, ?_, ?_, ?_, ?_⟩
  · intro id p hp
    refine ⟨(hear text p).1, by rw [hpeer, hp, Option.map_some], ?_⟩
    rw [← hear_snd text p]
    exact hears_hear text p
  · intro id hnone
    rw [hpeer, hnone, Option.map_none]
  · change (broadcast _ text).2.lastNumber = _
    rw [broadcast_eq]
  · rw [hreached, broadcast_eq, hcount]
  · intro id
    rw [hpeer, peer?_broadcast]

/-- Connections of all kinds, each with room for one message: two that a broadcast reaches, two that
are full, the second of them with a request to close, one whose task is gone, one without a scheme,
and one that has left the registry. -/
def mixed : Registry :=
  let reachable (scheme : Scheme) : Peer :=
    { Peer.new 1 with phase := .established, scheme := some scheme }
  let full : Peer := (reachable .rfc6455).push (.text "Ho")
  { lastNumber := 7
    peers := [
      (⟨1⟩, reachable .rfc6455),
      (⟨2⟩, reachable .legacy),
      (⟨3⟩, full),
      (⟨4⟩, full.requestClose .normal),
      (⟨5⟩, full.stopReceiving),
      (⟨6⟩, { reachable .rfc6455 with scheme := none }),
      (⟨7⟩, (reachable .rfc6455).unlist)] }

/-- Visited from the last to the first, the same two connections are reached as from the first to
the last, and the full one that was to be closed already keeps the code it was given. -/
theorem mixed_broadcast_is_exact :
    (mixed.peers.map Prod.fst).Nodup ∧ mixed.peers.reverse.Perm mixed.peers ∧
    (({ mixed with peers := mixed.peers.reverse } : Registry).broadcast "Hi").1 = 2 ∧
    (∀ id, (({ mixed with peers := mixed.peers.reverse } : Registry).broadcast "Hi").2.peer? id =
      (mixed.broadcast "Hi").2.peer? id) ∧
    (mixed.broadcast "Hi").2.entries.map Prod.fst = [⟨1⟩, ⟨2⟩, ⟨6⟩] ∧
    ((mixed.broadcast "Hi").2.peer? ⟨3⟩).map Peer.closeNumber = some 1008 ∧
    ((mixed.broadcast "Hi").2.peer? ⟨4⟩).map Peer.closeNumber = some 1000 := by
  have hkeys : (mixed.peers.map Prod.fst).Nodup := by decide
  have horder : mixed.peers.reverse.Perm mixed.peers := List.reverse_perm _
  obtain ⟨hreached, -, -, -, -, hsame⟩ :=
    broadcast_is_exact mixed "Hi" mixed.peers.reverse hkeys horder
  have hcount : mixed.peers.countP (fun entry => entry.2.isReachable) = 2 := by decide
  refine ⟨hkeys, horder, hreached.trans hcount, hsame, ?_, ?_, ?_⟩ <;> decide +kernel

end Registry

end WebSocket

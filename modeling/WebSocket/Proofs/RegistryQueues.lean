import Mathlib.Data.List.Forall2
import WebSocket.Server.Handle

namespace WebSocket

/-- The bytes of a text in the framing of a scheme, if there is a scheme. -/
def textBytes (scheme : Option Scheme) (text : String) : Option Bytes :=
  scheme.bind fun scheme => (scheme.encode (.text (Utf8.encode text))).toOption

/-- A message is a text, as it is or framed for a scheme already. -/
inductive Outbound.Carries (scheme : Option Scheme) (text : String) : Outbound → Prop where
  | text : Carries scheme text (.text text)
  | encoded {bytes : Bytes} : textBytes scheme text = some bytes →
      Carries scheme text (.encoded bytes)

namespace Peer

/-- From `p` to `p'`: a connection was handed the texts, and nothing else. -/
structure Offered (p p' : Peer) (texts : List String) : Prop where
  phase : p'.phase = p.phase
  scheme : p'.scheme = p.scheme
  established : texts ≠ [] → p.phase = .established
  queue : ∃ messages, p'.queue = p.queue ++ messages ∧
    List.Forall₂ (Outbound.Carries p.scheme) texts messages

variable {p p' p'' : Peer} {texts more : List String}

theorem offered_of_same (hphase : p'.phase = p.phase) (hscheme : p'.scheme = p.scheme)
    (hqueue : p'.queue = p.queue) : p.Offered p' [] where
  phase := hphase
  scheme := hscheme
  established h := absurd rfl h
  queue := ⟨[], by simpa using hqueue, .nil⟩

theorem Offered.refl (p : Peer) : p.Offered p [] :=
  offered_of_same rfl rfl rfl

theorem Offered.trans (h : p.Offered p' texts) (h' : p'.Offered p'' more) :
    p.Offered p'' (texts ++ more) where
  phase := h'.phase.trans h.phase
  scheme := h'.scheme.trans h.scheme
  established hne := by
    by_cases htexts : texts = []
    · rw [← h.phase]
      exact h'.established (by simpa [htexts] using hne)
    · exact h.established htexts
  queue := by
    obtain ⟨messages, hqueue, hcarry⟩ := h.queue
    obtain ⟨behind, hqueue', hcarry'⟩ := h'.queue
    rw [h.scheme] at hcarry'
    exact ⟨messages ++ behind, by rw [hqueue', hqueue, List.append_assoc],
      List.rel_append hcarry hcarry'⟩

theorem offered_unlist (p : Peer) : p.Offered p.unlist [] :=
  offered_of_same rfl rfl rfl

theorem offered_requestClose (p : Peer) (code : CloseCode) : p.Offered (p.requestClose code) [] :=
  offered_of_same rfl rfl rfl

theorem offered_deliver (hphase : p.phase = .established) {text : String} {message : Outbound}
    (hcarry : message.Carries p.scheme text) :
    p.Offered (p.deliver message).2 (if (p.deliver message).1 then [text] else []) := by
  unfold deliver
  split
  · exact ⟨rfl, rfl, fun _ => hphase, [message], rfl, .cons hcarry .nil⟩
  · exact (offered_requestClose p .policy).trans (offered_unlist _)

end Peer

namespace Registry

namespace Encodings

/-- All that is known is the text, framed. -/
def Sound (known : Encodings) (text : String) : Prop :=
  ∀ scheme bytes, known.get scheme = some bytes → textBytes (some scheme) text = some bytes

theorem sound_none (text : String) : Encodings.none.Sound text := by
  intro scheme bytes h
  cases scheme <;> simp [get, Encodings.none] at h

theorem encode_fst {known : Encodings} {text : String} (h : known.Sound text) (scheme : Scheme) :
    (known.encode scheme text).1 = textBytes (some scheme) text := by
  unfold encode
  split
  · rename_i bytes hget
    exact (h scheme bytes hget).symm
  · rfl

theorem get_set (known : Encodings) (scheme other : Scheme) (bytes : Option Bytes) :
    (known.set scheme bytes).get other = if other = scheme then bytes else known.get other := by
  cases scheme <;> cases other <;> rfl

theorem sound_encode {known : Encodings} {text : String} (h : known.Sound text) (scheme : Scheme) :
    (known.encode scheme text).2.Sound text := by
  unfold encode
  split
  · exact h
  · intro other bytes hget
    rw [get_set] at hget
    split at hget
    · rename_i hsame
      rw [hsame]
      exact hget
    · exact h other bytes hget

end Encodings

/-- A connection after a broadcast, and whether it took the text. -/
def hear (text : String) (peer : Peer) : Peer × Bool :=
  (broadcastTo text .none peer).2

theorem broadcastTo_of_sound {text : String} {known : Encodings} (h : known.Sound text)
    (peer : Peer) :
    (broadcastTo text known peer).2 = hear text peer ∧
      (broadcastTo text known peer).1.Sound text := by
  unfold hear broadcastTo
  split
  · exact ⟨rfl, h⟩
  split
  · exact ⟨rfl, h⟩
  split
  · exact ⟨rfl, h⟩
  split
  · exact ⟨rfl, h⟩
  rename_i scheme hscheme
  have hfirst : (known.encode scheme text).1 = (Encodings.none.encode scheme text).1 := by
    rw [Encodings.encode_fst h, Encodings.encode_fst (Encodings.sound_none text)]
  have hafter := Encodings.sound_encode h scheme
  generalize known.encode scheme text = framed at hfirst hafter
  generalize Encodings.none.encode scheme text = framed' at hfirst
  obtain ⟨bytes, known⟩ := framed
  obtain ⟨bytes', known'⟩ := framed'
  obtain rfl : bytes = bytes' := hfirst
  cases bytes <;> exact ⟨rfl, hafter⟩

theorem broadcastOnto_eq {text : String} {known : Encodings} (h : known.Sound text) (sent : Nat)
    (done peers : List (ConnectionId × Peer)) :
    broadcastOnto text known sent done peers =
      (sent + peers.countP fun entry => (hear text entry.2).2,
        done.reverse ++ peers.map fun entry => (entry.1, (hear text entry.2).1)) := by
  induction peers generalizing known sent done with
  | nil => simp [broadcastOnto]
  | cons entry peers ih =>
      obtain ⟨id, peer⟩ := entry
      obtain ⟨hheard, hafter⟩ := broadcastTo_of_sound h peer
      rw [broadcastOnto]
      generalize broadcastTo text known peer = outcome at hheard hafter
      obtain ⟨known', heard⟩ := outcome
      obtain rfl : heard = hear text peer := hheard
      dsimp only
      rw [ih hafter]
      cases htaken : (hear text peer).2 <;> simp [htaken, Nat.add_assoc, Nat.add_comm 1]

/-- A broadcast does the same at every connection, and counts those that took the text. -/
theorem broadcast_eq (r : Registry) (text : String) :
    r.broadcast text = (r.peers.countP fun entry => (hear text entry.2).2,
      { r with peers := r.peers.map fun entry => (entry.1, (hear text entry.2).1) }) := by
  simp [broadcast, broadcastOnto_eq (Encodings.sound_none text)]

theorem offered_broadcastTo {text : String} {known : Encodings} {peer : Peer}
    {outcome : Encodings × Peer × Bool} (hsound : known.Sound text)
    (h : broadcastTo text known peer = outcome) :
    peer.Offered outcome.2.1 (if outcome.2.2 then [text] else []) := by
  unfold broadcastTo at h
  split at h
  · cases h
    exact .refl peer
  split at h
  · cases h
    exact Peer.offered_unlist peer
  split at h
  · cases h
    exact .refl peer
  rename_i hphase
  split at h
  · cases h
    exact .refl peer
  rename_i scheme hscheme
  have hfirst := Encodings.encode_fst hsound scheme
  split at h
  · cases h
    exact .refl peer
  · rename_i bytes known' hencode
    cases h
    rw [hencode] at hfirst
    refine Peer.offered_deliver (by simpa using hphase) (.encoded ?_)
    rw [hscheme]
    exact hfirst.symm

theorem offered_hear (text : String) (peer : Peer) :
    peer.Offered (hear text peer).1 (if (hear text peer).2 then [text] else []) :=
  offered_broadcastTo (Encodings.sound_none text) rfl

theorem lookup_map (peers : List (ConnectionId × Peer)) (f : ConnectionId → Peer → Peer)
    (id : ConnectionId) :
    (peers.map fun entry => (entry.1, f entry.1 entry.2)).lookup id =
      (peers.lookup id).map (f id) := by
  induction peers with
  | nil => rfl
  | cons entry peers ih =>
      obtain ⟨other, peer⟩ := entry
      rw [List.map_cons, List.lookup_cons, List.lookup_cons, ih]
      cases hsame : id == other with
      | false => rfl
      | true =>
          rw [beq_iff_eq] at hsame
          rw [hsame]
          rfl

theorem peer?_update (r : Registry) (id other : ConnectionId) (f : Peer → Peer) :
    (r.update id f).peer? other =
      (r.peer? other).map fun peer => if other = id then f peer else peer :=
  lookup_map r.peers (fun other peer => if other = id then f peer else peer) other

theorem peer?_broadcast (r : Registry) (text : String) (id : ConnectionId) :
    (r.broadcast text).2.peer? id = (r.peer? id).map fun peer => (hear text peer).1 := by
  rw [broadcast_eq]
  exact lookup_map r.peers (fun _ peer => (hear text peer).1) id

/-- The texts that a request makes the registry accept for a connection. -/
def accepts (r : Registry) (id : ConnectionId) : Request → List String
  | .send other text => if other = id ∧ (r.send other (.text text)).1.isOk then [text] else []
  | .broadcast text => if (r.peer? id).any fun peer => (hear text peer).2 then [text] else []
  | .disconnect _ => []

/-- What is accepted for a connection while requests are carried out one after another. -/
def acceptsAll (r : Registry) (id : ConnectionId) : List Request → List String
  | [] => []
  | request :: requests => r.accepts id request ++ (r.perform request).2.acceptsAll id requests

/-- From one time to a later one: an entry of the registry was handed the texts; where there is no
entry, there were none. -/
inductive Passed : Option Peer → Option Peer → List String → Prop where
  | absent : Passed none none []
  | offered {p p' : Peer} {texts : List String} : p.Offered p' texts →
      Passed (some p) (some p') texts

theorem Passed.refl (entry : Option Peer) : Passed entry entry [] := by
  cases entry with
  | none => exact .absent
  | some p => exact .offered (.refl p)

theorem Passed.trans {first second third : Option Peer} {texts more : List String}
    (h : Passed first second texts) (h' : Passed second third more) :
    Passed first third (texts ++ more) := by
  cases h with
  | absent =>
      cases h'
      exact .absent
  | offered hoffered =>
      cases h' with
      | offered hoffered' => exact .offered (hoffered.trans hoffered')

theorem passed_update {r : Registry} {id : ConnectionId} {p : Peer} {f : Peer → Peer}
    {texts : List String} (hpeer : r.peer? id = some p) (h : p.Offered (f p) texts)
    (other : ConnectionId) :
    Passed (r.peer? other) ((r.update id f).peer? other) (if id = other then texts else []) := by
  rw [peer?_update]
  by_cases hsame : id = other
  · subst hsame
    simp only [hpeer, if_true, Option.map_some]
    exact .offered h
  · have hother : other ≠ id := fun heq => hsame heq.symm
    simp only [hsame, hother, if_false, Option.map_id']
    exact .refl _

theorem listed?_eq_some {r : Registry} {id : ConnectionId} {p : Peer} (h : r.listed? id = some p) :
    r.peer? id = some p :=
  (Option.filter_eq_some_iff.mp h).1

theorem passed_send {r after : Registry} {id : ConnectionId} (other : ConnectionId) {text : String}
    {result : Except Error Unit} (h : r.send id (.text text) = (result, after)) :
    Passed (r.peer? other) (after.peer? other)
      (if id = other ∧ result.isOk then [text] else []) := by
  have hrefused : ∀ e : Error, (if id = other ∧ (Except.error e : Except Error Unit).isOk = true
      then [text] else []) = [] := by
    intro e
    simp [Except.isOk, Except.toBool]
  unfold send at h
  split at h
  · cases h
    rw [hrefused]
    exact .refl _
  rename_i peer hlisted
  have hpeer := listed?_eq_some hlisted
  split at h
  · cases h
    rw [hrefused]
    simpa using passed_update hpeer (Peer.offered_unlist peer) other
  split at h
  · cases h
    rw [hrefused]
    exact .refl _
  rename_i hphase
  have hoffered : peer.Offered (peer.deliver (.text text)).2
      (if (peer.deliver (.text text)).1 then [text] else []) :=
    Peer.offered_deliver (by simpa using hphase) .text
  simp only [Prod.mk.injEq] at h
  obtain ⟨rfl, rfl⟩ := h
  have hpassed := passed_update (f := fun _ => (peer.deliver (.text text)).2) hpeer hoffered other
  cases htaken : (peer.deliver (.text text)).1 with
  | false => simpa [htaken, hrefused] using hpassed
  | true => simpa [htaken, Except.isOk, Except.toBool] using hpassed

theorem passed_close (r : Registry) (id other : ConnectionId) (code : CloseCode) :
    Passed (r.peer? other) ((r.close id code).2.peer? other) [] := by
  unfold close
  split
  · exact .refl _
  rename_i peer hlisted
  have hpeer := listed?_eq_some hlisted
  split
  · simpa using passed_update hpeer (Peer.offered_unlist peer) other
  · simpa using passed_update (f := (Peer.requestClose · code)) hpeer
      (Peer.offered_requestClose peer code) other

theorem passed_perform (r : Registry) (id : ConnectionId) (request : Request) :
    Passed (r.peer? id) ((r.perform request).2.peer? id) (r.accepts id request) := by
  cases request with
  | send other text => exact passed_send id rfl
  | broadcast text =>
      change Passed _ ((r.broadcast text).2.peer? id) _
      rw [peer?_broadcast, accepts]
      cases r.peer? id with
      | none => exact .absent
      | some peer => simpa using Passed.offered (offered_hear text peer)
  | disconnect other => exact passed_close r other id .normal

theorem passed_performAll (r : Registry) (id : ConnectionId) (requests : List Request) :
    Passed (r.peer? id) ((r.performAll requests).2.peer? id) (r.acceptsAll id requests) := by
  induction requests generalizing r with
  | nil => exact .refl _
  | cons request requests ih => exact (passed_perform r id request).trans (ih _)

end Registry

end WebSocket

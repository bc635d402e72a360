import WebSocket.Proofs.RegistryOperations

/-!
Requests to close a connection, between those who ask and the task that is asked. A request stores
its code and then a wake-up, and the task takes the wake-up and then looks for a code: four steps
that may fall between each other in any way. Whatever the order, no request is lost and the first
one wins.
-/

namespace WebSocket

namespace Peer

/-- The first half of a request to close: its code is stored, unless there is one. -/
def storeRequest (p : Peer) (code : CloseCode) : Peer :=
  { p with closeNumber := if p.closeNumber = 0 then code.number else p.closeNumber }

/-- The second half of a request to close. At most one wake-up is stored. -/
def storeWakeUp (p : Peer) : Peer :=
  { p with woken := true }

theorem requestClose_eq (p : Peer) (code : CloseCode) :
    p.requestClose code = (p.storeRequest code).storeWakeUp :=
  rfl

/-- What the requests to close a connection have come to: the number that is stored, and whether a
wake-up is. -/
def summoned (p : Peer) : UInt16 × Bool :=
  (p.closeNumber, p.woken)

/-- Whether a message would evict the connection. -/
def isFull (p : Peer) : Bool :=
  p.listed && !p.isStale && p.phase = .established && !p.hasRoom

end Peer

namespace Registry

/-- The code with which an operation asks for the end of a connection, if it does. -/
def asks (r : Registry) (id : ConnectionId) : Operation → Option CloseCode
  | .close other code => if id = other ∧ (r.close other code).1.isOk then some code else none
  | .send other _ => if id = other ∧ (r.peer? id).any Peer.isFull then some .policy else none
  | .broadcast _ =>
    if (r.peer? id).any fun p => p.isFull && p.scheme.isSome then some .policy else none
  | _ => none

theorem isOk_close (r : Registry) (id : ConnectionId) (code : CloseCode) :
    (r.close id code).1.isOk = (r.peer? id).any fun p => p.listed && !p.isStale := by
  have hclosed := closed_close r id code
  generalize r.close id code = outcome at hclosed
  cases hclosed with
  | unknown hnone =>
      cases hentry : r.peer? id with
      | none => rfl
      | some p => simp [unlisted_of_listed? hnone hentry, Except.isOk, Except.toBool]
  | stale hlisted hstale =>
      simp [listed?_eq_some hlisted, hstale, Except.isOk, Except.toBool]
  | asked hlisted hlive =>
      simp [listed?_eq_some hlisted, listed_of_listed? hlisted, hlive, Except.isOk, Except.toBool]

end Registry

namespace Peer

open Registry

variable {r : Registry} {id : ConnectionId} {p : Peer}

theorem summoned_handed (p : Peer) (message : Outbound) :
    (p.handed message).summoned = (if p.isFull then p.requestClose .policy else p).summoned := by
  unfold handed isFull
  split
  · rename_i hunlisted
    have hunlisted : p.listed = false := by simpa using hunlisted
    simp [hunlisted]
  rename_i hlisted
  have hlisted : p.listed = true := by simpa using hlisted
  split
  · rename_i hstale
    simp [hstale, unlist, summoned]
  rename_i hlive
  have hlive : p.isStale = false := by simpa using hlive
  split
  · rename_i hphase
    simp [hphase]
  rename_i hphase
  have hphase : p.phase = .established := by simpa using hphase
  unfold deliver
  cases hroom : p.hasRoom <;>
    simp [hlisted, hlive, hphase, push, evict, unlist, summoned]

theorem summoned_hear (text : String) (p : Peer) :
    (hear text p).1.summoned =
      (if p.isFull && p.scheme.isSome then p.requestClose .policy else p).summoned := by
  have hhears := hears_hear text p
  generalize (hear text p).1 = p' at hhears ⊢
  generalize (hear text p).2 = took at hhears
  cases hhears with
  | reached _ _ _ _ hroom => simp [isFull, hasRoom, hroom, summoned]
  | evicted hlisted hlive hphase hscheme hfull =>
      simp only [isFull, hasRoom, hlisted, hlive, hphase, hscheme, Nat.not_lt.mpr hfull]
      rfl
  | forgotten _ hstale => simp [isFull, hstale, summoned]
  | passed hpassed =>
      rcases hpassed with hunlisted | ⟨-, hphase | hscheme⟩
      · simp [isFull, hunlisted]
      · simp [isFull, hphase]
      · simp [hscheme]

theorem summoned_asked (p : Peer) (code : CloseCode) :
    (p.asked code).summoned =
      (if p.listed && !p.isStale then p.requestClose code else p).summoned := by
  unfold asked
  cases hlisted : p.listed with
  | false => simp
  | true => cases hstale : p.isStale <;> simp [unlist, summoned]

theorem summoned_under (hentry : r.peer? id = some p) (op : Registry.Operation) :
    (p.under id op).summoned = ((r.asks id op).elim p p.requestClose).summoned := by
  cases op with
  | nextId | insert => rfl
  | setPhase other | setScheme other | remove other | stopReceiving other =>
      by_cases hid : id = other <;> simp [under, asks, hid, summoned, unlist, Peer.stopReceiving]
  | take other =>
      by_cases hid : id = other
      · cases hreceiving : p.receiving <;> simp [under, asks, hid, served, hreceiving, summoned]
      · simp [under, asks, hid]
  | send other message =>
      by_cases hid : id = other
      · subst hid
        simp only [under, asks, hentry, if_true, Option.any_some, true_and, summoned_handed]
        cases p.isFull <;> rfl
      · simp [under, asks, hid]
  | broadcast text =>
      simp only [under, asks, hentry, Option.any_some, summoned_hear]
      cases p.isFull && p.scheme.isSome <;> rfl
  | close other code =>
      by_cases hid : id = other
      · subst hid
        simp only [under, asks, isOk_close, hentry, if_true, Option.any_some, true_and,
          summoned_asked]
        cases p.listed && !p.isStale <;> rfl
      · simp [under, asks, hid]

end Peer

/-- A registry, and how far those who ask for the end of one connection have come, and its task. -/
structure Summons where
  registry : Registry
  /-- How many requests have stored their code, and not yet the wake-up. -/
  halfway : Nat
  /-- Whether the task has taken a wake-up, and not yet looked for a code. -/
  awake : Bool

namespace Summons

/-- What may happen next. The requests of the registry are made at once or, in the middle of
anything else, in two halves; the task wakes up and then looks for a request. -/
inductive Move where
  | operate (op : Registry.Operation)
  | store (code : CloseCode)
  | ring
  | wake
  | look
  deriving DecidableEq

/-- The code that a request brings along. -/
def Move.code? : Move → Option CloseCode
  | .operate (.close _ code) => some code
  | .store code => some code
  | _ => none

def start : Summons :=
  ⟨.empty, 0, false⟩

/-- The state after a move, if it is possible, for the connection `id`. -/
def move (s : Summons) (id : ConnectionId) : Move → Option Summons
  | .operate op => (s.registry.apply op).map ({ s with registry := · })
  | .store code =>
    if (s.registry.peer? id).isNone then none
    else some { s with
      registry := s.registry.update id (Peer.storeRequest · code), halfway := s.halfway + 1 }
  | .ring =>
    if s.halfway = 0 then none
    else some { s with
      registry := s.registry.update id Peer.storeWakeUp, halfway := s.halfway - 1 }
  | .wake =>
    if !s.awake && (s.registry.takeWakeUp id).1 then
      some { s with registry := (s.registry.takeWakeUp id).2, awake := true }
    else none
  | .look =>
    if s.awake then
      some { s with registry := (s.registry.takeCloseRequest id).2, awake := false }
    else none

def run (s : Summons) (id : ConnectionId) (moves : List Move) : Option Summons :=
  moves.foldlM (fun s move => s.move id move) s

/-- The request that a move makes. -/
def asks (s : Summons) (id : ConnectionId) : Move → Option CloseCode
  | .operate op => s.registry.asks id op
  | .store code => some code
  | _ => none

/-- The requests that the task has not seen, the first one first: those that were made since it has
looked for the last time. -/
def unseen (s : Summons) (id : ConnectionId) (made : List CloseCode) : List Move → List CloseCode
  | [] => made
  | move :: moves =>
    (s.move id move).elim made fun after =>
      after.unseen id (if move = .look then [] else made ++ (s.asks id move).toList) moves

/-- What is stored for the task of a connection is what the requests amount to that it has not
seen. -/
structure Heeds (s : Summons) (id : ConnectionId) (made : List CloseCode) : Prop where
  known : s.registry.peer? id = none → made = [] ∧ s.halfway = 0
  numbered : ∀ code ∈ made, code.number ≠ 0
  first : ∀ p, s.registry.peer? id = some p → p.closeNumber = made.head?.elim 0 CloseCode.number
  stored : ∀ p, s.registry.peer? id = some p → p.closeNumber ≠ 0 →
    p.woken = true ∨ s.awake = true ∨ 0 < s.halfway

variable {s s' : Summons} {id : ConnectionId} {made : List CloseCode} {moves : List Move}

theorem heeds_start (id : ConnectionId) : start.Heeds id [] where
  known _ := ⟨rfl, rfl⟩
  numbered := by simp
  first p hp := by simp [start, Registry.empty, Registry.peer?] at hp
  stored p hp := by simp [start, Registry.empty, Registry.peer?] at hp

theorem first_append {number : UInt16} (hnumbered : ∀ code ∈ made, code.number ≠ 0)
    (hfirst : number = made.head?.elim 0 CloseCode.number) (code : CloseCode) :
    (if number = 0 then code.number else number) =
      (made ++ [code]).head?.elim 0 CloseCode.number := by
  cases made with
  | nil => simp [hfirst]
  | cons earlier made =>
      have hearlier : earlier.number ≠ 0 := hnumbered earlier (List.mem_cons_self ..)
      simp [hfirst, hearlier]

theorem Heeds.request (h : s.Heeds id made) {code : CloseCode} (hcode : code.number ≠ 0)
    (hknown : s'.registry.peer? id ≠ none)
    (hentry : ∀ p', s'.registry.peer? id = some p' → ∃ p, s.registry.peer? id = some p ∧
      p'.closeNumber = (p.storeRequest code).closeNumber)
    (hstored : ∀ p', s'.registry.peer? id = some p' →
      p'.woken = true ∨ s'.awake = true ∨ 0 < s'.halfway) :
    s'.Heeds id (made ++ [code]) where
  known hnone := absurd hnone hknown
  numbered other hother := by
    rcases List.mem_append.mp hother with hmade | hnew
    · exact h.numbered other hmade
    · rw [List.mem_singleton.mp hnew]
      exact hcode
  first p' hp' := by
    obtain ⟨p, hp, hnumber⟩ := hentry p' hp'
    rw [hnumber]
    exact first_append h.numbered (h.first p hp) code
  stored p' hp' _ := hstored p' hp'

theorem Heeds.keep (h : s.Heeds id made)
    (hknown : s'.registry.peer? id = none →
      s.registry.peer? id = none ∧ (s.halfway = 0 → s'.halfway = 0))
    (hentry : ∀ p', s'.registry.peer? id = some p' → ∃ p, s.registry.peer? id = some p ∧
      p'.closeNumber = p.closeNumber ∧
      (p.woken = true ∨ s.awake = true ∨ 0 < s.halfway →
        p'.woken = true ∨ s'.awake = true ∨ 0 < s'.halfway)) :
    s'.Heeds id made where
  known hnone := by
    obtain ⟨hbefore, hhalfway⟩ := hknown hnone
    obtain ⟨hmade, hzero⟩ := h.known hbefore
    exact ⟨hmade, hhalfway hzero⟩
  numbered := h.numbered
  first p' hp' := by
    obtain ⟨p, hp, hnumber, -⟩ := hentry p' hp'
    rw [hnumber]
    exact h.first p hp
  stored p' hp' hpending := by
    obtain ⟨p, hp, hnumber, hwoken⟩ := hentry p' hp'
    exact hwoken (h.stored p hp (hnumber ▸ hpending))

theorem exists_of_asks {r : Registry} {op : Registry.Operation} {code : CloseCode}
    (h : r.asks id op = some code) :
    r.peer? id ≠ none ∧ (code = .policy ∨ op = .close id code) := by
  cases op with
  | close other code' =>
      simp only [Registry.asks, Option.ite_none_right_eq_some, Option.some.injEq] at h
      obtain ⟨⟨rfl, hok⟩, rfl⟩ := h
      rw [Registry.isOk_close] at hok
      refine ⟨fun hnone => ?_, .inr rfl⟩
      simp [hnone] at hok
  | send other message =>
      simp only [Registry.asks, Option.ite_none_right_eq_some, Option.some.injEq] at h
      obtain ⟨⟨rfl, hfull⟩, rfl⟩ := h
      refine ⟨fun hnone => ?_, .inl rfl⟩
      simp [hnone] at hfull
  | broadcast text =>
      simp only [Registry.asks, Option.ite_none_right_eq_some, Option.some.injEq] at h
      obtain ⟨hfull, rfl⟩ := h
      refine ⟨fun hnone => ?_, .inl rfl⟩
      simp [hnone] at hfull
  | _ => simp [Registry.asks] at h

theorem Heeds.operate (h : s.Heeds id made) {op : Registry.Operation} {after : Registry}
    (hop : s.registry.apply op = some after)
    (hcode : ∀ code, op = .close id code → code.number ≠ 0) :
    ({ s with registry := after } : Summons).Heeds id
      (made ++ (s.registry.asks id op).toList) := by
  rcases Registry.entry_of_apply hop id with ⟨capacity, rfl, hnone, hnew⟩ | hlocal
  · -- A new connection begins with nothing stored, and nothing has been asked for it.
    obtain ⟨rfl, hhalfway⟩ := h.known hnone
    refine ⟨fun hnone' => by simp [hnew] at hnone', by simp [Registry.asks], ?_, ?_⟩
    all_goals
      intro p hp
      obtain rfl : Peer.new capacity = p := Option.some.inj (hnew.symm.trans hp)
      simp [Registry.asks, Peer.new]
  cases hasks : s.registry.asks id op with
  | none =>
      rw [Option.toList_none, List.append_nil]
      refine h.keep (fun hnone => ⟨?_, fun hzero => hzero⟩) fun p' hp' => ?_
      · exact Option.map_eq_none_iff.mp (hlocal.symm.trans hnone)
      · obtain ⟨p, hp, rfl⟩ := Option.map_eq_some_iff.mp (hlocal.symm.trans hp')
        have hsummoned := Peer.summoned_under hp op
        rw [hasks, Option.elim_none] at hsummoned
        obtain ⟨hnumber, hwoken⟩ := Prod.mk.inj hsummoned
        exact ⟨p, hp, hnumber, fun hstored => hwoken ▸ hstored⟩
  | some code =>
      obtain ⟨hknown, horigin⟩ := exists_of_asks hasks
      have hnumber : code.number ≠ 0 := by
        rcases horigin with rfl | rfl
        · decide
        · exact hcode code rfl
      rw [Option.toList_some]
      have hentry : ∀ p', after.peer? id = some p' → ∃ p, s.registry.peer? id = some p ∧
          p'.summoned = (p.storeRequest code).storeWakeUp.summoned := by
        intro p' hp'
        obtain ⟨p, hp, rfl⟩ := Option.map_eq_some_iff.mp (hlocal.symm.trans hp')
        have hsummoned := Peer.summoned_under hp op
        rw [hasks, Option.elim_some, Peer.requestClose_eq] at hsummoned
        exact ⟨p, hp, hsummoned⟩
      refine h.request hnumber (fun hnone => ?_) (fun p' hp' => ?_) fun p' hp' => .inl ?_
      · exact hknown (Option.map_eq_none_iff.mp (hlocal.symm.trans hnone))
      · obtain ⟨p, hp, hsummoned⟩ := hentry p' hp'
        exact ⟨p, hp, (Prod.mk.inj hsummoned).1⟩
      · obtain ⟨p, hp, hsummoned⟩ := hentry p' hp'
        exact (Prod.mk.inj hsummoned).2

/-- One move keeps what is stored for the task in step with the requests that it has not seen. -/
theorem heeds_move (h : s.Heeds id made) {move : Move} (hmove : s.move id move = some s')
    (hcode : ∀ code, move.code? = some code → code.number ≠ 0) :
    s'.Heeds id (if move = .look then [] else made ++ (s.asks id move).toList) := by
  cases move with
  | operate op =>
      obtain ⟨after, hop, rfl⟩ := Option.map_eq_some_iff.mp hmove
      rw [if_neg (by simp)]
      refine h.operate hop fun code hclose => hcode code ?_
      rw [hclose]
      rfl
  | store code =>
      simp only [Summons.move, Option.isNone_iff_eq_none, Option.ite_none_left_eq_some,
        Option.some.injEq] at hmove
      obtain ⟨hknown, rfl⟩ := hmove
      rw [if_neg (by simp)]
      have hentry := Registry.peer?_update s.registry id id (Peer.storeRequest · code)
      simp only [if_true] at hentry
      refine h.request (hcode code rfl) (fun hnone => ?_) (fun p' hp' => ?_) fun p' hp' => ?_
      · exact hknown (Option.map_eq_none_iff.mp (hentry.symm.trans hnone))
      · obtain ⟨p, hp, rfl⟩ := Option.map_eq_some_iff.mp (hentry.symm.trans hp')
        exact ⟨p, hp, rfl⟩
      · exact .inr (.inr (Nat.succ_pos _))
  | ring =>
      -- The wake-up takes over from the request that was in its middle.
      simp only [Summons.move, Option.ite_none_left_eq_some, Option.some.injEq] at hmove
      obtain ⟨hhalfway, rfl⟩ := hmove
      have hentry := Registry.peer?_update s.registry id id Peer.storeWakeUp
      simp only [if_true] at hentry
      rw [if_neg (by simp), show s.asks id .ring = none from rfl, Option.toList_none,
        List.append_nil]
      refine h.keep (fun hnone => ⟨?_, fun hzero => absurd hzero hhalfway⟩) fun p' hp' => ?_
      · exact Option.map_eq_none_iff.mp (hentry.symm.trans hnone)
      · obtain ⟨p, hp, rfl⟩ := Option.map_eq_some_iff.mp (hentry.symm.trans hp')
        exact ⟨p, hp, rfl, fun _ => .inl rfl⟩
  | wake =>
      simp only [Summons.move, Option.ite_none_right_eq_some, Option.some.injEq] at hmove
      obtain ⟨-, rfl⟩ := hmove
      have hentry := Registry.peer?_takeWakeUp s.registry id id
      simp only [if_true] at hentry
      rw [if_neg (by simp), show s.asks id .wake = none from rfl, Option.toList_none,
        List.append_nil]
      refine h.keep (fun hnone => ⟨?_, fun hzero => hzero⟩) fun p' hp' => ?_
      · exact Option.map_eq_none_iff.mp (hentry.symm.trans hnone)
      · obtain ⟨p, hp, rfl⟩ := Option.map_eq_some_iff.mp (hentry.symm.trans hp')
        exact ⟨p, hp, rfl, fun _ => .inr (.inl rfl)⟩
  | look =>
      simp only [Summons.move, Option.ite_none_right_eq_some, Option.some.injEq] at hmove
      obtain ⟨-, rfl⟩ := hmove
      have hentry := Registry.peer?_takeCloseRequest s.registry id id
      simp only [if_true] at hentry
      rw [if_pos rfl]
      refine ⟨fun hnone => ⟨rfl, ?_⟩, by simp, fun p' hp' => ?_, fun p' hp' hpending => ?_⟩
      · exact (h.known (Option.map_eq_none_iff.mp (hentry.symm.trans hnone))).2
      · obtain ⟨p, -, rfl⟩ := Option.map_eq_some_iff.mp (hentry.symm.trans hp')
        rfl
      · obtain ⟨p, -, rfl⟩ := Option.map_eq_some_iff.mp (hentry.symm.trans hp')
        exact absurd rfl hpending

theorem run_cons (s : Summons) (id : ConnectionId) (move : Move) (moves : List Move) :
    s.run id (move :: moves) = (s.move id move).bind (·.run id moves) :=
  List.foldlM_cons ..

theorem heeds_run (h : s.Heeds id made) (hrun : s.run id moves = some s')
    (hcodes : ∀ move ∈ moves, ∀ code, move.code? = some code → code.number ≠ 0) :
    s'.Heeds id (s.unseen id made moves) := by
  induction moves generalizing s made with
  | nil =>
      cases hrun
      exact h
  | cons move moves ih =>
      rw [run_cons, Option.bind_eq_some_iff] at hrun
      obtain ⟨next, hmove, hrun⟩ := hrun
      rw [unseen, hmove, Option.elim_some]
      refine ih (heeds_move h hmove (hcodes move (List.mem_cons_self ..))) hrun ?_
      exact fun other hother => hcodes other (List.mem_cons_of_mem _ hother)

theorem halfway_move {move : Move} (hmove : s.move id move = some s') (hzero : s.halfway = 0)
    (hwhole : ∀ code, move ≠ .store code) : s'.halfway = 0 := by
  cases move with
  | operate op =>
      obtain ⟨after, -, rfl⟩ := Option.map_eq_some_iff.mp hmove
      exact hzero
  | store code => exact absurd rfl (hwhole code)
  | ring => simp [Summons.move, hzero] at hmove
  | wake | look =>
      simp only [Summons.move, Option.ite_none_right_eq_some, Option.some.injEq] at hmove
      obtain ⟨-, rfl⟩ := hmove
      exact hzero

theorem halfway_run (hrun : s.run id moves = some s') (hzero : s.halfway = 0)
    (hwhole : ∀ code, .store code ∉ moves) : s'.halfway = 0 := by
  induction moves generalizing s with
  | nil =>
      cases hrun
      exact hzero
  | cons move moves ih =>
      rw [run_cons, Option.bind_eq_some_iff] at hrun
      obtain ⟨next, hmove, hrun⟩ := hrun
      refine ih hrun (halfway_move hmove hzero ?_) ?_
      · rintro code rfl
        exact hwhole code (List.mem_cons_self ..)
      · exact fun code hcode => hwhole code (List.mem_cons_of_mem _ hcode)

/-- What a task finds when it looks for a request. -/
theorem takeCloseRequest_of_heeds (h : s.Heeds id made) {p : Peer}
    (hp : s.registry.peer? id = some p) :
    (s.registry.takeCloseRequest id).1 = made.head?.map fun code => .ofNumber code.number := by
  have hfirst := h.first p hp
  simp only [Registry.takeCloseRequest, hp, Peer.takeCloseRequest]
  cases hmade : made with
  | nil => simp [hfirst, hmade]
  | cons code rest =>
      have hnumber : code.number ≠ 0 := h.numbered code (hmade ▸ List.mem_cons_self ..)
      simp [hfirst, hmade, hnumber]

/-- **No request to close is lost, and the first one wins.** However requests, the operations of the
registry and the steps of the task fall between each other: while a code is stored, a wake-up is
stored too, or the task has woken up and not looked yet; only when requests are cut in two, it may
also be that one is in its middle. When the task looks, it finds the code of the first request since
it has looked for the last time, and nothing if there was none; then looking changes nothing. And as
long as it has not seen a request, it can look, or wake up, or a request can store its wake-up. -/
theorem first_request_wins (id : ConnectionId) {moves : List Move} {s : Summons} {p : Peer}
    (hrun : start.run id moves = some s) (hp : s.registry.peer? id = some p)
    (hcodes : ∀ move ∈ moves, ∀ code, move.code? = some code → code.number ≠ 0) :
    let made := start.unseen id [] moves
    ((∀ code, .store code ∉ moves) → p.closeNumber ≠ 0 → p.woken = true ∨ s.awake = true) ∧
    (p.closeNumber ≠ 0 → p.woken = true ∨ s.awake = true ∨ 0 < s.halfway) ∧
    (s.registry.takeCloseRequest id).1 = made.head?.map (fun code => .ofNumber code.number) ∧
    (made = [] → (s.registry.takeCloseRequest id).1 = none ∧
      ∀ other, (s.registry.takeCloseRequest id).2.peer? other = s.registry.peer? other) ∧
    (made ≠ [] →
      (s.move id .look).isSome ∨ (s.move id .wake).isSome ∨ (s.move id .ring).isSome) := by
  intro made
  have hheeds : s.Heeds id made := heeds_run (heeds_start id) hrun hcodes
  have hfound := takeCloseRequest_of_heeds hheeds hp
  refine ⟨fun hwhole hpending => ?_, hheeds.stored p hp, hfound,
    fun hmade => ⟨?_, fun other => ?_⟩, fun hmade => ?_⟩
  · rcases hheeds.stored p hp hpending with hwoken | hawake | hhalfway
    · exact .inl hwoken
    · exact .inr hawake
    · exact absurd (halfway_run hrun rfl hwhole) hhalfway.ne'
  · rw [hfound, hmade]
    rfl
  · have hzero : p.closeNumber = 0 := by
      rw [hheeds.first p hp, hmade]
      rfl
    have hchanges : s.registry.Changes id (fun p => { p with closeNumber := 0 })
        (s.registry.takeCloseRequest id).2 :=
      Registry.peer?_takeCloseRequest s.registry id
    have hsame : s.registry.Changes id (fun p => p) (s.registry.takeCloseRequest id).2 := by
      refine hchanges.congr fun q hq => ?_
      obtain rfl : p = q := Option.some.inj (hp.symm.trans hq)
      rw [← hzero]
    simpa using hsame other
  · obtain ⟨code, rest, hcons⟩ := List.exists_cons_of_ne_nil hmade
    have hpending : p.closeNumber ≠ 0 := by
      rw [hheeds.first p hp, hcons]
      exact hheeds.numbered code (hcons ▸ List.mem_cons_self ..)
    cases hawake : s.awake with
    | true => exact .inl (by simp [move, hawake])
    | false =>
        rcases hheeds.stored p hp hpending with hwoken | hlooking | hhalfway
        · refine .inr (.inl ?_)
          simp [move, hawake, Registry.takeWakeUp, hp, Peer.takeWakeUp, hwoken]
        · exact absurd hlooking (by simp [hawake])
        · exact .inr (.inr (by simp [move, hhalfway.ne']))

/-- Two requests, the second of which comes while the first one has stored its code and not yet its
wake-up; the task wakes up for the second one and finds the code of the first. -/
def overtaken : List Move :=
  [.operate (.insert ⟨1⟩ 1), .store .normal, .operate (.close ⟨1⟩ .away), .wake, .ring]

theorem first_overtaken_request_wins :
    ∃ s p, start.run ⟨1⟩ overtaken = some s ∧ s.registry.peer? ⟨1⟩ = some p ∧
      start.unseen ⟨1⟩ [] overtaken = [.normal, .away] ∧ p.closeNumber ≠ 0 ∧ s.awake = true ∧
      (s.registry.takeCloseRequest ⟨1⟩).1 = some .normal := by
  have hrun : (start.run ⟨1⟩ overtaken).any (fun s => (s.registry.peer? ⟨1⟩).any fun p =>
      p.closeNumber ≠ 0 && s.awake) = true := by
    decide +kernel
  have hmade : start.unseen ⟨1⟩ [] overtaken = [.normal, .away] := by decide +kernel
  obtain ⟨s, hmoves, hpeers⟩ := (Option.any_eq_true ..).mp hrun
  obtain ⟨p, hentry, hfacts⟩ := (Option.any_eq_true ..).mp hpeers
  simp only [Bool.and_eq_true, decide_eq_true_eq] at hfacts
  have hcodes : ∀ move ∈ overtaken, ∀ code, move.code? = some code → code.number ≠ 0 := by
    simp [overtaken, Move.code?, CloseCode.number]
  obtain ⟨-, -, hfound, -⟩ := first_request_wins ⟨1⟩ hmoves hentry hcodes
  rw [hmade] at hfound
  exact ⟨s, p, hmoves, hentry, hmade, hfacts.1, hfacts.2, hfound⟩

end Summons

end WebSocket

import Mathlib.Order.Basic
import WebSocket.Proofs.ConnectionLedger

namespace WebSocket

def Phase.rank : Phase → Nat
  | .connecting => 0
  | .handshaking => 1
  | .established => 2
  | .closing => 3
  | .closed => 4

/-- The order in which a connection goes through its phases. -/
instance : PartialOrder Phase :=
  PartialOrder.lift Phase.rank (by
    intro p q h
    cases p <;> cases q <;> first | rfl | simp [Phase.rank] at h)

instance (p q : Phase) : Decidable (p ≤ q) :=
  inferInstanceAs (Decidable (p.rank ≤ q.rank))

theorem Phase.le_closed (p : Phase) : p ≤ .closed := by
  cases p <;> decide

def Progress.connection : Progress → Connection
  | .going c => c
  | .failed _ c => c

namespace Connection

/-- Nothing more will be queued for the network. -/
def Silent (c : Connection) : Prop :=
  c.phase = .closing ∨ c.phase = .closed

/-- The event that tells of the end of a connection, unless it was told already. -/
def farewell (c : Connection) : List Event :=
  if c.opened && !c.closedReported then [.closed] else []

/-- The events that are still to be handed out until the connection is gone, and the bytes that
wait for the network. -/
def account (c : Connection) : List Event × Bytes :=
  (c.pending ++ c.farewell, c.outbound)

theorem toList_reportClosed (c : Connection) : c.reportClosed.1.toList = c.farewell := by
  unfold reportClosed farewell
  split <;> rfl

theorem reportClosed_snd (c : Connection) :
    c.reportClosed.2 = { c with closedReported := c.closedReported || c.opened } := by
  rcases c with ⟨_, _, _, _, _, _, _, _, _, _, _ | _, _ | _⟩ <;> rfl

theorem onDisconnect_fst (c : Connection) : c.onDisconnect.1 = c.pending ++ c.farewell := by
  simp only [onDisconnect, toList_reportClosed]
  rfl

theorem outbound_onDisconnect (c : Connection) : c.onDisconnect.2.outbound = c.outbound := by
  simp only [onDisconnect, reportClosed_snd]

theorem account_accept (c : Connection) : c.accept.account = c.account := by
  unfold accept
  split <;> rfl

theorem account_sealed (c : Connection) : c.sealed.account = c.account := by
  unfold sealed
  split <;> rfl

theorem account_reported (c : Connection) :
    ({ c with
      closedReported := c.closedReported || c.opened
      pending := c.pending ++ c.farewell } : Connection).account = c.account := by
  cases hopened : c.opened <;> cases hreported : c.closedReported <;>
    simp [account, farewell, hopened, hreported]

theorem account_fail {c : Connection} (h : c.Silent) (e : Error) :
    (c.fail e).account = c.account := by
  have hphase : c.phase ≠ .established := by
    rcases h with h | h <;> simp [h]
  simp only [fail, if_neg hphase]
  rfl

theorem delivered_of_silent {c : Connection} {opcode : OpCode} {payload : Bytes} {p : Progress}
    (h : c.Silent) (hdelivered : Delivered c opcode payload p) : p = .going c := by
  have hphase : c.phase ≠ .established := by
    rcases h with h | h <;> simp [h]
  cases hdelivered with
  | dropped _ => rfl
  | garbled hphase' => exact absurd hphase' hphase
  | handed hphase' => exact absurd hphase' hphase

theorem account_acted {c : Connection} {f : Frame} {p : Progress} (h : c.Silent)
    (hacted : Acted c f p) : p.connection.Silent ∧ p.connection.account = c.account := by
  have hphase : c.phase ≠ .established := by
    rcases h with h | h <;> simp [h]
  cases hacted with
  | ignored | interleaved | begun | orphaned | oversized | continued | misclosed | late =>
      exact ⟨h, rfl⟩
  | single _ _ _ hdelivered =>
      rw [delivered_of_silent h hdelivered]
      exact ⟨h, rfl⟩
  | completed _ _ _ _ hdelivered =>
      rw [delivered_of_silent (c := { c with fragment := none, accumulated := [] }) h hdelivered]
      exact ⟨h, rfl⟩
  | answered _ hphase' | unanswered _ hphase' | echoed _ _ hphase' | unechoed _ _ hphase' =>
      exact absurd hphase' hphase
  | ended =>
      simp only [reportClosed_snd, toList_reportClosed]
      exact ⟨.inr rfl, account_reported { c with peerClosed := true, phase := .closed }⟩

theorem account_round {c : Connection} {p : Progress} (h : c.Silent)
    (hround : c.round = .progress p) :
    p.connection.Silent ∧ p.connection.account = c.account := by
  have hrounded := rounded c
  rw [hround] at hrounded
  cases hrounded with
  | upgraded hphase => rcases h with h | h <;> simp [hphase] at h
  | @acted _ _ rest _ _ _ _ hacted => exact account_acted (c := c.withBuffered rest) h hacted

theorem account_of_alike {c d : Connection} (h : c.Alike d) : c.account = d.account := by
  simp only [account, farewell, h.outbound, h.pending, h.opened, h.closedReported]

theorem account_broken {c after : Connection} {e : Error} (h : c.Silent)
    (hbroken : c.Broken e after) : after.Silent ∧ after.account = c.account := by
  have hphase : c.phase ≠ .handshaking := by
    rcases h with h | h <;> simp [h]
  have halike := alike_of_broken hbroken hphase
  exact ⟨by simpa only [Silent, halike.phase] using h, account_of_alike halike⟩

theorem account_intake {c : Connection} (h : c.Silent) (data : Bytes) :
    (c.intake data).ended.Silent ∧ (c.intake data).ended.account = c.account := by
  refine ended_intake (P := fun d (_ : List Item) => d.Silent ∧ d.account = c.account)
    ?_ ?_ ?_ ?_ ⟨h, rfl⟩ data
  · intro d done data hd
    exact hd
  · rintro d after done item ⟨hsilent, haccount⟩ hround -
    obtain ⟨hsilent', haccount'⟩ := account_round hsilent hround
    exact ⟨hsilent', haccount'.trans haccount⟩
  · rintro d after done e ⟨hsilent, haccount⟩ hbroken
    obtain ⟨hsilent', haccount'⟩ := account_broken hsilent hbroken
    exact ⟨.inr rfl, (account_fail hsilent' e).trans (haccount'.trans haccount)⟩
  · rintro d done ⟨-, haccount⟩
    exact ⟨.inr rfl, haccount⟩

/-- Ending a connection early does not change what comes of it. -/
theorem account_finish (c : Connection) : (c.act .finish).account = c.account := by
  by_cases hending : (c.phase = .closing && c.peerClosed) = true
  · simp only [act, finish, if_pos hending, reportClosed_snd, toList_reportClosed]
    exact account_reported c
  · simp only [act, finish, if_neg hending, Option.toList_none, List.append_nil]

theorem finish_cases (c : Connection) :
    c.act .finish = c ∨ c.phase = .closing ∧ (c.act .finish).phase = .closed := by
  by_cases hending : (c.phase = .closing && c.peerClosed) = true
  · simp only [act, finish, if_pos hending, reportClosed_snd]
    simp only [Bool.and_eq_true, decide_eq_true_eq] at hending
    exact .inr ⟨hending.1, trivial⟩
  · simp only [act, finish, if_neg hending, Option.toList_none, List.append_nil]
    exact .inl trivial

theorem phase_le_acted {c : Connection} {f : Frame} {p : Progress} (hacted : Acted c f p) :
    c.phase ≤ p.connection.phase := by
  cases hacted with
  | ignored | interleaved | begun | orphaned | oversized | continued | misclosed | late
  | unanswered | unechoed => exact le_rfl
  | answered _ _ hqueue =>
      obtain ⟨bytes, rfl⟩ := eq_write_of_queue hqueue
      exact le_rfl
  | single _ _ _ hdelivered | completed _ _ _ _ hdelivered => cases hdelivered <;> exact le_rfl
  | echoed _ _ hphase =>
      rw [hphase]
      exact (by decide : Phase.established ≤ .closing)
  | ended =>
      simp only [reportClosed_snd]
      exact Phase.le_closed _

theorem phase_le_round {c : Connection} {p : Progress} (hround : c.round = .progress p) :
    c.phase ≤ p.connection.phase := by
  have hrounded := rounded c
  rw [hround] at hrounded
  cases hrounded with
  | upgraded hphase =>
      rw [hphase]
      exact (by decide : Phase.handshaking ≤ .established)
  | @acted _ _ rest _ _ _ _ hacted => exact phase_le_acted (c := c.withBuffered rest) hacted

theorem phase_le_intake (c : Connection) (data : Bytes) :
    c.phase ≤ (c.intake data).ended.phase := by
  refine ended_intake (P := fun d (_ : List Item) => c.phase ≤ d.phase) ?_ ?_ ?_ ?_ le_rfl data
  · intro d done data hd
    exact hd
  · intro d after done item hd hround _
    exact hd.trans (phase_le_round hround)
  · intro d after done e _ _
    exact Phase.le_closed _
  · intro d done _
    exact Phase.le_closed _

theorem started_intake {c : Connection} (h : c.phase ≠ .connecting) (data : Bytes) :
    (c.intake data).ended.phase ≠ .connecting := by
  have hle := phase_le_intake c data
  intro hback
  rw [hback] at hle
  exact h (le_antisymm hle (by cases c.phase <;> decide))

/-- If the connection is closing, the peer has closed it. -/
def Bidden (c : Connection) : Prop :=
  c.phase = .closing → c.peerClosed = true

theorem bidden_of_acted {c d : Connection} {f : Frame} (h : c.Bidden)
    (hacted : Acted c f (.going d)) : d.Bidden := by
  cases hacted with
  | ignored | begun | continued => exact h
  | answered _ _ hqueue =>
      obtain ⟨bytes, rfl⟩ := eq_write_of_queue hqueue
      exact h
  | single _ _ _ hdelivered | completed _ _ _ _ hdelivered => cases hdelivered <;> exact h
  | echoed | late => exact fun _ => rfl
  | ended =>
      intro hclosing
      simp only [reportClosed_snd] at hclosing
      simp at hclosing

theorem bidden_of_round {c d : Connection} (h : c.Bidden)
    (hround : c.round = .progress (.going d)) : d.Bidden := by
  have hrounded := rounded c
  rw [hround] at hrounded
  cases hrounded with
  | upgraded =>
      intro hclosing
      simp [upgrade] at hclosing
  | @acted _ _ rest _ _ _ _ hacted => exact bidden_of_acted (c := c.withBuffered rest) h hacted

theorem bidden_intake {c : Connection} (h : c.Bidden) (data : Bytes) :
    (c.intake data).ended.Bidden := by
  refine ended_intake (P := fun d (_ : List Item) => d.Bidden) ?_ ?_ ?_ ?_ h data
  · exact fun _ h => h
  · exact fun h hround _ => bidden_of_round h hround
  · intro d after done e _ _ hclosing
    simp [fail] at hclosing
  · intro d done _ hclosing
    simp at hclosing

end Connection

end WebSocket

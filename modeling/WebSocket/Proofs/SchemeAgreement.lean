import WebSocket.Proofs.ConnectionLifecycle

namespace WebSocket

theorem Phase.unopened_or_opened (p : Phase) : p ≤ .handshaking ∨ .established ≤ p := by
  cases p <;> decide

theorem Phase.not_opened {p : Phase} (h : p ≤ .handshaking) : ¬.established ≤ p := by
  revert h
  cases p <;> decide

namespace Connection

/-- The connection has agreed on a scheme, and has the codec that goes with it. -/
def Tuned (c : Connection) : Prop :=
  ∃ codec, c.codec = some codec ∧ c.scheme = some codec.scheme

theorem tuned_upgrade (c : Connection) (u : Handshake.Upgrade) : (c.upgrade u).Tuned :=
  ⟨_, rfl, congrArg some (Codec.scheme_new ..).symm⟩

/-- The later connection has the scheme and the codec of the earlier one. -/
structure Keeps (c d : Connection) : Prop where
  scheme : d.scheme = c.scheme
  codec : d.codec = c.codec

/-- From one time to a later one: a connection does not go back, and its scheme and its codec change
at most once, when it opens. -/
structure Steady (c d : Connection) : Prop where
  phase : c.phase ≤ d.phase
  opens : c.phase ≤ .handshaking → d.phase = .established → d.Tuned
  settled : d.phase ≤ .handshaking ∨ .established ≤ c.phase → c.Keeps d

variable {c d e : Connection}

theorem Keeps.refl (c : Connection) : c.Keeps c :=
  ⟨rfl, rfl⟩

theorem Keeps.trans (h : c.Keeps d) (h' : d.Keeps e) : c.Keeps e :=
  ⟨h'.scheme.trans h.scheme, h'.codec.trans h.codec⟩

theorem Tuned.of_keeps (h : c.Tuned) (hkeeps : c.Keeps d) : d.Tuned := by
  obtain ⟨codec, hsome, hsame⟩ := h
  exact ⟨codec, hkeeps.codec.trans hsome, hkeeps.scheme.trans hsame⟩

theorem Steady.scheme (h : c.Steady d)
    (hsettled : d.phase ≤ .handshaking ∨ .established ≤ c.phase) : d.scheme = c.scheme :=
  (h.settled hsettled).scheme

theorem Steady.trans (h : c.Steady d) (h' : d.Steady e) : c.Steady e where
  phase := h.phase.trans h'.phase
  opens hunopened hestablished := by
    rcases Phase.unopened_or_opened d.phase with hphase | hphase
    · exact h'.opens hphase hestablished
    · have hle := h'.phase
      rw [hestablished] at hle
      exact (h.opens hunopened (le_antisymm hle hphase)).of_keeps (h'.settled (.inr hphase))
  settled hsettled := by
    rcases hsettled with hunopened | hopened
    · exact (h.settled (.inl (h'.phase.trans hunopened))).trans (h'.settled (.inl hunopened))
    · exact (h.settled (.inr hopened)).trans (h'.settled (.inr (hopened.trans h.phase)))

theorem steady_of_same (hphase : d.phase = c.phase) (hkeeps : c.Keeps d) : c.Steady d where
  phase := hphase.symm.le
  opens hunopened hestablished := by
    rw [← hphase, hestablished] at hunopened
    exact absurd hunopened (by decide)
  settled _ := hkeeps

theorem Steady.refl (c : Connection) : c.Steady c :=
  steady_of_same rfl (.refl c)

theorem steady_of_closed (hphase : d.phase = .closed) (hkeeps : c.Keeps d) : c.Steady d where
  phase := hphase ▸ Phase.le_closed _
  opens _ hestablished := by simp [hphase] at hestablished
  settled _ := hkeeps

theorem keeps_fail (c : Connection) (e : Error) : c.Keeps (c.fail e) := by
  obtain ⟨bytes, hfail⟩ := fail_eq_write c e
  rw [hfail]
  exact ⟨rfl, rfl⟩

theorem keeps_reportClosed (c : Connection) : c.Keeps c.reportClosed.2 := by
  rw [reportClosed_snd]
  exact ⟨rfl, rfl⟩

theorem steady_fail (c : Connection) (e : Error) : c.Steady (c.fail e) :=
  steady_of_closed rfl (keeps_fail c e)

theorem keeps_of_acted {f : Frame} (h : Acted c f (.going d)) : c.Keeps d := by
  cases h with
  | answered _ _ hqueue | echoed _ _ _ hqueue =>
      obtain ⟨bytes, rfl⟩ := eq_write_of_queue hqueue
      exact ⟨rfl, rfl⟩
  | single _ _ _ hdelivered | completed _ _ _ _ hdelivered => cases hdelivered <;> exact ⟨rfl, rfl⟩
  | ended => constructor <;> simp only [reportClosed_snd]
  | _ => exact ⟨rfl, rfl⟩

theorem steady_round (h : c.round = .progress (.going d)) : c.Steady d := by
  have hphase : c.phase ≤ d.phase := phase_le_round h
  have hrounded := rounded c
  rw [h] at hrounded
  cases hrounded with
  | upgraded hhandshaking =>
      have hsettled : ¬(Phase.established ≤ .handshaking ∨ Phase.established ≤ c.phase) := by
        rw [hhandshaking]
        decide
      exact ⟨hphase, fun _ _ => tuned_upgrade c _, fun h => absurd h hsettled⟩
  | @acted _ _ rest _ hframed _ _ hacted =>
      have hbuffered : c.Keeps (c.withBuffered rest) := ⟨rfl, rfl⟩
      refine ⟨hphase, fun hunopened => ?_, fun _ => hbuffered.trans (keeps_of_acted hacted)⟩
      rcases hframed with hframed | hframed <;> rw [hframed] at hunopened <;>
        exact absurd hunopened (by decide)

theorem keeps_of_broken {e : Error} (h : c.Broken e d) : c.Keeps d := by
  by_cases hphase : c.phase = .handshaking
  · rw [eq_of_broken h hphase]
    exact ⟨rfl, rfl⟩
  · have halike := alike_of_broken h hphase
    exact ⟨halike.scheme, halike.codec⟩

theorem steady_intake (c : Connection) (data : Bytes) : c.Steady (c.intake data).ended := by
  refine ended_intake (P := fun d (_ : List Item) => c.Steady d) ?_ ?_ ?_ ?_ (.refl c) data
  · intro d done data hd
    exact hd.trans (steady_of_same rfl ⟨rfl, rfl⟩)
  · intro d after done item hd hround _
    exact hd.trans (steady_round hround)
  · intro d after done e hd hbroken
    exact hd.trans (steady_of_closed rfl ((keeps_of_broken hbroken).trans (keeps_fail after e)))
  · intro d done hd
    exact hd.trans (steady_of_closed rfl ⟨rfl, rfl⟩)

theorem steady_accept (c : Connection) : c.Steady c.accept where
  phase := phase_le_accept c
  opens hunopened hestablished := by
    have hle : c.accept.phase ≤ .handshaking := by
      unfold accept
      split
      · exact le_rfl
      · exact hunopened
    rw [hestablished] at hle
    exact absurd hle (by decide)
  settled _ := by
    unfold accept
    split <;> exact ⟨rfl, rfl⟩

theorem steady_receive (c : Connection) (data : Bytes) : c.Steady (c.receive data).2 := by
  have hintake := (steady_accept c).trans (steady_intake c.accept data)
  rw [receive_eq_conclude]
  cases hprocessed : c.accept.intake data with
  | waiting after =>
      rw [hprocessed] at hintake
      exact hintake.trans (steady_of_same rfl ⟨rfl, rfl⟩)
  | failed e after => rwa [hprocessed] at hintake
  | abandoned after => rwa [hprocessed] at hintake

theorem steady_write (c : Connection) (bytes : Bytes) : c.Steady (c.write bytes) :=
  steady_of_same rfl ⟨rfl, rfl⟩

theorem steady_close (c : Connection) (code : CloseCode) : c.Steady (c.close code) := by
  have hkeeps : c.Keeps (c.close code) := by
    cases hphase : c.phase with
    | established =>
        obtain ⟨bytes, hqueue⟩ := queue_getD c (.close code [])
        simp only [close, hphase, hqueue]
        exact ⟨rfl, rfl⟩
    | _ =>
        simp only [close, hphase]
        exact ⟨rfl, rfl⟩
  refine ⟨phase_le_close c code, fun _ hestablished => ?_, fun _ => hkeeps⟩
  cases hphase : c.phase <;> simp [close, hphase] at hestablished

theorem steady_finish (c : Connection) : c.Steady c.finish.2 := by
  unfold finish
  split
  · have hclosed : c.Keeps { c with phase := .closed } := ⟨rfl, rfl⟩
    refine steady_of_closed ?_ (hclosed.trans (keeps_reportClosed _))
    simp only [reportClosed_snd]
  · exact .refl c

theorem steady_onTimeout (c : Connection) : c.Steady c.onTimeout.2 := by
  cases hphase : c.phase <;> simp only [onTimeout, hphase]
  · exact steady_fail c _
  · exact steady_fail c _
  · exact steady_fail c _
  · exact steady_of_closed rfl ⟨rfl, rfl⟩
  · exact steady_of_closed rfl ⟨rfl, rfl⟩

theorem steady_onDisconnect (c : Connection) : c.Steady c.onDisconnect.2 := by
  refine steady_of_closed (phase_onDisconnect c) ?_
  simp only [onDisconnect, reportClosed_snd]
  exact ⟨rfl, rfl⟩

theorem steady_takeOutbound (c : Connection) : c.Steady c.takeOutbound.2 := by
  unfold takeOutbound
  split
  · exact .refl c
  · exact steady_of_same rfl ⟨rfl, rfl⟩

end Connection

end WebSocket

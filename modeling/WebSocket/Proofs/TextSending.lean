import WebSocket.Proofs.Backpressure
import WebSocket.Proofs.BroadcastOutcome

namespace WebSocket

namespace Connection

variable {c : Connection} {codec : Codec} {text : String} {bytes : Bytes}

/-- An open connection takes a text and its frame alike, and only appends the frame to what waits for
the network. -/
theorem sends_alike (hphase : c.phase = .established) (hcodec : c.codec = some codec)
    (hencode : codec.scheme.encode (.text (Utf8.encode text)) = .ok bytes) :
    c.sendText text = .ok (c.write bytes) ∧ c.sendEncoded bytes = .ok (c.write bytes) := by
  constructor
  · rw [sendText, if_pos hphase, queue_eq hcodec, hencode]
    rfl
  · rw [sendEncoded, if_pos hphase]

end Connection

namespace Peer

variable {p : Peer} {text : String}

theorem isReachable_iff :
    p.isReachable = true ↔ p.listed = true ∧ p.isStale = false ∧ p.phase = .established ∧
      p.scheme.isSome = true ∧ p.hasRoom = true := by
  simp [isReachable, and_assoc]

theorem hear_of_isReachable (h : p.isReachable = true) {scheme : Scheme} {bytes : Bytes}
    (hscheme : p.scheme = some scheme)
    (hencode : scheme.encode (.text (Utf8.encode text)) = .ok bytes) :
    (Registry.hear text p).1 = p.push (.encoded bytes) := by
  have hhears := Registry.hears_hear text p
  rw [Registry.hear_snd, h] at hhears
  generalize (Registry.hear text p).1 = after at hhears
  cases hhears with
  | reached _ _ _ hsame _ hframed =>
      obtain rfl := Option.some.inj (hsame.symm.trans hscheme)
      obtain rfl := Except.ok.inj (hframed.symm.trans hencode)
      rfl

end Peer

namespace Registry

variable {r : Registry} {id : ConnectionId} {p : Peer} {text : String}

theorem send_of_isReachable (hentry : r.peer? id = some p) (h : p.isReachable = true) :
    (r.send id (.text text)).1.isOk = true ∧
      (r.send id (.text text)).2.peer? id = some (p.push (.text text)) := by
  obtain ⟨hlisted, hlive, hphase, -, hroom⟩ := Peer.isReachable_iff.mp h
  have hfound : r.listed? id = some p := by rw [listed?, hentry, Option.filter_some, if_pos hlisted]
  have hdeliver : p.deliver (.text text) = (true, p.push (.text text)) := by
    rw [Peer.deliver, if_pos hroom]
  simp [send, hfound, hlive, hphase, hdeliver, peer?_update, hentry, Except.isOk, Except.toBool]

end Registry

namespace Task

variable {t : Task} {scheme : Scheme} {text : String} {bytes : Bytes}

/-- From the time when its connection has opened, a task makes the same of a text and of its
frame. -/
theorem put_alike (hopened : .established ≤ t.connection.phase)
    (htuned : t.connection.phase = .established → t.connection.Tuned)
    (hscheme : t.connection.scheme = some scheme)
    (hencode : scheme.encode (.text (Utf8.encode text)) = .ok bytes) :
    t.put (.text text) = t.put (.encoded bytes) ∧
      (t.connection.phase = .established →
        t.put (.text text) = { t with connection := t.connection.write bytes }) := by
  rcases t.connection.unopened_open_or_silent with hunopened | hphase | hsilent
  · exact absurd hopened (Phase.not_opened hunopened)
  · obtain ⟨codec, hcodec, hsame⟩ := htuned hphase
    obtain rfl := Option.some.inj (hsame.symm.trans hscheme)
    obtain ⟨htext, hencoded⟩ := Connection.sends_alike hphase hcodec hencode
    have hput : t.put (.text text) = { t with connection := t.connection.write bytes } := by
      rw [put, htext]
      rfl
    refine ⟨?_, fun _ => hput⟩
    rw [hput, put, hencoded]
    rfl
  · rw [put_of_silent hsilent, put_of_silent hsilent]
    refine ⟨rfl, fun hphase => ?_⟩
    rcases hsilent with hsilent | hsilent <;> simp [hphase] at hsilent

end Task

namespace Server

variable {options : Options} {application : Application} {s : Server} {id : ConnectionId}
  {t : Task} {p : Peer} {steps : List (Application × Action)}

theorem linked_runWith (hrun : (new options application).runWith steps = some s)
    (htask : s.task? id = some t) (hentry : s.registry.peer? id = some p) :
    ∃ log, Linked p t.connection log := by
  have htracks := tracks_runWith (tracks_new options application id) hrun
  rw [Tracks, htask, hentry] at htracks
  generalize (new options application).history id ⟨[], []⟩ steps = log at htracks
  cases htracks with
  | known hlinked => exact ⟨log, hlinked⟩

theorem opened_of_isReachable {log : Log} (h : Linked p t.connection log)
    (hreachable : p.isReachable = true) :
    .established ≤ t.connection.phase ∧ t.connection.scheme = p.scheme := by
  obtain ⟨-, -, hphase, hsome, -⟩ := Peer.isReachable_iff.mp hreachable
  obtain ⟨scheme, hscheme⟩ := Option.isSome_iff_exists.mp hsome
  refine ⟨?_, (h.scheme scheme hscheme).trans hscheme.symm⟩
  rcases Phase.unopened_or_opened t.connection.phase with hunopened | hopened
  · obtain ⟨-, -, hother, -⟩ := h.unopened hunopened
    exact absurd hphase hother
  · exact hopened

/-- **To send a text and to send its frame is the same.** Every text can be framed in every scheme.
A connection that is open, whatever it has been through and whatever waits for the network, has a
scheme, and takes the text as well as the frame of the text in that scheme; both times the frame is
put behind what waits, and nothing else changes. At a server, a text that is sent to one connection
and a text that is broadcast end up behind the same messages in its queue, and at any later time the
task of the connection makes the same of both: the same bytes for the network, or nothing once the
connection sends no more. -/
theorem sent_and_broadcast_alike (text : String) :
    (∀ scheme : Scheme, ∃ bytes, scheme.encode (.text (Utf8.encode text)) = .ok bytes) ∧
    (∀ (options : Options) (calls : List Operation),
      let c := ((Ledger.new options).run calls).connection
      c.phase = .established → ∃ scheme bytes, c.scheme = some scheme ∧
        scheme.encode (.text (Utf8.encode text)) = .ok bytes ∧
        ∀ prior : Bytes,
          ({ c with outbound := prior } : Connection).sendText text =
            .ok { c with outbound := prior ++ bytes } ∧
          ({ c with outbound := prior } : Connection).sendEncoded bytes =
            .ok { c with outbound := prior ++ bytes }) ∧
    ∀ (options : Options) (application : Application) (steps : List (Application × Action))
      (s : Server) (id : ConnectionId) (t : Task) (p : Peer),
      (new options application).runWith steps = some s → s.task? id = some t →
      s.registry.peer? id = some p → p.isReachable = true →
      ∃ scheme bytes, p.scheme = some scheme ∧
        scheme.encode (.text (Utf8.encode text)) = .ok bytes ∧
        (s.registry.send id (.text text)).1.isOk = true ∧
        (s.registry.send id (.text text)).2.peer? id = some (p.push (.text text)) ∧
        (s.registry.broadcast text).2.peer? id = some (p.push (.encoded bytes)) ∧
        ∀ (later : List (Application × Action)) (s' : Server) (t' : Task),
          s.runWith later = some s' → s'.task? id = some t' →
          t'.put (.text text) = t'.put (.encoded bytes) ∧
          (t'.connection.phase = .established →
            t'.put (.text text) = { t' with connection := t'.connection.write bytes }) := by
  refine ⟨fun scheme => scheme.exists_encode_text text, ?_, ?_⟩
  · intro options calls c hphase
    have hcoherent : c.Coherent options :=
      Ledger.coherent_run (Connection.coherent_new options) calls
    obtain ⟨scheme, hscheme⟩ := Option.isSome_iff_exists.mp (hcoherent.framed (.inl hphase))
    obtain ⟨bytes, hencode⟩ := scheme.exists_encode_text text
    refine ⟨scheme, bytes, hscheme, hencode, fun prior => ?_⟩
    refine Connection.sends_alike (c := { c with outbound := prior }) hphase
      (hcoherent.codec_of_scheme hscheme) ?_
    rwa [Codec.scheme_new]
  · intro options application steps s id t p hrun htask hentry hreachable
    obtain ⟨log, hlinked⟩ := linked_runWith hrun htask hentry
    obtain ⟨hopened, hsame⟩ := opened_of_isReachable hlinked hreachable
    obtain ⟨-, -, -, hsome, -⟩ := Peer.isReachable_iff.mp hreachable
    obtain ⟨scheme, hscheme⟩ := Option.isSome_iff_exists.mp hsome
    obtain ⟨bytes, hencode⟩ := scheme.exists_encode_text text
    obtain ⟨hok, hsent⟩ := Registry.send_of_isReachable hentry hreachable
    refine ⟨scheme, bytes, hscheme, hencode, hok, hsent, ?_, ?_⟩
    · rw [Registry.peer?_broadcast, hentry, Option.map_some,
        Peer.hear_of_isReachable hreachable hscheme hencode]
    · intro later s' t' hlater htask'
      have hknown := known_run (known_new options application id) hrun
      obtain ⟨t₁, htask₁, hreaches⟩ := reaches_run hknown htask hlater
      obtain rfl := Option.some.inj (htask₁.symm.trans htask')
      have hsteady := hreaches.steady
      refine Task.put_alike (hopened.trans hsteady.phase) (fun hphase => ?_) ?_ hencode
      · have hagreed := hlinked.agreed (le_antisymm (hsteady.phase.trans hphase.le) hopened)
        exact hagreed.of_keeps (hsteady.settled (.inr hopened))
      · rw [hsteady.scheme (.inr hopened), hsame, hscheme]

theorem greeting_is_sent_alike :
    ∃ s t, (new .standard .silent).runWith greeting = some s ∧ s.task? ⟨1⟩ = some t ∧
      t.connection.phase = .established ∧
      t.put (.text "Hi") = { t with connection := t.connection.write [0x81, 0x02, 0x48, 0x69] } ∧
      t.put (.text "Hi") = t.put (.encoded [0x81, 0x02, 0x48, 0x69]) := by
  have hrun : ((new .standard .silent).runWith greeting).any (fun s =>
      (s.task? ⟨1⟩).any fun t => (s.registry.peer? ⟨1⟩).any fun p =>
        t.connection.phase = .established ∧ p.isReachable = true ∧ p.scheme = some .rfc6455) =
      true := by
    decide +kernel
  have hframe : Scheme.rfc6455.encode (.text (Utf8.encode "Hi")) =
      .ok [0x81, 0x02, 0x48, 0x69] := by
    rfl
  obtain ⟨s, hsteps, htasks⟩ := (Option.any_eq_true ..).mp hrun
  obtain ⟨t, htask, hpeers⟩ := (Option.any_eq_true ..).mp htasks
  obtain ⟨p, hentry, hfacts⟩ := (Option.any_eq_true ..).mp hpeers
  obtain ⟨hphase, hreachable, hscheme⟩ := of_decide_eq_true hfacts
  obtain ⟨-, -, hserver⟩ := sent_and_broadcast_alike "Hi"
  obtain ⟨scheme, bytes, hsame, hencode, -, -, -, hlater⟩ :=
    hserver _ _ _ s ⟨1⟩ t p hsteps htask hentry hreachable
  obtain rfl := Option.some.inj (hsame.symm.trans hscheme)
  obtain rfl := Except.ok.inj (hencode.symm.trans hframe)
  obtain ⟨halike, hput⟩ := hlater [] s t rfl htask
  exact ⟨s, t, hsteps, htask, hphase, hput hphase, halike⟩

end Server

end WebSocket

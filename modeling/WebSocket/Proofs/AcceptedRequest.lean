import WebSocket.Proofs.ResponseLines
import WebSocket.Proofs.SchemeAgreement
import WebSocket.Proofs.Splitting

/-!
What becomes of a request that the negotiator accepts, on a new connection that gets it in any
chunks. Two limits have to agree for that: how long a head may be, and how many bytes may wait to be
understood. They do for a head; the eight bytes behind the head of an older request are counted by
the second alone.
-/

namespace WebSocket

open Handshake (Upgrade challengeSize)

namespace Handshake.Negotiator

theorem consumed_le_maxHead_add {negotiator : Negotiator} {raw : Bytes} {u : Upgrade}
    (h : negotiator.negotiate raw = .accepted u) :
    u.consumed ≤ negotiator.maxHead + challengeSize u.scheme := by
  obtain ⟨request, response, hparse, -, rfl⟩ := exists_request_of_accepted h
  obtain ⟨rest, hreads⟩ := reads_of_parse hparse
  have hshort := hreads.short
  have hchallenge := hreads.challenge
  simp only [Request.size]
  omega

end Handshake.Negotiator

namespace Handshake

/-! ## An older request with any request line -/

def olderKeys : Bytes :=
  Utf8.encode "Sec-WebSocket-Key1: 4 2\r\nSec-WebSocket-Key2: 1 2"

def olderHead (line : Bytes) : Bytes :=
  line ++ (lineEnd ++ olderKeys)

def olderChallenge : Bytes :=
  Utf8.encode "12345678"

/-- A request line ends where it ends. -/
def IsLine (line : Bytes) : Prop :=
  (0x0D : UInt8) ∉ line ∧ (0x0A : UInt8) ∉ line

variable {line : Bytes}

theorem headerValue?_olderHead (h : IsLine line) (name : Bytes) :
    headerValue? (olderHead line) name =
      (splitWhere (· == 0x0A) olderKeys).findSome? (valueIn? name) := by
  have hnone : Bytes.find? headEnd (olderHead line) = none := by
    have hkeys : Bytes.find? headEnd (lineEnd ++ olderKeys) = none := by decide +kernel
    change Bytes.find? (0x0D :: [0x0A, 0x0D, 0x0A]) (line ++ (lineEnd ++ olderKeys)) = none
    rw [Bytes.find?_append_of_not_mem h.1]
    exact congrArg (Option.map (line.length + ·)) hkeys
  have hlines : headerLines (olderHead line) = splitWhere (· == 0x0A) olderKeys := by
    have hfront : ∀ b ∈ line ++ [0x0D], (b == (0x0A : UInt8)) = false := by
      intro b hb
      rcases List.mem_append.mp hb with hb | hb
      · simp only [beq_eq_false_iff_ne]
        rintro rfl
        exact h.2 hb
      · rw [List.mem_singleton.mp hb]
        rfl
    have hcut : olderHead line = (line ++ [0x0D]) ++ 0x0A :: olderKeys := by
      simp [olderHead, lineEnd]
    rw [headerLines, hcut, splitWhere_append hfront rfl, List.drop_one, List.tail_cons]
  unfold headerValue? headOf
  simp only [hnone, hlines]

/-- A request with the given request line, in the older scheme. -/
def olderRequestWith (line : Bytes) : Bytes :=
  olderHead line ++ headEnd ++ olderChallenge

theorem length_olderChallenge : olderChallenge.length = challengeLength := by
  decide +kernel

theorem reads_olderRequestWith {negotiator : Negotiator} (hlegacy : negotiator.allowLegacy = true)
    (hline : IsLine line)
    (hshort : (olderHead line).length + headEnd.length ≤ negotiator.maxHead) :
    negotiator.Reads (olderRequestWith line) ⟨olderHead line, .legacy, olderChallenge⟩ [] where
  raw_eq := by simp [olderRequestWith]
  first := by
    have hrest : Bytes.find? headEnd (lineEnd ++ olderKeys ++ headEnd ++ olderChallenge) =
        some (lineEnd ++ olderKeys).length := by decide +kernel
    have hrequest : olderRequestWith line =
        line ++ (lineEnd ++ olderKeys ++ headEnd ++ olderChallenge) := by
      simp [olderRequestWith, olderHead]
    rw [hrequest]
    change Bytes.find? (0x0D :: [0x0A, 0x0D, 0x0A]) _ = _
    rw [Bytes.find?_append_of_not_mem hline.1]
    change (Bytes.find? headEnd _).map _ = _
    rw [hrest, Option.map_some, ← List.length_append]
    rfl
  short := hshort
  scheme := by
    have hkeys : detectScheme true (olderHead []) = .ok .legacy := by decide +kernel
    rw [hlegacy, ← hkeys]
    have hempty : IsLine [] := ⟨by simp, by simp⟩
    simp only [detectScheme, headerValue?_olderHead hline, headerValue?_olderHead hempty]
  challenge := length_olderChallenge

theorem accepted_olderRequestWith (negotiator : Negotiator)
    (hlegacy : negotiator.allowLegacy = true) (hline : IsLine line)
    (hshort : (olderHead line).length + headEnd.length ≤ negotiator.maxHead) :
    ∃ u, negotiator.negotiate (olderRequestWith line) = .accepted u ∧ u.scheme = .legacy ∧
      u.consumed = (olderRequestWith line).length := by
  have hparse := Negotiator.parse_of_reads (reads_olderRequestWith hlegacy hline hshort)
  have hempty : IsLine [] := ⟨by simp, by simp⟩
  have hhost : headerValue? (olderHead line) (Utf8.encode "Host") = none := by
    rw [headerValue?_olderHead hline]
    decide +kernel
  have hhost' : headerValue? (olderHead []) (Utf8.encode "Host") = none := by
    decide +kernel
  have hsame : respond ⟨olderHead line, .legacy, olderChallenge⟩ =
      respond ⟨olderHead [], .legacy, olderChallenge⟩ := by
    simp only [respond, respondLegacy, originLine, locationLine, Request.header?, hhost, hhost',
      headerValue?_olderHead hline, headerValue?_olderHead hempty]
  have hanswer : (respond ⟨olderHead [], .legacy, olderChallenge⟩).isOk = true := by
    decide +kernel
  cases hresponse : respond ⟨olderHead [], .legacy, olderChallenge⟩ with
  | error e => simp [hresponse, Except.isOk, Except.toBool] at hanswer
  | ok response =>
      let request : Request := ⟨olderHead line, .legacy, olderChallenge⟩
      refine ⟨⟨response, .legacy, request.size⟩, ?_, rfl, ?_⟩
      · simp only [Negotiator.negotiate, hparse, hsame, hresponse, request]
      · simp only [request, Request.size, olderRequestWith, List.length_append]

end Handshake

namespace Connection

variable {options : Options} {raw : Bytes} {u : Upgrade}

theorem same_of_sealed_eq {c d : Connection} (h : c.sealed = d.sealed) :
    c.scheme = d.scheme ∧ c.pending = d.pending ∧ c.outbound = d.outbound := by
  have hsame : ∀ c : Connection, c.sealed.scheme = c.scheme ∧ c.sealed.pending = c.pending ∧
      c.sealed.outbound = c.outbound := by
    intro c
    unfold sealed
    split <;> exact ⟨rfl, rfl, rfl⟩
  obtain ⟨hscheme, hpending, houtbound⟩ := hsame c
  obtain ⟨hscheme', hpending', houtbound'⟩ := hsame d
  rw [← hscheme, ← hpending, ← houtbound, h]
  exact ⟨hscheme', hpending', houtbound'⟩

theorem same_accept (c : Connection) : c.accept.scheme = c.scheme ∧
    c.accept.pending = c.pending ∧ c.accept.outbound = c.outbound := by
  unfold accept
  split <;> exact ⟨rfl, rfl, rfl⟩

/-- Whatever stands behind a request that fits into the buffer, the connection opens first. -/
theorem opens_of_accepted (haccepted : options.negotiator.negotiate raw = .accepted u)
    (hfits : u.consumed ≤ options.readLimit) :
    let d := ((new options).accept.intake raw).ended
    d.scheme = some u.scheme ∧ [.opened] <+: d.pending ∧ u.response <+: d.outbound := by
  intro d
  have hlength : (raw.take u.consumed).length = u.consumed := by
    have hinside := Handshake.Negotiator.consumed_le_of_accepted haccepted
    rw [List.length_take, Nat.min_eq_left hinside]
  have hrequest := (intake_accepted (Handshake.Negotiator.negotiate_take_consumed haccepted)
    hlength.symm (hlength.trans_le hfits)).1
  have hsealed := intake_append (new options).accept (raw.take u.consumed) (raw.drop u.consumed)
  rw [List.take_append_drop, hrequest] at hsealed
  change _ = (((new options).accept.upgrade u).intake (raw.drop u.consumed)).sealed at hsealed
  obtain ⟨hscheme, hpending, houtbound⟩ := same_of_sealed_eq (ended_sealed_congr hsealed)
  change d.scheme = _ at hscheme
  change d.pending = _ at hpending
  change d.outbound = _ at houtbound
  refine ⟨hscheme.trans ?_, ?_⟩
  · exact (steady_intake _ _).scheme (.inr (le_refl Phase.established))
  · -- The event and the answer are queued before anything else is looked at.
    let bare : Connection := { (new options).accept.upgrade u with pending := [], outbound := [] }
    have hbare : (new options).accept.upgrade u = bare.around [.opened] u.response [] := by
      simp [bare, upgrade, around, write, accept, new, Accumulator.empty, Accumulator.removeRange]
    rw [hpending, houtbound, hbare, intake_around, Processed.ended_map_around]
    exact ⟨List.prefix_append .., List.prefix_append ..⟩

/-- A request that does not fit into the buffer is refused when the buffer is full. -/
theorem refused_of_accepted (haccepted : options.negotiator.negotiate raw = .accepted u)
    (hlong : options.readLimit < u.consumed) :
    (new options).accept.intake raw = .failed .readBufferFull
      (((new options).accept.around [] [] (raw.take options.readLimit)).write
        Handshake.refusal) := by
  have hinside := Handshake.Negotiator.consumed_le_of_accepted haccepted
  have hlimit : 0 < options.readLimit :=
    (by decide : 0 < Handshake.defaultMaxHead).trans_le (le_max_right _ _)
  have hraw : raw ≠ [] := Handshake.ne_nil_of_accepted haccepted
  have hroom : (new options).accept.buffer.room = options.readLimit := by
    simp [new, accept, Accumulator.empty, Accumulator.room, Accumulator.size]
  let filled := (new options).accept.around [] [] (raw.take options.readLimit)
  have hround : filled.round = .waiting := by
    have hnegotiate : filled.options.negotiator.negotiate filled.buffer.contents = .incomplete :=
      Handshake.Negotiator.negotiate_take_of_lt haccepted hlong
    unfold round
    simp only [hnegotiate]
    rfl
  have hfull : filled.buffer.room = 0 := by
    have hsize : filled.buffer.size = options.readLimit := by
      change (raw.take options.readLimit).length = options.readLimit
      rw [List.length_take, Nat.min_eq_left (by omega)]
    change options.readLimit - filled.buffer.size = 0
    omega
  have hrest : raw.drop options.readLimit ≠ [] := by
    rw [ne_eq, List.drop_eq_nil_iff]
    omega
  have hopen : (new options).accept.phase ≠ .closed := by simp [accept, new]
  have hopen' : filled.phase ≠ .closed := hopen
  rw [intake, dif_neg hraw, if_neg hopen, dif_neg (by omega), hroom, process_of_round hround]
  change filled.intake (raw.drop options.readLimit) = _
  rw [intake, dif_neg hrest, if_neg hopen', dif_pos hfull]
  rfl

end Connection

namespace Ledger

open Connection Handshake

theorem pending_of_feeds {l : Ledger} {data : Bytes} {calls : List Operation}
    (hfeeds : Feeds data calls) (h : l.failure = none → l.connection.pending = [])
    (hunfailed : (l.run calls).failure = none) : (l.run calls).connection.pending = [] := by
  induction hfeeds generalizing l with
  | nil => exact h hunfailed
  | accept hfeeds ih =>
      refine ih (fun hnone => ?_) hunfailed
      rw [Ledger.call, (same_accept _).2.1]
      exact h hnone
  | receive chunk hfeeds ih =>
      refine ih (fun hnone => ?_) hunfailed
      simp only [Ledger.call, receive, absorb_eq_conclude] at hnone ⊢
      cases hintake : l.connection.accept.intake chunk with
      | waiting after => rfl
      | failed | abandoned =>
          simp [hintake, Processed.conclude, Received.failure?] at hnone
  | finish hfeeds ih =>
      refine ih (fun hnone => ?_) hunfailed
      simp only [Ledger.call, pending_finish]
      exact h hnone
  | takeOutbound hfeeds ih =>
      refine ih (fun hnone => ?_) hunfailed
      simp only [Ledger.call, takeOutbound] at hnone ⊢
      split <;> exact h hnone

theorem shown_of_feeds (options : Options) {data : Bytes} {calls : List Operation}
    (hfeeds : Feeds data calls) (hnever : .finish ∉ calls) :
    let l := (new options).run calls
    let p := (Connection.new options).accept.intake data
    l.failure = p.failure? ∧ l.connection.scheme = p.ended.scheme ∧
      l.events ++ l.connection.pending = p.ended.pending ∧ l.written = p.ended.outbound ∧
      (l.call .onDisconnect).events = p.ended.pending ++ p.ended.farewell := by
  intro l p
  have hagrees : l.Agrees p := (follows_feeds False options hfeeds hnever).resolve_right (·.1)
  obtain ⟨hscheme, hpending, houtbound⟩ := same_of_sealed_eq hagrees.state
  obtain ⟨hscheme', hpending', houtbound'⟩ := same_accept l.whole
  have hfollows : l.Follows False p := .inl hagrees
  have htold := congrArg Prod.fst (outcome_eq_account l)
  rw [account_of_follows hfollows] at htold
  exact ⟨hagrees.failure, hscheme'.symm.trans hscheme, hpending'.symm.trans hpending,
    houtbound'.symm.trans houtbound, htold⟩

/-- **A request that the negotiator accepts opens the connection**, however it is cut, if the buffer
has room for all of it. For the head of a request there always is; only of the challenge behind the
head of an older one the last bytes can be too many, and then the request is refused. -/
theorem accepted_request_opens (options : Options) {raw : Bytes} {u : Upgrade}
    (haccepted : options.negotiator.negotiate raw = .accepted u) {calls : List Operation}
    (hfeeds : Feeds raw calls) (hnever : .finish ∉ calls) :
    let l := (new options).run calls
    let told := (l.call .onDisconnect).events
    u.consumed ≤ options.readLimit + challengeSize u.scheme ∧
      (u.consumed ≤ options.readLimit →
        l.connection.scheme = some u.scheme ∧ [.opened] <+: told ∧
          (l.failure = none → [.opened] <+: l.events) ∧ u.response <+: l.written) ∧
      (options.readLimit < u.consumed →
        l.connection.scheme = none ∧ told = [] ∧ l.failure = some (.failed .readBufferFull) ∧
          l.written = Handshake.refusal) := by
  intro l told
  obtain ⟨hfailure, hscheme, hpending, hwritten, htold⟩ := shown_of_feeds options hfeeds hnever
  change told = _ at htold
  refine ⟨?_, ?_, ?_⟩
  · have hshort := Handshake.Negotiator.consumed_le_maxHead_add haccepted
    have hlimit : options.maxHandshake ≤ options.readLimit :=
      (le_max_right _ _).trans (le_max_left _ _)
    change u.consumed ≤ options.maxHandshake + challengeSize u.scheme at hshort
    omega
  · intro hfits
    obtain ⟨hagreed, hopened, hresponse⟩ := opens_of_accepted haccepted hfits
    refine ⟨hscheme.trans hagreed, ?_, ?_, hwritten ▸ hresponse⟩
    · rw [htold]
      exact hopened.trans (List.prefix_append ..)
    · intro hunfailed
      have hnothing := pending_of_feeds hfeeds (fun _ => rfl) hunfailed
      rwa [← hpending, hnothing, List.append_nil] at hopened
  · intro hlong
    have hrefused := refused_of_accepted haccepted hlong
    rw [hrefused] at hfailure hscheme hwritten htold
    exact ⟨hscheme, htold, hfailure, hwritten⟩

theorem older_request_opens :
    let line := Utf8.encode "GET / HTTP/1.1"
    let calls := [.receive (olderHead line ++ headEnd), .takeOutbound, .receive olderChallenge]
    ∃ u, Options.standard.negotiator.negotiate (olderRequestWith line) = .accepted u ∧
      Feeds (olderRequestWith line) calls ∧ .finish ∉ calls ∧
      ((new .standard).run calls).connection.scheme = some .legacy ∧
      [.opened] <+: (((new .standard).run calls).call .onDisconnect).events ∧
      u.response <+: ((new .standard).run calls).written := by
  intro line calls
  have hline : IsLine line := ⟨by decide +kernel, by decide +kernel⟩
  obtain ⟨u, haccepted, hscheme, hconsumed⟩ :=
    accepted_olderRequestWith Options.standard.negotiator rfl hline (by decide +kernel)
  have hfeeds : Feeds (olderRequestWith line) calls :=
    .receive (olderHead line ++ headEnd) (.takeOutbound (.receive olderChallenge .nil))
  have hfits : u.consumed ≤ Options.standard.readLimit := by
    rw [hconsumed]
    decide +kernel
  obtain ⟨hagreed, htold, -, hwritten⟩ :=
    (accepted_request_opens .standard haccepted hfeeds (by decide)).2.1 hfits
  exact ⟨u, haccepted, hfeeds, by decide, hagreed.trans (congrArg some hscheme), htold, hwritten⟩

/-- The settings of a server that takes only empty frames. -/
def emptyFrames : Options :=
  { Options.standard with maxPayload := 0 }

/-- An older request whose head is as long as a head may be is accepted, but its challenge does not
fit into the buffer any more. -/
theorem longest_older_request_is_refused : ∃ (options : Options) (raw : Bytes) (u : Upgrade),
    options.negotiator.negotiate raw = .accepted u ∧ u.consumed = raw.length ∧
      ((new options).run [.receive raw]).failure = some (.failed .readBufferFull) ∧
      ((new options).run [.receive raw]).connection.scheme = none ∧
      ((new options).run [.receive raw]).written = Handshake.refusal := by
  let line := Utf8.encode "GET /" ++ (List.replicate 8124 0x61 ++ Utf8.encode " HTTP/1.1")
  have hline : IsLine line := by
    simp only [IsLine, line, List.mem_append, List.mem_replicate]
    decide +kernel
  have hhead : (olderHead line).length + headEnd.length = 8192 := by
    simp only [line, olderHead, List.length_append, List.length_replicate]
    decide +kernel
  obtain ⟨u, haccepted, -, hconsumed⟩ :=
    accepted_olderRequestWith emptyFrames.negotiator rfl hline hhead.le
  have hlong : emptyFrames.readLimit < u.consumed := by
    have hlimit : emptyFrames.readLimit = 8192 := by decide
    rw [hconsumed, hlimit, olderRequestWith, List.length_append, List.length_append, hhead]
    decide +kernel
  have hfeeds : Feeds (olderRequestWith line) [.receive (olderRequestWith line)] := by
    simpa using feeds_map_receive [olderRequestWith line]
  obtain ⟨hfailure, hscheme, -, hwritten, -⟩ := shown_of_feeds emptyFrames hfeeds (by simp)
  rw [refused_of_accepted haccepted hlong] at hfailure hscheme hwritten
  exact ⟨emptyFrames, _, u, haccepted, hconsumed, hfailure, hscheme, hwritten⟩

end Ledger

end WebSocket

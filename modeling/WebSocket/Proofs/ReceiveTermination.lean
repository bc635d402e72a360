import Mathlib.Logic.Function.Iterate
import WebSocket.Proofs.ReplyLength

/-!
Receiving comes to an end. Taking in a chunk is two loops, one in the other: the outer one moves
bytes of the chunk into the buffer, the inner one takes requests and frames from there. Each turn of
either loop is a step of its own here, and how many there can be follows from what each takes away.
-/

namespace WebSocket

theorem Handshake.Negotiator.taken_of_accepted {negotiator : Negotiator} {raw : Bytes}
    {u : Upgrade} (h : negotiator.negotiate raw = .accepted u) :
    ∃ taken, raw = taken ++ raw.drop u.consumed ∧ headEnd <:+: taken := by
  obtain ⟨request, response, hparse, -, rfl⟩ := exists_request_of_accepted h
  obtain ⟨rest, hreads⟩ := reads_of_parse hparse
  have hdrop : raw.drop request.size = rest := by
    rw [hreads.raw_eq]
    exact List.drop_left' (by simp only [List.length_append, Request.size])
  refine ⟨request.head ++ headEnd ++ request.challenge, ?_, request.head, request.challenge, rfl⟩
  rw [hdrop]
  exact hreads.raw_eq

namespace Connection

/-- Where a connection stands while it takes in a chunk. -/
inductive Work where
  /-- At the head of the outer loop, with `rest` of the chunk still to be moved into the buffer. -/
  | filling (connection : Connection) (rest : Bytes)
  /-- At the head of the inner loop, which acts on what is buffered. -/
  | acting (connection : Connection) (rest : Bytes)
  /-- Both loops have been left, with this answer. -/
  | ended (answer : Received × Connection)

namespace Work

/-- One turn of the loop at whose head the connection stands, or the way out of it. -/
def next : Work → Work
  | .filling c rest =>
    if rest = [] ∨ c.phase = .closed then .ended c.takePending
    else if c.buffer.room = 0 then .ended (.failed .readBufferFull, c.overflow)
    else
      match c.buffer.append (rest.take c.buffer.room) with
      | .error e => .ended (.failed e, c.fail e)
      | .ok buffer => .acting { c with buffer := buffer } (rest.drop c.buffer.room)
  | .acting c rest =>
    match c.round with
    | .waiting => .filling c rest
    | .progress (.going after) => .acting after rest
    | .progress (.failed e after) => .ended (.failed e, after.fail e)
    | .refused e after => .ended (.failed e, after.fail e)
    | .abandoned => .ended (.abandoned, { c with phase := .closed })
  | .ended answer => .ended answer

def connection : Work → Connection
  | .filling c _ => c
  | .acting c _ => c
  | .ended answer => answer.2

/-- The part of the chunk that has not been moved into the buffer yet. -/
def rest : Work → Bytes
  | .filling _ rest => rest
  | .acting _ rest => rest
  | .ended _ => []

/-- What the work comes to when it is carried through. -/
def outcome : Work → Received × Connection
  | .filling c rest => (c.intake rest).conclude
  | .acting c rest => (c.process.andThen (intake · rest)).conclude
  | .ended answer => answer

/-- What a turn of either loop does. Each that does not leave the loops takes something away: the
outer loop takes bytes from the chunk, the inner one a request or a frame from the buffer. -/
inductive Turn : Work → Work → Prop where
  | fill {c : Connection} {chunk rest : Bytes} (hopen : c.phase ≠ .closed) (hchunk : chunk ≠ [])
      (hfits : c.buffer.size + chunk.length ≤ c.buffer.limit) :
      Turn (.filling c (chunk ++ rest)) (.acting (c.around [] [] chunk) rest)
  /-- A request is taken from the buffer, with the blank line at its end. -/
  | upgrade {c after : Connection} {taken rest : Bytes}
      (hround : c.round = .progress (.going after)) (hphase : c.phase = .handshaking)
      (hcontents : c.buffer.contents = taken ++ after.buffer.contents)
      (hend : Handshake.headEnd <:+: taken) (hlength : 4 ≤ taken.length) :
      Turn (.acting c rest) (.acting after rest)
  /-- One frame is taken from the buffer, in either framing. -/
  | frame {c after : Connection} {codec : Codec} {f : Frame} {taken rest : Bytes}
      (hround : c.round = .progress (.going after)) (hframed : c.Framed)
      (hcodec : c.codec = some codec)
      (hcontents : c.buffer.contents = taken ++ after.buffer.contents)
      (hdecode : codec.decode taken = .frame f [])
      (hlength : f.payload.length + 2 ≤ taken.length) :
      Turn (.acting c rest) (.acting after rest)
  | wait {c : Connection} {rest : Bytes} (hround : c.round = .waiting) :
      Turn (.acting c rest) (.filling c rest)
  | finish {c : Connection} {rest : Bytes} (hdone : rest = [] ∨ c.phase = .closed) :
      Turn (.filling c rest) (.ended c.takePending)
  | overflow {c : Connection} {rest : Bytes} (hopen : c.phase ≠ .closed)
      (hroom : c.buffer.room = 0) :
      Turn (.filling c rest) (.ended (.failed .readBufferFull, c.overflow))
  | fail {c after : Connection} {e : Error} {rest : Bytes}
      (hround : c.round = .progress (.failed e after) ∨ c.round = .refused e after) :
      Turn (.acting c rest) (.ended (.failed e, after.fail e))
  | abandon {c : Connection} {rest : Bytes} (hround : c.round = .abandoned) :
      Turn (.acting c rest) (.ended (.abandoned, { c with phase := .closed }))
  | stay {answer : Received × Connection} : Turn (.ended answer) (.ended answer)

variable {c after : Connection} {w w' : Work}

/-! ## One turn -/

theorem turn_of_going (hround : c.round = .progress (.going after)) (rest : Bytes) :
    Turn (.acting c rest) (.acting after rest) := by
  have hrounded := rounded c
  rw [hround] at hrounded
  cases hrounded with
  | upgraded hphase hnegotiate =>
      obtain ⟨taken, hcontents, hend⟩ := Handshake.Negotiator.taken_of_accepted hnegotiate
      refine .upgrade hround hphase (hcontents.trans ?_) hend hend.length_le
      simp only [Connection.upgrade, Accumulator.removeRange, List.take_zero, List.nil_append,
        Nat.zero_add]
  | @acted codec f behind _ hframed hcodec hdecode hacted =>
      obtain ⟨taken, hcontents, htaken⟩ := Codec.taken_of_decode hdecode
      have hlength := Codec.length_add_le_of_decode htaken
      rw [List.length_nil, Nat.zero_add] at hlength
      refine .frame hround hframed hcodec (hcontents.trans ?_) htaken hlength
      rw [buffer_of_acted hacted]
      rfl

theorem turn_of_acting (c : Connection) (rest : Bytes) :
    Turn (.acting c rest) (next (.acting c rest)) := by
  simp only [next]
  split
  · exact .wait ‹_›
  · exact turn_of_going ‹_› rest
  · exact .fail (.inl ‹_›)
  · exact .fail (.inr ‹_›)
  · exact .abandon ‹_›

theorem next_filling {rest : Bytes} (hrest : rest ≠ []) (hopen : c.phase ≠ .closed)
    (hroom : c.buffer.room ≠ 0) :
    next (.filling c rest) =
      .acting (c.around [] [] (rest.take c.buffer.room)) (rest.drop c.buffer.room) := by
  have happend := Accumulator.append_of_le_room hroom (List.length_take_le c.buffer.room rest)
  simp only [next, hrest, hopen, or_self, if_false, hroom, happend]
  rfl

theorem turn_of_filling (c : Connection) (rest : Bytes) :
    Turn (.filling c rest) (next (.filling c rest)) := by
  by_cases hdone : rest = [] ∨ c.phase = .closed
  · simp only [next, if_pos hdone]
    exact .finish hdone
  obtain ⟨hrest, hopen⟩ := not_or.mp hdone
  by_cases hroom : c.buffer.room = 0
  · simp only [next, if_neg hdone, if_pos hroom]
    exact .overflow hopen hroom
  rw [next_filling hrest hopen hroom]
  have hfits : c.buffer.size + (rest.take c.buffer.room).length ≤ c.buffer.limit := by
    rw [List.length_take]
    unfold Accumulator.room at hroom ⊢
    omega
  have hsome : rest.take c.buffer.room ≠ [] := by
    simp [List.take_eq_nil_iff, hroom, hrest]
  have hcut := List.take_append_drop c.buffer.room rest
  have hturn : Turn (.filling c (rest.take c.buffer.room ++ rest.drop c.buffer.room)) _ :=
    .fill hopen hsome hfits
  rwa [hcut] at hturn

/-- The machine does nothing but what a turn may do. -/
theorem turn_next (w : Work) : Turn w w.next := by
  cases w with
  | filling c rest => exact turn_of_filling c rest
  | acting c rest => exact turn_of_acting c rest
  | ended answer => exact .stay

theorem outcome_next (w : Work) : w.next.outcome = w.outcome := by
  cases w with
  | ended answer => rfl
  | acting c rest =>
      simp only [next, outcome, process_eq c]
      cases c.round with
      | waiting => rfl
      | refused e after => rfl
      | abandoned => rfl
      | progress p => cases p <;> rfl
  | filling c rest =>
      by_cases hrest : rest = []
      · simp only [next, outcome, hrest, true_or, if_true, intake_nil]
        rfl
      by_cases hclosed : c.phase = .closed
      · simp only [next, outcome, hclosed, or_true, if_true, intake_of_closed]
        rfl
      by_cases hroom : c.buffer.room = 0
      · simp only [next, outcome, hrest, hclosed, or_self, if_false, hroom, if_true]
        rw [intake, dif_neg hrest, if_neg hclosed, dif_pos hroom]
        rfl
      · rw [next_filling hrest hclosed hroom]
        simp only [outcome]
        rw [intake.eq_1 c rest, dif_neg hrest, if_neg hclosed, dif_neg hroom]

/-- More than the turns that are left. For a byte of the chunk there may be three: it is moved into
the buffer and taken from there, and a last look at the buffer ends the turn that moved it. -/
def size : Work → Nat
  | .filling c rest => c.buffer.size + 3 * rest.length + 1
  | .acting c rest => c.buffer.size + 3 * rest.length + 2
  | .ended _ => 0

theorem Turn.size_le (h : Turn w w') : w'.size ≤ w.size - 1 := by
  cases h with
  | @fill c chunk rest _ hchunk _ =>
      have hpos := List.length_pos_iff.mpr hchunk
      simp only [size, Accumulator.size, around_contents, List.length_append]
      omega
  | upgrade hround _ _ _ _ | frame hround _ _ _ _ _ =>
      have hlt := size_lt_of_round hround
      simp only [size]
      omega
  | wait => simp only [size]; omega
  | finish | overflow | fail | abandon | stay => exact Nat.zero_le _

theorem Turn.coherent {options : Options} (h : Turn w w')
    (hw : w.connection.Coherent options) : w'.connection.Coherent options := by
  cases h with
  | fill _ _ hfits => exact coherent_around hw (Nat.le_sub_of_add_le' hfits)
  | upgrade hround _ _ _ _ | frame hround _ _ _ _ _ => exact coherent_round hw hround
  | wait | stay => exact hw
  | finish => exact coherent_pending hw []
  | overflow hopen hroom =>
      exact coherent_fail (bounded_broken hw.toBounded (.full hopen hroom rfl rfl)) .readBufferFull
  | @fail _ after e _ hround =>
      have hbroken : Broken _ e after := hround.elim .failed .refused
      exact coherent_fail (bounded_broken hw.toBounded hbroken) e
  | abandon => exact coherent_closed hw.toBounded

theorem Turn.length_rest_le (h : Turn w w') : w'.rest.length ≤ w.rest.length := by
  cases h with
  | fill => simp only [Work.rest, List.length_append]; omega
  | upgrade | frame | wait => exact le_rfl
  | finish | overflow | fail | abandon | stay => exact Nat.zero_le _

/-! ## All turns -/

theorem eq_ended_of_size (h : w.size = 0) : w = .ended w.outcome := by
  cases w with
  | filling | acting => simp [size] at h
  | ended answer => rfl

theorem outcome_iterate (w : Work) (n : Nat) : (next^[n] w).outcome = w.outcome :=
  Function.Iterate.rec (fun v => v.outcome = w.outcome) rfl
    (fun v hv => (outcome_next v).trans hv) n

theorem size_iterate (w : Work) (n : Nat) : (next^[n] w).size ≤ w.size - n := by
  induction n with
  | zero => exact le_rfl
  | succ n ih =>
      have hturn := (turn_next (next^[n] w)).size_le
      rw [Function.iterate_succ_apply']
      omega

/-- Work comes to its end within as many turns as there is work. -/
theorem iterate_size (w : Work) : next^[w.size] w = .ended w.outcome := by
  have hsize := size_iterate w w.size
  rw [Nat.sub_self, Nat.le_zero] at hsize
  rw [eq_ended_of_size hsize, outcome_iterate]

theorem coherent_iterate {options : Options} (h : w.connection.Coherent options) (n : Nat) :
    (next^[n] w).connection.Coherent options :=
  Function.Iterate.rec (·.connection.Coherent options) h
    (fun v hv => (turn_next v).coherent hv) n

theorem length_rest_iterate_le (w : Work) (n : Nat) :
    (next^[n] w).rest.length ≤ w.rest.length :=
  Function.Iterate.rec (fun v => v.rest.length ≤ w.rest.length) le_rfl
    (fun v hv => (turn_next v).length_rest_le.trans hv) n

theorem iterate_ended (answer : Received × Connection) (n : Nat) :
    next^[n] (.ended answer) = .ended answer :=
  Function.iterate_fixed rfl n

theorem length_rest_lt {d : Connection} {rest behind : Bytes} {n : Nat} (hn : 0 < n)
    (h : next^[n] (.filling c rest) = .filling d behind) : behind.length < rest.length := by
  obtain ⟨m, rfl⟩ := Nat.exists_eq_add_of_lt hn
  rw [Nat.zero_add, Function.iterate_succ_apply] at h
  have hle := length_rest_iterate_le (next (.filling c rest)) m
  rw [h] at hle
  have hturn := turn_next (.filling c rest)
  generalize next (.filling c rest) = w at h hle hturn
  cases hturn with
  | @fill _ chunk tail _ hchunk _ =>
      have hpos := List.length_pos_iff.mpr hchunk
      simp only [Work.rest, List.length_append] at hle ⊢
      omega
  | finish | overflow => simp [iterate_ended] at h

end Work

/-- **Receiving terminates**, whatever was asked of the connection before and whatever bytes arrive.
Every turn of the inner loop that does not leave it takes a request of four bytes or more or a frame
of two bytes or more from the buffer; between two turns of the outer loop bytes of the chunk have
gone; the buffer is never longer than its limit, so that its room is known at each turn; and after
finitely many turns both loops have been left with what `receive` returns. -/
theorem receive_terminates (options : Options) (calls : List Operation) (data : Bytes) :
    let c := ((Ledger.new options).run calls).connection
    let work n := Work.next^[n] (.filling c.accept data)
    (∀ n, (work n).Turn (work (n + 1)) ∧ (work n).connection.Coherent options) ∧
      (∀ m n, m < n → ∀ c₁ rest₁ c₂ rest₂, work m = .filling c₁ rest₁ →
        work n = .filling c₂ rest₂ → rest₂.length < rest₁.length) ∧
      ∃ n ≤ c.buffer.size + 3 * data.length + 1, work n = .ended (c.receive data) := by
  intro c work
  have hcoherent : c.accept.Coherent options :=
    coherent_accept (Ledger.coherent_run (coherent_new options) calls)
  refine ⟨fun n => ⟨?_, Work.coherent_iterate hcoherent n⟩, ?_, ?_⟩
  · simp only [work, Function.iterate_succ_apply']
    exact Work.turn_next _
  · intro m n hmn c₁ rest₁ c₂ rest₂ hm hn
    obtain ⟨k, rfl⟩ := Nat.exists_eq_add_of_lt hmn
    have hturns : work (m + k + 1) = Work.next^[k + 1] (work m) := by
      rw [Nat.add_assoc, Nat.add_comm]
      exact Function.iterate_add_apply ..
    rw [hm, hn] at hturns
    exact Work.length_rest_lt k.succ_pos hturns.symm
  · have hsize : c.accept.buffer.size = c.buffer.size := by
      unfold accept
      split <;> rfl
    refine ⟨(Work.filling c.accept data).size, ?_, ?_⟩
    · rw [Work.size, hsize]
    · rw [receive_eq_conclude]
      exact Work.iterate_size _

end Connection

end WebSocket

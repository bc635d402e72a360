import WebSocket.Proofs.ConnectionActs
import WebSocket.Proofs.ConnectionIntake

namespace WebSocket

/-- What stands at the front of the buffer of a connection. -/
inductive Item where
  | request (upgrade : Handshake.Upgrade)
  /-- A frame, and the phase in which it is met. -/
  | frame (phase : Phase) (frame : Frame)
  deriving DecidableEq

namespace Connection

/-- The complete request or frame at the front of the buffer. -/
def front? (c : Connection) : Option Item :=
  match c.phase, c.codec with
  | .handshaking, _ =>
    match c.options.negotiator.negotiate c.buffer.contents with
    | .accepted u => some (.request u)
    | _ => none
  | .established, some codec | .closing, some codec =>
    match codec.decode c.buffer.contents with
    | .frame f _ => some (.frame c.phase f)
    | _ => none
  | _, _ => none

/-- What `process` takes from the buffer and acts on without an error. -/
def items (c : Connection) : List Item :=
  match _ : c.round with
  | .progress (.going after) => c.front?.toList ++ after.items
  | _ => []
termination_by c.buffer.size
decreasing_by exact size_lt_of_round (by assumption)

/-- What a connection that takes in `data` takes from its buffer and acts on without an error. -/
def takes (c : Connection) (data : Bytes) : List Item :=
  if _ : data = [] then []
  else if c.phase = .closed then []
  else if _ : c.buffer.room = 0 then []
  else
    let filled := c.around [] [] (data.take c.buffer.room)
    filled.items ++
      match filled.process with
      | .waiting after => after.takes (data.drop c.buffer.room)
      | _ => []
termination_by data.length
decreasing_by
  have := List.length_pos_iff.2 ‹¬data = []›
  simp only [List.length_drop]
  omega

/-- How `c` breaks off with the error `e`, and is `after` then. -/
inductive Broken (c : Connection) (e : Error) (after : Connection) : Prop where
  | refused (hround : c.round = .refused e after)
  | failed (hround : c.round = .progress (.failed e after))
  | full (hopen : c.phase ≠ .closed) (hroom : c.buffer.room = 0) (he : e = .readBufferFull)
      (hafter : after = if c.phase = .handshaking then c.write Handshake.refusal else c)

/-- A property of the connection at which the work stopped. -/
def Processed.StoppedAt (P : Connection → Prop) : Processed → Prop
  | .waiting c => P c
  | .failed e c => ∃ before, P before ∧ before.Broken e c
  | .abandoned c => P c

theorem front?_of_upgraded {c : Connection} {u : Handshake.Upgrade}
    (hphase : c.phase = .handshaking)
    (hnegotiate : c.options.negotiator.negotiate c.buffer.contents = .accepted u) :
    c.front? = some (.request u) := by
  simp [front?, hphase, hnegotiate]

theorem front?_of_frame {c : Connection} {codec : Codec} {f : Frame} {rest : Bytes}
    (hframed : c.Framed) (hcodec : c.codec = some codec)
    (hdecode : codec.decode c.buffer.contents = .frame f rest) :
    c.front? = some (.frame c.phase f) := by
  rcases hframed with hphase | hphase <;> simp [front?, hphase, hcodec, hdecode]

theorem isSome_front? {c after : Connection} (h : c.round = .progress (.going after)) :
    c.front?.isSome = true := by
  have hrounded := rounded c
  rw [h] at hrounded
  cases hrounded with
  | upgraded hphase hnegotiate => rw [front?_of_upgraded hphase hnegotiate]; rfl
  | acted hframed hcodec hdecode hacted => rw [front?_of_frame hframed hcodec hdecode]; rfl

theorem front?_around (events : List Event) (sent : Bytes) (c : Connection) :
    (c.around events sent []).front? = c.front? := by
  simp only [front?, around_phase, around_codec, around_options, around_contents, List.append_nil]

theorem items_eq (c : Connection) :
    c.items = match c.round with
      | .progress (.going after) => c.front?.toList ++ after.items
      | _ => [] := by
  rw [items]
  split <;> simp_all

theorem takes_of_le_room {c : Connection} {data : Bytes} (hdata : data ≠ [])
    (hopen : c.phase ≠ .closed) (h : data.length ≤ c.buffer.room) :
    c.takes data = (c.around [] [] data).items := by
  have hpos := List.length_pos_iff.mpr hdata
  rw [takes, dif_neg hdata, if_neg hopen, dif_neg (by omega), List.take_of_length_le h,
    List.drop_of_length_le h]
  simp only
  split
  · rw [takes, dif_pos rfl, List.append_nil]
  · rw [List.append_nil]

theorem items_around (events : List Event) (sent : Bytes) (c : Connection) :
    (c.around events sent []).items = c.items := by
  have hround := round_around events sent [] c (.inr rfl)
  fun_induction process c with
  | case5 c after hgoing ih =>
      rw [hgoing] at hround
      rw [items_eq, items_eq c, hround, hgoing, front?_around]
      simp only [Round.map, Progress.map]
      rw [ih (round_around events sent [] after (.inr rfl))]
  | case1 c hstop | case2 c e after hstop | case3 c hstop | case4 c e after hstop =>
      rw [hstop] at hround
      rw [items_eq, items_eq c, hround, hstop]
      rfl

theorem takes_around (events : List Event) (sent : Bytes) (c : Connection) (data : Bytes) :
    (c.around events sent []).takes data = c.takes data := by
  induction hn : data.length using Nat.strong_induction_on generalizing c data with
  | h n ih =>
      subst hn
      have hroom : (c.around events sent []).buffer.room = c.buffer.room := by
        simp [Accumulator.room, Accumulator.size]
      have hfilled : ∀ chunk, (c.around events sent []).around [] [] chunk =
          (c.around [] [] chunk).around events sent [] := by
        intro chunk
        simp [around]
      rw [takes, takes]
      simp only [hroom, around_phase, hfilled, process_around_nil, items_around]
      split
      · rfl
      rename_i hdata
      split
      · rfl
      split
      · rfl
      cases (c.around [] [] (data.take c.buffer.room)).process with
      | failed e after => rfl
      | abandoned after => rfl
      | waiting after =>
          have hpos := List.length_pos_iff.mpr hdata
          exact congrArg _ (ih _ (by rw [List.length_drop]; omega) after _ rfl)

/-- The two connections have promised the same to the application and to the network. -/
structure Alike (c d : Connection) : Prop where
  phase : c.phase = d.phase
  scheme : c.scheme = d.scheme
  codec : c.codec = d.codec
  outbound : c.outbound = d.outbound
  pending : c.pending = d.pending
  opened : c.opened = d.opened
  closedReported : c.closedReported = d.closedReported

theorem alike_of_failed {c after : Connection} {f : Frame} {e : Error}
    (h : Acted c f (.failed e after)) : after.Alike c := by
  cases h with
  | single _ _ _ hdelivered => cases hdelivered; constructor <;> rfl
  | completed _ _ _ _ hdelivered => cases hdelivered; constructor <;> rfl
  | _ => constructor <;> rfl

theorem eq_of_broken {c after : Connection} {e : Error} (h : c.Broken e after)
    (hphase : c.phase = .handshaking) : after = c.write Handshake.refusal := by
  cases h with
  | refused hround =>
      have hrounded := rounded c
      rw [hround] at hrounded
      cases hrounded with
      | rejected => rfl
      | refused hframed => rcases hframed with h | h <;> simp [h] at hphase
  | failed hround =>
      have hrounded := rounded c
      rw [hround] at hrounded
      cases hrounded with
      | acted hframed => rcases hframed with h | h <;> simp [h] at hphase
  | full _ _ _ hafter => rw [hafter, if_pos hphase]

theorem alike_of_broken {c after : Connection} {e : Error} (h : c.Broken e after)
    (hphase : c.phase ≠ .handshaking) : after.Alike c := by
  cases h with
  | refused hround =>
      have hrounded := rounded c
      rw [hround] at hrounded
      cases hrounded with
      | rejected hphase' => exact absurd hphase' hphase
      | refused => constructor <;> rfl
  | failed hround =>
      have hrounded := rounded c
      rw [hround] at hrounded
      cases hrounded with
      | acted _ _ _ hacted =>
          obtain ⟨h₁, h₂, h₃, h₄, h₅, h₆, h₇⟩ := alike_of_failed hacted
          exact ⟨h₁, h₂, h₃, h₄, h₅, h₆, h₇⟩
  | full _ _ _ hafter =>
      rw [hafter, if_neg hphase]
      constructor <;> rfl

section

variable {P : Connection → List Item → Prop}

theorem process_stoppedAt
    (hstep : ∀ {c after : Connection} {done : List Item} {item : Item}, P c done →
      c.round = .progress (.going after) → c.front? = some item → P after (done ++ [item]))
    {c : Connection} {done : List Item} (h : P c done) :
    c.process.StoppedAt (P · (done ++ c.items)) := by
  fun_induction process c generalizing done with
  | case1 c hround => simpa [items, hround, Processed.StoppedAt] using h
  | case2 c e after hround =>
      rw [items, hround, List.append_nil]
      exact ⟨c, h, .refused hround⟩
  | case3 c hround => simpa [items, hround, Processed.StoppedAt] using h
  | case4 c e after hround =>
      rw [items, hround, List.append_nil]
      exact ⟨c, h, .failed hround⟩
  | case5 c after hround ih =>
      obtain ⟨item, hitem⟩ := Option.isSome_iff_exists.mp (isSome_front? hround)
      have hitems : c.items = item :: after.items := by
        rw [items]
        split
        · simp_all
        · simp_all
      rw [hitems, List.append_cons]
      exact ih (hstep h hround hitem)

/-- What each step keeps, and bytes that arrive, is kept by everything that is taken in. -/
theorem intake_stoppedAt
    (hgrow : ∀ {c : Connection} {done : List Item} (data : Bytes), P c done →
      P (c.around [] [] data) done)
    (hstep : ∀ {c after : Connection} {done : List Item} {item : Item}, P c done →
      c.round = .progress (.going after) → c.front? = some item → P after (done ++ [item]))
    {c : Connection} (done : List Item) (h : P c done) (data : Bytes) :
    (c.intake data).StoppedAt (P · (done ++ c.takes data)) := by
  induction hn : data.length using Nat.strong_induction_on generalizing c done data with
  | h n ih =>
      subst hn
      rw [intake, takes]
      split
      · simpa [Processed.StoppedAt] using h
      rename_i hdata
      split
      · simpa [Processed.StoppedAt] using h
      rename_i hopen
      split
      · rename_i hroom
        exact ⟨c, by simpa using h, .full hopen hroom rfl rfl⟩
      rename_i hroom
      have hprocess := process_stoppedAt hstep (hgrow (data.take c.buffer.room) h)
      simp only
      cases hresult : (c.around [] [] (data.take c.buffer.room)).process with
      | failed e after => simpa [hresult, Processed.andThen] using hprocess
      | abandoned after => simpa [hresult, Processed.andThen] using hprocess
      | waiting after =>
          rw [hresult] at hprocess
          have hpos := List.length_pos_iff.mpr hdata
          rw [← List.append_assoc]
          exact ih (data.drop c.buffer.room).length (by rw [List.length_drop]; omega) _ hprocess _
            rfl

end

end Connection

end WebSocket

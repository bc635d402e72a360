import WebSocket.Proofs.ConnectionSurroundings

namespace WebSocket

theorem Accumulator.append_of_le_room {buffer : Accumulator} {chunk : Bytes}
    (hroom : buffer.room ≠ 0) (h : chunk.length ≤ buffer.room) :
    buffer.append chunk = .ok { buffer with contents := buffer.contents ++ chunk } := by
  unfold append
  rw [if_neg]
  unfold room at hroom h
  omega

namespace Connection

/-- Takes in bytes as `absorb` does, and leaves the connection as it is then. -/
def intake (c : Connection) (data : Bytes) : Processed :=
  if _ : data = [] then .waiting c
  else if c.phase = .closed then .waiting c
  else if _ : c.buffer.room = 0 then
    .failed .readBufferFull (if c.phase = .handshaking then c.write Handshake.refusal else c)
  else
    (c.around [] [] (data.take c.buffer.room)).process.andThen fun after =>
      after.intake (data.drop c.buffer.room)
termination_by data.length
decreasing_by
  have := List.length_pos_iff.2 ‹¬data = []›
  simp only [List.length_drop]
  omega

/-- What the owner is told, and the connection that it keeps. -/
def Processed.conclude : Processed → Received × Connection
  | .waiting c => c.takePending
  | .failed e c => (.failed e, c.fail e)
  | .abandoned c => (.abandoned, { c with phase := .closed })

theorem absorb_eq_conclude (c : Connection) (data : Bytes) :
    c.absorb data = (c.intake data).conclude := by
  induction hn : data.length using Nat.strong_induction_on generalizing c data with
  | h n ih =>
      subst hn
      rw [absorb, intake]
      split
      · rfl
      rename_i hdata
      split
      · rfl
      split
      · rfl
      rename_i hroom
      rw [Accumulator.append_of_le_room hroom (List.length_take_le _ _)]
      change (match (c.around [] [] (data.take c.buffer.room)).process with
        | .waiting after => after.absorb (data.drop c.buffer.room)
        | .failed e after => (.failed e, after.fail e)
        | .abandoned after => (.abandoned, { after with phase := .closed })) = _
      cases (c.around [] [] (data.take c.buffer.room)).process with
      | failed e after => rfl
      | abandoned after => rfl
      | waiting after =>
          have hpos := List.length_pos_iff.mpr hdata
          exact ih _ (by rw [List.length_drop]; omega) after _ rfl

theorem receive_eq_conclude (c : Connection) (data : Bytes) :
    c.receive data = (c.accept.intake data).conclude :=
  absorb_eq_conclude c.accept data

/-- A connection without the bytes that it can no longer look at. -/
def sealed (c : Connection) : Connection :=
  if c.phase = .closed then c.withBuffered [] else c

/-- The same result without the bytes that nobody looks at any more. -/
def Processed.sealed : Processed → Processed
  | .waiting c => .waiting c.sealed
  | .failed e c => .failed e (c.withBuffered [])
  | .abandoned c => .abandoned (c.withBuffered [])

theorem phase_eq_of_sealed_eq {c d : Connection} (h : c.sealed = d.sealed) :
    c.phase = d.phase := by
  have hphase : ∀ c : Connection, c.sealed.phase = c.phase := by
    intro c
    unfold sealed
    split <;> rfl
  rw [← hphase c, ← hphase d, h]

theorem eq_of_sealed_eq {c d : Connection} (h : c.sealed = d.sealed) (hopen : c.phase ≠ .closed) :
    c = d := by
  have hopen' : d.phase ≠ .closed := phase_eq_of_sealed_eq h ▸ hopen
  simpa [sealed, hopen, hopen'] using h

theorem intake_of_closed {c : Connection} (h : c.phase = .closed) (data : Bytes) :
    c.intake data = .waiting c := by
  rw [intake, if_pos h]
  split <;> rfl

theorem intake_nil (c : Connection) : c.intake [] = .waiting c := by
  rw [intake, dif_pos rfl]

theorem intake_sealed_congr {c d : Connection} (h : c.sealed = d.sealed) (data : Bytes) :
    (c.intake data).sealed = (d.intake data).sealed := by
  by_cases hclosed : c.phase = .closed
  · have hclosed' : d.phase = .closed := phase_eq_of_sealed_eq h ▸ hclosed
    rw [intake_of_closed hclosed, intake_of_closed hclosed']
    exact congrArg Processed.waiting h
  · rw [eq_of_sealed_eq h hclosed]

theorem andThen_sealed_congr {p q : Processed} (h : p.sealed = q.sealed) (data : Bytes) :
    (p.andThen (intake · data)).sealed = (q.andThen (intake · data)).sealed := by
  cases p <;> cases q <;> simp only [Processed.sealed, Processed.waiting.injEq,
    Processed.failed.injEq, Processed.abandoned.injEq, reduceCtorEq] at h
  · exact intake_sealed_congr h data
  · simpa [Processed.andThen, Processed.sealed] using h
  · simpa [Processed.andThen, Processed.sealed] using h

theorem limit_of_round {c after : Connection} (h : c.round = .progress (.going after)) :
    after.buffer.limit = c.buffer.limit := by
  unfold round at h
  split at h
  · simp at h
  · simp at h
  · split at h
    · simp at h
    · simp at h
    · simp only [Round.progress.injEq, Progress.going.injEq] at h
      rw [← h]
      rfl
  all_goals
    split at h
    · simp at h
    · split at h
      · simp at h
      · simp at h
      · simp at h
      · simp only [Round.progress.injEq] at h
        rw [buffer_of_onFrame h]
        rfl

theorem room_le_of_process {c after : Connection} (h : c.process = .waiting after) :
    c.buffer.room ≤ after.buffer.room := by
  fun_induction process c with
  | case1 c hround =>
      cases h
      exact le_rfl
  | case2 c e after hround => simp at h
  | case3 c hround => simp at h
  | case4 c e after hround => simp at h
  | case5 c next hround ih =>
      refine le_trans ?_ (ih h)
      have hlimit := limit_of_round hround
      have hsize := size_lt_of_round hround
      unfold Accumulator.room
      omega

theorem around_around (first second : Bytes) (c : Connection) :
    (c.around [] [] first).around [] [] second = c.around [] [] (first ++ second) := by
  simp [around]

theorem process_around_of_closed {c : Connection} (h : c.phase = .closed) (data : Bytes) :
    (c.around [] [] data).process.sealed = (Processed.waiting c).sealed := by
  rw [process_of_round (by simp [round, h])]
  simp [Processed.sealed, sealed, h, withBuffered, around]

theorem intake_of_le_room {c : Connection} {data : Bytes} (hdata : data ≠ [])
    (hopen : c.phase ≠ .closed) (h : data.length ≤ c.buffer.room) :
    c.intake data = (c.around [] [] data).process := by
  have hpos := List.length_pos_iff.mpr hdata
  rw [intake, dif_neg hdata, if_neg hopen, dif_neg (by omega), List.take_of_length_le h,
    List.drop_of_length_le h]
  cases (c.around [] [] data).process with
  | waiting after => rw [Processed.andThen, intake_nil]
  | failed e after => rfl
  | abandoned after => rfl

theorem intake_append_of_le_room {c : Connection} {first second : Bytes} (hfirst : first ≠ [])
    (hopen : c.phase ≠ .closed) (h : first.length ≤ c.buffer.room) :
    (c.intake (first ++ second)).sealed =
      ((c.around [] [] first).process.andThen (intake · second)).sealed := by
  induction hn : second.length using Nat.strong_induction_on generalizing c first second with
  | h n ih =>
      subst hn
      have hpos := List.length_pos_iff.mpr hfirst
      -- What fits together with `first`, and what has to wait.
      obtain ⟨near, far, rfl, hnear, hfar⟩ : ∃ near far, second = near ++ far ∧
          (first ++ near).length ≤ c.buffer.room ∧
          (far ≠ [] → (first ++ near).length = c.buffer.room) := by
        refine ⟨second.take (c.buffer.room - first.length),
          second.drop (c.buffer.room - first.length), (List.take_append_drop _ _).symm, ?_, ?_⟩
        · simp only [List.length_append, List.length_take]
          omega
        · intro hne
          have := List.length_pos_iff.mpr hne
          simp only [List.length_append, List.length_take, List.length_drop] at this ⊢
          omega
      have htake : (first ++ (near ++ far)).take c.buffer.room = first ++ near := by
        rw [← List.append_assoc]
        by_cases hne : far = []
        · rw [hne, List.append_nil, List.take_of_length_le hnear]
        · exact List.take_left' (hfar hne)
      have hdrop : (first ++ (near ++ far)).drop c.buffer.room = far := by
        rw [← List.append_assoc]
        by_cases hne : far = []
        · rw [hne, List.append_nil, List.drop_of_length_le hnear]
        · exact List.drop_left' (hfar hne)
      rw [intake, dif_neg (by simp [hfirst]), if_neg hopen, dif_neg (by omega), htake, hdrop,
        ← around_around, process_around]
      cases hprocess : (c.around [] [] first).process with
      | failed e after => rfl
      | abandoned after => rfl
      | waiting after =>
          change ((after.around [] [] near).process.andThen (intake · far)).sealed =
            (after.intake (near ++ far)).sealed
          have hroom : near.length ≤ after.buffer.room := by
            refine le_trans ?_ (room_le_of_process hprocess)
            simp only [Accumulator.room, Accumulator.size, around_limit, around_contents,
              List.length_append] at hnear ⊢
            omega
          by_cases hempty : near = []
          · have hsame : after.around [] [] [] = after := by simp [around]
            rw [hempty, hsame, process_of_round (round_of_process hprocess)]
            rfl
          by_cases hclosed : after.phase = .closed
          · rw [andThen_sealed_congr (process_around_of_closed hclosed near) far,
              intake_of_closed hclosed]
            exact congrArg Processed.sealed (intake_of_closed hclosed far)
          · have hshorter : far.length < (near ++ far).length := by
              have := List.length_pos_iff.mpr hempty
              simp only [List.length_append]
              omega
            exact (ih far.length hshorter hempty hclosed hroom rfl).symm

theorem andThen_andThen (p : Processed) (f g : Connection → Processed) :
    (p.andThen f).andThen g = p.andThen fun c => (f c).andThen g := by
  cases p <;> rfl

/-- **Two chunks are taken in like one.** -/
theorem intake_append (c : Connection) (first second : Bytes) :
    (c.intake (first ++ second)).sealed =
      ((c.intake first).andThen (intake · second)).sealed := by
  induction hn : first.length using Nat.strong_induction_on generalizing c first with
  | h n ih =>
      subst hn
      by_cases hfirst : first = []
      · rw [hfirst, intake_nil]
        rfl
      by_cases hclosed : c.phase = .closed
      · rw [intake_of_closed hclosed, intake_of_closed hclosed]
        exact congrArg Processed.sealed (intake_of_closed hclosed second).symm
      have hpos := List.length_pos_iff.mpr hfirst
      -- The buffer takes the first chunk at once, or fills up before the chunk is over.
      by_cases hfits : first.length ≤ c.buffer.room
      · rw [intake_append_of_le_room hfirst hclosed hfits,
          intake_of_le_room hfirst hclosed hfits]
      · rw [intake.eq_1 c first, intake.eq_1 c (first ++ second), dif_neg hfirst,
          dif_neg (by simp [hfirst]), if_neg hclosed, if_neg hclosed]
        by_cases hroom : c.buffer.room = 0
        · rw [dif_pos hroom, dif_pos hroom]
          rfl
        rw [dif_neg hroom, dif_neg hroom, List.take_append_of_le_length (by omega),
          List.drop_append_of_le_length (by omega), andThen_andThen]
        cases (c.around [] [] (first.take c.buffer.room)).process with
        | failed e after => rfl
        | abandoned after => rfl
        | waiting after =>
            exact ih (first.drop c.buffer.room).length (by rw [List.length_drop]; omega) after _ rfl

end Connection

end WebSocket

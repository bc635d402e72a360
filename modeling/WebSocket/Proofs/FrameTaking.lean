import WebSocket.Proofs.FrameReading

namespace WebSocket

/-- What work on a buffer comes to when it ends with this outcome. -/
def Decoded.left (buffer : Bytes) : Decoded → Option (Except Error (Option Frame) × Bytes)
  | .incomplete => some (.ok none, buffer)
  | .frame f rest => some (.ok (some f), rest)
  | .refused e => some (.error e, buffer)
  | .unaddressable => none

open Reading

namespace Standard

theorem on_take_of_reads {decoder : Decoder} {buffer : Bytes} {outcome : Decoded}
    (h : Reads decoder buffer outcome) : (take decoder).on buffer = outcome.left buffer := by
  rw [take, on_get_bind]
  cases h with
  | short h =>
      rcases buffer with _ | ⟨first, _ | ⟨second, body⟩⟩
      · rfl
      · rfl
      · simp only [List.length_cons] at h
        omega
  | fault hread =>
      simp only [hread]
      rfl
  | length hread h =>
      simp only [hread]
      refine (on_bind_of_ok rfl).trans ?_
      rw [Bytes.splitExactly?_of_lt h]
      rfl
  | large hread hwidth h =>
      simp only [hread]
      refine (on_bind_of_ok rfl).trans ?_
      simp only [Bytes.splitExactly?_append _ hwidth, if_pos h]
      rfl
  | unaddressable hhead hsize =>
      unfold Head.frameSize at hsize
      simp only [hhead.read]
      refine (on_bind_of_ok rfl).trans ?_
      simp only [Bytes.splitExactly?_append _ hhead.width, if_neg (Nat.not_lt_of_le hhead.fits),
        if_pos hsize]
      rfl
  | body hhead hsize h =>
      unfold Head.frameSize at hsize
      simp only [hhead.read]
      refine (on_bind_of_ok rfl).trans ?_
      simp only [Bytes.splitExactly?_append _ hhead.width, if_neg (Nat.not_lt_of_le hhead.fits),
        if_neg (Nat.not_le_of_lt hsize), if_pos h]
      rfl
  | @whole first second head extended key payload hhead hsize hkey hpayload rest =>
      unfold Head.frameSize at hsize
      have henough : ¬(key ++ (payload ++ rest)).length <
          head.keyWidth + head.payloadLength extended := by
        simp only [List.length_append]
        omega
      -- The head of the frame, which is taken away first.
      have hfront : (first :: second :: (extended ++ key)).length =
          2 + head.lengthWidth + head.keyWidth := by
        simp only [List.length_cons, List.length_append, hhead.width, hkey]
        omega
      have hadvance := on_advance hfront (payload ++ rest)
      rw [List.cons_append, List.cons_append, List.append_assoc] at hadvance
      simp only [hhead.read]
      refine (on_bind_of_ok rfl).trans ?_
      simp only [Bytes.splitExactly?_append _ hhead.width, if_neg (Nat.not_lt_of_le hhead.fits),
        if_neg (Nat.not_le_of_lt hsize), if_neg henough]
      rw [on_bind_of_ok hadvance, on_bind_of_ok (on_splitTo hpayload rest), List.take_left' hkey]
      rfl

theorem on_take (decoder : Decoder) (buffer : Bytes) :
    (take decoder).on buffer = (decode decoder buffer).left buffer :=
  on_take_of_reads (reads_decode decoder buffer)

end Standard

namespace Legacy

theorem findIdx?_sentinel (body : Bytes) : body.findIdx? (· = sentinel) =
    if body.dropWhile (· ≠ sentinel) = [] then none
    else some (body.takeWhile (· ≠ sentinel)).length := by
  induction body with
  | nil => rfl
  | cons b body ih =>
      by_cases hb : b = sentinel
      · simp [List.findIdx?_cons, hb]
      · have hkept : decide (b ≠ sentinel) = true := by simp [hb]
        rw [List.findIdx?_cons, if_neg (by simp [hb]), ih,
          List.dropWhile_cons_of_pos (p := (· ≠ sentinel)) hkept,
          List.takeWhile_cons_of_pos (p := (· ≠ sentinel)) hkept]
        split <;> rfl

/-- A text that is there as a whole is taken part by part: its start, its payload, and its end. -/
theorem on_text_parts (payload rest : Bytes) (start marker : UInt8) :
    Reading.on (do
      advance 1
      let payload ← splitTo payload.length
      advance 1
      return some (Frame.text payload)) (start :: (payload ++ marker :: rest)) =
      some (.ok (some (.text payload)), rest) := by
  have hstart : (advance 1).on (start :: (payload ++ marker :: rest)) =
      some (.ok (), payload ++ marker :: rest) :=
    on_advance (show [start].length = 1 from rfl) _
  have htext : (splitTo payload.length).on (payload ++ marker :: rest) =
      some (.ok payload, marker :: rest) :=
    on_splitTo rfl _
  have hend : (advance 1).on (marker :: rest) = some (.ok (), rest) :=
    on_advance (show [marker].length = 1 from rfl) rest
  rw [on_bind_of_ok hstart, on_bind_of_ok htext, on_bind_of_ok hend]
  rfl

theorem on_take_text (maxPayload : Nat) (body : Bytes) :
    (take maxPayload).on (textStart :: body) =
      (decode maxPayload (textStart :: body)).left (textStart :: body) := by
  have hwhole := List.takeWhile_append_dropWhile (p := (· ≠ sentinel)) (l := body)
  rw [take, on_get_bind]
  simp only [decode, if_true]
  cases hdrop : body.dropWhile (· ≠ sentinel) with
  | nil =>
      rw [hdrop, List.append_nil] at hwhole
      rw [findIdx?_sentinel, if_pos hdrop, hwhole]
      dsimp only
      split <;> rfl
  | cons marker rest =>
      rw [findIdx?_sentinel, if_neg (hdrop ▸ List.cons_ne_nil marker rest)]
      have hparts := on_text_parts (body.takeWhile (· ≠ sentinel)) rest textStart marker
      rw [← hdrop, hwhole] at hparts
      dsimp only
      split
      · rfl
      · exact hparts

theorem on_take (maxPayload : Nat) (buffer : Bytes) :
    (take maxPayload).on buffer = (decode maxPayload buffer).left buffer := by
  rcases buffer with _ | ⟨kind, body⟩
  · rfl
  by_cases htext : kind = textStart
  · subst htext
    exact on_take_text maxPayload body
  rw [take, on_get_bind]
  simp only [decode, if_neg htext]
  by_cases hclose : kind = sentinel
  · simp only [if_pos hclose]
    cases body with
    | nil => rfl
    | cons next rest =>
        dsimp only
        split
        · have hboth : (advance 2).on (kind :: next :: rest) = some (.ok (), rest) :=
            on_advance (show [kind, next].length = 2 from rfl) rest
          rw [on_bind_of_ok hboth]
          rfl
        · rfl
  · simp only [if_neg hclose]
    rfl

end Legacy

end WebSocket

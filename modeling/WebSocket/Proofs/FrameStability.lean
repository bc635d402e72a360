import WebSocket.Proofs.FrameReading

namespace WebSocket

/-- The same outcome with more bytes behind it. -/
def Decoded.behind (more : Bytes) : Decoded → Decoded
  | .frame f rest => .frame f (rest ++ more)
  | .incomplete => .incomplete
  | .refused e => .refused e
  | .unaddressable => .unaddressable

namespace Standard

theorem decode_append {decoder : Decoder} {bytes : Bytes}
    (h : decode decoder bytes ≠ .incomplete) (more : Bytes) :
    decode decoder (bytes ++ more) = (decode decoder bytes).behind more := by
  have hreads := reads_decode decoder bytes
  generalize decode decoder bytes = outcome at h hreads
  rw [decode_eq_iff]
  cases hreads with
  | short => exact absurd rfl h
  | fault hread body => exact .fault hread (body ++ more)
  | length => exact absurd rfl h
  | large hread hwidth hlarge body =>
      simp only [List.cons_append, List.append_assoc]
      exact .large hread hwidth hlarge (body ++ more)
  | unaddressable hhead hsize body =>
      simp only [List.cons_append, List.append_assoc]
      exact .unaddressable hhead hsize (body ++ more)
  | body => exact absurd rfl h
  | whole hhead hsize hkey hpayload rest =>
      simp only [List.cons_append, List.append_assoc]
      exact .whole hhead hsize hkey hpayload (rest ++ more)

end Standard

namespace Legacy

theorem decode_append {maxPayload : Nat} {bytes : Bytes}
    (h : decode maxPayload bytes ≠ .incomplete) (more : Bytes) :
    decode maxPayload (bytes ++ more) = (decode maxPayload bytes).behind more := by
  rcases bytes with _ | ⟨kind, body⟩
  · simp [decode] at h
  simp only [List.cons_append, decode] at h ⊢
  by_cases htext : kind = textStart
  · simp only [if_pos htext] at h ⊢
    have happend := congrArg List.length
      (List.takeWhile_append_dropWhile (p := (· ≠ sentinel)) (l := body))
    rw [List.length_append] at happend
    rw [List.takeWhile_append, List.dropWhile_append]
    cases hrest : body.dropWhile (· ≠ sentinel) with
    | nil =>
        -- The text has not ended, so it must have been refused for its length.
        have hopen : (body.takeWhile (· ≠ sentinel)).length = body.length := by
          rw [← happend, hrest]
          rfl
        by_cases hlong : maxPayload < (body.takeWhile (· ≠ sentinel)).length
        · have hmore : maxPayload < (body ++ more.takeWhile (· ≠ sentinel)).length := by
            rw [List.length_append]
            omega
          rw [if_pos hopen, if_pos hmore, if_pos hlong]
          rfl
        · simp only [if_neg hlong, hrest] at h
          exact absurd rfl h
    | cons marker rest =>
        have hclosed : (body.takeWhile (· ≠ sentinel)).length ≠ body.length := by
          rw [hrest, List.length_cons] at happend
          omega
        rw [if_neg hclosed]
        split <;> rfl
  · simp only [if_neg htext] at h ⊢
    by_cases hclose : kind = sentinel
    · simp only [if_pos hclose] at h ⊢
      cases body with
      | nil => simp at h
      | cons next rest =>
          simp only [List.cons_append]
          split <;> rfl
    · simp only [if_neg hclose]
      rfl

end Legacy

theorem Codec.decode_append {codec : Codec} {bytes : Bytes} (h : codec.decode bytes ≠ .incomplete)
    (more : Bytes) : codec.decode (bytes ++ more) = (codec.decode bytes).behind more := by
  cases codec with
  | standard => exact Standard.decode_append h more
  | legacy => exact Legacy.decode_append h more

end WebSocket

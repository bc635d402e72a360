import WebSocket.Framing
import WebSocket.Proofs.ByteStrings

/-!
Where an attempt to read a frame of the standard framing ends. Each case names the parts of the
bytes that were looked at by then, so that a proof about the decoder goes through the ends of an
attempt and not through its steps.
-/

namespace WebSocket.Standard

/-- The size of a frame: the fixed bytes, the bytes of length, the key and the payload. -/
def Head.frameSize (head : Head) (extended : Bytes) : Nat :=
  2 + head.lengthWidth + head.keyWidth + head.payloadLength extended

/-- Two fixed bytes that break no rule, and the bytes of length behind them, which announce a
payload that is not too large. -/
structure Announces (decoder : Decoder) (first second : UInt8) (head : Head) (extended : Bytes) :
    Prop where
  read : Head.read decoder.requireMask first second = .ok head
  width : extended.length = head.lengthWidth
  fits : head.payloadLength extended ≤ decoder.maxPayload

/-- The ends of an attempt to read a frame, in the order in which they can come. -/
inductive Reads (decoder : Decoder) : Bytes → Decoded → Prop where
  | short {bytes : Bytes} (h : bytes.length < 2) : Reads decoder bytes .incomplete
  | fault {first second : UInt8} {e : Error}
      (h : Head.read decoder.requireMask first second = .error e) (body : Bytes) :
      Reads decoder (first :: second :: body) (.refused e)
  | length {first second : UInt8} {head : Head} {body : Bytes}
      (hread : Head.read decoder.requireMask first second = .ok head)
      (h : body.length < head.lengthWidth) : Reads decoder (first :: second :: body) .incomplete
  | large {first second : UInt8} {head : Head} {extended : Bytes}
      (hread : Head.read decoder.requireMask first second = .ok head)
      (hwidth : extended.length = head.lengthWidth)
      (h : decoder.maxPayload < head.payloadLength extended) (body : Bytes) :
      Reads decoder (first :: second :: (extended ++ body)) (.refused .frameTooLarge)
  | unaddressable {first second : UInt8} {head : Head} {extended : Bytes}
      (hhead : Announces decoder first second head extended)
      (h : addressSpace ≤ head.frameSize extended) (body : Bytes) :
      Reads decoder (first :: second :: (extended ++ body)) .unaddressable
  | body {first second : UInt8} {head : Head} {extended body : Bytes}
      (hhead : Announces decoder first second head extended)
      (hsize : head.frameSize extended < addressSpace)
      (h : body.length < head.keyWidth + head.payloadLength extended) :
      Reads decoder (first :: second :: (extended ++ body)) .incomplete
  | whole {first second : UInt8} {head : Head} {extended key payload : Bytes}
      (hhead : Announces decoder first second head extended)
      (hsize : head.frameSize extended < addressSpace) (hkey : key.length = head.keyWidth)
      (hpayload : payload.length = head.payloadLength extended) (rest : Bytes) :
      Reads decoder (first :: second :: (extended ++ (key ++ (payload ++ rest))))
        (.frame (.plain head.fin head.opcode (unmask (maskKey? key) payload)) rest)

variable {decoder : Decoder} {bytes : Bytes} {outcome : Decoded}

theorem reads_decode (decoder : Decoder) (bytes : Bytes) :
    Reads decoder bytes (decode decoder bytes) := by
  rcases bytes with _ | ⟨first, _ | ⟨second, body⟩⟩
  · exact .short (by simp)
  · exact .short (by simp)
  simp only [decode]
  split
  · rename_i e hread
    exact .fault hread body
  rename_i head hread
  split
  · rename_i hextended
    exact .length hread (Bytes.length_lt_of_splitExactly? hextended)
  rename_i extended body hextended
  obtain ⟨rfl, hwidth⟩ := Bytes.eq_append_of_splitExactly? hextended
  split
  · rename_i hlarge
    exact .large hread hwidth hlarge body
  rename_i hfits
  have hhead : Announces decoder first second head extended :=
    ⟨hread, hwidth, Nat.le_of_not_lt hfits⟩
  split
  · rename_i hsize
    exact .unaddressable hhead hsize body
  rename_i hsize
  have hsize : head.frameSize extended < addressSpace := Nat.lt_of_not_le hsize
  split
  · rename_i hkey
    exact .body hhead hsize ((Bytes.length_lt_of_splitExactly? hkey).trans_le (Nat.le_add_right ..))
  rename_i key body hkey
  obtain ⟨rfl, hkeyWidth⟩ := Bytes.eq_append_of_splitExactly? hkey
  split
  · rename_i hpayload
    refine .body hhead hsize ?_
    rw [List.length_append, hkeyWidth]
    exact Nat.add_lt_add_left (Bytes.length_lt_of_splitExactly? hpayload) _
  rename_i payload rest hpayload
  obtain ⟨rfl, hlength⟩ := Bytes.eq_append_of_splitExactly? hpayload
  exact .whole hhead hsize hkeyWidth hlength rest

/-- What was looked at decides how the attempt ends. -/
theorem decode_of_reads (h : Reads decoder bytes outcome) : decode decoder bytes = outcome := by
  cases h with
  | short h =>
      rcases bytes with _ | ⟨first, _ | ⟨second, body⟩⟩
      · rfl
      · rfl
      · simp only [List.length_cons] at h
        omega
  | fault h => simp only [decode, h]
  | length hread h => simp only [decode, hread, Bytes.splitExactly?_of_lt h]
  | large hread hwidth h =>
      simp only [decode, hread, Bytes.splitExactly?_append _ hwidth, if_pos h]
  | unaddressable hhead h =>
      simp only [decode, hhead.read, Bytes.splitExactly?_append _ hhead.width,
        if_neg (Nat.not_lt_of_le hhead.fits)]
      exact if_pos h
  | @body _ _ head extended body hhead hsize h =>
      simp only [decode, hhead.read, Bytes.splitExactly?_append _ hhead.width,
        if_neg (Nat.not_lt_of_le hhead.fits)]
      refine (if_neg (Nat.not_le_of_lt hsize)).trans ?_
      cases hkey : Bytes.splitExactly? head.keyWidth body with
      | none => rfl
      | some split =>
          obtain ⟨key, rest⟩ := split
          obtain ⟨rfl, hkeyWidth⟩ := Bytes.eq_append_of_splitExactly? hkey
          rw [List.length_append, hkeyWidth, Nat.add_lt_add_iff_left] at h
          simp only [Bytes.splitExactly?_of_lt h]
  | whole hhead hsize hkey hpayload =>
      simp only [decode, hhead.read, Bytes.splitExactly?_append _ hhead.width,
        if_neg (Nat.not_lt_of_le hhead.fits), Bytes.splitExactly?_append _ hkey,
        Bytes.splitExactly?_append _ hpayload]
      exact if_neg (Nat.not_le_of_lt hsize)

theorem decode_eq_iff : decode decoder bytes = outcome ↔ Reads decoder bytes outcome := by
  constructor
  · rintro rfl
    exact reads_decode decoder bytes
  · exact decode_of_reads

end WebSocket.Standard

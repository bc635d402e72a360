import WebSocket.Options
import WebSocket.Proofs.FrameStability
import WebSocket.Proofs.Masking

namespace WebSocket

/-- A frame as the standard framing allows it, and that a machine can hold with its head. -/
structure Frame.Lawful (f : Frame) : Prop where
  rsv1 : f.rsv1 = false
  rsv2 : f.rsv2 = false
  rsv3 : f.rsv3 = false
  control : f.opcode.isControl = true → f.fin = true ∧ f.payload.length ≤ Frame.maxControlPayload
  size : f.payload.length + maxHeadSize ≤ maxSize

namespace Standard

theorem firstByte_eq {f : Frame} (h : f.Lawful) :
    firstByte f = UInt8.ofNat (flag 128 f.fin + f.opcode.byte.toNat) := by
  simp [firstByte, h.rsv1, h.rsv2, h.rsv3, flag]

theorem firstByte_fields (fin : Bool) (opcode : OpCode) :
    (UInt8.ofNat (flag 128 fin + opcode.byte.toNat) &&& 0x80 != 0) = fin ∧
      (UInt8.ofNat (flag 128 fin + opcode.byte.toNat) &&& 0x70 != 0) = false ∧
      OpCode.ofByte (UInt8.ofNat (flag 128 fin + opcode.byte.toNat) &&& 0x0F) = .ok opcode := by
  cases fin <;> cases opcode <;> exact ⟨by decide, by decide, rfl⟩

theorem secondByte_fields (masked : Bool) {code : Nat} (h : code < 128) :
    (UInt8.ofNat (flag 128 masked + code) &&& 0x80 != 0) = masked ∧
      (UInt8.ofNat (flag 128 masked + code) &&& 0x7F).toNat = code := by
  have hall : ∀ (masked : Bool) (code : Fin 128),
      (UInt8.ofNat (flag 128 masked + code) &&& 0x80 != 0) = masked ∧
        (UInt8.ofNat (flag 128 masked + code) &&& 0x7F).toNat = code := by decide
  exact hall masked ⟨code, h⟩

theorem read_eq (requireMask : Bool) (first second : UInt8) :
    Head.read requireMask first second =
      if first &&& 0x70 != 0 then .error .reservedBits
      else
        match OpCode.ofByte (first &&& 0x0F) with
        | .error e => .error e
        | .ok opcode =>
          if opcode.isControl && !(first &&& 0x80 != 0) then .error .fragmentedControl
          else if opcode.isControl && Frame.maxControlPayload < (second &&& 0x7F).toNat then
            .error .oversizedControl
          else if requireMask && !(second &&& 0x80 != 0) then .error .unmaskedFrame
          else .ok
            ⟨first &&& 0x80 != 0, opcode, second &&& 0x80 != 0, (second &&& 0x7F).toNat⟩ := by
  unfold Head.read
  generalize (first &&& 0x80 != 0) = fin
  generalize (second &&& 0x80 != 0) = masked
  generalize (second &&& 0x7F).toNat = code
  by_cases hreserved : (first &&& 0x70 != 0) = true
  · simp only [hreserved, if_true]
    rfl
  simp only [hreserved]
  cases OpCode.ofByte (first &&& 0x0F) with
  | error e => rfl
  | ok opcode =>
      cases hkind : opcode.isControl <;> cases fin <;> cases requireMask <;> cases masked <;>
        simp [hkind, throw, throwThe, MonadExceptOf.throw, bind, Except.bind, pure, Except.pure]

theorem read_fixed {requireMask fin masked : Bool} {opcode : OpCode} {code : Nat}
    (hcode : code < 128) (hmask : requireMask = true → masked = true)
    (hcontrol : opcode.isControl = true → fin = true ∧ code ≤ Frame.maxControlPayload) :
    Head.read requireMask (UInt8.ofNat (flag 128 fin + opcode.byte.toNat))
      (UInt8.ofNat (flag 128 masked + code)) = .ok ⟨fin, opcode, masked, code⟩ := by
  obtain ⟨hfin, hreserved, hopcode⟩ := firstByte_fields fin opcode
  obtain ⟨hmasked, hlength⟩ := secondByte_fields masked hcode
  rw [read_eq]
  simp only [hfin, hreserved, hopcode, hmasked, hlength]
  rw [if_neg (by simp), if_neg, if_neg, if_neg]
  · cases requireMask <;> simp_all
  · simp only [Bool.and_eq_true, decide_eq_true_eq, not_and]
    intro hkind
    have := (hcontrol hkind).2
    omega
  · simp only [Bool.and_eq_true, Bool.not_eq_true', not_and, Bool.not_eq_false]
    exact fun hkind => (hcontrol hkind).1

theorem lengthField_lt (n : Nat) : (lengthField n).1 < 128 := by
  unfold lengthField
  split
  · simp only
    omega
  · split <;> simp

theorem lengthField_of_control {n : Nat} (h : n ≤ Frame.maxControlPayload) :
    lengthField n = (n, []) := by
  unfold Frame.maxControlPayload at h
  rw [lengthField, if_pos (by omega)]

theorem payloadLength_lengthField {n : Nat} (h : n < 2 ^ 64) (fin masked : Bool)
    (opcode : OpCode) :
    (lengthField n).2.length = Head.lengthWidth ⟨fin, opcode, masked, (lengthField n).1⟩ ∧
      Head.payloadLength ⟨fin, opcode, masked, (lengthField n).1⟩ (lengthField n).2 = n := by
  unfold lengthField Head.payloadLength Head.lengthWidth
  split
  · have hcode : n ≠ 126 ∧ n ≠ 127 := by omega
    simp [hcode]
  split
  · have hnumber : Bytes.toNat (Bytes.bigEndian 2 n) = n := Bytes.toNat_bigEndian (by omega)
    simp [hnumber]
  · have hnumber : Bytes.toNat (Bytes.bigEndian 8 n) = n := Bytes.toNat_bigEndian (by omega)
    simp [hnumber]

theorem maskKey?_bytes (mask : Option MaskKey) : maskKey? (mask.elim [] MaskKey.bytes) = mask := by
  cases mask <;> rfl

theorem unmask_wirePayload (f : Frame) : unmask f.mask (wirePayload f) = f.payload := by
  cases hmask : f.mask with
  | none => simp [unmask, wirePayload, hmask]
  | some key => simp [unmask, wirePayload, hmask, Mask.apply_apply]

theorem length_wirePayload (f : Frame) : (wirePayload f).length = f.payload.length := by
  unfold wirePayload
  split
  · exact Mask.length_apply _ _
  · rfl

theorem length_head_le (f : Frame) : (head f).length ≤ maxHeadSize := by
  have hmask : (f.mask.elim [] MaskKey.bytes).length ≤ 4 := by
    cases f.mask <;> simp [MaskKey.bytes]
  have hextended : (lengthField f.payload.length).2.length ≤ 8 := by
    unfold lengthField
    split
    · simp
    · split <;> simp
  simp only [head, List.length_append, List.length_cons, maxHeadSize]
  omega

theorem length_encode_le (f : Frame) : (encode f).length ≤ f.payload.length + maxHeadSize := by
  have hhead := length_head_le f
  simp only [encode, List.length_append, length_wirePayload]
  omega

theorem decode_head (decoder : Decoder) {f : Frame} (h : f.Lawful)
    (hmask : decoder.requireMask = true → f.isMasked = true) (rest : Bytes) :
    decode decoder (head f ++ rest) =
      if decoder.maxPayload < f.payload.length then .refused .frameTooLarge
      else
        match Bytes.splitExactly? f.payload.length rest with
        | none => .incomplete
        | some (payload, rest) => .frame (.plain f.fin f.opcode (unmask f.mask payload)) rest := by
  have hsize := h.size
  have hread : Head.read decoder.requireMask (firstByte f)
      (UInt8.ofNat (flag 128 f.isMasked + (lengthField f.payload.length).1)) =
      .ok ⟨f.fin, f.opcode, f.isMasked, (lengthField f.payload.length).1⟩ := by
    rw [firstByte_eq h]
    refine read_fixed (lengthField_lt _) hmask fun hcontrol => ?_
    obtain ⟨hfin, hsmall⟩ := h.control hcontrol
    rw [lengthField_of_control hsmall]
    exact ⟨hfin, hsmall⟩
  obtain ⟨hwidth, hlength⟩ := payloadLength_lengthField
    (show f.payload.length < 2 ^ 64 by unfold maxHeadSize maxSize UInt64.size at hsize; omega)
    f.fin f.isMasked f.opcode
  have hkey : (f.mask.elim [] MaskKey.bytes).length =
      Head.keyWidth ⟨f.fin, f.opcode, f.isMasked, (lengthField f.payload.length).1⟩ := by
    cases hmasked : f.mask <;> simp [Head.keyWidth, Frame.isMasked, hmasked, MaskKey.bytes]
  -- A frame that a machine can hold has a size that the machine can compute.
  have haddressable : ¬addressSpace ≤
      2 + Head.lengthWidth ⟨f.fin, f.opcode, f.isMasked, (lengthField f.payload.length).1⟩ +
        Head.keyWidth ⟨f.fin, f.opcode, f.isMasked, (lengthField f.payload.length).1⟩ +
        f.payload.length := by
    have hextended : Head.lengthWidth
        ⟨f.fin, f.opcode, f.isMasked, (lengthField f.payload.length).1⟩ ≤ 8 := by
      unfold Head.lengthWidth
      split
      · simp
      · split <;> simp
    have hkeyed : Head.keyWidth
        ⟨f.fin, f.opcode, f.isMasked, (lengthField f.payload.length).1⟩ ≤ 4 := by
      unfold Head.keyWidth
      split <;> simp
    unfold maxHeadSize maxSize at hsize
    unfold addressSpace
    omega
  rcases hbody : Bytes.splitExactly? f.payload.length rest with _ | ⟨payload, left⟩ <;>
    simp only [head, List.append_assoc, List.cons_append, decode, hread,
      Bytes.splitExactly?_append _ hwidth, hlength, if_neg haddressable,
      Bytes.splitExactly?_append _ hkey, maskKey?_bytes, hbody]

/-- **A frame is read back**, unmasked, and what stands behind it is left. -/
theorem decode_encode (decoder : Decoder) {f : Frame} (h : f.Lawful)
    (hmask : decoder.requireMask = true → f.isMasked = true)
    (hsize : f.payload.length ≤ decoder.maxPayload) (rest : Bytes) :
    decode decoder (encode f ++ rest) = .frame (.plain f.fin f.opcode f.payload) rest := by
  rw [encode, List.append_assoc, decode_head decoder h hmask, if_neg (by omega),
    Bytes.splitExactly?_append rest (length_wirePayload f)]
  simp only [unmask_wirePayload]

theorem decode_head_of_large (decoder : Decoder) {f : Frame} (h : f.Lawful)
    (hmask : decoder.requireMask = true → f.isMasked = true)
    (hlarge : decoder.maxPayload < f.payload.length) (rest : Bytes) :
    decode decoder (head f ++ rest) = .refused .frameTooLarge := by
  rw [decode_head decoder h hmask, if_pos hlarge]

end Standard

namespace Legacy

theorem decode_encode_text {maxPayload : Nat} {payload : Bytes} (hclean : sentinel ∉ payload)
    (hsize : payload.length ≤ maxPayload) (rest : Bytes) :
    decode maxPayload (textStart :: payload ++ [sentinel] ++ rest) =
      .frame (.text payload) rest := by
  have hall : ∀ b ∈ payload, decide (b ≠ sentinel) = true := by
    intro b hb
    simp only [decide_eq_true_eq]
    rintro rfl
    exact hclean hb
  have htake : (payload ++ sentinel :: rest).takeWhile (· ≠ sentinel) = payload := by
    rw [List.takeWhile_append_of_pos hall]
    simp
  have hdrop : (payload ++ sentinel :: rest).dropWhile (· ≠ sentinel) = sentinel :: rest := by
    rw [List.dropWhile_append_of_pos hall]
    simp
  simp only [List.cons_append, List.append_assoc, List.nil_append, decode, if_true, htake, hdrop]
  rw [if_neg (by omega)]

/-- The older framing has only texts, which never hold the closing marker, and bare closings. -/
theorem laid_of_decode {maxPayload : Nat} {bytes rest : Bytes} {f : Frame}
    (h : decode maxPayload bytes = .frame f rest) :
    (∃ payload, f = .text payload ∧ sentinel ∉ payload ∧ payload.length ≤ maxPayload ∧
      bytes = textStart :: payload ++ [sentinel] ++ rest) ∨
    f = .closeRaw [] ∧ bytes = [sentinel, textStart] ++ rest := by
  unfold decode at h
  split at h
  · simp at h
  rename_i kind body
  split at h
  · rename_i htext
    simp only at h
    split at h
    · simp at h
    rename_i hfits
    split at h
    · simp at h
    rename_i marker rest' hdrop
    simp only [Decoded.frame.injEq] at h
    obtain ⟨rfl, rfl⟩ := h
    have hbody : body.takeWhile (· ≠ sentinel) ++ marker :: rest' = body := by
      rw [← hdrop, List.takeWhile_append_dropWhile]
    have hmarker : marker = sentinel := by
      have hhead := List.head?_dropWhile_not (· ≠ sentinel) body
      rw [hdrop] at hhead
      simpa using hhead
    have hclean : sentinel ∉ body.takeWhile (· ≠ sentinel) := fun hmem => by
      simpa using List.all_eq_true.mp List.all_takeWhile sentinel hmem
    refine .inl ⟨_, rfl, hclean, Nat.le_of_not_lt hfits, ?_⟩
    rw [hmarker] at hbody
    simp only [htext, List.cons_append, List.append_assoc, List.nil_append]
    rw [hbody]
  · split at h
    · rename_i hclose
      split at h
      · simp at h
      split at h
      · rename_i hnext
        simp only [Decoded.frame.injEq] at h
        obtain ⟨rfl, rfl⟩ := h
        exact .inr ⟨rfl, by rw [hclose, hnext]; rfl⟩
      · simp at h
    · simp at h

theorem frame_of_decode {maxPayload : Nat} {bytes rest : Bytes} {f : Frame}
    (h : decode maxPayload bytes = .frame f rest) :
    (∃ payload, f = .text payload) ∨ f = .closeRaw [] := by
  rcases laid_of_decode h with ⟨payload, htext, -⟩ | ⟨hclose, -⟩
  · exact .inl ⟨payload, htext⟩
  · exact .inr hclose

end Legacy

end WebSocket

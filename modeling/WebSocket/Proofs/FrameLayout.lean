import WebSocket.Proofs.FrameRoundTrip

namespace WebSocket

theorem OpCode.byte_of_ofByte {b : UInt8} {opcode : OpCode} (h : ofByte b = .ok opcode) :
    opcode.byte = b := by
  apply UInt8.toNat_inj.mp
  unfold ofByte at h
  split at h
  case h_7 => simp at h
  all_goals
    rename_i hbyte
    simp only [Except.ok.injEq] at h
    rw [← h, hbyte]
    rfl

namespace Standard

theorem forall_byte {P : UInt8 → Prop} (h : ∀ n : Fin 256, P (UInt8.ofNat n)) (b : UInt8) :
    P b := by
  have hb := h ⟨b.toNat, b.toNat_lt⟩
  rwa [UInt8.ofNat_toNat] at hb

theorem firstByte_of_fields (first : UInt8) : (first &&& 0x70 != 0) = false →
    first = UInt8.ofNat (flag 128 (first &&& 0x80 != 0) + (first &&& 0x0F).toNat) := by
  revert first
  apply forall_byte
  decide +kernel

theorem secondByte_of_fields (second : UInt8) :
    second = UInt8.ofNat (flag 128 (second &&& 0x80 != 0) + (second &&& 0x7F).toNat) ∧
      (second &&& 0x7F).toNat < 128 := by
  revert second
  apply forall_byte
  decide +kernel

theorem firstByte_plain (fin : Bool) (opcode : OpCode) (payload : Bytes)
    (mask : Option MaskKey) : firstByte { Frame.plain fin opcode payload with mask := mask } =
      UInt8.ofNat (flag 128 fin + opcode.byte.toNat) := rfl

/-- The fixed bytes of a frame that breaks no rule in them. -/
structure Head.Spelled (requireMask : Bool) (head : Head) (first second : UInt8) : Prop where
  first : first = UInt8.ofNat (flag 128 head.fin + head.opcode.byte.toNat)
  second : second = UInt8.ofNat (flag 128 head.masked + head.lengthCode)
  lengthCode : head.lengthCode < 128
  control : head.opcode.isControl = true →
    head.fin = true ∧ head.lengthCode ≤ Frame.maxControlPayload
  masked : requireMask = true → head.masked = true

theorem spelled_of_read {requireMask : Bool} {first second : UInt8} {head : Head}
    (h : Head.read requireMask first second = .ok head) :
    head.Spelled requireMask first second := by
  rw [read_eq] at h
  split at h
  · simp at h
  rename_i hreserved
  split at h
  · simp at h
  rename_i opcode hopcode
  split at h
  · simp at h
  rename_i hfin
  split at h
  · simp at h
  rename_i hsmall
  split at h
  · simp at h
  rename_i hmasked
  simp only [Except.ok.injEq] at h
  subst h
  obtain ⟨hsecond, hcode⟩ := secondByte_of_fields second
  refine ⟨?_, hsecond, hcode, ?_, ?_⟩
  · rw [OpCode.byte_of_ofByte hopcode]
    exact firstByte_of_fields first (by simpa using hreserved)
  · intro hcontrol
    change opcode.isControl = true at hcontrol
    exact ⟨by simpa [hcontrol] using hfin, by simpa [hcontrol] using hsmall⟩
  · intro hrequired
    simpa [hrequired] using hmasked

/-- How the length of a payload is announced: in the seven bits of the length code, in two bytes
behind it, or in eight. -/
inductive LengthForm where
  | short
  | medium
  | long
  deriving DecidableEq

namespace LengthForm

/-- From this length on, the form does not do. -/
def capacity : LengthForm → Nat
  | short => 126
  | medium => 65536
  | long => UInt64.size

/-- The length code, and the longer length that follows it. -/
def field (form : LengthForm) (length : Nat) : Nat × Bytes :=
  match form with
  | short => (length, [])
  | medium => (126, Bytes.bigEndian 2 length)
  | long => (127, Bytes.bigEndian 8 length)

def shortest (length : Nat) : LengthForm :=
  if length < 126 then short else if length < 65536 then medium else long

theorem field_shortest (length : Nat) : (shortest length).field length = lengthField length := by
  unfold shortest lengthField
  split
  · rfl
  · split <;> rfl

theorem code_lt {form : LengthForm} {length : Nat} (h : length < form.capacity) :
    (form.field length).1 < 128 := by
  cases form with
  | short =>
      simp only [capacity, field] at h ⊢
      omega
  | medium | long => simp [field]

theorem lt_capacity_shortest {form : LengthForm} {length : Nat} (h : length < form.capacity) :
    length < (shortest length).capacity := by
  unfold shortest
  split
  · assumption
  split
  · assumption
  · rename_i hmedium hlong
    cases form <;> simp only [capacity] at h ⊢ <;> omega

theorem eq_of_code_eq {form form' : LengthForm} {length : Nat} (h : length < form.capacity)
    (h' : length < form'.capacity)
    (hcode : (form.field length).1 = (form'.field length).1) : form = form' := by
  cases form <;> cases form' <;> simp only [capacity, field] at h h' hcode <;> first | rfl | omega

end LengthForm

/-- A length that was read was announced in one of the forms. -/
theorem exists_form {head : Head} {extended : Bytes} (hcode : head.lengthCode < 128)
    (hwidth : extended.length = head.lengthWidth) :
    ∃ form : LengthForm, head.payloadLength extended < form.capacity ∧
      form.field (head.payloadLength extended) = (head.lengthCode, extended) := by
  have hspelled := Bytes.bigEndian_toNat extended
  have hbound := Bytes.toNat_lt extended
  unfold Head.lengthWidth at hwidth
  split at hwidth
  · rename_i hmedium
    have hlength : head.payloadLength extended = Bytes.toNat extended := by
      simp [Head.payloadLength, Head.lengthWidth, hmedium]
    rw [hwidth] at hspelled hbound
    refine ⟨.medium, ?_, ?_⟩
    · rw [hlength]
      exact hbound
    · rw [hlength, LengthForm.field, hspelled, hmedium]
  split at hwidth
  · rename_i hlong
    have hlength : head.payloadLength extended = Bytes.toNat extended := by
      simp [Head.payloadLength, Head.lengthWidth, hlong]
    rw [hwidth] at hspelled hbound
    refine ⟨.long, ?_, ?_⟩
    · rw [hlength]
      exact hbound
    · rw [hlength, LengthForm.field, hspelled, hlong]
  · rename_i hmedium hlong
    have hlength : head.payloadLength extended = head.lengthCode := by
      simp [Head.payloadLength, Head.lengthWidth, hmedium, hlong]
    refine ⟨.short, ?_, ?_⟩
    · rw [hlength]
      change head.lengthCode < 126
      omega
    · rw [hlength, LengthForm.field, List.length_eq_zero_iff.mp hwidth]

theorem exists_key {head : Head} {key : Bytes} (hwidth : key.length = head.keyWidth) :
    ∃ mask : Option MaskKey, maskKey? key = mask ∧ mask.elim [] MaskKey.bytes = key ∧
      mask.isSome = head.masked := by
  unfold Head.keyWidth at hwidth
  split at hwidth
  · rename_i hmasked
    obtain ⟨a, b, c, d, rfl⟩ : ∃ a b c d, key = [a, b, c, d] := by
      rcases key with _ | ⟨a, _ | ⟨b, _ | ⟨c, _ | ⟨d, _ | ⟨e, key⟩⟩⟩⟩⟩ <;> simp at hwidth
      exact ⟨a, b, c, d, rfl⟩
    exact ⟨some ⟨a, b, c, d⟩, rfl, rfl, hmasked.symm⟩
  · rename_i hmasked
    obtain rfl := List.length_eq_zero_iff.mp hwidth
    exact ⟨none, rfl, rfl, by simpa using hmasked⟩

theorem wirePayload_unmask (mask : Option MaskKey) (fin : Bool) (opcode : OpCode)
    (payload : Bytes) :
    wirePayload { Frame.plain fin opcode (unmask mask payload) with mask := mask } = payload := by
  cases mask with
  | none => rfl
  | some key => exact Mask.apply_apply key payload

/-- The bytes of a frame whose length is announced in a given form. -/
def encodeIn (form : LengthForm) (f : Frame) : Bytes :=
  firstByte f :: UInt8.ofNat (flag 128 f.isMasked + (form.field f.payload.length).1) ::
    (form.field f.payload.length).2 ++ f.mask.elim [] MaskKey.bytes ++ wirePayload f

theorem encodeIn_shortest (f : Frame) : encodeIn (.shortest f.payload.length) f = encode f := by
  rw [encodeIn, LengthForm.field_shortest]
  rfl

theorem form_of_encodeIn_eq {form form' : LengthForm} {f : Frame}
    (h : f.payload.length < form.capacity) (h' : f.payload.length < form'.capacity)
    (hsame : encodeIn form f = encodeIn form' f) : form = form' := by
  have hsecond := (List.cons.inj (List.cons.inj hsame).2).1
  apply LengthForm.eq_of_code_eq h h'
  rw [← (secondByte_fields f.isMasked (LengthForm.code_lt h)).2,
    ← (secondByte_fields f.isMasked (LengthForm.code_lt h')).2, hsecond]

/-- The frame `f`, that was read with the limits of `decoder`, stood at the front of `bytes` with
its length in the form `form` and masked with `mask`, and `rest` stands behind it. -/
structure Laid (decoder : Decoder) (bytes : Bytes) (f : Frame) (rest : Bytes) (form : LengthForm)
    (mask : Option MaskKey) : Prop where
  bytes_eq : bytes = encodeIn form { f with mask := mask } ++ rest
  plain : f = .plain f.fin f.opcode f.payload
  announced : f.payload.length < form.capacity
  size : f.payload.length ≤ decoder.maxPayload
  control : f.opcode.isControl = true →
    f.fin = true ∧ f.payload.length ≤ Frame.maxControlPayload
  masked : decoder.requireMask = true → mask.isSome = true

theorem laid_of_decode {decoder : Decoder} {bytes rest : Bytes} {f : Frame}
    (h : decode decoder bytes = .frame f rest) :
    ∃ form mask, Laid decoder bytes f rest form mask := by
  cases decode_eq_iff.mp h with
  | @whole first second head extended key payload hhead hsize hkeyWidth hlength rest =>
      have hspelled := spelled_of_read hhead.read
      obtain ⟨form, hcapacity, hform⟩ := exists_form hspelled.lengthCode hhead.width
      obtain ⟨mask, hmask, hbytes, hmasked⟩ := exists_key hkeyWidth
      rw [hmask]
      have hunmask : (unmask mask payload).length = head.payloadLength extended := by
        cases mask with
        | none => exact hlength
        | some key => exact (Mask.length_apply key payload).trans hlength
      have hpayloadLength : (Frame.plain head.fin head.opcode (unmask mask payload)).payload.length =
          head.payloadLength extended := hunmask
      refine ⟨form, mask, ?_, rfl, ?_, ?_, ?_, ?_⟩
      · rw [encodeIn, wirePayload_unmask, firstByte_plain]
        simp only [hpayloadLength, hform, hbytes, Frame.isMasked, hmasked]
        rw [hspelled.first, hspelled.second]
        simp
      · rw [hpayloadLength]
        exact hcapacity
      · rw [hpayloadLength]
        exact hhead.fits
      · intro hcontrol
        obtain ⟨hfin, hsmall⟩ := hspelled.control hcontrol
        refine ⟨hfin, ?_⟩
        have hwidth : head.lengthWidth = 0 := by
          unfold Frame.maxControlPayload at hsmall
          unfold Head.lengthWidth
          rw [if_neg (by omega), if_neg (by omega)]
        rw [hpayloadLength, Head.payloadLength, if_pos hwidth]
        exact hsmall
      · intro hrequired
        rw [hmasked]
        exact hspelled.masked hrequired

theorem control_of_decode {decoder : Decoder} {bytes rest : Bytes} {f : Frame}
    (h : decode decoder bytes = .frame f rest) (hcontrol : f.opcode.isControl = true) :
    f.payload.length ≤ Frame.maxControlPayload := by
  obtain ⟨form, mask, hlaid⟩ := laid_of_decode h
  exact (hlaid.control hcontrol).2

/-- **Reading undoes writing up to the form of the length.** The bytes of a frame that was read are
those with which it is written, masked with the same key, exactly if they announce the length of its
payload in the shortest form. -/
theorem encode_of_decode_iff {decoder : Decoder} {bytes rest : Bytes} {f : Frame}
    (h : decode decoder bytes = .frame f rest) :
    ∃ form mask, Laid decoder bytes f rest form mask ∧
      (bytes = encode { f with mask := mask } ++ rest ↔
        form = .shortest f.payload.length) := by
  obtain ⟨form, mask, hlaid⟩ := laid_of_decode h
  refine ⟨form, mask, hlaid, ?_⟩
  rw [hlaid.bytes_eq, List.append_cancel_right_eq, ← encodeIn_shortest]
  constructor
  · exact form_of_encodeIn_eq hlaid.announced (LengthForm.lt_capacity_shortest hlaid.announced)
  · rintro rfl
    rfl

theorem encode_of_decode_iff_of_letter :
    decode ⟨1, false⟩ [0x81, 0x7E, 0x00, 0x01, 0x61] = .frame (.text [0x61]) [] ∧
      ∃ form mask,
        Laid ⟨1, false⟩ [0x81, 0x7E, 0x00, 0x01, 0x61] (.text [0x61]) [] form mask ∧
        ([0x81, 0x7E, 0x00, 0x01, 0x61] =
            encode { Frame.text [0x61] with mask := mask } ++ [] ↔
          form = .shortest (Frame.text [0x61]).payload.length) := by
  have hdecode : decode ⟨1, false⟩ [0x81, 0x7E, 0x00, 0x01, 0x61] = .frame (.text [0x61]) [] := by
    decide
  exact ⟨hdecode, encode_of_decode_iff hdecode⟩

/-- The same text is written in fewer bytes, or masked in more. -/
theorem longer_length_is_read :
    decode ⟨1, false⟩ [0x81, 0x7E, 0x00, 0x01, 0x61] = .frame (.text [0x61]) [] ∧
      ∀ mask : Option MaskKey, encode { Frame.text [0x61] with mask := mask } ≠
        [0x81, 0x7E, 0x00, 0x01, 0x61] := by
  refine ⟨by decide, ?_⟩
  intro mask hsame
  have hsecond : UInt8.ofNat (flag 128 mask.isSome + 1) = 0x7E :=
    (List.cons.inj (List.cons.inj hsame).2).1
  generalize mask.isSome = masked at hsecond
  revert masked
  decide

end Standard

end WebSocket

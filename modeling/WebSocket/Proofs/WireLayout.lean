import WebSocket.Proofs.FrameChunks
import WebSocket.Proofs.FrameLayout

/-!
Frames of the standard framing as they are laid out on the wire: two fixed bytes with the final
flag, three reserved bits, the opcode, the mask flag and the length code; none, two or eight bytes
of length; a key, if the frame is masked; and as many bytes of payload as announced. A decoder reads
just these frames, if they keep the rules, and refuses a byte string as soon as a rule is broken.
-/

namespace WebSocket.Standard

/-! ## The fixed bytes -/

/-- What the bits of the two fixed bytes say. -/
structure Fields where
  fin : Bool
  reserved : Nat
  opcode : Nat
  masked : Bool
  lengthCode : Nat

namespace Fields

def of (first second : UInt8) : Fields where
  fin := decide (128 ≤ first.toNat)
  reserved := first.toNat / 16 % 8
  opcode := first.toNat % 16
  masked := decide (128 ≤ second.toNat)
  lengthCode := second.toNat % 128

def lengthWidth (fields : Fields) : Nat :=
  if fields.lengthCode = 126 then 2 else if fields.lengthCode = 127 then 8 else 0

def keyWidth (fields : Fields) : Nat :=
  if fields.masked then 4 else 0

/-- The length of the payload, given the bytes of length behind the fixed bytes. -/
def payloadLength (fields : Fields) (extended : Bytes) : Nat :=
  if fields.lengthCode ≤ 125 then fields.lengthCode else Bytes.toNat extended

/-- The rules for the fixed bytes. -/
structure Lawful (requireMask : Bool) (fields : Fields) : Prop where
  reserved : fields.reserved = 0
  opcode : fields.opcode ∈ [0x0, 0x1, 0x2, 0x8, 0x9, 0xA]
  control : 8 ≤ fields.opcode → fields.fin = true ∧ fields.lengthCode ≤ 125
  masked : requireMask = true → fields.masked = true

/-- The rule that an error says is broken. -/
inductive Breaks (requireMask : Bool) (fields : Fields) : Error → Prop where
  | reserved (h : fields.reserved ≠ 0) : Breaks requireMask fields .reservedBits
  | opcode (h : fields.opcode ∉ [0x0, 0x1, 0x2, 0x8, 0x9, 0xA]) :
      Breaks requireMask fields (.invalidOpCode (UInt8.ofNat fields.opcode))
  | fragmented (hcontrol : 8 ≤ fields.opcode) (h : fields.fin = false) :
      Breaks requireMask fields .fragmentedControl
  | oversized (hcontrol : 8 ≤ fields.opcode) (h : 125 < fields.lengthCode) :
      Breaks requireMask fields .oversizedControl
  | unmasked (hrequired : requireMask = true) (h : fields.masked = false) :
      Breaks requireMask fields .unmaskedFrame

theorem Lawful.not_breaks {requireMask : Bool} {fields : Fields} {e : Error}
    (h : fields.Lawful requireMask) : ¬fields.Breaks requireMask e := by
  rintro (hreserved | hopcode | ⟨hcontrol, hfin⟩ | ⟨hcontrol, hcode⟩ | ⟨hrequired, hmasked⟩)
  · exact hreserved h.reserved
  · exact hopcode h.opcode
  · simp [(h.control hcontrol).1] at hfin
  · exact absurd (h.control hcontrol).2 (Nat.not_le_of_lt hcode)
  · simp [h.masked hrequired] at hmasked

end Fields

theorem first_bits (first : UInt8) : (first &&& 0x80 != 0) = decide (128 ≤ first.toNat) ∧
    ((first &&& 0x70 != 0) = true ↔ first.toNat / 16 % 8 ≠ 0) ∧
    first &&& 0x0F = UInt8.ofNat (first.toNat % 16) := by
  revert first
  apply forall_byte
  decide +kernel

theorem second_bits (second : UInt8) : (second &&& 0x80 != 0) = decide (128 ≤ second.toNat) ∧
    (second &&& 0x7F).toNat = second.toNat % 128 := by
  revert second
  apply forall_byte
  decide +kernel

theorem isControl_iff (opcode : OpCode) : opcode.isControl = true ↔ 8 ≤ opcode.byte.toNat := by
  cases opcode <;> decide

theorem byte_mem (opcode : OpCode) : opcode.byte.toNat ∈ [0x0, 0x1, 0x2, 0x8, 0x9, 0xA] := by
  cases opcode <;> decide

theorem eq_of_byte_eq {a b : OpCode} (h : a.byte.toNat = b.byte.toNat) : a = b := by
  cases a <;> cases b <;> first | rfl | exact absurd h (by decide)

theorem ofByte_eq_error {b : UInt8} {e : Error} (h : OpCode.ofByte b = .error e) :
    b.toNat ∉ [0x0, 0x1, 0x2, 0x8, 0x9, 0xA] ∧ e = .invalidOpCode b := by
  unfold OpCode.ofByte at h
  split at h
  case h_7 h0 h1 h2 h8 h9 h10 =>
    refine ⟨?_, (Except.error.inj h).symm⟩
    simp only [List.mem_cons, List.not_mem_nil, or_false, not_or]
    exact ⟨h0, h1, h2, h8, h9, h10⟩
  all_goals simp at h

/-- The fields that a decoder has read. -/
def Head.fields (head : Head) : Fields where
  fin := head.fin
  reserved := 0
  opcode := head.opcode.byte.toNat
  masked := head.masked
  lengthCode := head.lengthCode

theorem fields_of_numbers {first second : UInt8} {fin masked : Bool} {opcode code : Nat}
    (hfirst : first.toNat = flag 128 fin + opcode) (hopcode : opcode < 16)
    (hsecond : second.toNat = flag 128 masked + code) (hcode : code < 128) :
    Fields.of first second = ⟨fin, 0, opcode, masked, code⟩ := by
  unfold Fields.of
  rw [hfirst, hsecond]
  cases fin <;> cases masked <;> simp [flag] <;> omega

variable {requireMask : Bool} {first second : UInt8} {head : Head} {e : Error}

theorem breaks_of_read (h : Head.read requireMask first second = .error e) :
    (Fields.of first second).Breaks requireMask e := by
  obtain ⟨hfin, hreserved, hopcode⟩ := first_bits first
  obtain ⟨hmasked, hcode⟩ := second_bits second
  rw [read_eq, hfin, hopcode, hmasked, hcode] at h
  have hnumber : (UInt8.ofNat (first.toNat % 16)).toNat = (Fields.of first second).opcode := by
    rw [UInt8.toNat_ofNat']
    change first.toNat % 16 % 256 = first.toNat % 16
    omega
  split at h
  · rename_i hbits
    obtain rfl := Except.error.inj h
    exact .reserved (hreserved.mp hbits)
  split at h
  · rename_i hunknown
    obtain rfl := Except.error.inj h
    obtain ⟨hopcode, rfl⟩ := ofByte_eq_error hunknown
    rw [hnumber] at hopcode
    exact .opcode hopcode
  rename_i opcode hknown
  have hbyte : opcode.byte.toNat = (Fields.of first second).opcode := by
    rw [OpCode.byte_of_ofByte hknown, hnumber]
  split at h
  · rename_i hfragmented
    obtain rfl := Except.error.inj h
    rw [Bool.and_eq_true, isControl_iff, hbyte, Bool.not_eq_true'] at hfragmented
    exact .fragmented hfragmented.1 hfragmented.2
  split at h
  · rename_i hoversized
    obtain rfl := Except.error.inj h
    rw [Bool.and_eq_true, isControl_iff, hbyte, decide_eq_true_eq] at hoversized
    exact .oversized hoversized.1 hoversized.2
  split at h
  · rename_i hunmasked
    obtain rfl := Except.error.inj h
    rw [Bool.and_eq_true, Bool.not_eq_true'] at hunmasked
    exact .unmasked hunmasked.1 hunmasked.2
  · simp at h

theorem fields_of_read (h : Head.read requireMask first second = .ok head) :
    Fields.of first second = head.fields := by
  have hspelled := spelled_of_read h
  have hcode := hspelled.lengthCode
  have hfirst : first.toNat = flag 128 head.fin + head.opcode.byte.toNat := by
    rw [hspelled.first]
    cases head.fin <;> cases head.opcode <;> rfl
  have hsecond : second.toNat = flag 128 head.masked + head.lengthCode := by
    rw [hspelled.second, UInt8.toNat_ofNat']
    cases head.masked <;> simp only [flag, if_true, Bool.false_eq_true, if_false] <;> omega
  have hopcode : head.opcode.byte.toNat < 16 := by
    cases head.opcode <;> decide
  exact fields_of_numbers hfirst hopcode hsecond hcode

theorem lawful_of_read (h : Head.read requireMask first second = .ok head) :
    (Fields.of first second).Lawful requireMask := by
  have hspelled := spelled_of_read h
  rw [fields_of_read h]
  refine ⟨rfl, byte_mem head.opcode, ?_, hspelled.masked⟩
  intro hcontrol
  exact hspelled.control ((isControl_iff head.opcode).mpr hcontrol)

theorem exists_read (h : (Fields.of first second).Lawful requireMask) :
    ∃ head, Head.read requireMask first second = .ok head := by
  cases hread : Head.read requireMask first second with
  | ok head => exact ⟨head, rfl⟩
  | error e => exact absurd (breaks_of_read hread) h.not_breaks

theorem payloadLength_fields (h : head.lengthCode < 128) (extended : Bytes) :
    head.fields.payloadLength extended = head.payloadLength extended := by
  have hwidth : head.lengthWidth = 0 ↔ head.lengthCode ≤ 125 := by
    unfold Head.lengthWidth
    split
    · omega
    split
    · omega
    · omega
  exact if_congr hwidth.symm rfl rfl

/-! ## Frames on the wire -/

/-- The parts of a frame on the wire. -/
structure Wire where
  first : UInt8
  second : UInt8
  extended : Bytes
  key : Bytes
  payload : Bytes

namespace Wire

def bytes (w : Wire) : Bytes :=
  w.first :: w.second :: (w.extended ++ (w.key ++ w.payload))

def fields (w : Wire) : Fields :=
  .of w.first w.second

def length (w : Wire) : Nat :=
  w.fields.payloadLength w.extended

/-- Each part is as long as the parts before it say. -/
structure Whole (w : Wire) : Prop where
  extended : w.extended.length = w.fields.lengthWidth
  key : w.key.length = w.fields.keyWidth
  payload : w.payload.length = w.length

/-- The frame keeps all the rules. -/
structure Lawful (decoder : Decoder) (w : Wire) : Prop where
  fields : w.fields.Lawful decoder.requireMask
  length : w.length ≤ decoder.maxPayload

/-- What the wire says is the frame `f`: each byte of the payload is combined with the byte of the
key at its position modulo four. -/
structure Carries (w : Wire) (f : Frame) : Prop where
  fin : f.fin = w.fields.fin
  opcode : f.opcode.byte.toNat = w.fields.opcode
  reserved : f.rsv1 = false ∧ f.rsv2 = false ∧ f.rsv3 = false
  mask : f.mask = none
  payload : ∀ i : Nat, f.payload[i]? = w.payload[i]?.map fun b =>
    if w.fields.masked then b ^^^ w.key.getD (i % 4) 0 else b

end Wire

/-- A rule that is broken at the front of `bytes`: in the fixed bytes, or by the length when it is
there as a whole. What stands behind it makes no difference. -/
inductive Faulty (decoder : Decoder) : Bytes → Error → Prop where
  | fixed {first second : UInt8} {e : Error}
      (h : (Fields.of first second).Breaks decoder.requireMask e) (rest : Bytes) :
      Faulty decoder (first :: second :: rest) e
  | large {first second : UInt8} {extended : Bytes}
      (hwidth : extended.length = (Fields.of first second).lengthWidth)
      (h : decoder.maxPayload < (Fields.of first second).payloadLength extended) (rest : Bytes) :
      Faulty decoder (first :: second :: (extended ++ rest)) .frameTooLarge

theorem getElem?_apply (key : MaskKey) (payload : Bytes) (i : Nat) :
    (Mask.apply key payload)[i]? = payload[i]?.map (· ^^^ key.bytes.getD (i % 4) 0) := by
  rw [Mask.apply, Mask.byWord_eq_byByte, Mask.getElem?_byByte]

namespace Wire

variable {w : Wire} {f g : Frame} {decoder : Decoder}

theorem Carries.unique (hf : w.Carries f) (hg : w.Carries g) : f = g := by
  have hopcode := eq_of_byte_eq (hf.opcode.trans hg.opcode.symm)
  have hpayload : f.payload = g.payload :=
    List.ext_getElem? fun i => (hf.payload i).trans (hg.payload i).symm
  have hfin := hf.fin.trans hg.fin.symm
  have hmask := hf.mask.trans hg.mask.symm
  obtain ⟨hf1, hf2, hf3⟩ := hf.reserved
  obtain ⟨hg1, hg2, hg3⟩ := hg.reserved
  cases f
  cases g
  simp_all

theorem carries_unmask (hfields : w.fields = head.fields) (hkey : w.key.length = head.keyWidth) :
    w.Carries (.plain head.fin head.opcode (unmask (maskKey? w.key) w.payload)) := by
  refine ⟨?_, ?_, ⟨rfl, rfl, rfl⟩, rfl, ?_⟩
  · rw [hfields]
    rfl
  · rw [hfields]
    rfl
  intro i
  obtain ⟨mask, hmask, hbytes, hmasked⟩ := exists_key hkey
  change (unmask (maskKey? w.key) w.payload)[i]? = _
  have hflag : w.fields.masked = mask.isSome := by
    rw [hfields, hmasked]
    rfl
  rw [hmask, hflag, ← hbytes]
  cases mask with
  | none => simp [unmask]
  | some key => exact getElem?_apply key w.payload i

theorem whole_and_lawful_iff (hread : Head.read decoder.requireMask w.first w.second = .ok head) :
    w.Whole ∧ w.Lawful decoder ↔ Announces decoder w.first w.second head w.extended ∧
      w.key.length = head.keyWidth ∧ w.payload.length = head.payloadLength w.extended := by
  have hfields : w.fields = head.fields := fields_of_read hread
  have hextended : w.fields.lengthWidth = head.lengthWidth := congrArg Fields.lengthWidth hfields
  have hkey : w.fields.keyWidth = head.keyWidth := congrArg Fields.keyWidth hfields
  have hlength : w.length = head.payloadLength w.extended := by
    rw [length, hfields, payloadLength_fields (spelled_of_read hread).lengthCode]
  constructor
  · rintro ⟨hwhole, hlawful⟩
    exact ⟨⟨hread, hwhole.extended.trans hextended, hlength.symm.le.trans hlawful.length⟩,
      hwhole.key.trans hkey, hwhole.payload.trans hlength⟩
  · rintro ⟨hhead, hkeyWidth, hpayload⟩
    exact ⟨⟨hhead.width.trans hextended.symm, hkeyWidth.trans hkey.symm,
      hpayload.trans hlength.symm⟩, lawful_of_read hread, hlength.le.trans hhead.fits⟩

end Wire

variable {decoder : Decoder} {bytes rest : Bytes} {f : Frame}

/-- A whole frame that keeps the rules is read, whatever stands behind it. -/
theorem Wire.exists_decode {w : Wire} (hwhole : w.Whole) (hlawful : w.Lawful decoder)
    (haddress : decoder.maxPayload + maxHeadSize ≤ maxSize) (rest : Bytes) :
    ∃ f, w.Carries f ∧ decode decoder (w.bytes ++ rest) = .frame f rest := by
  obtain ⟨head, hread⟩ := exists_read hlawful.fields
  obtain ⟨hhead, hkey, hpayload⟩ := (whole_and_lawful_iff hread).mp ⟨hwhole, hlawful⟩
  refine ⟨_, carries_unmask (fields_of_read hread) hkey, ?_⟩
  simp only [Wire.bytes, List.cons_append, List.append_assoc]
  exact decode_of_reads (.whole hhead (hhead.frameSize_lt haddress) hkey hpayload rest)

theorem exists_wire_of_decode (h : decode decoder bytes = .frame f rest) :
    ∃ w : Wire, w.Whole ∧ w.Lawful decoder ∧ bytes = w.bytes ++ rest ∧ w.Carries f := by
  cases decode_eq_iff.mp h with
  | @whole first second head extended key payload hhead hsize hkey hpayload rest =>
      let w : Wire := ⟨first, second, extended, key, payload⟩
      obtain ⟨hwhole, hlawful⟩ :=
        (Wire.whole_and_lawful_iff (w := w) hhead.read).mpr ⟨hhead, hkey, hpayload⟩
      refine ⟨w, hwhole, hlawful, ?_, Wire.carries_unmask (fields_of_read hhead.read) hkey⟩
      simp [w, Wire.bytes]

theorem faulty_of_decode (h : decode decoder bytes = .refused e) : Faulty decoder bytes e := by
  cases decode_eq_iff.mp h with
  | fault hread body => exact .fixed (breaks_of_read hread) body
  | @large first second head extended hread hwidth hlarge body =>
      have hfields := fields_of_read hread
      refine .large ?_ ?_ body
      · rw [hfields]
        exact hwidth
      · rw [hfields, payloadLength_fields (spelled_of_read hread).lengthCode]
        exact hlarge

theorem exists_refused_of_faulty (h : Faulty decoder bytes e) :
    ∃ e, decode decoder bytes = .refused e := by
  cases h with
  | @fixed first second _ hbreaks rest =>
      cases hread : Head.read decoder.requireMask first second with
      | ok head => exact absurd hbreaks (lawful_of_read hread).not_breaks
      | error e => exact ⟨e, decode_of_reads (.fault hread rest)⟩
  | @large first second extended hwidth hlarge rest =>
      cases hread : Head.read decoder.requireMask first second with
      | error e => exact ⟨e, decode_of_reads (.fault hread (extended ++ rest))⟩
      | ok head =>
          have hfields := fields_of_read hread
          rw [hfields] at hwidth hlarge
          rw [payloadLength_fields (spelled_of_read hread).lengthCode] at hlarge
          exact ⟨.frameTooLarge, decode_of_reads (.large hread hwidth hlarge rest)⟩

/-- **A decoder reads what is laid out by the rules.** A frame is read exactly if the bytes begin
with a whole one that keeps the rules, and then it is that frame, and just its bytes are taken. An
error is reported exactly if a rule is broken in the fixed bytes or by the announced length,
whatever stands behind, and it names such a rule. In all other cases more bytes are awaited. -/
theorem decoder_follows_layout (decoder : Decoder)
    (haddress : decoder.maxPayload + maxHeadSize ≤ maxSize) (bytes : Bytes) :
    (∀ rest, (∃ f, decode decoder bytes = .frame f rest) ↔
      ∃ w : Wire, w.Whole ∧ w.Lawful decoder ∧ bytes = w.bytes ++ rest) ∧
    (∀ f rest, decode decoder bytes = .frame f rest ↔
      ∃ w : Wire, w.Whole ∧ w.Lawful decoder ∧ bytes = w.bytes ++ rest ∧ w.Carries f) ∧
    ((∃ e, decode decoder bytes = .refused e) ↔ ∃ e, Faulty decoder bytes e) ∧
    (∀ e, decode decoder bytes = .refused e → Faulty decoder bytes e) ∧
    decode decoder bytes ≠ .unaddressable := by
  refine ⟨?_, ?_, ?_, fun _ => faulty_of_decode, decode_ne_unaddressable haddress bytes⟩
  · intro rest
    constructor
    · rintro ⟨f, hread⟩
      obtain ⟨w, hwhole, hlawful, hbytes, -⟩ := exists_wire_of_decode hread
      exact ⟨w, hwhole, hlawful, hbytes⟩
    · rintro ⟨w, hwhole, hlawful, rfl⟩
      obtain ⟨f, -, hread⟩ := Wire.exists_decode hwhole hlawful haddress rest
      exact ⟨f, hread⟩
  · intro f rest
    constructor
    · exact exists_wire_of_decode
    · rintro ⟨w, hwhole, hlawful, rfl, hcarries⟩
      obtain ⟨g, hcarries', hread⟩ := Wire.exists_decode hwhole hlawful haddress rest
      rw [hcarries.unique hcarries', hread]
  · constructor
    · rintro ⟨e, hread⟩
      exact ⟨e, faulty_of_decode hread⟩
    · rintro ⟨e, hfaulty⟩
      exact exists_refused_of_faulty hfaulty

theorem decoder_follows_layout_of_letters :
    let decoder : Decoder := ⟨maxSize - maxHeadSize, true⟩
    let w : Wire := ⟨0x81, 0x82, [], [0x01, 0x02, 0x03, 0x04], [0x69, 0x6B]⟩
    decoder.maxPayload + maxHeadSize ≤ maxSize ∧ w.Whole ∧ w.Lawful decoder ∧
      w.Carries (.text [0x68, 0x69]) ∧
      decode decoder (w.bytes ++ [0xFF]) = .frame (.text [0x68, 0x69]) [0xFF] := by
  intro decoder w
  have haddress : decoder.maxPayload + maxHeadSize ≤ maxSize := by decide
  have hwhole : w.Whole := ⟨by decide, by decide, by decide⟩
  have hlawful : w.Lawful decoder := ⟨⟨by decide, by decide, by decide, by decide⟩, by decide⟩
  have hcarries : w.Carries (.text [0x68, 0x69]) := by
    refine ⟨by decide, by decide, by decide, rfl, ?_⟩
    intro i
    rcases i with _ | _ | i
    · decide
    · decide
    · rfl
  have hlayout := (decoder_follows_layout decoder haddress (w.bytes ++ [0xFF])).2.1
  exact ⟨haddress, hwhole, hlawful, hcarries,
    (hlayout _ _).mpr ⟨w, hwhole, hlawful, rfl, hcarries⟩⟩

end WebSocket.Standard

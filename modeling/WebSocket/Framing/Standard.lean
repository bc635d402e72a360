import WebSocket.Framing.Decoded

namespace WebSocket.Standard

/-- One bit, as the number that it stands for at place `weight`. -/
def flag (weight : Nat) (bit : Bool) : Nat :=
  if bit then weight else 0

/-- The first byte of a frame: final flag, reserved bits and opcode. -/
def firstByte (frame : Frame) : UInt8 :=
  UInt8.ofNat (flag 128 frame.fin + flag 64 frame.rsv1 + flag 32 frame.rsv2 + flag 16 frame.rsv3
    + frame.opcode.byte.toNat)

/-- The seven-bit length code of a payload, and the longer length that follows it. -/
def lengthField (length : Nat) : Nat × Bytes :=
  if length < 126 then (length, [])
  else if length < 65536 then (126, Bytes.bigEndian 2 length)
  else (127, Bytes.bigEndian 8 length)

def head (frame : Frame) : Bytes :=
  let (code, extended) := lengthField frame.payload.length
  firstByte frame :: UInt8.ofNat (flag 128 frame.isMasked + code) :: extended
    ++ (frame.mask.elim [] MaskKey.bytes)

def wirePayload (frame : Frame) : Bytes :=
  match frame.mask with
  | some key => Mask.apply key frame.payload
  | none => frame.payload

def encode (frame : Frame) : Bytes :=
  head frame ++ wirePayload frame

/-- How frames are read. -/
structure Decoder where
  maxPayload : Nat
  requireMask : Bool
  deriving DecidableEq

/-- The number of addresses of a machine with 64-bit words. -/
def addressSpace : Nat := UInt64.size

/-- What the two fixed bytes of a frame say. -/
structure Head where
  fin : Bool
  opcode : OpCode
  masked : Bool
  /-- A length up to 125, or 126 or 127 for the width of the length that follows. -/
  lengthCode : Nat
  deriving DecidableEq

namespace Head

/-- Reads the two fixed bytes, and refuses what breaks a rule already there. -/
def read (requireMask : Bool) (first second : UInt8) : Except Error Head := do
  let fin := first &&& 0x80 != 0
  if first &&& 0x70 != 0 then throw .reservedBits
  let opcode ← OpCode.ofByte (first &&& 0x0F)
  let masked := second &&& 0x80 != 0
  let lengthCode := (second &&& 0x7F).toNat
  if opcode.isControl then
    if !fin then throw .fragmentedControl
    if Frame.maxControlPayload < lengthCode then throw .oversizedControl
  if requireMask && !masked then throw .unmaskedFrame
  return { fin, opcode, masked, lengthCode }

def lengthWidth (h : Head) : Nat :=
  if h.lengthCode = 126 then 2 else if h.lengthCode = 127 then 8 else 0

def keyWidth (h : Head) : Nat :=
  if h.masked then 4 else 0

/-- The payload length, given the bytes of length that follow the fixed bytes. -/
def payloadLength (h : Head) (extended : Bytes) : Nat :=
  if h.lengthWidth = 0 then h.lengthCode else Bytes.toNat extended

end Head

/-- The mask key that four bytes spell; none for any other number of bytes. -/
def maskKey? : Bytes → Option MaskKey
  | [a, b, c, d] => some ⟨a, b, c, d⟩
  | _ => none

def unmask (key : Option MaskKey) (payload : Bytes) : Bytes :=
  key.elim payload (Mask.apply · payload)

/-- Reads one frame from the front of a byte string. A rule is checked as soon as the bytes that
can break it are there, whether or not the payload has arrived. -/
def decode (decoder : Decoder) : Bytes → Decoded
  | first :: second :: body =>
    match Head.read decoder.requireMask first second with
    | .error e => .refused e
    | .ok head =>
      match Bytes.splitExactly? head.lengthWidth body with
      | none => .incomplete
      | some (extended, body) =>
        let length := head.payloadLength extended
        if decoder.maxPayload < length then .refused .frameTooLarge
        else if addressSpace ≤ 2 + head.lengthWidth + head.keyWidth + length then .unaddressable
        else
          match Bytes.splitExactly? head.keyWidth body with
          | none => .incomplete
          | some (key, body) =>
            match Bytes.splitExactly? length body with
            | none => .incomplete
            | some (payload, rest) =>
              .frame (.plain head.fin head.opcode (unmask (maskKey? key) payload)) rest
  | _ => .incomplete

/-- Reads one frame from the front of a buffer, and takes it away when it is there as a whole. -/
def take (decoder : Decoder) : Reading (Option Frame) := do
  match ← get with
  | first :: second :: body =>
    let head ← Head.read decoder.requireMask first second
    match Bytes.splitExactly? head.lengthWidth body with
    | none => return none
    | some (extended, body) =>
      let length := head.payloadLength extended
      let headSize := 2 + head.lengthWidth + head.keyWidth
      if decoder.maxPayload < length then throw .frameTooLarge
      else if addressSpace ≤ headSize + length then .breakOff
      else if body.length < head.keyWidth + length then return none
      else
        let key := body.take head.keyWidth
        .advance headSize
        let payload ← .splitTo length
        return some (.plain head.fin head.opcode (unmask (maskKey? key) payload))
  | _ => return none

theorem length_lt_of_decode {decoder : Decoder} {bytes : Bytes} {frame : Frame} {rest : Bytes}
    (h : decode decoder bytes = .frame frame rest) : rest.length + 2 ≤ bytes.length := by
  unfold decode at h
  split at h
  · rename_i first second body
    split at h
    · simp at h
    · split at h
      · simp at h
      · rename_i extended afterLength hlength
        have hlength := Bytes.eq_append_of_splitExactly? hlength
        simp only at h
        split at h
        · simp at h
        · split at h
          · simp at h
          · split at h
            · simp at h
            · rename_i key afterKey hkey
              have hkey := Bytes.eq_append_of_splitExactly? hkey
              split at h
              · simp at h
              · rename_i payload rest' hpayload
                have hpayload := Bytes.eq_append_of_splitExactly? hpayload
                simp only [Decoded.frame.injEq] at h
                obtain ⟨_, rfl⟩ := h
                rw [hlength.1, hkey.1, hpayload.1]
                simp only [List.length_cons, List.length_append]
                omega
  · simp at h

end WebSocket.Standard

import WebSocket.Framing.Decoded

namespace WebSocket.Legacy

def textStart : UInt8 := 0x00

def sentinel : UInt8 := 0xFF

/-- Reads one frame from the front of a byte string. A text that is longer than `maxPayload` is
refused even before its end has arrived. -/
def decode (maxPayload : Nat) : Bytes → Decoded
  | [] => .incomplete
  | kind :: body =>
    if kind = textStart then
      let payload := body.takeWhile (· ≠ sentinel)
      if maxPayload < payload.length then .refused .frameTooLarge
      else
        match body.dropWhile (· ≠ sentinel) with
        | [] => .incomplete
        | _ :: rest => .frame (.text payload) rest
    else if kind = sentinel then
      match body with
      | [] => .incomplete
      | next :: rest =>
        if next = textStart then .frame (.closeRaw []) rest
        else .refused (.invalidLegacyFrame kind)
    else .refused (.invalidLegacyFrame kind)

/-- Reads one frame from the front of a buffer, and takes it away when it is there as a whole. -/
def take (maxPayload : Nat) : Reading (Option Frame) := do
  match ← get with
  | [] => return none
  | kind :: body =>
    if kind = textStart then
      match body.findIdx? (· = sentinel) with
      | none => if maxPayload < body.length then throw .frameTooLarge else return none
      | some stop =>
        if maxPayload < stop then throw .frameTooLarge
        else
          .advance 1
          let payload ← .splitTo stop
          .advance 1
          return some (.text payload)
    else if kind = sentinel then
      match body with
      | [] => return none
      | next :: _ =>
        if next = textStart then
          .advance 2
          return some (.closeRaw [])
        else throw (.invalidLegacyFrame kind)
    else throw (.invalidLegacyFrame kind)

theorem length_lt_of_decode {maxPayload : Nat} {bytes : Bytes} {frame : Frame} {rest : Bytes}
    (h : decode maxPayload bytes = .frame frame rest) : rest.length + 2 ≤ bytes.length := by
  unfold decode at h
  split at h
  · simp at h
  · rename_i kind body
    split at h
    · simp only at h
      split at h
      · simp at h
      · split at h
        · simp at h
        · rename_i marker rest' hdrop
          simp only [Decoded.frame.injEq] at h
          obtain ⟨_, rfl⟩ := h
          have hle : (body.dropWhile (· ≠ sentinel)).length ≤ body.length :=
            (List.dropWhile_sublist _).length_le
          rw [hdrop] at hle
          simp only [List.length_cons] at hle ⊢
          omega
    · split at h
      · split at h
        · simp at h
        · split at h
          · simp only [Decoded.frame.injEq] at h
            obtain ⟨_, rfl⟩ := h
            simp
          · simp at h
      · simp at h

/-- The bytes of a frame. Only texts and the closing of the connection can be written. -/
def encode (frame : Frame) : Except Error Bytes :=
  match frame.opcode with
  | .text =>
    if Utf8.isValid frame.payload then .ok (textStart :: frame.payload ++ [sentinel])
    else .error .invalidUtf8
  | .close => .ok [sentinel, textStart]
  | _ => .error .unsupportedFrame

/-- Work on a buffer. What was put there before a failure stays there. -/
abbrev Writing := ExceptT Error (StateM Bytes)

/-- What becomes of the work and of the buffer on which it is done. -/
def Writing.into (work : Writing Unit) (buffer : Bytes) : Except Error Unit × Bytes :=
  work.run.run buffer

def put (bytes : Bytes) : Writing Unit :=
  modify (· ++ bytes)

/-- Writes a frame behind what the buffer holds. A text is put there part by part. -/
def write (frame : Frame) : Writing Unit :=
  match frame.opcode with
  | .text => do
    unless frame.isUtf8 do throw .invalidUtf8
    put [textStart]
    put frame.payload
    put [sentinel]
  | .close => put [sentinel, textStart]
  | _ => throw .unsupportedFrame

end WebSocket.Legacy

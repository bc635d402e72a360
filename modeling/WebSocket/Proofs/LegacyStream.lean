import WebSocket.Proofs.FrameChunks
import WebSocket.Proofs.TextValidity

namespace WebSocket.Legacy

variable {f : Frame} {frames : List Frame} {maxPayload : Nat} {buffer bytes rest : Bytes}
variable {e : Error}

/-- A frame is put behind what the buffer holds as a whole, although part by part, or not at all. -/
theorem into_write (f : Frame) (buffer : Bytes) : (write f).into buffer =
    ((encode f).map fun _ => (), buffer ++ (encode f).toOption.getD []) := by
  unfold write encode
  split
  · rw [Frame.isUtf8]
    cases Utf8.isValid f.payload with
    | false => exact congrArg (Prod.mk _) (List.append_nil buffer).symm
    | true =>
        have hparts : buffer ++ [textStart] ++ f.payload ++ [sentinel] =
            buffer ++ (textStart :: f.payload ++ [sentinel]) := by simp
        exact congrArg (Prod.mk _) hparts
  · rfl
  · exact congrArg (Prod.mk _) (List.append_nil buffer).symm

theorem into_write_of_ok (h : encode f = .ok bytes) (buffer : Bytes) :
    (write f).into buffer = (.ok (), buffer ++ bytes) := by
  rw [into_write, h]
  rfl

theorem into_cons (h : (write f).into buffer = (.ok (), bytes)) :
    ((f :: frames).forM write).into buffer = (frames.forM write).into bytes := by
  have hforM : (f :: frames).forM write = write f >>= fun _ => frames.forM write := rfl
  simp only [hforM, Writing.into, ExceptT.run_bind, StateT.run_bind] at h ⊢
  rw [h]
  rfl

/-- The bytes with which a frame is written; none if it cannot be. -/
def written (f : Frame) : Bytes :=
  (encode f).toOption.getD []

theorem into_forM (h : ∀ f ∈ frames, ∃ bytes, encode f = .ok bytes) (buffer : Bytes) :
    (frames.forM write).into buffer = (.ok (), buffer ++ frames.flatMap written) := by
  induction frames generalizing buffer with
  | nil => exact congrArg (Prod.mk _) (List.append_nil buffer).symm
  | cons f frames ih =>
      obtain ⟨bytes, hbytes⟩ := h f (by simp)
      have hwritten : written f = bytes := by rw [written, hbytes]; rfl
      rw [into_cons (into_write_of_ok hbytes buffer),
        ih fun g hg => h g (List.mem_cons_of_mem _ hg), List.flatMap_cons, hwritten,
        List.append_assoc]

/-- Why a frame cannot be written. -/
def Unwritable (f : Frame) (e : Error) : Prop :=
  f.opcode = .text ∧ f.isUtf8 = false ∧ e = .invalidUtf8 ∨
    f.opcode ≠ .text ∧ f.opcode ≠ .close ∧ e = .unsupportedFrame

theorem encode_eq_error_iff : encode f = .error e ↔ Unwritable f e := by
  constructor
  · intro h
    unfold encode at h
    split at h
    · rename_i htext
      split at h
      · simp at h
      · rename_i hinvalid
        exact .inl ⟨htext, by simpa [Frame.isUtf8] using hinvalid, (Except.error.inj h).symm⟩
    · simp at h
    · rename_i htext hclose
      exact .inr ⟨htext, hclose, (Except.error.inj h).symm⟩
  · rintro (⟨htext, hinvalid, rfl⟩ | ⟨htext, hclose, rfl⟩)
    · rw [encode, htext]
      exact if_neg (by simpa [Frame.isUtf8] using hinvalid)
    · unfold encode
      split
      · contradiction
      · contradiction
      · rfl

/-- A frame that the older framing carries to a reader who takes texts of up to `maxPayload`
bytes. -/
structure Carried (maxPayload : Nat) (f : Frame) : Prop where
  kind : f.opcode = .text ∨ f.opcode = .close
  text : f.opcode = .text → f.isUtf8 = true ∧ f.payload.length ≤ maxPayload

/-- What the reader sees of a frame: a text with its payload, or a bare closing. -/
def received (f : Frame) : Frame :=
  if f.opcode = .close then .closeRaw [] else .text f.payload

theorem encode_of_text (htext : f.opcode = .text) (hvalid : f.isUtf8 = true) :
    encode f = .ok (textStart :: f.payload ++ [sentinel]) := by
  rw [encode, htext]
  exact if_pos hvalid

theorem encode_of_close (hclose : f.opcode = .close) : encode f = .ok [sentinel, textStart] := by
  rw [encode, hclose]

theorem decode_encode (hcarried : Carried maxPayload f) (hbytes : encode f = .ok bytes)
    (rest : Bytes) : decode maxPayload (bytes ++ rest) = .frame (received f) rest := by
  rcases hcarried.kind with htext | hclose
  · obtain ⟨hvalid, hsize⟩ := hcarried.text htext
    obtain rfl := Except.ok.inj ((encode_of_text htext hvalid).symm.trans hbytes)
    rw [received, if_neg (by rw [htext]; decide)]
    exact decode_encode_text (Utf8.sentinel_not_mem_of_isValid hvalid) hsize rest
  · obtain rfl := Except.ok.inj ((encode_of_close hclose).symm.trans hbytes)
    rw [received, if_pos hclose]
    rfl

theorem Carried.exists_encode (h : Carried maxPayload f) : ∃ bytes, encode f = .ok bytes := by
  rcases h.kind with htext | hclose
  · exact ⟨_, encode_of_text htext (h.text htext).1⟩
  · exact ⟨_, encode_of_close hclose⟩

theorem drain_written (h : ∀ f ∈ frames, Carried maxPayload f) :
    (reader maxPayload).drain (frames.flatMap written) =
      (frames.map received, .incomplete, []) := by
  have hread : ∀ f ∈ frames, ∀ rest,
      (reader maxPayload).read (written f ++ rest) = .frame (received f) rest := by
    intro f hf rest
    obtain ⟨bytes, hbytes⟩ := (h f hf).exists_encode
    rw [written, hbytes]
    exact decode_encode (h f hf) hbytes rest
  have hempty : (reader maxPayload).drain [] = ([], .incomplete, []) :=
    FrameReader.drain_of_incomplete rfl
  have hstream := FrameReader.drain_flatMap hread []
  rwa [hempty, List.append_nil, List.append_nil] at hstream

theorem encode_of_decode (h : decode maxPayload bytes = .frame f rest) (hvalid : f.isUtf8 = true) :
    ∃ taken, bytes = taken ++ rest ∧ encode f = .ok taken := by
  rcases laid_of_decode h with ⟨payload, rfl, -, -, rfl⟩ | ⟨rfl, rfl⟩
  · exact ⟨_, rfl, encode_of_text rfl hvalid⟩
  · exact ⟨_, rfl, encode_of_close rfl⟩

/-- What writers and readers of the older framing owe to each other. -/
structure Faithful (maxPayload : Nat) : Prop where
  /-- Frames that are written one behind the other are read back, and nothing is left over. -/
  reads : ∀ frames : List Frame, (∀ f ∈ frames, Carried maxPayload f) → ∃ bytes,
    (∀ buffer, (frames.forM write).into buffer = (.ok (), buffer ++ bytes)) ∧
      (reader maxPayload).drain bytes = (frames.map received, .incomplete, [])
  /-- A final frame without reserved bits and mask key comes back as it was, except that a closing
  has lost its payload. -/
  keeps : ∀ f, Carried maxPayload f → f = .plain true f.opcode f.payload →
    received f = { f with payload := if f.opcode = .close then [] else f.payload }
  /-- A frame that was read and is UTF-8 is written with the bytes that it took. -/
  rewrites : ∀ bytes f rest, decode maxPayload bytes = .frame f rest → f.isUtf8 = true →
    ∃ taken, bytes = taken ++ rest ∧
      ∀ buffer, (write f).into buffer = (.ok (), buffer ++ taken)
  /-- What cannot be written leaves the buffer as it was. -/
  refuses : ∀ f buffer e left, (write f).into buffer = (.error e, left) ↔
    left = buffer ∧ Unwritable f e

theorem received_of_plain (h : Carried maxPayload f) (hplain : f = .plain true f.opcode f.payload) :
    received f = { f with payload := if f.opcode = .close then [] else f.payload } := by
  rcases h.kind with hopcode | hopcode
  · rw [hplain, hopcode]
    rfl
  · rw [hplain, hopcode]
    rfl

theorem into_write_eq_error_iff {left : Bytes} :
    (write f).into buffer = (.error e, left) ↔ left = buffer ∧ Unwritable f e := by
  rw [← encode_eq_error_iff, into_write]
  cases encode f with
  | ok bytes => simp [Except.map]
  | error e' => simp [Except.map, Except.toOption, eq_comm, and_comm]

/-- **The older framing is faithful.** Texts and closings that were written are read back, what was
read is written as it was, and nothing is written of a frame that the framing has not. -/
theorem older_framing_is_faithful (maxPayload : Nat) : Faithful maxPayload where
  reads frames hframes := ⟨frames.flatMap written,
    into_forM fun f hf => (hframes f hf).exists_encode, drain_written hframes⟩
  keeps _ := received_of_plain
  rewrites bytes f rest hread hvalid := by
    obtain ⟨taken, happend, htaken⟩ := encode_of_decode hread hvalid
    exact ⟨taken, happend, into_write_of_ok htaken⟩
  refuses _ _ _ _ := into_write_eq_error_iff

theorem older_framing_is_faithful_to_zero_byte :
    let frames : List Frame := [.text [0x61, 0x00, 0x62], .close .normal [], .text []]
    (∀ f ∈ frames, Carried 3 f) ∧ ∃ bytes,
      (∀ buffer, (frames.forM write).into buffer = (.ok (), buffer ++ bytes)) ∧
        (reader 3).drain bytes =
          ([.text [0x61, 0x00, 0x62], .closeRaw [], .text []], .incomplete, []) := by
  intro frames
  have hframes : ∀ f ∈ frames, Carried 3 f := by
    intro f hf
    simp only [frames, List.mem_cons, List.not_mem_nil, or_false] at hf
    rcases hf with rfl | rfl | rfl
    · exact ⟨.inl rfl, fun _ => by decide⟩
    · exact ⟨.inr rfl, fun htext => absurd htext (by decide)⟩
    · exact ⟨.inl rfl, fun _ => by decide⟩
  exact ⟨hframes, (older_framing_is_faithful 3).reads frames hframes⟩

end WebSocket.Legacy

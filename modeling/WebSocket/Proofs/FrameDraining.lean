import WebSocket.Proofs.FrameRoundTrip
import WebSocket.Proofs.FrameTaking

namespace WebSocket

/-- A way to read one frame from the front of a byte string. A frame takes bytes away, and bytes
that arrive later only stay behind what was read. -/
structure FrameReader where
  read : Bytes → Decoded
  /-- The same work on a buffer that keeps what is not taken away. -/
  work : Reading (Option Frame)
  on_work : ∀ buffer, work.on buffer = (read buffer).left buffer
  length_lt : ∀ {bytes rest : Bytes} {f : Frame},
    read bytes = .frame f rest → rest.length < bytes.length
  read_append : ∀ {bytes : Bytes}, read bytes ≠ .incomplete →
    ∀ more, read (bytes ++ more) = (read bytes).behind more

namespace FrameReader

variable {reader : FrameReader} {bytes rest : Bytes} {f : Frame}

/-- The frames that can be read one after another, what the next attempt comes to, and the bytes
that are left then. -/
def drain (reader : FrameReader) (bytes : Bytes) : List Frame × Decoded × Bytes :=
  match _ : reader.read bytes with
  | .frame f rest =>
    let (frames, left) := reader.drain rest
    (f :: frames, left)
  | outcome => ([], outcome, bytes)
termination_by bytes.length
decreasing_by exact reader.length_lt (by assumption)

theorem drain_of_frame (h : reader.read bytes = .frame f rest) :
    reader.drain bytes = (f :: (reader.drain rest).1, (reader.drain rest).2) := by
  rw [drain]
  split <;> simp_all

theorem drain_of_incomplete (h : reader.read bytes = .incomplete) :
    reader.drain bytes = ([], .incomplete, bytes) := by
  rw [drain]
  split <;> simp_all

theorem drain_flatMap {write : Frame → Bytes} {seen : Frame → Frame} {frames : List Frame}
    (h : ∀ f ∈ frames, ∀ rest, reader.read (write f ++ rest) = .frame (seen f) rest)
    (rest : Bytes) :
    reader.drain (frames.flatMap write ++ rest) =
      (frames.map seen ++ (reader.drain rest).1, (reader.drain rest).2) := by
  induction frames with
  | nil => rfl
  | cons f frames ih =>
      have hfirst := h f (by simp) (frames.flatMap write ++ rest)
      rw [List.flatMap_cons, List.append_assoc, drain_of_frame hfirst,
        ih fun g hg => h g (List.mem_cons_of_mem _ hg)]
      rfl

/-- A part of a frame is not taken for a frame, and breaks no rule. -/
theorem read_of_proper_prefix {part : Bytes} (h : reader.read bytes = .frame f [])
    (hfront : part <+: bytes) (hproper : part ≠ bytes) : reader.read part = .incomplete := by
  obtain ⟨more, rfl⟩ := hfront
  by_contra hread
  rw [reader.read_append hread more] at h
  cases hpart : reader.read part with
  | incomplete => exact hread hpart
  | refused e => simp [hpart, Decoded.behind] at h
  | unaddressable => simp [hpart, Decoded.behind] at h
  | frame g rest =>
      rw [hpart] at h
      have hempty : rest ++ more = [] := (Decoded.frame.inj h).2
      apply hproper
      rw [(List.append_eq_nil_iff.mp hempty).2, List.append_nil]

end FrameReader

namespace Standard

def Decoder.reader (decoder : Decoder) : FrameReader where
  read := decode decoder
  work := take decoder
  on_work := on_take decoder
  length_lt h := by
    have := length_lt_of_decode h
    omega
  read_append := decode_append

/-- A frame that breaks no rule of the standard framing and none of the decoder's own. -/
structure Decoder.Admits (decoder : Decoder) (f : Frame) : Prop where
  reserved : f.rsv1 = false ∧ f.rsv2 = false ∧ f.rsv3 = false
  size : f.payload.length ≤ decoder.maxPayload
  control : f.opcode.isControl = true →
    f.fin = true ∧ f.payload.length ≤ Frame.maxControlPayload
  masked : decoder.requireMask = true → f.isMasked = true

theorem read_encode {decoder : Decoder} (haddress : decoder.maxPayload + maxHeadSize ≤ maxSize)
    {f : Frame} (h : decoder.Admits f) (rest : Bytes) :
    decoder.reader.read (encode f ++ rest) = .frame (.plain f.fin f.opcode f.payload) rest := by
  obtain ⟨h1, h2, h3⟩ := h.reserved
  have hsize := h.size
  exact decode_encode decoder ⟨h1, h2, h3, h.control, by omega⟩ h.masked hsize rest

/-- **Frames are read back as they were written**, one behind the other and unmasked, and a part of
one more frame is left as it is. -/
theorem drain_encoded (decoder : Decoder) (haddress : decoder.maxPayload + maxHeadSize ≤ maxSize)
    {frames : List Frame} (hframes : ∀ f ∈ frames, decoder.Admits f) {next : Frame}
    (hnext : decoder.Admits next) {part : Bytes} (hfront : part <+: encode next)
    (hproper : part ≠ encode next) :
    decoder.reader.drain (frames.flatMap encode ++ part) =
      (frames.map fun f => .plain f.fin f.opcode f.payload, .incomplete, part) := by
  have hwhole := read_encode haddress hnext []
  rw [List.append_nil] at hwhole
  have hpart := FrameReader.read_of_proper_prefix hwhole hfront hproper
  rw [FrameReader.drain_flatMap fun f hf => read_encode haddress (hframes f hf),
    FrameReader.drain_of_incomplete hpart, List.append_nil]

theorem drain_encoded_of_message :
    let decoder : Decoder := ⟨200, true⟩
    let frames : List Frame :=
      [(Frame.plain false .binary (List.replicate 130 0x61)).withMask ⟨1, 2, 3, 4⟩,
        (Frame.ping []).withMask ⟨5, 6, 7, 8⟩,
        (Frame.plain true .continuation [0x62]).withMask ⟨9, 10, 11, 12⟩]
    let next : Frame := (Frame.text [0x48, 0x69]).withMask ⟨13, 14, 15, 16⟩
    decoder.maxPayload + maxHeadSize ≤ maxSize ∧ (∀ f ∈ frames, decoder.Admits f) ∧
      decoder.Admits next ∧ (encode next).take 7 <+: encode next ∧
      (encode next).take 7 ≠ encode next ∧
      decoder.reader.drain (frames.flatMap encode ++ (encode next).take 7) =
        ([.plain false .binary (List.replicate 130 0x61), .ping [],
          .plain true .continuation [0x62]], .incomplete, (encode next).take 7) := by
  intro decoder frames next
  have haddress : decoder.maxPayload + maxHeadSize ≤ maxSize := by decide
  have hframes : ∀ f ∈ frames, decoder.Admits f := by
    intro f hf
    simp only [frames, List.mem_cons, List.not_mem_nil, or_false] at hf
    rcases hf with rfl | rfl | rfl
    · refine ⟨by decide, ?_, by decide, by decide⟩
      exact (List.length_replicate (n := 130)).le.trans (by decide)
    · exact ⟨by decide, by decide, by decide, by decide⟩
    · exact ⟨by decide, by decide, by decide, by decide⟩
  have hnext : decoder.Admits next := ⟨by decide, by decide, by decide, by decide⟩
  have hproper : (encode next).take 7 ≠ encode next := by decide
  exact ⟨haddress, hframes, hnext, List.take_prefix 7 _, hproper,
    drain_encoded decoder haddress hframes hnext (List.take_prefix 7 _) hproper⟩

end Standard

end WebSocket

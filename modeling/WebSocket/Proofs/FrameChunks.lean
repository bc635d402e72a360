import WebSocket.Proofs.FrameDraining

namespace WebSocket

/-- What reading one after another has come to: the frames, what the next attempt comes to, and the
bytes that are left then. -/
abbrev Drained := List Frame × Decoded × Bytes

namespace FrameReader

variable {reader : FrameReader} {bytes rest : Bytes} {f : Frame} {outcome : Decoded}

theorem drain_of_stuck (hread : reader.read bytes = outcome)
    (hstuck : ∀ f rest, outcome ≠ .frame f rest) : reader.drain bytes = ([], outcome, bytes) := by
  subst hread
  rw [drain]
  split
  · rename_i f rest hread
    exact absurd hread (hstuck f rest)
  · rfl

theorem read_append_of_eq (hread : reader.read bytes = outcome) (hdone : outcome ≠ .incomplete)
    (more : Bytes) : reader.read (bytes ++ more) = outcome.behind more := by
  subst hread
  exact reader.read_append hdone more

/-- Another chunk arrives. Behind a fault nothing is read any more: what still comes in waits. -/
def feed (reader : FrameReader) (drained : Drained) (chunk : Bytes) : Drained :=
  match drained with
  | (frames, .incomplete, left) =>
    let (more, last) := reader.drain (left ++ chunk)
    (frames ++ more, last)
  | (frames, outcome, left) => (frames, outcome, left ++ chunk)

/-- Appends chunks to an empty buffer one by one, and after each reads frames for as long as there
are whole ones. -/
def drainChunks (reader : FrameReader) (chunks : List Bytes) : Drained :=
  chunks.foldl reader.feed ([], .incomplete, [])

theorem feed_cons (drained : Drained) (chunk : Bytes) :
    reader.feed (f :: drained.1, drained.2) chunk =
      (f :: (reader.feed drained chunk).1, (reader.feed drained chunk).2) := by
  obtain ⟨_, outcome, left⟩ := drained
  cases outcome <;> rfl

/-- What comes behind bytes that were drained is read behind the frames that were found. -/
theorem drain_append (bytes more : Bytes) :
    reader.drain (bytes ++ more) = reader.feed (reader.drain bytes) more := by
  -- By the length of the first part, of which every frame takes some bytes. Only where it asks for
  -- more does the second part matter.
  induction hn : bytes.length using Nat.strong_induction_on generalizing bytes with
  | h n ih =>
      subst hn
      cases hread : reader.read bytes with
      | incomplete =>
          rw [drain_of_incomplete hread]
          rfl
      | frame f rest =>
          have hlonger := read_append_of_eq hread (by simp) more
          rw [drain_of_frame hlonger, ih rest.length (reader.length_lt hread) rest rfl,
            drain_of_frame hread, feed_cons]
      | refused e =>
          have hlonger := read_append_of_eq hread (by simp) more
          rw [drain_of_stuck hlonger (by simp [Decoded.behind]), drain_of_stuck hread (by simp)]
          rfl
      | unaddressable =>
          have hlonger := read_append_of_eq hread (by simp) more
          rw [drain_of_stuck hlonger (by simp [Decoded.behind]), drain_of_stuck hread (by simp)]
          rfl

theorem foldl_feed (bytes : Bytes) (chunks : List Bytes) :
    chunks.foldl reader.feed (reader.drain bytes) = reader.drain (bytes ++ chunks.flatten) := by
  induction chunks generalizing bytes with
  | nil => simp
  | cons chunk chunks ih =>
      rw [List.foldl_cons, ← drain_append, ih, List.flatten_cons, List.append_assoc]

theorem drainChunks_eq (hempty : reader.read [] = .incomplete) (chunks : List Bytes) :
    reader.drainChunks chunks = reader.drain chunks.flatten := by
  have hfold : chunks.foldl reader.feed (reader.drain []) = reader.drain chunks.flatten :=
    foldl_feed [] chunks
  rwa [drain_of_incomplete hempty] at hfold

/-- What a reader owes to bytes that arrive in parts. -/
structure PrefixStable (reader : FrameReader) : Prop where
  /-- On a buffer, an attempt that asks for more bytes leaves every byte where it was, -/
  keeps : ∀ buffer left, reader.work.on buffer = some (.ok none, left) ↔
    reader.read buffer = .incomplete ∧ left = buffer
  /-- and so does one that reports a fault. -/
  keeps_refused : ∀ buffer e left, reader.work.on buffer = some (.error e, left) ↔
    reader.read buffer = .refused e ∧ left = buffer
  /-- A frame leaves what stands behind it. -/
  leaves : ∀ buffer f left, reader.work.on buffer = some (.ok (some f), left) ↔
    reader.read buffer = .frame f left
  /-- Every attempt asks for more bytes, reports a fault, or reads a frame. -/
  ends : ∀ bytes, reader.read bytes = .incomplete ∨ (∃ e, reader.read bytes = .refused e) ∨
    ∃ f rest, reader.read bytes = .frame f rest
  /-- An attempt that asks for more bytes takes none away. -/
  waits : ∀ bytes, reader.read bytes = .incomplete → reader.drain bytes = ([], .incomplete, bytes)
  /-- A fault takes no bytes away, and stays whatever comes behind. -/
  refuses : ∀ bytes e, reader.read bytes = .refused e →
    reader.drain bytes = ([], .refused e, bytes) ∧
      ∀ more, reader.read (bytes ++ more) = .refused e
  /-- What comes behind a frame stays behind it. -/
  reads : ∀ bytes f rest, reader.read bytes = .frame f rest →
    ∀ more, reader.read (bytes ++ more) = .frame f (rest ++ more)
  /-- A frame takes just its own bytes, and each proper part of them asks for more. -/
  takes : ∀ bytes f rest, reader.read bytes = .frame f rest →
    ∃ taken, bytes = taken ++ rest ∧ reader.read taken = .frame f [] ∧
      ∀ part, part <+: taken → part ≠ taken → reader.read part = .incomplete
  /-- Chunk by chunk, the same frames are read and the same fault is met as all at once. -/
  cuts : ∀ chunks : List Bytes, reader.drainChunks chunks = reader.drain chunks.flatten

theorem prefixStable_of_taken (hempty : reader.read [] = .incomplete)
    (haddressable : ∀ bytes, reader.read bytes ≠ .unaddressable)
    (htaken : ∀ bytes f rest, reader.read bytes = .frame f rest →
      ∃ taken, bytes = taken ++ rest ∧ reader.read taken = .frame f []) :
    reader.PrefixStable where
  keeps buffer left := by
    rw [reader.on_work]
    cases reader.read buffer <;> simp [Decoded.left, eq_comm]
  keeps_refused buffer e left := by
    rw [reader.on_work]
    cases reader.read buffer <;> simp [Decoded.left, eq_comm]
  leaves buffer f left := by
    rw [reader.on_work]
    cases reader.read buffer <;> simp [Decoded.left]
  ends bytes := by
    cases hread : reader.read bytes with
    | incomplete => exact .inl rfl
    | refused e => exact .inr (.inl ⟨e, rfl⟩)
    | frame f rest => exact .inr (.inr ⟨f, rest, rfl⟩)
    | unaddressable => exact absurd hread (haddressable bytes)
  waits _ hread := drain_of_incomplete hread
  refuses _ _ hread := ⟨drain_of_stuck hread (by simp), read_append_of_eq hread (by simp)⟩
  reads _ _ _ hread := read_append_of_eq hread (by simp)
  takes bytes f rest hread := by
    obtain ⟨taken, happend, hwhole⟩ := htaken bytes f rest hread
    exact ⟨taken, happend, hwhole, fun _ => read_of_proper_prefix hwhole⟩
  cuts := drainChunks_eq hempty

end FrameReader

namespace Standard

theorem widths_le (head : Head) : head.lengthWidth + head.keyWidth ≤ 12 := by
  unfold Head.lengthWidth Head.keyWidth
  grind

theorem Announces.frameSize_lt {decoder : Decoder} {first second : UInt8} {head : Head}
    {extended : Bytes} (h : Announces decoder first second head extended)
    (haddress : decoder.maxPayload + maxHeadSize ≤ maxSize) :
    head.frameSize extended < addressSpace := by
  have hwidths := widths_le head
  have hfits := h.fits
  unfold maxHeadSize maxSize at haddress
  unfold Head.frameSize addressSpace
  omega

theorem decode_ne_unaddressable {decoder : Decoder}
    (haddress : decoder.maxPayload + maxHeadSize ≤ maxSize) (bytes : Bytes) :
    decode decoder bytes ≠ .unaddressable := by
  intro h
  cases decode_eq_iff.mp h with
  | unaddressable hhead hsize => exact absurd (hhead.frameSize_lt haddress) (Nat.not_lt_of_le hsize)

theorem taken_of_decode {decoder : Decoder} {bytes rest : Bytes} {f : Frame}
    (h : decode decoder bytes = .frame f rest) :
    ∃ taken, bytes = taken ++ rest ∧ decode decoder taken = .frame f [] := by
  cases decode_eq_iff.mp h with
  | @whole first second head extended key payload hhead hsize hkey hpayload rest =>
      exact ⟨first :: second :: (extended ++ (key ++ (payload ++ []))), by simp,
        decode_of_reads (.whole hhead hsize hkey hpayload [])⟩

end Standard

namespace Legacy

def reader (maxPayload : Nat) : FrameReader where
  read := decode maxPayload
  work := take maxPayload
  on_work := on_take maxPayload
  length_lt h := Nat.lt_of_succ_lt (length_lt_of_decode h)
  read_append := decode_append

theorem decode_ne_unaddressable (maxPayload : Nat) (bytes : Bytes) :
    decode maxPayload bytes ≠ .unaddressable := by
  unfold decode
  grind

theorem taken_of_decode {maxPayload : Nat} {bytes rest : Bytes} {f : Frame}
    (h : decode maxPayload bytes = .frame f rest) :
    ∃ taken, bytes = taken ++ rest ∧ decode maxPayload taken = .frame f [] := by
  rcases laid_of_decode h with ⟨payload, rfl, hclean, hsize, rfl⟩ | ⟨rfl, rfl⟩
  · refine ⟨textStart :: payload ++ [sentinel], rfl, ?_⟩
    have hwhole := decode_encode_text hclean hsize []
    rwa [List.append_nil] at hwhole
  · exact ⟨[sentinel, textStart], rfl, rfl⟩

end Legacy

/-- **Frames do not depend on how their bytes arrive**, in either framing, whatever a decoder takes
and whatever it insists on: an attempt that comes to no frame leaves the buffer as it was, a fault
and a frame stay as they are whatever comes behind, a part of a frame asks for more bytes, and every
way to cut a stream into chunks gives the same frames and the same fault. -/
theorem decoders_are_prefix_stable (decoder : Standard.Decoder)
    (haddress : decoder.maxPayload + maxHeadSize ≤ maxSize) (maxPayload : Nat) :
    decoder.reader.PrefixStable ∧ (Legacy.reader maxPayload).PrefixStable := by
  constructor
  · exact FrameReader.prefixStable_of_taken rfl
      (fun bytes => Standard.decode_ne_unaddressable haddress bytes)
      (fun _ _ _ hread => Standard.taken_of_decode hread)
  · exact FrameReader.prefixStable_of_taken rfl
      (fun bytes => Legacy.decode_ne_unaddressable maxPayload bytes)
      (fun _ _ _ hread => Legacy.taken_of_decode hread)

theorem decoders_are_prefix_stable_at_largest_limit :
    maxSize - maxHeadSize + maxHeadSize ≤ maxSize ∧
      (Standard.Decoder.reader ⟨maxSize - maxHeadSize, true⟩).PrefixStable ∧
      (Legacy.reader maxSize).PrefixStable := by
  have haddress : maxSize - maxHeadSize + maxHeadSize ≤ maxSize := by decide
  exact ⟨haddress, decoders_are_prefix_stable ⟨maxSize - maxHeadSize, true⟩ haddress maxSize⟩

/-- Two frames in three chunks, the second of which ends in the middle of a frame. -/
example : FrameReader.drainChunks (Standard.Decoder.reader ⟨4, false⟩)
    [[0x81], [0x01, 0x61, 0x82], [0x01, 0x62]] =
      ([.text [0x61], .binary [0x62]], .incomplete, []) := by
  rw [FrameReader.drainChunks_eq rfl]
  decide +kernel

end WebSocket

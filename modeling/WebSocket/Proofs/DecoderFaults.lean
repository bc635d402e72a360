import WebSocket.Proofs.WireLayout

/-!
The decoder of the standard framing as a machine runs it, where each step can fail: a byte is read
at an index, sizes are added and subtracted as 64-bit numbers, bytes are cut off the buffer, and
memory is asked for. No index and no cut is ever outside of the buffer. The one sum that can be too
large is that of the size of the head and the announced length, for a limit that is so large that it
leaves no room for the head.
-/

namespace WebSocket.Standard

/-- What can stop a run of the decoder in the middle of a step. -/
inductive Fault where
  /-- A byte is asked for that is not in the buffer. -/
  | outside
  /-- A sum is no 64-bit number. -/
  | overflow
  /-- A difference is below zero. -/
  | underflow
  /-- There is no memory for the bytes that are missing. -/
  | exhausted
  deriving DecidableEq

/-! ## The steps -/

def byteAt (src : Bytes) (i : Nat) : Except Fault UInt8 :=
  match src[i]? with
  | some b => .ok b
  | none => .error .outside

def bytesAt (src : Bytes) (start : Nat) : Nat → Except Fault Bytes
  | 0 => return []
  | count + 1 => do
    let b ← byteAt src start
    let bs ← bytesAt src (start + 1) count
    return b :: bs

def sum (a b : Nat) : Except Fault Nat :=
  if a + b < addressSpace then .ok (a + b) else .error .overflow

def difference (a b : Nat) : Except Fault Nat :=
  if b ≤ a then .ok (a - b) else .error .underflow

/-- Cuts off the first `n` bytes of the buffer. -/
def cut (n : Nat) (src : Bytes) : Except Fault (Bytes × Bytes) :=
  if n ≤ src.length then .ok (src.take n, src.drop n) else .error .outside

def lengthAt (head : Head) (src : Bytes) : Except Fault Nat :=
  if head.lengthWidth = 0 then return head.lengthCode
  else do
    let extended ← bytesAt src 2 head.lengthWidth
    return Bytes.toNat extended

/-- What is left to do when the length is known. `grants` says for how many more bytes there is
memory. -/
def stepBody (grants : Nat → Bool) (head : Head) (length : Nat) (src : Bytes) :
    Except Fault Decoded := do
  let headSize ← sum (2 + head.lengthWidth) head.keyWidth
  let frameSize ← sum headSize length
  if src.length < frameSize then
    let missing ← difference frameSize src.length
    if grants missing then return .incomplete
    throw .exhausted
  let key ← bytesAt src (2 + head.lengthWidth) head.keyWidth
  let (_, src) ← cut headSize src
  let (payload, rest) ← cut length src
  return .frame (.plain head.fin head.opcode (unmask (maskKey? key) payload)) rest

def stepLength (grants : Nat → Bool) (decoder : Decoder) (head : Head) (src : Bytes) :
    Except Fault Decoded := do
  if src.length < 2 + head.lengthWidth then return .incomplete
  let length ← lengthAt head src
  if decoder.maxPayload < length then return .refused .frameTooLarge
  stepBody grants head length src

/-- The decoder, step by step. -/
def stepwise (grants : Nat → Bool) (decoder : Decoder) (src : Bytes) : Except Fault Decoded := do
  if src.length < 2 then return .incomplete
  let first ← byteAt src 0
  let second ← byteAt src 1
  match Head.read decoder.requireMask first second with
  | .error e => return .refused e
  | .ok head => stepLength grants decoder head src

/-! ## What each step comes to -/

theorem byteAt_append (front : Bytes) (b : UInt8) (rest : Bytes) :
    byteAt (front ++ b :: rest) front.length = .ok b := by
  simp [byteAt]

theorem bytesAt_append (front middle rest : Bytes) :
    bytesAt (front ++ (middle ++ rest)) front.length middle.length = .ok middle := by
  induction middle generalizing front with
  | nil => rfl
  | cons b middle ih =>
      have hnext := ih (front ++ [b])
      simp only [List.append_assoc, List.length_append, List.length_singleton,
        List.singleton_append] at hnext
      simp only [List.length_cons, bytesAt, List.cons_append, byteAt_append, hnext]
      rfl

theorem cut_append {n : Nat} {front : Bytes} (h : front.length = n) (rest : Bytes) :
    cut n (front ++ rest) = .ok (front, rest) := by
  subst h
  simp [cut]

theorem sum_of_lt {a b : Nat} (h : a + b < addressSpace) : sum a b = .ok (a + b) :=
  if_pos h

variable {grants : Nat → Bool} {decoder : Decoder} {head : Head} {first second : UInt8}
variable {extended key payload src : Bytes} {e : Error}

theorem lengthAt_eq (hwidth : extended.length = head.lengthWidth) (body : Bytes) :
    lengthAt head (first :: second :: (extended ++ body)) = .ok (head.payloadLength extended) := by
  unfold lengthAt Head.payloadLength
  split
  · rfl
  · have hextended := bytesAt_append [first, second] extended body
    rw [← hwidth]
    simp only [List.cons_append, List.nil_append, List.length_cons, List.length_nil] at hextended
    rw [hextended]
    rfl

theorem sum_headSize (head : Head) : sum (2 + head.lengthWidth) head.keyWidth =
    .ok (2 + head.lengthWidth + head.keyWidth) := by
  have hwidths := widths_le head
  have haddress : 14 < addressSpace := by decide
  exact sum_of_lt (by omega)

theorem stepBody_of_overflow (h : addressSpace ≤ head.frameSize extended) (src : Bytes) :
    stepBody grants head (head.payloadLength extended) src = .error .overflow := by
  have hsum : sum (2 + head.lengthWidth + head.keyWidth) (head.payloadLength extended) =
      .error .overflow := if_neg (Nat.not_lt_of_le h)
  simp only [stepBody, sum_headSize, hsum, bind, Except.bind]

theorem stepBody_of_short (hsize : head.frameSize extended < addressSpace)
    (h : src.length < head.frameSize extended) :
    stepBody grants head (head.payloadLength extended) src =
      if grants (head.frameSize extended - src.length) then .ok .incomplete
      else .error .exhausted := by
  have hsum : sum (2 + head.lengthWidth + head.keyWidth) (head.payloadLength extended) =
      .ok (head.frameSize extended) := sum_of_lt hsize
  have hdifference : difference (head.frameSize extended) src.length =
      .ok (head.frameSize extended - src.length) := if_pos h.le
  simp only [stepBody, sum_headSize, hsum, if_pos h, hdifference, bind, Except.bind]
  rfl

theorem stepBody_of_whole (hwidth : extended.length = head.lengthWidth)
    (hsize : head.frameSize extended < addressSpace) (hkey : key.length = head.keyWidth)
    (hpayload : payload.length = head.payloadLength extended) (rest : Bytes) :
    stepBody grants head (head.payloadLength extended)
        (first :: second :: (extended ++ (key ++ (payload ++ rest)))) =
      .ok (.frame (.plain head.fin head.opcode (unmask (maskKey? key) payload)) rest) := by
  have hsum : sum (2 + head.lengthWidth + head.keyWidth) (head.payloadLength extended) =
      .ok (head.frameSize extended) := sum_of_lt hsize
  have hwhole : ¬(first :: second :: (extended ++ (key ++ (payload ++ rest)))).length <
      head.frameSize extended := by
    simp only [List.length_cons, List.length_append, hwidth, hkey, hpayload, Head.frameSize]
    omega
  have hbytes : bytesAt (first :: second :: (extended ++ (key ++ (payload ++ rest))))
      (2 + head.lengthWidth) head.keyWidth = .ok key := by
    have hbehind := bytesAt_append (first :: second :: extended) key (payload ++ rest)
    rwa [List.length_cons, List.length_cons, hwidth, hkey, Nat.add_comm, Nat.add_comm _ 1,
      ← Nat.add_assoc] at hbehind
  have hhead : cut (2 + head.lengthWidth + head.keyWidth)
      (first :: second :: (extended ++ (key ++ (payload ++ rest)))) =
        .ok (first :: second :: (extended ++ key), payload ++ rest) := by
    have hfront : (first :: second :: (extended ++ key)).length =
        2 + head.lengthWidth + head.keyWidth := by
      simp only [List.length_cons, List.length_append, hwidth, hkey]
      omega
    have hcut := cut_append hfront (payload ++ rest)
    rwa [List.cons_append, List.cons_append, List.append_assoc] at hcut
  simp only [stepBody, sum_headSize, hsum, if_neg hwhole, hbytes, hhead, cut_append hpayload, bind,
    Except.bind, pure, Except.pure]

theorem stepLength_of_short (hshort : src.length < 2 + head.lengthWidth) :
    stepLength grants decoder head src = .ok .incomplete :=
  if_pos hshort

theorem stepLength_eq (hwidth : extended.length = head.lengthWidth) (body : Bytes) :
    stepLength grants decoder head (first :: second :: (extended ++ body)) =
      if decoder.maxPayload < head.payloadLength extended then .ok (.refused .frameTooLarge)
      else stepBody grants head (head.payloadLength extended)
        (first :: second :: (extended ++ body)) := by
  have hlength : ¬(first :: second :: (extended ++ body)).length < 2 + head.lengthWidth := by
    simp only [List.length_cons, List.length_append, hwidth]
    omega
  simp only [stepLength, if_neg hlength, lengthAt_eq hwidth, bind, Except.bind, pure, Except.pure]

theorem stepwise_cons (body : Bytes) : stepwise grants decoder (first :: second :: body) =
    match Head.read decoder.requireMask first second with
    | .error e => .ok (.refused e)
    | .ok head => stepLength grants decoder head (first :: second :: body) := by
  have hfixed : ¬(first :: second :: body).length < 2 := by
    simp only [List.length_cons]
    omega
  rw [stepwise, if_neg hfixed]
  rfl

theorem stepwise_of_announces (hhead : Announces decoder first second head extended)
    (body : Bytes) : stepwise grants decoder (first :: second :: (extended ++ body)) =
      stepBody grants head (head.payloadLength extended)
        (first :: second :: (extended ++ body)) := by
  simp only [stepwise_cons, hhead.read, stepLength_eq hhead.width,
    if_neg (Nat.not_lt_of_le hhead.fits)]

/-! ## What a run comes to -/

/-- A run ends as the decoder says, or breaks off at the size of the frame, or for want of memory
for a part of what the decoder takes. -/
inductive Ends (grants : Nat → Bool) (decoder : Decoder) (src : Bytes) :
    Except Fault Decoded → Prop where
  | done (h : decode decoder src ≠ .unaddressable) :
      Ends grants decoder src (.ok (decode decoder src))
  | overflow (h : decode decoder src = .unaddressable) : Ends grants decoder src (.error .overflow)
  | exhausted {missing : Nat} (h : decode decoder src = .incomplete)
      (hgrants : grants missing = false)
      (hmissing : src.length + missing ≤ decoder.maxPayload + maxHeadSize) :
      Ends grants decoder src (.error .exhausted)

theorem ends_stepwise (grants : Nat → Bool) (decoder : Decoder) (src : Bytes) :
    Ends grants decoder src (stepwise grants decoder src) := by
  -- Where the decoder reaches an end that is no overflow, so does the run.
  have hdone : ∀ outcome, Reads decoder src outcome → outcome ≠ .unaddressable →
      stepwise grants decoder src = .ok outcome →
      Ends grants decoder src (stepwise grants decoder src) := by
    rintro outcome hreads haddressable hrun
    obtain rfl := decode_of_reads hreads
    rw [hrun]
    exact .done haddressable
  have hreads := reads_decode decoder src
  generalize houtcome : decode decoder src = outcome at hreads
  cases hreads with
  | short h => exact hdone _ (.short h) (by simp) (if_pos h)
  | fault h body => exact hdone _ (.fault h body) (by simp) (by rw [stepwise_cons, h])
  | @length first second head body hread h =>
      have hshort : (first :: second :: body).length < 2 + head.lengthWidth := by
        simp only [List.length_cons]
        omega
      refine hdone _ (.length hread h) (by simp) ?_
      simp only [stepwise_cons, hread, stepLength_of_short hshort]
  | large hread hwidth h body =>
      refine hdone _ (.large hread hwidth h body) (by simp) ?_
      simp only [stepwise_cons, hread, stepLength_eq hwidth, if_pos h]
  | unaddressable hhead h body =>
      rw [stepwise_of_announces hhead, stepBody_of_overflow h]
      exact .overflow houtcome
  | @body first second head extended body hhead hsize h =>
      have hshort : (first :: second :: (extended ++ body)).length < head.frameSize extended := by
        simp only [List.length_cons, List.length_append, hhead.width, Head.frameSize]
        omega
      have hrun : stepwise grants decoder _ = _ :=
        (stepwise_of_announces hhead body).trans (stepBody_of_short hsize hshort)
      split at hrun
      · exact hdone _ (.body hhead hsize h) (by simp) hrun
      · rename_i hgrants
        rw [hrun]
        refine .exhausted houtcome (Bool.eq_false_of_not_eq_true hgrants) ?_
        have hwidths := widths_le head
        have hfits := hhead.fits
        rw [Nat.add_sub_of_le hshort.le, Head.frameSize, maxHeadSize]
        omega
  | whole hhead hsize hkey hpayload rest =>
      refine hdone _ (.whole hhead hsize hkey hpayload rest) (by simp) ?_
      rw [stepwise_of_announces hhead, stepBody_of_whole hhead.width hsize hkey hpayload]

/-- A frame that keeps the rules and is not too large announces a size that is no 64-bit number. -/
def Overflows (decoder : Decoder) (src : Bytes) : Prop :=
  ∃ first second extended rest, src = first :: second :: (extended ++ rest) ∧
    (Fields.of first second).Lawful decoder.requireMask ∧
    extended.length = (Fields.of first second).lengthWidth ∧
    (Fields.of first second).payloadLength extended ≤ decoder.maxPayload ∧
    addressSpace ≤ 2 + (Fields.of first second).lengthWidth + (Fields.of first second).keyWidth +
      (Fields.of first second).payloadLength extended

theorem decode_eq_unaddressable_iff :
    decode decoder src = .unaddressable ↔ Overflows decoder src := by
  constructor
  · intro h
    cases decode_eq_iff.mp h with
    | @unaddressable first second head extended hhead hsize body =>
        have hfields := fields_of_read hhead.read
        have hlength := payloadLength_fields (spelled_of_read hhead.read).lengthCode extended
        refine ⟨first, second, extended, body, rfl, lawful_of_read hhead.read, ?_⟩
        rw [hfields, hlength]
        exact ⟨hhead.width, hhead.fits, hsize⟩
  · rintro ⟨first, second, extended, rest, rfl, hlawful, hwidth, hfits, hsize⟩
    obtain ⟨head, hread⟩ := exists_read hlawful
    have hlength := payloadLength_fields (spelled_of_read hread).lengthCode extended
    rw [fields_of_read hread, hlength] at hfits hsize
    rw [fields_of_read hread] at hwidth
    exact decode_of_reads (.unaddressable ⟨hread, hwidth, hfits⟩ hsize rest)

theorem exists_overflows_iff (hcap : decoder.maxPayload ≤ maxSize) :
    (∃ src, Overflows decoder src) ↔ maxSize < decoder.maxPayload + maxHeadSize := by
  constructor
  · rintro ⟨src, h⟩
    by_contra hroom
    exact decode_ne_unaddressable (Nat.le_of_not_lt hroom) src (decode_eq_unaddressable_iff.mpr h)
  · intro hroom
    have hspelled : Bytes.toNat (Bytes.bigEndian 8 decoder.maxPayload) = decoder.maxPayload := by
      refine Bytes.toNat_bigEndian (hcap.trans_lt ?_)
      decide
    have hlength : (Fields.of 0x82 0xFF).payloadLength (Bytes.bigEndian 8 decoder.maxPayload) =
        decoder.maxPayload := hspelled
    -- A masked frame that announces just as much as the limit allows.
    refine ⟨0x82 :: 0xFF :: (Bytes.bigEndian 8 decoder.maxPayload ++ []), 0x82, 0xFF, _, [], rfl,
      ⟨by decide, by decide, by decide, fun _ => by decide⟩, Bytes.length_bigEndian .., hlength.le,
      ?_⟩
    rw [hlength]
    change addressSpace ≤ 14 + decoder.maxPayload
    unfold maxSize maxHeadSize at hroom
    unfold addressSpace
    omega

/-- **The decoder fails nowhere but at the size of a frame.** A run that is not broken off ends as
the decoder says. It is only broken off if the size of a frame that is not too large for the decoder
is no 64-bit number, or if there is no memory for the rest of a frame. There are frames of such a
size exactly if the limit leaves no room for the head of a frame. -/
theorem decoder_fails_only_at_size (grants : Nat → Bool) (decoder : Decoder)
    (hcap : decoder.maxPayload ≤ maxSize) :
    (∀ src outcome, stepwise grants decoder src = .ok outcome → decode decoder src = outcome) ∧
    (∀ src fault, stepwise grants decoder src = .error fault →
      fault = .overflow ∧ Overflows decoder src ∨
      fault = .exhausted ∧ ∃ missing, grants missing = false ∧
        src.length + missing ≤ decoder.maxPayload + maxHeadSize) ∧
    (∀ src, stepwise grants decoder src = .error .overflow ↔ Overflows decoder src) ∧
    ((∃ src, stepwise grants decoder src = .error .overflow) ↔
      maxSize < decoder.maxPayload + maxHeadSize) := by
  have hoverflow : ∀ src, stepwise grants decoder src = .error .overflow ↔
      Overflows decoder src := by
    intro src
    rw [← decode_eq_unaddressable_iff]
    have hends := ends_stepwise grants decoder src
    generalize stepwise grants decoder src = run at hends
    cases hends with
    | done h => simp [h]
    | overflow h => simp [h]
    | exhausted h => simp [h]
  refine ⟨?_, ?_, hoverflow, ?_⟩
  · intro src outcome hrun
    have hends := ends_stepwise grants decoder src
    rw [hrun] at hends
    cases hends with
    | done => rfl
  · intro src fault hrun
    have hends := ends_stepwise grants decoder src
    rw [hrun] at hends
    cases hends with
    | overflow h => exact .inl ⟨rfl, decode_eq_unaddressable_iff.mp h⟩
    | exhausted _ hgrants hmissing => exact .inr ⟨rfl, _, hgrants, hmissing⟩
  · rw [← exists_overflows_iff hcap]
    exact exists_congr hoverflow

theorem decoder_fails_only_at_size_of_largest_limits :
    maxSize ≤ maxSize ∧ maxSize - maxHeadSize ≤ maxSize ∧
      (∃ src, stepwise (fun _ => true) ⟨maxSize, true⟩ src = .error .overflow) ∧
      ¬∃ src, stepwise (fun _ => true) ⟨maxSize - maxHeadSize, true⟩ src = .error .overflow := by
  have hroom : maxSize - maxHeadSize ≤ maxSize := Nat.sub_le ..
  have hunlimited := decoder_fails_only_at_size (fun _ => true) ⟨maxSize, true⟩ le_rfl
  have hlimited :=
    decoder_fails_only_at_size (fun _ => true) ⟨maxSize - maxHeadSize, true⟩ hroom
  exact ⟨le_rfl, hroom, hunlimited.2.2.2.mpr (by decide), mt hlimited.2.2.2.mp (by decide)⟩

/-- Ten bytes that keep all the rules break off a decoder without a limit. -/
theorem largest_length_overflows :
    (Fields.of 0x81 0x7F).Lawful false ∧
      stepwise (fun _ => true) ⟨maxSize, false⟩
        (0x81 :: 0x7F :: List.replicate 8 0xFF) = .error .overflow := by
  refine ⟨⟨by decide, by decide, by decide, by decide⟩, ?_⟩
  decide +kernel

end WebSocket.Standard

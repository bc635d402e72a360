import WebSocket.Proofs.FrameRoundTrip
import WebSocket.Proofs.TextBytes

namespace WebSocket

namespace Scheme

/-- Reads one frame that a server of this scheme sent. -/
def clientDecode (scheme : Scheme) (maxPayload : Nat) (bytes : Bytes) : Decoded :=
  match scheme with
  | .rfc6455 => Standard.decode ⟨maxPayload, false⟩ bytes
  | .legacy => Legacy.decode maxPayload bytes

theorem length_lt_of_clientDecode {scheme : Scheme} {maxPayload : Nat} {bytes rest : Bytes}
    {f : Frame} (h : scheme.clientDecode maxPayload bytes = .frame f rest) :
    rest.length < bytes.length := by
  cases scheme with
  | rfc6455 =>
      have := Standard.length_lt_of_decode h
      omega
  | legacy =>
      have := Legacy.length_lt_of_decode h
      omega

/-- The frames that stand one behind the other in a byte string; none if anything is left over. -/
def readAll (scheme : Scheme) (maxPayload : Nat) (bytes : Bytes) : Option (List Frame) :=
  if bytes = [] then some []
  else
    match _ : scheme.clientDecode maxPayload bytes with
    | .frame f rest => (scheme.readAll maxPayload rest).map (f :: ·)
    | _ => none
termination_by bytes.length
decreasing_by exact length_lt_of_clientDecode (by assumption)

theorem readAll_of_frame {scheme : Scheme} {maxPayload : Nat} {bytes rest : Bytes} {f : Frame}
    (h : scheme.clientDecode maxPayload bytes = .frame f rest) :
    scheme.readAll maxPayload bytes = (scheme.readAll maxPayload rest).map (f :: ·) := by
  have hpos : bytes ≠ [] := by
    rintro rfl
    simpa using length_lt_of_clientDecode h
  rw [readAll, if_neg hpos]
  split
  · simp_all
  · simp_all

theorem readAll_eq_none {scheme : Scheme} {maxPayload : Nat} {bytes : Bytes} (hpos : bytes ≠ [])
    (h : ∀ f rest, scheme.clientDecode maxPayload bytes ≠ .frame f rest) :
    scheme.readAll maxPayload bytes = none := by
  rw [readAll, if_neg hpos]
  split
  · rename_i f rest hdecode
    exact absurd hdecode (h f rest)
  · rfl

/-- A frame that a server of this scheme may send: whole and unmasked, and in the older scheme a
text without the closing marker or a bare closing. -/
structure Sayable (scheme : Scheme) (f : Frame) : Prop where
  whole : f = .plain true f.opcode f.payload
  lawful : f.Lawful
  legacy : scheme = .legacy →
    f.opcode = .text ∧ Legacy.sentinel ∉ f.payload ∨ f = .closeRaw []

/-- The bytes of frames that a server of this scheme may send, one behind the other. -/
inductive Spoken (scheme : Scheme) : List Frame → Bytes → Prop where
  | nil : Spoken scheme [] []
  | cons {f : Frame} {fs : List Frame} {front rest : Bytes} (hsayable : scheme.Sayable f)
      (hencode : scheme.encode f = .ok front) (h : Spoken scheme fs rest) :
      Spoken scheme (f :: fs) (front ++ rest)

theorem Spoken.append {scheme : Scheme} {fs gs : List Frame} {front rest : Bytes}
    (h : Spoken scheme fs front) (h' : Spoken scheme gs rest) :
    Spoken scheme (fs ++ gs) (front ++ rest) := by
  induction h with
  | nil => exact h'
  | cons hsayable hencode h ih =>
      rw [List.append_assoc]
      exact .cons hsayable hencode ih

theorem Spoken.single {scheme : Scheme} {f : Frame} {bytes : Bytes} (hsayable : scheme.Sayable f)
    (hencode : scheme.encode f = .ok bytes) : Spoken scheme [f] bytes := by
  have h := Spoken.cons hsayable hencode .nil
  rwa [List.append_nil] at h

theorem sayable_of_spoken {scheme : Scheme} {fs : List Frame} {bytes : Bytes}
    (h : Spoken scheme fs bytes) : ∀ f ∈ fs, scheme.Sayable f := by
  induction h with
  | nil => simp
  | cons hsayable hencode h ih => simpa using ⟨hsayable, ih⟩

/-- A client reads what a server says. -/
theorem clientDecode_encode {scheme : Scheme} {maxPayload : Nat} {f : Frame} {front : Bytes}
    (hsayable : scheme.Sayable f) (hencode : scheme.encode f = .ok front)
    (hsize : f.payload.length ≤ maxPayload) (rest : Bytes) :
    scheme.clientDecode maxPayload (front ++ rest) = .frame f rest := by
  cases scheme with
  | rfc6455 =>
      simp only [encode, Except.ok.injEq] at hencode
      subst hencode
      have hdecode := Standard.decode_encode ⟨maxPayload, false⟩ hsayable.lawful
        (by simp) hsize rest
      have hfin : f.fin = true := by rw [hsayable.whole]; rfl
      rwa [hfin, ← hsayable.whole] at hdecode
  | legacy =>
      rcases hsayable.legacy rfl with ⟨hopcode, hclean⟩ | rfl
      · simp only [encode, Legacy.encode, hopcode] at hencode
        split at hencode
        · simp only [Except.ok.injEq] at hencode
          subst hencode
          have hdecode := Legacy.decode_encode_text hclean hsize rest
          have htext : f = .text f.payload := by
            have hwhole := hsayable.whole
            rwa [hopcode] at hwhole
          rwa [← htext] at hdecode
        · simp at hencode
      · simp only [encode, Legacy.encode, Frame.closeRaw, Frame.plain, Except.ok.injEq] at hencode
        subst hencode
        rfl

theorem readAll_of_spoken {scheme : Scheme} {maxPayload : Nat} {fs : List Frame} {bytes : Bytes}
    (h : Spoken scheme fs bytes) (hsizes : ∀ f ∈ fs, f.payload.length ≤ maxPayload) :
    scheme.readAll maxPayload bytes = some fs := by
  induction h with
  | nil => rw [readAll, if_pos rfl]
  | @cons f fs front rest hsayable hencode h ih =>
      have hdecode := clientDecode_encode hsayable hencode (hsizes f (by simp)) rest
      rw [readAll_of_frame hdecode, ih fun g hg => hsizes g (by simp [hg])]
      rfl

theorem sayable_text {scheme : Scheme} {text : String}
    (hsize : (Utf8.encode text).length + maxHeadSize ≤ maxSize) :
    scheme.Sayable (.text (Utf8.encode text)) where
  whole := rfl
  lawful := ⟨rfl, rfl, rfl, by simp [Frame.text, Frame.plain, OpCode.isControl], hsize⟩
  legacy := fun _ => .inl ⟨rfl, Utf8.sentinel_not_mem_encode text⟩

theorem lawful_of_control {opcode : OpCode} {payload : Bytes}
    (hshort : payload.length ≤ Frame.maxControlPayload) :
    (Frame.plain true opcode payload).Lawful := by
  refine ⟨rfl, rfl, rfl, fun _ => ⟨rfl, hshort⟩, ?_⟩
  change payload.length + maxHeadSize ≤ maxSize
  unfold Frame.maxControlPayload at hshort
  unfold maxHeadSize maxSize UInt64.size
  omega

theorem sayable_pong {scheme : Scheme} {payload bytes : Bytes}
    (hencode : scheme.encode (.pong payload) = .ok bytes)
    (hshort : payload.length ≤ Frame.maxControlPayload) : scheme.Sayable (.pong payload) where
  whole := rfl
  lawful := lawful_of_control hshort
  legacy := by
    rintro rfl
    simp [encode, Legacy.encode, Frame.pong, Frame.plain] at hencode

/-- The close frame that a client gets to see: the older scheme only knows a bare closing. -/
def closing (scheme : Scheme) (payload : Bytes) : Frame :=
  match scheme with
  | .rfc6455 => .closeRaw payload
  | .legacy => .closeRaw []

@[simp] theorem opcode_closing (scheme : Scheme) (payload : Bytes) :
    (scheme.closing payload).opcode = .close := by
  cases scheme <;> rfl

theorem spoken_close {scheme : Scheme} {payload bytes : Bytes}
    (hencode : scheme.encode (.closeRaw payload) = .ok bytes)
    (hshort : payload.length ≤ Frame.maxControlPayload) :
    Spoken scheme [scheme.closing payload] bytes := by
  cases scheme with
  | rfc6455 => exact .single ⟨rfl, lawful_of_control hshort, by simp⟩ hencode
  | legacy =>
      refine .single ⟨rfl, lawful_of_control (by simp), fun _ => .inr rfl⟩ ?_
      exact hencode

end Scheme

end WebSocket

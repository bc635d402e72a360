import Mathlib.Logic.Basic
import WebSocket.Framing.Legacy

namespace WebSocket

namespace Utf8

theorem encode_append (s t : String) : encode (s ++ t) = encode s ++ encode t := by
  simp [encode, String.toList_append]

theorem length_encodeChar_le (c : Char) : (encodeChar c).length ≤ 4 := by
  simp only [encodeChar]
  split
  · simp
  split
  · simp
  split
  · simp
  · simp

theorem length_encode_le (s : String) : (encode s).length ≤ 4 * s.length := by
  have hchars : ∀ cs : List Char, (cs.flatMap encodeChar).length ≤ 4 * cs.length := by
    intro cs
    induction cs with
    | nil => simp
    | cons c cs ih =>
        have hchar := length_encodeChar_le c
        simp only [List.flatMap_cons, List.length_append, List.length_cons]
        omega
  exact hchars s.toList

theorem toNat_lt (c : Char) : c.toNat < 0x110000 := by
  rcases c.valid with hvalid | hvalid
  · exact Nat.lt_trans hvalid (by decide)
  · exact hvalid.2

theorem ones_not_mem_encodeChar (c : Char) : (0xFF : UInt8) ∉ encodeChar c := by
  have hbyte : ∀ n : Nat, n < 255 → (0xFF : UInt8) ≠ UInt8.ofNat n := by
    intro n hn heq
    have := congrArg UInt8.toNat heq
    simp only [UInt8.toNat_ofNat', UInt8.reduceToNat] at this
    omega
  have hbound := toNat_lt c
  simp only [encodeChar]
  split
  · simp only [List.mem_cons, List.not_mem_nil, or_false]
    exact hbyte _ (by omega)
  split
  · simp only [List.mem_cons, List.not_mem_nil, or_false, not_or]
    exact ⟨hbyte _ (by omega), hbyte _ (by omega)⟩
  split
  · simp only [List.mem_cons, List.not_mem_nil, or_false, not_or]
    exact ⟨hbyte _ (by omega), hbyte _ (by omega), hbyte _ (by omega)⟩
  · simp only [List.mem_cons, List.not_mem_nil, or_false, not_or]
    exact ⟨hbyte _ (by omega), hbyte _ (by omega), hbyte _ (by omega), hbyte _ (by omega)⟩

theorem sentinel_not_mem_encode (s : String) : Legacy.sentinel ∉ encode s := by
  intro hmem
  obtain ⟨c, -, hc⟩ := List.mem_flatMap.mp hmem
  exact ones_not_mem_encodeChar c hc

end Utf8

namespace Error

theorem length_around_byte_le (before after : String) (b : UInt8) :
    (Utf8.encode (before ++ toString b.toNat ++ after)).length ≤
      (Utf8.encode before).length + 12 + (Utf8.encode after).length := by
  have hdigits : (toString b.toNat).length ≤ 3 :=
    (Nat.length_repr_le_iff (by omega)).mpr (Nat.lt_trans b.toNat_lt (by decide))
  have hnumber := Utf8.length_encode_le (toString b.toNat)
  simp only [Utf8.encode_append, List.length_append]
  omega

/-- The wording of every error that a peer is told about fits into a close frame. -/
theorem length_message_le {e : Error} (h : e.closeCode?.isSome = true) :
    (Utf8.encode e.message).length + 2 ≤ Frame.maxControlPayload := by
  cases e with
  | invalidOpCode b =>
      exact Nat.le_trans (Nat.add_le_add_right (length_around_byte_le _ _ b) 2) (by decide +kernel)
  | invalidLegacyFrame b =>
      exact Nat.le_trans (Nat.add_le_add_right (length_around_byte_le _ _ b) 2) (by decide +kernel)
  | missingKey | unsupportedVersion | invalidLegacyKey | malformedRequest | handshakeTimeout
  | connectionClosed | unknownConnection | unsupportedFrame => exact absurd h Bool.false_ne_true
  | _ => decide +kernel

end Error

end WebSocket

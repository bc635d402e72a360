import Mathlib.Tactic.IntervalCases
import WebSocket.Mask

namespace WebSocket

namespace ByteOrder

theorem bytes_of_shifts (a b c d : UInt8) :
    let w := a.toUInt32 <<< 24 ||| b.toUInt32 <<< 16 ||| c.toUInt32 <<< 8 ||| d.toUInt32
    (w >>> 24).toUInt8 = a ∧ (w >>> 16).toUInt8 = b ∧ (w >>> 8).toUInt8 = c ∧ w.toUInt8 = d := by
  refine ⟨?_, ?_, ?_, ?_⟩
  all_goals
    apply UInt8.eq_of_toBitVec_eq
    apply BitVec.eq_of_getLsbD_eq
    intro i hi
    interval_cases i <;> simp [BitVec.getLsbD_of_ge]

theorem bytes_word (order : ByteOrder) (a b c d : UInt8) :
    order.bytes (order.word a b c d) = [a, b, c, d] := by
  cases order with
  | big =>
      obtain ⟨ha, hb, hc, hd⟩ := bytes_of_shifts a b c d
      simp only [bytes, word, ha, hb, hc, hd]
  | little =>
      obtain ⟨hd, hc, hb, ha⟩ := bytes_of_shifts d c b a
      simp only [bytes, word, ha, hb, hc, hd]

theorem bytes_xor (order : ByteOrder) (v w : UInt32) :
    order.bytes (v ^^^ w) = List.zipWith (· ^^^ ·) (order.bytes v) (order.bytes w) := by
  cases order <;> simp [bytes, UInt32.shiftRight_xor]

end ByteOrder

namespace MaskKey

theorem byte_eq_getD (key : MaskKey) (i : Nat) : key.byte i = key.bytes.getD (i % 4) 0 := by
  have hplace : i % 4 = 0 ∨ i % 4 = 1 ∨ i % 4 = 2 ∨ i % 4 = 3 := by omega
  unfold byte
  rcases hplace with h | h | h | h <;> rw [h] <;> rfl

theorem byte_add_of_dvd (key : MaskKey) {n : Nat} (h : 4 ∣ n) (i : Nat) :
    key.byte (i + n) = key.byte i := by
  obtain ⟨m, rfl⟩ := h
  rw [byte_eq_getD, byte_eq_getD, Nat.add_mul_mod_self_left]

end MaskKey

namespace Mask

variable {key : MaskKey} {data masked masked' : Bytes}

/-- The rule of the protocol: `masked` is as long as `data`, and each byte of `data` is combined with
the byte of the key at its position modulo four. -/
structure Masked (key : MaskKey) (data masked : Bytes) : Prop where
  length : masked.length = data.length
  byte {i : Nat} {b : UInt8} (h : data[i]? = some b) :
    masked[i]? = some (b ^^^ key.bytes.getD (i % 4) 0)

theorem Masked.unique (h : Masked key data masked) (h' : Masked key data masked') :
    masked = masked' := by
  refine List.ext_getElem? fun i => ?_
  cases hi : data[i]? with
  | none =>
      have hshort : data.length ≤ i := List.getElem?_eq_none_iff.mp hi
      rw [List.getElem?_eq_none (h.length.le.trans hshort),
        List.getElem?_eq_none (h'.length.le.trans hshort)]
  | some b => rw [h.byte hi, h'.byte hi]

theorem Masked.symm (h : Masked key data masked) : Masked key masked data := by
  refine ⟨h.length.symm, fun {i b} hi => ?_⟩
  have hlt : i < data.length := h.length ▸ (List.getElem?_eq_some_iff.mp hi).1
  have hdata : data[i]? = some data[i] := List.getElem?_eq_getElem hlt
  have hb : data[i] ^^^ key.bytes.getD (i % 4) 0 = b :=
    Option.some.inj ((h.byte hdata).symm.trans hi)
  rw [hdata, ← hb, UInt8.xor_assoc, UInt8.xor_self, UInt8.xor_zero]

theorem getElem?_byByte (key : MaskKey) (data : Bytes) (i : Nat) :
    (byByte key data)[i]? = data[i]?.map (· ^^^ key.bytes.getD (i % 4) 0) := by
  rw [byByte, List.getElem?_mapIdx, key.byte_eq_getD]

theorem length_byByte (key : MaskKey) (data : Bytes) :
    (byByte key data).length = data.length :=
  List.length_mapIdx

theorem masked_byByte (key : MaskKey) (data : Bytes) : Masked key data (byByte key data) :=
  ⟨length_byByte key data, fun hi => by rw [getElem?_byByte, hi, Option.map_some]⟩

theorem byByte_byByte (key : MaskKey) (data : Bytes) : byByte key (byByte key data) = data :=
  (masked_byByte key (byByte key data)).unique (masked_byByte key data).symm

/-- Behind whole words the key lines up again. -/
theorem byByte_append (key : MaskKey) {front : Bytes} (h : 4 ∣ front.length) (rest : Bytes) :
    byByte key (front ++ rest) = byByte key front ++ byByte key rest := by
  simp only [byByte, List.mapIdx_append, key.byte_add_of_dvd h]

/-- One turn of the loop: a word combined with the word of the key has the bytes of the word, each
combined with its byte of the key, whichever of them the machine takes for the highest. -/
theorem bytes_masked_word (order : ByteOrder) (key : MaskKey) (a b c d : UInt8) :
    order.bytes (order.word a b c d ^^^ key.word order) = byByte key [a, b, c, d] := by
  rw [MaskKey.word, order.bytes_xor, order.bytes_word, order.bytes_word]
  rfl

theorem byWordOnto_eq (order : ByteOrder) (key : MaskKey) (done data : Bytes) :
    byWordOnto order key done data = done.reverse ++ byByte key data := by
  fun_induction byWordOnto order key done data with
  | case1 done a b c d rest word ih =>
      have hword : word = byByte key [a, b, c, d] := bytes_masked_word order key a b c d
      have haligned : 4 ∣ [a, b, c, d].length := dvd_refl 4
      have hfront : byByte key (a :: b :: c :: d :: rest) = word ++ byByte key rest := by
        rw [hword]
        exact byByte_append key haligned rest
      rw [ih, hfront, List.reverse_append, List.reverse_reverse, List.append_assoc]
  | case2 done rest hshort => rfl

theorem byWord_eq_byByte (order : ByteOrder) (key : MaskKey) (data : Bytes) :
    byWord order key data = byByte key data := by
  rw [byWord, byWordOnto_eq, List.reverse_nil, List.nil_append]

theorem apply_apply (key : MaskKey) (data : Bytes) : apply key (apply key data) = data := by
  rw [apply, apply, byWord_eq_byByte, byWord_eq_byByte, byByte_byByte]

theorem length_apply (key : MaskKey) (data : Bytes) : (apply key data).length = data.length := by
  rw [apply, byWord_eq_byByte, length_byByte]

/-- **Masking by words is the rule of the protocol**, for every key and payload and on machines of
either byte order. What comes out is as long as the payload and is the one byte string that the rule
allows, so it is what masking byte for byte gives, whatever the length leaves over at the end; and a
machine of either order, with the same key, gives back the payload that another one masked. -/
theorem words_follow_rule (order : ByteOrder) (key : MaskKey) (data : Bytes) :
    (byWord order key data).length = data.length ∧
    (∀ masked, byWord order key data = masked ↔ Masked key data masked) ∧
    byWord order key data = byByte key data ∧
    apply key data = byWord order key data ∧
    ∀ other : ByteOrder, byWord other key (byWord order key data) = data := by
  have hbytes : byWord order key data = byByte key data := byWord_eq_byByte order key data
  have hrule : Masked key data (byWord order key data) := hbytes ▸ masked_byByte key data
  refine ⟨hrule.length, fun masked => ⟨?_, hrule.unique⟩, hbytes, ?_, fun other => ?_⟩
  · rintro rfl
    exact hrule
  · rw [apply, byWord_eq_byByte, hbytes]
  · rw [byWord_eq_byByte, hbytes, byByte_byByte]

-- The greeting that the protocol gives as its example.
example : byWord .big ⟨0x37, 0xfa, 0x21, 0x3d⟩ [0x48, 0x65, 0x6c, 0x6c, 0x6f] =
    [0x7f, 0x9f, 0x4d, 0x51, 0x58] := by
  decide

end Mask

end WebSocket

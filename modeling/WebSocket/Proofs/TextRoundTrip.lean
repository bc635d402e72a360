import Mathlib.Tactic.IntervalCases
import WebSocket.Framing
import WebSocket.Proofs.TextBytes

namespace WebSocket

namespace Utf8

namespace Scan

variable {s : Scan}

theorem next_of_between (h : s.owed = 0) (b : UInt8) : s.next b = s.head b := by
  simp [next, h]

theorem toNat_ofNat {n : Nat} (h : n < 256) : (UInt8.ofNat n).toNat = n := by
  rw [UInt8.toNat_ofNat']
  exact Nat.mod_eq_of_lt h

theorem next_expect (s : Scan) {bits owed d : Nat} {low high : UInt8} (howed : 0 < owed)
    (hd : d < 64) (hlow : low.toNat ≤ 0x80 + d) (hhigh : 0x80 + d ≤ high.toNat) :
    (s.expect bits owed low high).next (UInt8.ofNat (0x80 + d)) =
      if owed = 1 then s.push (some (Char.ofNat (bits * 64 + d)))
      else s.expect (bits * 64 + d) (owed - 1) 0x80 0xBF := by
  have hbyte : (UInt8.ofNat (0x80 + d)).toNat = 0x80 + d := toNat_ofNat (by omega)
  have hrange : low ≤ UInt8.ofNat (0x80 + d) ∧ UInt8.ofNat (0x80 + d) ≤ high := by
    rw [UInt8.le_iff_toNat_le, UInt8.le_iff_toNat_le, hbyte]
    exact ⟨hlow, hhigh⟩
  have hpositive : owed ≠ 0 := by omega
  simp only [next, expect, push, hpositive, if_false, if_pos hrange, hbyte, Nat.add_sub_cancel_left]

theorem head_one {n : Nat} (h : n < 0x80) :
    s.head (UInt8.ofNat n) = s.push (some (Char.ofNat n)) := by
  have hbyte : (UInt8.ofNat n).toNat = n := toNat_ofNat (by omega)
  simp only [head, hbyte, if_pos h]

theorem head_two {n : Nat} (hlow : 2 ≤ n) (hhigh : n < 32) :
    s.head (UInt8.ofNat (0xC0 + n)) = s.expect n 1 0x80 0xBF := by
  have hbyte : (UInt8.ofNat (0xC0 + n)).toNat = 0xC0 + n := toNat_ofNat (by omega)
  simp only [head, hbyte]
  rw [if_neg (by omega), if_neg (by omega), if_pos (by omega), Nat.add_sub_cancel_left]

theorem head_three {n : Nat} (h : n < 16) :
    s.head (UInt8.ofNat (0xE0 + n)) =
      s.expect n 2 (if n = 0 then 0xA0 else 0x80) (if n = 13 then 0x9F else 0xBF) := by
  interval_cases n <;> rfl

theorem head_four {n : Nat} (h : n < 5) :
    s.head (UInt8.ofNat (0xF0 + n)) =
      s.expect n 3 (if n = 0 then 0x90 else 0x80) (if n = 4 then 0x8F else 0xBF) := by
  interval_cases n <;> rfl

end Scan

theorem not_surrogate (c : Char) : c.toNat < 0xD800 ∨ 0xE000 ≤ c.toNat := by
  rcases c.valid with hvalid | hvalid
  · exact .inl hvalid
  · exact .inr (Nat.succ_le_of_lt hvalid.1)

open Scan in
theorem foldl_next_encodeChar {s : Scan} (h : s.owed = 0) (c : Char) :
    (encodeChar c).foldl next s = s.push (some c) := by
  have hbound := toNat_lt c
  have hsurrogate := not_surrogate c
  have hchar : s.push (some (Char.ofNat c.toNat)) = s.push (some c) := by
    rw [Char.ofNat_toNat]
  unfold encodeChar
  generalize c.toNat = n at *
  dsimp only
  split
  · rename_i hone
    rw [List.foldl_cons, next_of_between h, head_one hone, hchar, List.foldl_nil]
  split
  · rename_i hone htwo
    have hbits : n / 64 * 64 + n % 64 = n := by omega
    rw [List.foldl_cons, next_of_between h, head_two (by omega) (by omega), List.foldl_cons,
      next_expect s (by omega) (by omega) (by simp) (by simp; omega), if_pos rfl, hbits, hchar,
      List.foldl_nil]
  split
  · rename_i hone htwo hthree
    have hbits : (n / 4096 * 64 + n / 64 % 64) * 64 + n % 64 = n := by omega
    rw [List.foldl_cons, next_of_between h, head_three (by omega), List.foldl_cons,
      next_expect s (by omega) (by omega) ?low ?high, if_neg (by omega), List.foldl_cons,
      next_expect s (by omega) (by omega) (by simp) (by simp; omega), if_pos rfl, hbits, hchar,
      List.foldl_nil]
    case low =>
      -- After `E0` the narrower range leaves out what two bytes could spell.
      split <;> simp
      omega
    case high =>
      -- After `ED` it leaves out the surrogates.
      split <;> simp <;> omega
  · rename_i hone htwo hthree
    have hbits : ((n / 262144 * 64 + n / 4096 % 64) * 64 + n / 64 % 64) * 64 + n % 64 = n := by
      omega
    rw [List.foldl_cons, next_of_between h, head_four (by omega), List.foldl_cons,
      next_expect s (by omega) (by omega) ?low ?high, if_neg (by omega), List.foldl_cons,
      next_expect s (by omega) (by omega) (by simp) (by simp; omega), if_neg (by omega),
      List.foldl_cons, next_expect s (by omega) (by omega) (by simp) (by simp; omega), if_pos rfl,
      hbits, hchar, List.foldl_nil]
    case low =>
      split <;> simp
      omega
    case high =>
      split <;> simp <;> omega

theorem foldl_next_flatMap {s : Scan} (h : s.owed = 0) (chars : List Char) :
    ((chars.flatMap encodeChar).foldl Scan.next s).done =
        chars.reverse.map some ++ s.done ∧
      ((chars.flatMap encodeChar).foldl Scan.next s).owed = 0 := by
  induction chars generalizing s with
  | nil => exact ⟨rfl, h⟩
  | cons c chars ih =>
      rw [List.flatMap_cons, List.foldl_append, foldl_next_encodeChar h]
      obtain ⟨hdone, howed⟩ := ih (s := s.push (some c)) rfl
      refine ⟨?_, howed⟩
      rw [hdone]
      simp [Scan.push]

/-- Every text is read back, character by character. -/
theorem scan_encode (text : String) : scan (encode text) = text.toList.map some := by
  obtain ⟨hdone, howed⟩ := foldl_next_flatMap (s := Scan.start) rfl text.toList
  rw [scan, encode, Scan.finish, howed, if_pos rfl, hdone]
  simp [Scan.start]

theorem isValid_encode (text : String) : isValid (encode text) = true := by
  rw [isValid, scan_encode]
  simp

theorem decode_encode (text : String) : decode (encode text) = text := by
  rw [decode, scan_encode, List.map_map]
  simp

end Utf8

theorem Scheme.exists_encode_text (scheme : Scheme) (text : String) :
    ∃ bytes, scheme.encode (.text (Utf8.encode text)) = .ok bytes := by
  cases scheme with
  | rfc6455 => exact ⟨_, rfl⟩
  | legacy =>
      refine ⟨Legacy.textStart :: Utf8.encode text ++ [Legacy.sentinel], ?_⟩
      simp [encode, Legacy.encode, Frame.text, Frame.plain, Utf8.isValid_encode]

end WebSocket

import WebSocket.Handshake.Header
import WebSocket.Proofs.DecimalReading
import WebSocket.Text.Utf8

namespace WebSocket.Handshake

/-- The number, of any size, that the digits of a key spell in their order. -/
def spelledNumber (value : Bytes) : Nat :=
  Nat.ofDigits 10 ((value.filter Ascii.isDigit).reverse.map fun b => b.toNat - 0x30)

def HasDigit (value : Bytes) : Prop :=
  ∃ b ∈ value, Ascii.isDigit b = true

variable {value other : Bytes}

theorem isDigit_ofNat {b : UInt8} (h : Ascii.isDigit b = true) :
    (Char.ofNat b.toNat).isDigit = true ∧ (Char.ofNat b.toNat).toNat = b.toNat := by
  have hall : ∀ n < 256, Ascii.isDigit (UInt8.ofNat n) = true →
      (Char.ofNat n).isDigit = true ∧ (Char.ofNat n).toNat = n := by
    decide +kernel
  exact hall b.toNat b.toNat_lt (by rwa [UInt8.ofNat_toNat])

theorem isDigit_of_mem_keyDigits {c : Char} (h : c ∈ keyDigits value) : c.isDigit = true := by
  obtain ⟨b, hb, rfl⟩ := List.mem_map.mp h
  exact (isDigit_ofNat (List.mem_filter.mp hb).2).1

theorem numeral_keyDigits (value : Bytes) :
    Text.numeral (keyDigits value) = spelledNumber value := by
  rw [Text.numeral, spelledNumber, keyDigits, ← List.map_reverse, List.map_map]
  congr 1
  refine List.map_congr_left fun b hb => ?_
  have hdigit := (List.mem_filter.mp (List.mem_reverse.mp hb)).2
  rw [Function.comp_apply, (isDigit_ofNat hdigit).2]

theorem hasDigit_iff_filter : HasDigit value ↔ value.filter Ascii.isDigit ≠ [] := by
  rw [ne_eq, List.filter_eq_nil_iff, HasDigit]
  simp

theorem keyDigits_ne_nil_iff : keyDigits value ≠ [] ↔ HasDigit value := by
  rw [keyDigits, ne_eq, List.map_eq_nil_iff, hasDigit_iff_filter]

/-- What a key comes to that has a digit: its whole number is divided, if it fits into 64 bits. -/
theorem keyNumber_of_hasDigit (h : HasDigit value) :
    keyNumber value =
      if UInt64.size ≤ spelledNumber value ∨ keySpaces value = 0 ∨
        spelledNumber value % keySpaces value ≠ 0 ∨
        UInt32.size ≤ spelledNumber value / keySpaces value
      then .error .invalidLegacyKey else .ok (spelledNumber value / keySpaces value) := by
  have hbound : 0 < UInt64.size := by decide
  have hread := Text.readNat_of_digits (keyDigits_ne_nil_iff.mpr h)
    (fun c hc => isDigit_of_mem_keyDigits hc) hbound
  rw [numeral_keyDigits] at hread
  unfold keyNumber
  rw [hread]
  by_cases hfits : spelledNumber value < UInt64.size
  · rw [if_pos hfits]
    simp only [Nat.not_le_of_lt hfits, false_or]
  · rw [if_neg hfits, if_pos (.inl (Nat.le_of_not_lt hfits))]

theorem keyNumber_of_not_hasDigit (h : ¬HasDigit value) :
    keyNumber value = .error .invalidLegacyKey := by
  have hnil : keyDigits value = [] := by
    by_contra hne
    exact h (keyDigits_ne_nil_iff.mp hne)
  unfold keyNumber
  rw [hnil]
  rfl

theorem keyNumber_error {e : Error} (h : keyNumber value = .error e) : e = .invalidLegacyKey := by
  by_cases hdigit : HasDigit value
  · rw [keyNumber_of_hasDigit hdigit] at h
    split at h
    · exact (Except.error.inj h).symm
    · simp at h
  · rw [keyNumber_of_not_hasDigit hdigit] at h
    exact (Except.error.inj h).symm

theorem keyNumber_of_leading_zeros {zeros : Nat} (hdigit : HasDigit value)
    (hzeros : other.filter Ascii.isDigit = List.replicate zeros 0x30 ++ value.filter Ascii.isDigit)
    (hspaces : keySpaces other = keySpaces value) : keyNumber other = keyNumber value := by
  have hother : HasDigit other := by
    rw [hasDigit_iff_filter] at hdigit ⊢
    rw [hzeros]
    exact List.append_ne_nil_of_right_ne_nil _ hdigit
  have hdigits : keyDigits other = List.replicate zeros '0' ++ keyDigits value := by
    rw [keyDigits, keyDigits, hzeros, List.map_append, List.map_replicate]
    rfl
  have hnumber : spelledNumber other = spelledNumber value := by
    rw [← numeral_keyDigits, ← numeral_keyDigits, hdigits, Text.numeral_zeros_append]
  rw [keyNumber_of_hasDigit hother, keyNumber_of_hasDigit hdigit, hnumber, hspaces]

theorem lt_of_quotient_lt {spaces q : Nat} (hspaces : spaces < UInt32.size)
    (hq : q < UInt32.size) : spaces * q < UInt64.size :=
  Nat.mul_lt_mul'' hspaces hq

/-- **The number of a key is exact**, although it is read from 64 bits. A key of fewer than 2^32
bytes gives a number exactly if it has a digit and a space and the spaces divide the number that its
digits spell with a quotient below 2^32, which is the number that it gives; every other key is
refused. A number of more than 64 bits has no such quotient, and leading zeros do not count. -/
theorem key_number_is_exact (h : value.length < UInt32.size) :
    (∀ q, keyNumber value = .ok q ↔
      HasDigit value ∧ 0 < value.count 0x20 ∧ value.count 0x20 ∣ spelledNumber value ∧
        spelledNumber value / value.count 0x20 = q ∧ q < UInt32.size) ∧
    ((∀ q, keyNumber value ≠ .ok q) → keyNumber value = .error .invalidLegacyKey) ∧
    (UInt64.size ≤ spelledNumber value →
      ∀ q, value.count 0x20 * q = spelledNumber value → UInt32.size ≤ q) ∧
    (HasDigit value → ∀ zeros longer,
      longer.filter Ascii.isDigit = List.replicate zeros 0x30 ++ value.filter Ascii.isDigit →
        longer.count 0x20 = value.count 0x20 → keyNumber longer = keyNumber value) := by
  have hspaces : value.count 0x20 < UInt32.size := List.count_le_length.trans_lt h
  have hkeySpaces : keySpaces value = value.count 0x20 := rfl
  refine ⟨fun q => ⟨fun hok => ?_, ?_⟩, fun hnone => ?_, fun hlarge q hq => ?_, ?_⟩
  · by_cases hdigit : HasDigit value
    · rw [keyNumber_of_hasDigit hdigit, hkeySpaces] at hok
      split at hok
      · simp at hok
      · rename_i hfits
        rw [Except.ok.injEq] at hok
        obtain ⟨-, hpositive, hdivides, hsmall⟩ := by simpa only [not_or, not_not] using hfits
        exact ⟨hdigit, Nat.pos_of_ne_zero hpositive, Nat.dvd_of_mod_eq_zero hdivides, hok, by omega⟩
    · rw [keyNumber_of_not_hasDigit hdigit] at hok
      simp at hok
  · -- The number is the quotient times the spaces, so it was not too large to be read.
    rintro ⟨hdigit, hpositive, hdivides, rfl, hsmall⟩
    have hfits := lt_of_quotient_lt hspaces hsmall
    rw [Nat.mul_div_cancel' hdivides] at hfits
    rw [keyNumber_of_hasDigit hdigit, hkeySpaces, if_neg]
    simp only [not_or, not_not]
    exact ⟨Nat.not_le_of_lt hfits, hpositive.ne', Nat.mod_eq_zero_of_dvd hdivides,
      Nat.not_le_of_lt hsmall⟩
  · cases hnumber : keyNumber value with
    | ok q => exact absurd hnumber (hnone q)
    | error e => rw [keyNumber_error hnumber]
  · by_contra hsmall
    have hfits := lt_of_quotient_lt hspaces (Nat.lt_of_not_le hsmall)
    omega
  · exact fun hdigit zeros longer => keyNumber_of_leading_zeros hdigit

/-- A key whose digits, with the zeros in front, are more than 64 bits can hold. -/
def paddedKey : Bytes :=
  Utf8.encode "000000000000000000004 @1  46546xW%0l 1 5"

theorem key_number_of_paddedKey :
    keyNumber paddedKey = .ok 829309203 ∧
      keyNumber (Utf8.encode "18446744073709551616 ") = .error .invalidLegacyKey := by
  constructor
  · exact ((key_number_is_exact (by decide +kernel)).1 829309203).mpr
      ⟨⟨0x30, by decide +kernel⟩, by decide +kernel⟩
  · have hshort : (Utf8.encode "18446744073709551616 ").length < UInt32.size := by decide +kernel
    have hexact := key_number_is_exact hshort
    refine hexact.2.1 fun q hq => ?_
    obtain ⟨-, -, hdivides, hquotient, hsmall⟩ := (hexact.1 q).mp hq
    have hwhole := Nat.mul_div_cancel' hdivides
    rw [hquotient] at hwhole
    have hlarge := hexact.2.2.1 (by decide +kernel) q hwhole
    omega

end WebSocket.Handshake

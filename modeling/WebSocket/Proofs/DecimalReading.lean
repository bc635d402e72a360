import Mathlib.Data.Nat.Digits.Defs
import WebSocket.Text.Decimal

namespace WebSocket.Text

/-- The number that digits spell, the most significant one first. -/
def numeral (digits : List Char) : Nat :=
  Nat.ofDigits 10 (digits.reverse.map fun c => c.toNat - 48)

theorem numeral_cons (c : Char) (digits : List Char) :
    numeral (c :: digits) = (c.toNat - 48) * 10 ^ digits.length + numeral digits := by
  simp only [numeral, List.reverse_cons, List.map_append, List.map_cons, List.map_nil,
    Nat.ofDigits_append, Nat.ofDigits_singleton, List.length_map, List.length_reverse]
  rw [Nat.mul_comm, Nat.add_comm]

theorem numeral_zeros_append (zeros : Nat) (digits : List Char) :
    numeral (List.replicate zeros '0' ++ digits) = numeral digits := by
  induction zeros with
  | zero => rfl
  | succ zeros ih =>
      rw [List.replicate_succ, List.cons_append, numeral_cons, ih]
      simp

theorem numeral_eq_ofDigitChars (digits : List Char) :
    numeral digits = Nat.ofDigitChars 10 digits 0 := by
  induction digits with
  | nil => rfl
  | cons c digits ih =>
      rw [numeral_cons, ih, Nat.ofDigitChars_cons,
        @Nat.ofDigitChars_eq_ofDigitChars_zero digits (_ + _), Nat.mul_zero, Nat.zero_add,
        Nat.mul_comm]
      rfl

variable {bound : Nat} {digits : List Char}

theorem appendDigit_of_isDigit {c : Char} (h : c.isDigit = true) (n : Nat) :
    appendDigit bound n c =
      if n * 10 + (c.toNat - 48) < bound then .ok (n * 10 + (c.toNat - 48))
      else .error .tooLarge := by
  simp only [appendDigit, digitValue?, h, if_true]

theorem foldlM_appendDigit (h : ∀ c ∈ digits, c.isDigit = true) {n : Nat} (hn : n < bound) :
    digits.foldlM (appendDigit bound) n =
      if n * 10 ^ digits.length + numeral digits < bound
      then .ok (n * 10 ^ digits.length + numeral digits) else .error .tooLarge := by
  induction digits generalizing n with
  | nil =>
      have hnil : n * 10 ^ ([] : List Char).length + numeral [] = n := by simp [numeral]
      rw [hnil, if_pos hn]
      rfl
  | cons c digits ih =>
      rw [List.forall_mem_cons] at h
      have hvalue : n * 10 ^ (c :: digits).length + numeral (c :: digits) =
          (n * 10 + (c.toNat - 48)) * 10 ^ digits.length + numeral digits := by
        rw [numeral_cons, List.length_cons, Nat.pow_succ]
        ring
      rw [List.foldlM_cons, appendDigit_of_isDigit h.1, hvalue]
      split
      · rename_i hnext
        exact ih h.2 hnext
      · -- What is too large already does not get smaller.
        rename_i hnext
        have hgrows : n * 10 + (c.toNat - 48) ≤
            (n * 10 + (c.toNat - 48)) * 10 ^ digits.length + numeral digits :=
          (Nat.le_mul_of_pos_right _ (Nat.pow_pos (by decide))).trans (Nat.le_add_right ..)
        rw [if_neg (by omega)]
        rfl

theorem readDigits_of_digits (h : ∀ c ∈ digits, c.isDigit = true) (hbound : 0 < bound) :
    readDigits bound digits =
      if numeral digits < bound then .ok (numeral digits) else .error .tooLarge := by
  rw [readDigits, foldlM_appendDigit h hbound, Nat.zero_mul, Nat.zero_add]

theorem readNat_of_digits (hne : digits ≠ []) (h : ∀ c ∈ digits, c.isDigit = true)
    (hbound : 0 < bound) :
    readNat bound digits =
      if numeral digits < bound then .ok (numeral digits) else .error .tooLarge := by
  rw [← readDigits_of_digits h hbound]
  cases digits with
  | nil => exact absurd rfl hne
  | cons c digits =>
      have hsign : c ≠ '+' := by
        rintro rfl
        exact absurd (h '+' (by simp)) (by decide)
      refine readNat.eq_4 bound (c :: digits) (by simp) ?_ ?_
      · intro hplus
        exact hsign (List.cons.inj hplus).1
      · intro rest hplus
        exact hsign (List.cons.inj hplus).1

/-- A number is read as it is written. -/
theorem readNat_toString {n : Nat} (h : n < bound) :
    readNat bound (toString n).toList = .ok n := by
  have hdigits : ∀ c ∈ Nat.toDigits 10 n, c.isDigit = true :=
    fun c hc => Nat.isDigit_of_mem_toDigits (by decide) (by decide) hc
  rw [Nat.toString_eq_ofList_toDigits, String.toList_ofList,
    readNat_of_digits Nat.toDigits_ne_nil hdigits (Nat.zero_lt_of_lt h),
    numeral_eq_ofDigitChars, Nat.ofDigitChars_ten_toDigits, if_pos h]

end WebSocket.Text

import WebSocket.Bytes
import Mathlib.Data.List.Induction
import Mathlib.Tactic.Ring

namespace WebSocket.Bytes

theorem splitExactly?_append {n : Nat} {front : Bytes} (rest : Bytes)
    (h : front.length = n) : splitExactly? n (front ++ rest) = some (front, rest) := by
  subst h
  simp [splitExactly?]

theorem splitExactly?_append_right {n : Nat} {bytes front rest : Bytes}
    (h : splitExactly? n bytes = some (front, rest)) (more : Bytes) :
    splitExactly? n (bytes ++ more) = some (front, rest ++ more) := by
  obtain ⟨rfl, hlength⟩ := eq_append_of_splitExactly? h
  rw [List.append_assoc]
  exact splitExactly?_append _ hlength

theorem length_lt_of_splitExactly? {n : Nat} {bytes : Bytes} (h : splitExactly? n bytes = none) :
    bytes.length < n := by
  simp only [splitExactly?, List.length_take] at h
  split at h
  · simp at h
  · omega

theorem splitExactly?_of_le {n : Nat} {bytes : Bytes} (h : n ≤ bytes.length) :
    splitExactly? n bytes = some (bytes.take n, bytes.drop n) := by
  simp only [splitExactly?, List.length_take, Nat.min_eq_left h, if_true]

theorem splitExactly?_of_lt {n : Nat} {bytes : Bytes} (h : bytes.length < n) :
    splitExactly? n bytes = none := by
  rw [splitExactly?, if_neg]
  rw [List.length_take]
  omega

theorem findFrom?_bounds {pattern bytes : Bytes} {start position : Nat}
    (h : findFrom? pattern start bytes = some position) :
    start ≤ position ∧ position + pattern.length ≤ start + bytes.length := by
  induction bytes generalizing start with
  | nil =>
      simp only [findFrom?] at h
      split at h
      · rename_i hempty
        have hpattern : pattern = [] := List.isEmpty_iff.mp hempty
        simp only [Option.some.injEq] at h
        simp [hpattern, h]
      · simp at h
  | cons b rest ih =>
      simp only [findFrom?] at h
      split at h
      · rename_i hprefix
        have hlength := (List.isPrefixOf_iff_prefix.mp hprefix).length_le
        simp only [Option.some.injEq] at h
        omega
      · have := ih h
        simp only [List.length_cons]
        omega

theorem findFrom?_append_of_some {pattern bytes : Bytes} {start position : Nat}
    (h : findFrom? pattern start bytes = some position) (more : Bytes) :
    findFrom? pattern start (bytes ++ more) = some position := by
  induction bytes generalizing start with
  | nil =>
      simp only [findFrom?] at h
      split at h
      · rename_i hempty
        have hpattern : pattern = [] := List.isEmpty_iff.mp hempty
        subst hpattern
        cases more with
        | nil => simpa [findFrom?] using h
        | cons b rest => simpa [findFrom?] using h
      · simp at h
  | cons b rest ih =>
      simp only [List.cons_append, findFrom?] at h ⊢
      split at h
      · rename_i hprefix
        have hmore : pattern.isPrefixOf (b :: (rest ++ more)) = true := by
          rw [List.isPrefixOf_iff_prefix] at hprefix ⊢
          exact hprefix.trans (List.prefix_append (b :: rest) more)
        rw [if_pos hmore]
        exact h
      · rename_i hprefix
        by_cases hmore : pattern.isPrefixOf (b :: (rest ++ more)) = true
        · -- The pattern would end behind `bytes`, but it was found inside.
          have hbounds := findFrom?_bounds h
          rw [List.isPrefixOf_iff_prefix] at hprefix hmore
          exact absurd (List.prefix_of_prefix_length_le hmore
            (List.prefix_append (b :: rest) more)
            (by simp only [List.length_cons]; omega)) hprefix
        · rw [if_neg hmore]
          exact ih h

theorem length_lt_of_findFrom?_append {pattern bytes more : Bytes} {start position : Nat}
    (hnone : findFrom? pattern start bytes = none)
    (h : findFrom? pattern start (bytes ++ more) = some position) :
    start + bytes.length < position + pattern.length := by
  induction bytes generalizing start with
  | nil =>
      have hne : 0 < pattern.length := by
        simp only [findFrom?] at hnone
        split at hnone
        · simp at hnone
        · rename_i hempty
          simpa [List.length_pos_iff] using hempty
      have := (findFrom?_bounds h).1
      simp only [List.length_nil]
      omega
  | cons b rest ih =>
      simp only [List.cons_append, findFrom?] at hnone h
      split at hnone
      · simp at hnone
      · rename_i hprefix
        split at h
        · rename_i hmore
          simp only [Option.some.injEq] at h
          by_contra hle
          rw [List.isPrefixOf_iff_prefix] at hprefix hmore
          exact hprefix (List.prefix_of_prefix_length_le hmore
            (List.prefix_append (b :: rest) more) (by omega))
        · have := ih hnone h
          simp only [List.length_cons]
          omega

theorem find?_bound {pattern bytes : Bytes} {position : Nat}
    (h : find? pattern bytes = some position) : position + pattern.length ≤ bytes.length := by
  have := (findFrom?_bounds h).2
  omega

theorem find?_append_of_some {pattern bytes : Bytes} {position : Nat}
    (h : find? pattern bytes = some position) (more : Bytes) :
    find? pattern (bytes ++ more) = some position :=
  findFrom?_append_of_some h more

theorem length_lt_of_find?_append {pattern bytes more : Bytes} {position : Nat}
    (hnone : find? pattern bytes = none) (h : find? pattern (bytes ++ more) = some position) :
    bytes.length < position + pattern.length := by
  have := length_lt_of_findFrom?_append hnone h
  omega

theorem findFrom?_add (pattern bytes : Bytes) (start more : Nat) :
    findFrom? pattern (start + more) bytes = (findFrom? pattern more bytes).map (start + ·) := by
  induction bytes generalizing more with
  | nil =>
      simp only [findFrom?]
      split <;> rfl
  | cons b bytes ih =>
      simp only [findFrom?]
      split
      · rfl
      · exact ih (more + 1)

theorem find?_append_of_not_mem {b : UInt8} {pattern front : Bytes} (h : b ∉ front)
    (rest : Bytes) :
    find? (b :: pattern) (front ++ rest) = (find? (b :: pattern) rest).map (front.length + ·) := by
  have hskip : ∀ start, findFrom? (b :: pattern) start (front ++ rest) =
      findFrom? (b :: pattern) (front.length + start) rest := by
    induction front with
    | nil => simp
    | cons c front ih =>
        rw [List.mem_cons, not_or] at h
        intro start
        rw [List.cons_append, findFrom?, if_neg (by simp [h.1]), ih h.2, List.length_cons,
          Nat.add_right_comm, Nat.add_assoc]
  rw [find?, hskip, findFrom?_add, find?]

@[simp] theorem length_bigEndian (width n : Nat) : (bigEndian width n).length = width := by
  induction width generalizing n with
  | zero => rfl
  | succ width ih => simp [bigEndian, ih]

theorem toNat_append_singleton (bytes : Bytes) (b : UInt8) :
    toNat (bytes ++ [b]) = toNat bytes * 256 + b.toNat := by
  simp [toNat]

theorem toNat_bigEndian {width n : Nat} (h : n < 256 ^ width) :
    toNat (bigEndian width n) = n := by
  induction width generalizing n with
  | zero =>
      have hzero : n = 0 := by simpa using h
      subst hzero
      rfl
  | succ width ih =>
      have hquotient : n / 256 < 256 ^ width := by
        rw [Nat.div_lt_iff_lt_mul (by omega)]
        simpa [pow_succ] using h
      rw [bigEndian, toNat_append_singleton, ih hquotient]
      have hbyte : (UInt8.ofNat n).toNat = n % 256 := by simp
      rw [hbyte]
      omega

theorem toNat_lt (bytes : Bytes) : toNat bytes < 256 ^ bytes.length := by
  induction bytes using List.reverseRecOn with
  | nil => decide
  | append_singleton bytes b ih =>
      rw [toNat_append_singleton, List.length_append, List.length_singleton, pow_succ]
      have hbyte := b.toNat_lt
      omega

theorem bigEndian_toNat (bytes : Bytes) : bigEndian bytes.length (toNat bytes) = bytes := by
  induction bytes using List.reverseRecOn with
  | nil => rfl
  | append_singleton bytes b ih =>
      have hbyte := b.toNat_lt
      have hquotient : (toNat bytes * 256 + b.toNat) / 256 = toNat bytes := by omega
      have hlast : UInt8.ofNat (toNat bytes * 256 + b.toNat) = b := by
        apply UInt8.toNat_inj.mp
        rw [UInt8.toNat_ofNat']
        omega
      rw [List.length_append, List.length_singleton, bigEndian, toNat_append_singleton, hquotient,
        ih, hlast]

end WebSocket.Bytes

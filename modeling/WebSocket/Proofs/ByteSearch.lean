import WebSocket.Proofs.ByteStrings

namespace WebSocket.Bytes

variable {pattern bytes : Bytes} {position : Nat}

theorem prefix_drop_of_findFrom? {start : Nat}
    (h : findFrom? pattern start bytes = some position) :
    pattern <+: bytes.drop (position - start) := by
  induction bytes generalizing start with
  | nil =>
      simp only [findFrom?] at h
      split at h
      · rename_i hempty
        rw [List.isEmpty_iff.mp hempty]
        exact List.nil_prefix
      · simp at h
  | cons b bytes ih =>
      simp only [findFrom?] at h
      split at h
      · rename_i hprefix
        simp only [Option.some.injEq] at h
        rw [← h, Nat.sub_self]
        exact List.isPrefixOf_iff_prefix.mp hprefix
      · have hbounds := findFrom?_bounds h
        have hnext : position - start = position - (start + 1) + 1 := by omega
        rw [hnext, List.drop_succ_cons]
        exact ih h

theorem exists_of_find? (h : find? pattern bytes = some position) :
    ∃ rest, bytes = bytes.take position ++ pattern ++ rest := by
  obtain ⟨rest, hrest⟩ := prefix_drop_of_findFrom? h
  refine ⟨rest, ?_⟩
  rw [List.append_assoc, hrest, Nat.sub_zero, List.take_append_drop]

theorem find?_take {n : Nat} (h : find? pattern bytes = some position)
    (hle : position + pattern.length ≤ n) : find? pattern (bytes.take n) = some position := by
  have hbound := find?_bound h
  have hsplit : bytes = bytes.take n ++ bytes.drop n := (List.take_append_drop n bytes).symm
  cases htake : find? pattern (bytes.take n) with
  | some first =>
      -- What is found in a prefix is found first in the whole.
      have hfirst := find?_append_of_some htake (bytes.drop n)
      rw [← hsplit, h] at hfirst
      exact hfirst.symm
  | none =>
      rw [hsplit] at h
      have hlate := length_lt_of_find?_append htake h
      rw [List.length_take] at hlate
      omega

theorem find?_take_of_some (hpattern : pattern ≠ []) (h : find? pattern bytes = some position) :
    find? pattern (bytes.take position) = none := by
  cases htake : find? pattern (bytes.take position) with
  | none => rfl
  | some earlier =>
      have hearlier := find?_append_of_some htake (bytes.drop position)
      rw [List.take_append_drop, h, Option.some.injEq] at hearlier
      have hbound := find?_bound htake
      have hlength := List.length_pos_iff.mpr hpattern
      rw [List.length_take] at hbound
      omega

theorem exists_findFrom?_append (pattern front behind : Bytes) (start : Nat) :
    ∃ position ≤ start + front.length,
      findFrom? pattern start (front ++ (pattern ++ behind)) = some position := by
  induction front generalizing start with
  | nil =>
      refine ⟨start, Nat.le_add_right .., ?_⟩
      rw [List.nil_append]
      cases hbytes : pattern ++ behind with
      | nil => rw [findFrom?, (List.append_eq_nil_iff.mp hbytes).1, if_pos List.isEmpty_nil]
      | cons b rest =>
          have hprefix : pattern.isPrefixOf (b :: rest) = true := by
            rw [List.isPrefixOf_iff_prefix, ← hbytes]
            exact List.prefix_append pattern behind
          rw [findFrom?, if_pos hprefix]
  | cons b front ih =>
      rw [List.cons_append, findFrom?, List.length_cons]
      split
      · -- There may be an earlier occurrence than the one that is known.
        exact ⟨start, Nat.le_add_right .., rfl⟩
      · obtain ⟨position, hle, hfind⟩ := ih (start + 1)
        exact ⟨position, by omega, hfind⟩

theorem exists_find?_append (pattern front behind : Bytes) :
    ∃ position ≤ front.length, find? pattern (front ++ pattern ++ behind) = some position := by
  rw [List.append_assoc]
  obtain ⟨position, hle, hfind⟩ := exists_findFrom?_append pattern front behind 0
  exact ⟨position, by omega, hfind⟩

/-- The bytes in front of the first occurrence of a pattern. -/
structure Precedes (front pattern bytes : Bytes) : Prop where
  occurs : ∃ behind, bytes = front ++ pattern ++ behind
  first : ∀ other behind, bytes = other ++ pattern ++ behind → front.length ≤ other.length

theorem Precedes.isInfix {front : Bytes} (h : Precedes front pattern bytes) :
    pattern <:+: bytes := by
  obtain ⟨behind, hbytes⟩ := h.occurs
  exact ⟨front, behind, hbytes.symm⟩

theorem Precedes.length_unique {front other : Bytes} (h : Precedes front pattern bytes)
    (hother : Precedes other pattern bytes) : front.length = other.length := by
  obtain ⟨behind, hbytes⟩ := h.occurs
  obtain ⟨behind', hbytes'⟩ := hother.occurs
  exact Nat.le_antisymm (h.first other behind' hbytes') (hother.first front behind hbytes)

theorem precedes_of_find? (h : find? pattern bytes = some position) :
    Precedes (bytes.take position) pattern bytes := by
  refine ⟨exists_of_find? h, ?_⟩
  rintro other behind rfl
  obtain ⟨first, hle, hfirst⟩ := exists_find?_append pattern other behind
  rw [h, Option.some.injEq] at hfirst
  exact (List.length_take_le ..).trans (hfirst.trans_le hle)

theorem find?_of_precedes {front : Bytes} (h : Precedes front pattern bytes) :
    find? pattern bytes = some front.length := by
  obtain ⟨⟨behind, rfl⟩, hfirst⟩ := h
  obtain ⟨position, hle, hfind⟩ := exists_find?_append pattern front behind
  obtain ⟨rest, hrest⟩ := exists_of_find? hfind
  have hlength := hfirst _ rest hrest
  rw [List.length_take] at hlength
  rw [hfind, Nat.le_antisymm hle (hlength.trans (Nat.min_le_left ..))]

theorem find?_eq_none_iff : find? pattern bytes = none ↔ ¬pattern <:+: bytes := by
  constructor
  · rintro hnone ⟨front, behind, rfl⟩
    obtain ⟨position, -, hfind⟩ := exists_find?_append pattern front behind
    rw [hnone] at hfind
    cases hfind
  · intro habsent
    cases hfind : find? pattern bytes with
    | none => rfl
    | some position =>
        obtain ⟨rest, hrest⟩ := exists_of_find? hfind
        exact absurd ⟨bytes.take position, rest, hrest.symm⟩ habsent

end WebSocket.Bytes

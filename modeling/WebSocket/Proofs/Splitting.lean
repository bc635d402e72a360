import Mathlib.Data.List.DropRight
import WebSocket.Text.Words

namespace WebSocket

variable {α : Type}

section

variable {isSeparator : α → Bool}

/-- The pieces of a list between its separators. -/
inductive Pieces (isSeparator : α → Bool) : List α → List (List α) → Prop where
  | last {piece : List α} (h : ∀ x ∈ piece, isSeparator x = false) :
      Pieces isSeparator piece [piece]
  | cut {piece rest : List α} {x : α} {pieces : List (List α)}
      (hpiece : ∀ y ∈ piece, isSeparator y = false) (hx : isSeparator x = true)
      (hrest : Pieces isSeparator rest pieces) :
      Pieces isSeparator (piece ++ x :: rest) (piece :: pieces)

theorem splitWhere_cons (x : α) (xs : List α) :
    splitWhere isSeparator (x :: xs) = joinFront isSeparator x (splitWhere isSeparator xs) := rfl

theorem splitWhere_ne_nil (isSeparator : α → Bool) (xs : List α) :
    splitWhere isSeparator xs ≠ [] := by
  cases xs with
  | nil => simp [splitWhere]
  | cons x xs =>
      rw [splitWhere_cons]
      unfold joinFront
      split <;> split <;> simp

theorem splitWhere_cons_separator {x : α} (hx : isSeparator x = true) (xs : List α) :
    splitWhere isSeparator (x :: xs) = [] :: splitWhere isSeparator xs := by
  obtain ⟨piece, pieces, hpieces⟩ := List.exists_cons_of_ne_nil (splitWhere_ne_nil isSeparator xs)
  rw [splitWhere_cons, hpieces, joinFront, if_pos hx]

theorem pieces_splitWhere (xs : List α) : Pieces isSeparator xs (splitWhere isSeparator xs) := by
  induction xs with
  | nil => exact .last (by simp)
  | cons x xs ih =>
      by_cases hx : isSeparator x = true
      · rw [splitWhere_cons_separator hx]
        have hnone : ∀ y ∈ ([] : List α), isSeparator y = false := by simp
        exact .cut hnone hx ih
      · -- An element that cuts nothing goes in front of the first piece.
        have hx : isSeparator x = false := by simpa using hx
        rw [splitWhere_cons]
        generalize splitWhere isSeparator xs = pieces at ih
        cases ih with
        | last h =>
            rw [joinFront, if_neg (by simp [hx])]
            exact .last (List.forall_mem_cons.mpr ⟨hx, h⟩)
        | @cut piece rest y _ hpiece hy hrest =>
            have hpiece : ∀ z ∈ x :: piece, isSeparator z = false :=
              List.forall_mem_cons.mpr ⟨hx, hpiece⟩
            rw [joinFront, if_neg (by simp [hx])]
            exact .cut hpiece hy hrest

theorem splitWhere_of_free {xs : List α} (h : ∀ x ∈ xs, isSeparator x = false) :
    splitWhere isSeparator xs = [xs] := by
  induction xs with
  | nil => rfl
  | cons x xs ih =>
      rw [List.forall_mem_cons] at h
      rw [splitWhere_cons, ih h.2, joinFront, h.1, if_neg (by simp)]

theorem joinFront_append (x : α) {pieces : List (List α)} (h : pieces ≠ []) (more : List (List α)) :
    joinFront isSeparator x (pieces ++ more) = joinFront isSeparator x pieces ++ more := by
  cases pieces with
  | nil => exact absurd rfl h
  | cons piece pieces =>
      rw [List.cons_append, joinFront, joinFront]
      split <;> rfl

theorem splitWhere_append_cons {x : α} (hx : isSeparator x = true) (front rest : List α) :
    splitWhere isSeparator (front ++ x :: rest) =
      splitWhere isSeparator front ++ splitWhere isSeparator rest := by
  induction front with
  | nil => exact splitWhere_cons_separator hx rest
  | cons y front ih =>
      rw [List.cons_append, splitWhere_cons, ih, joinFront_append y (splitWhere_ne_nil _ _),
        splitWhere_cons]

theorem splitWhere_append {front : List α} {x : α} (hfront : ∀ y ∈ front, isSeparator y = false)
    (hx : isSeparator x = true) (rest : List α) :
    splitWhere isSeparator (front ++ x :: rest) = front :: splitWhere isSeparator rest := by
  rw [splitWhere_append_cons hx, splitWhere_of_free hfront, List.singleton_append]

theorem takeWhile_of_pieces {xs piece : List α} {pieces : List (List α)}
    (h : Pieces isSeparator xs (piece :: pieces)) : xs.takeWhile (!isSeparator ·) = piece := by
  cases h with
  | last h => exact List.takeWhile_eq_self_iff.mpr (by simpa using h)
  | cut hpiece hx =>
      rw [List.takeWhile_append_of_pos (by simpa using hpiece),
        List.takeWhile_cons_of_neg (by simp [hx]), List.append_nil]

theorem splitWhere_eq_iff {xs : List α} {pieces : List (List α)} :
    splitWhere isSeparator xs = pieces ↔ Pieces isSeparator xs pieces := by
  constructor
  · rintro rfl
    exact pieces_splitWhere xs
  · intro h
    induction h with
    | last h => exact splitWhere_of_free h
    | cut hpiece hx _ ih => rw [splitWhere_append hpiece hx, ih]

end

section

variable {isBlank : α → Bool}

/-- The words of a list: runs without blanks that reach from blank to blank, or to an end. -/
inductive Words (isBlank : α → Bool) : List α → List (List α) → Prop where
  | none {gap : List α} (h : ∀ x ∈ gap, isBlank x = true) : Words isBlank gap []
  | word {gap word rest : List α} {words : List (List α)} (hgap : ∀ x ∈ gap, isBlank x = true)
      (hne : word ≠ []) (hword : ∀ x ∈ word, isBlank x = false)
      (hend : ∀ x ∈ rest.head?, isBlank x = true) (hrest : Words isBlank rest words) :
      Words isBlank (gap ++ (word ++ rest)) (word :: words)

theorem Words.cons_blank {x : α} {xs : List α} {words : List (List α)} (hx : isBlank x = true)
    (h : Words isBlank xs words) : Words isBlank (x :: xs) words := by
  cases h with
  | none h => exact .none (List.forall_mem_cons.mpr ⟨hx, h⟩)
  | @word gap _ _ _ hgap hne hword hend hrest =>
      have hgap : ∀ y ∈ x :: gap, isBlank y = true := List.forall_mem_cons.mpr ⟨hx, hgap⟩
      exact .word hgap hne hword hend hrest

theorem Words.word_append {word rest : List α} {words : List (List α)} (hne : word ≠ [])
    (hword : ∀ x ∈ word, isBlank x = false) (hend : ∀ x ∈ rest.head?, isBlank x = true)
    (hrest : Words isBlank rest words) : Words isBlank (word ++ rest) (word :: words) := by
  have hgap : ∀ x ∈ ([] : List α), isBlank x = true := by simp
  exact .word hgap hne hword hend hrest

theorem words_of_pieces {xs : List α} {pieces : List (List α)} (h : Pieces isBlank xs pieces) :
    Words isBlank xs (pieces.filter (!·.isEmpty)) := by
  induction h with
  | @last piece h =>
      cases piece with
      | nil => exact .none (by simp)
      | cons x piece =>
          have hnone : Words isBlank [] [] := .none (by simp)
          have hword := Words.word_append (List.cons_ne_nil x piece) h (by simp) hnone
          rwa [List.append_nil] at hword
  | @cut piece rest x pieces hpiece hx _ ih =>
      have hrest := Words.cons_blank hx ih
      cases piece with
      | nil => exact hrest
      | cons y piece =>
          exact .word_append (List.cons_ne_nil y piece) hpiece (by simpa using hx) hrest

/-- A blank parts the words in front of it from those behind it. -/
theorem words_append_blank {x : α} (hx : isBlank x = true) (xs ys : List α) :
    (splitWhere isBlank (xs ++ x :: ys)).filter (!·.isEmpty) =
      (splitWhere isBlank xs).filter (!·.isEmpty) ++
        (splitWhere isBlank ys).filter (!·.isEmpty) := by
  rw [splitWhere_append_cons hx, List.filter_append]

theorem words_gap_append {gap : List α} (hgap : ∀ x ∈ gap, isBlank x = true) (xs : List α) :
    (splitWhere isBlank (gap ++ xs)).filter (!·.isEmpty) =
      (splitWhere isBlank xs).filter (!·.isEmpty) := by
  induction gap with
  | nil => rfl
  | cons x gap ih =>
      rw [List.forall_mem_cons] at hgap
      have hfirst := words_append_blank hgap.1 [] (gap ++ xs)
      rw [ih hgap.2] at hfirst
      exact hfirst

theorem words_eq_iff {xs : List α} {words : List (List α)} :
    (splitWhere isBlank xs).filter (!·.isEmpty) = words ↔ Words isBlank xs words := by
  constructor
  · rintro rfl
    exact words_of_pieces (pieces_splitWhere xs)
  · intro h
    induction h with
    | @none gap h =>
        rw [← List.append_nil gap, words_gap_append h]
        rfl
    | @word gap word rest words hgap hne hword hend _ ih =>
        have hsingle : (splitWhere isBlank word).filter (!·.isEmpty) = [word] := by
          rw [splitWhere_of_free hword, List.filter_cons_of_pos (by simpa), List.filter_nil]
        rw [words_gap_append hgap]
        cases rest with
        | nil =>
            have hwords : words = [] := ih.symm
            rw [List.append_nil, hsingle, hwords]
        | cons x rest =>
            -- The blank behind the word parts it from the words of the rest.
            have hx : isBlank x = true := hend x rfl
            have hrest := words_append_blank hx [] rest
            rw [List.nil_append, ih] at hrest
            rw [words_append_blank hx, hsingle, hrest]
            rfl

theorem Words.unique {xs : List α} {words others : List (List α)} (h : Words isBlank xs words)
    (hothers : Words isBlank xs others) : words = others :=
  (words_eq_iff.mpr h).symm.trans (words_eq_iff.mpr hothers)

theorem Words.append_blank {x : α} {xs ys : List α} {words more : List (List α)}
    (h : Words isBlank xs words) (hx : isBlank x = true) (hmore : Words isBlank ys more) :
    Words isBlank (xs ++ x :: ys) (words ++ more) := by
  rw [← words_eq_iff] at h hmore ⊢
  rw [words_append_blank hx, h, hmore]

end

section

variable {isBlank : α → Bool}

/-- What is left of a list without the blanks at both ends. -/
structure Trimmed (isBlank : α → Bool) (text core : List α) : Prop where
  around : ∃ left right, text = left ++ core ++ right ∧ (∀ x ∈ left, isBlank x = true) ∧
    ∀ x ∈ right, isBlank x = true
  first : ∀ x ∈ core.head?, isBlank x = false
  last : ∀ x ∈ core.getLast?, isBlank x = false

theorem dropWhile_of_head? {xs : List α} (h : ∀ x ∈ xs.head?, isBlank x = false) :
    xs.dropWhile isBlank = xs := by
  cases xs with
  | nil => rfl
  | cons x xs => rw [List.dropWhile_cons_of_neg (by simp [h x rfl])]

theorem head?_of_dropWhile (xs : List α) :
    ∀ x ∈ (xs.dropWhile isBlank).head?, isBlank x = false := by
  intro x hx
  have hfirst := List.head?_dropWhile_not isBlank xs
  rwa [Option.mem_def.mp hx] at hfirst

theorem trim_eq_iff {text core : List α} :
    ((text.dropWhile isBlank).reverse.dropWhile isBlank).reverse = core ↔
      Trimmed isBlank text core := by
  change (text.dropWhile isBlank).rdropWhile isBlank = core ↔ _
  constructor
  · rintro rfl
    have hprefix := List.rdropWhile_prefix isBlank (l := text.dropWhile isBlank)
    refine ⟨⟨text.takeWhile isBlank, (text.dropWhile isBlank).rtakeWhile isBlank, ?_, ?_, ?_⟩,
      ?_, ?_⟩
    · rw [List.append_assoc, List.rdropWhile_append_rtakeWhile, List.takeWhile_append_dropWhile]
    · exact fun x hx => List.mem_takeWhile_imp hx
    · exact fun x hx => List.mem_rtakeWhile_imp hx
    · intro x hx
      obtain ⟨right, hright⟩ := hprefix
      refine head?_of_dropWhile text x ?_
      rw [← hright, List.head?_append, Option.mem_def.mp hx]
      rfl
    · intro x hx
      rw [List.rdropWhile, List.getLast?_reverse] at hx
      exact head?_of_dropWhile _ x hx
  · rintro ⟨⟨left, right, rfl, hleft, hright⟩, hfirst, hlast⟩
    rw [List.append_assoc, List.dropWhile_append_of_pos hleft]
    cases core with
    | nil =>
        rw [List.nil_append, List.dropWhile_eq_nil_iff.mpr hright, List.rdropWhile_nil]
    | cons x core =>
        rw [dropWhile_of_head? (by simpa using hfirst), List.rdropWhile, List.reverse_append,
          List.dropWhile_append_of_pos (by simpa using hright),
          dropWhile_of_head? (by rwa [List.head?_reverse]), List.reverse_reverse]

end

end WebSocket

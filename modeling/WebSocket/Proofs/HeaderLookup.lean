import Mathlib.Data.List.Forall2
import WebSocket.Handshake.Header
import WebSocket.Proofs.ByteSearch
import WebSocket.Proofs.RequestLayout
import WebSocket.Proofs.Splitting
import WebSocket.Proofs.TextValidity

namespace WebSocket

namespace Ascii

def IsCapital (b : UInt8) : Prop :=
  0x41 ≤ b.toNat ∧ b.toNat ≤ 0x5A

/-- The same byte, or a capital letter and its small one. -/
def SameLetter (a b : UInt8) : Prop :=
  a = b ∨ (IsCapital a ∧ b.toNat = a.toNat + 0x20) ∨ (IsCapital b ∧ a.toNat = b.toNat + 0x20)

theorem toNat_toLower (b : UInt8) :
    (toLower b).toNat = if 0x41 ≤ b.toNat ∧ b.toNat ≤ 0x5A then b.toNat + 0x20 else b.toNat := by
  have hbound := b.toNat_lt
  simp only [toLower, Bool.and_eq_true, decide_eq_true_eq, UInt8.le_iff_toNat_le,
    UInt8.reduceToNat]
  split
  · simp only [UInt8.toNat_add, UInt8.reduceToNat]
    omega
  · rfl

theorem toLower_eq_iff {a b : UInt8} : toLower a = toLower b ↔ SameLetter a b := by
  rw [← UInt8.toNat_inj, toNat_toLower, toNat_toLower, SameLetter, IsCapital, IsCapital,
    ← UInt8.toNat_inj]
  split <;> split <;> omega

theorem equalFold_iff {a b : Bytes} : equalFold a b = true ↔ List.Forall₂ SameLetter a b := by
  rw [equalFold, beq_iff_eq, ← List.forall₂_eq_eq_eq, List.forall₂_map_left_iff,
    List.forall₂_map_right_iff]
  simp only [toLower_eq_iff]

end Ascii

namespace Handshake

/-- The head of what was received: all that stands in front of the first blank line, or
everything as long as there is none. -/
inductive IsHead (raw : Bytes) : Bytes → Prop where
  | ended {head : Bytes} (h : Bytes.Precedes head headEnd raw) : IsHead raw head
  | unended (h : ¬headEnd <:+: raw) : IsHead raw raw

theorem isHead_headOf (raw : Bytes) : IsHead raw (headOf raw) := by
  unfold headOf
  cases hfind : Bytes.find? headEnd raw with
  | none => exact .unended (Bytes.find?_eq_none_iff.mp hfind)
  | some position => exact .ended (Bytes.precedes_of_find? hfind)

theorem headOf_eq_iff {raw head : Bytes} : headOf raw = head ↔ IsHead raw head := by
  constructor
  · rintro rfl
    exact isHead_headOf raw
  · intro h
    unfold headOf
    cases h with
    | ended h =>
        rw [Bytes.find?_of_precedes h]
        obtain ⟨behind, rfl⟩ := h.occurs
        rw [List.append_assoc]
        exact List.take_left
    | unended h => rw [Bytes.find?_eq_none_iff.mpr h]

theorem headOf_append (front rest : Bytes) :
    headOf (front ++ headEnd ++ rest) = headOf (front ++ headEnd) := by
  obtain ⟨position, -, hfind⟩ := Bytes.exists_find?_append headEnd front []
  rw [List.append_nil] at hfind
  have hbound := Bytes.find?_bound hfind
  rw [headOf, headOf, hfind, Bytes.find?_append_of_some hfind rest]
  exact List.take_append_of_le_length (by omega)

/-- The lines that can be headers: all but the first line of the head. A line ends at its line
feed. -/
def HeadLines (raw : Bytes) (lines : List Bytes) : Prop :=
  ∃ head first, IsHead raw head ∧ Pieces (· == 0x0A) head (first :: lines)

theorem headLines_iff {raw : Bytes} {lines : List Bytes} :
    HeadLines raw lines ↔ headerLines (headOf raw) = lines := by
  constructor
  · rintro ⟨head, first, hhead, hpieces⟩
    rw [headOf_eq_iff.mpr hhead, headerLines, splitWhere_eq_iff.mpr hpieces]
    rfl
  · rintro rfl
    obtain ⟨first, lines, hlines⟩ :=
      List.exists_cons_of_ne_nil (splitWhere_ne_nil (· == 0x0A) (headOf raw))
    refine ⟨headOf raw, first, isHead_headOf raw, ?_⟩
    rw [headerLines, hlines]
    exact splitWhere_eq_iff.mp hlines

/-- The text of a line, without one carriage return at its end. -/
inductive LineText : Bytes → Bytes → Prop where
  | returned (text : Bytes) : LineText (text ++ [0x0D]) text
  | bare {text : Bytes} (h : text.getLast? ≠ some 0x0D) : LineText text text

theorem stripReturn_eq_iff {line text : Bytes} : stripReturn line = text ↔ LineText line text := by
  constructor
  · rintro rfl
    unfold stripReturn
    split
    · rename_i hlast
      obtain ⟨text, rfl⟩ := List.getLast?_eq_some_iff.mp hlast
      rw [List.dropLast_concat]
      exact .returned text
    · rename_i hlast
      exact .bare hlast
  · intro h
    unfold stripReturn
    cases h with
    | returned text => rw [if_pos (by simp), List.dropLast_concat]
    | bare h => rw [if_neg h]

/-- A line with a colon is a header: its name stands in front of the first colon and its value
behind it, both with any blanks around them. -/
inductive IsHeader : Bytes → Bytes → Bytes → Prop where
  | intro {line before after name value : Bytes} (hline : LineText line (before ++ 0x3A :: after))
      (hbefore : 0x3A ∉ before) (hname : Trimmed Ascii.isBlank before name)
      (hvalue : Trimmed Ascii.isBlank after value) : IsHeader line name value

theorem takeWhile_dropWhile_of_colon {before : Bytes} (h : 0x3A ∉ before) (after : Bytes) :
    (before ++ 0x3A :: after).takeWhile (· != 0x3A) = before ∧
      (before ++ 0x3A :: after).dropWhile (· != 0x3A) = 0x3A :: after := by
  have hbefore : ∀ b ∈ before, (b != 0x3A) = true := by
    simpa only [bne_iff_ne] using List.forall_mem_ne'.mpr h
  rw [List.takeWhile_append_of_pos hbefore, List.dropWhile_append_of_pos hbefore]
  simp

theorem nameValue?_eq_some_iff {line name value : Bytes} :
    nameValue? line = some (name, value) ↔ IsHeader line name value := by
  constructor
  · intro h
    unfold nameValue? at h
    split at h
    · simp at h
    · rename_i colon after hdrop
      simp only [Option.some.injEq, Prod.mk.injEq] at h
      have hsplit := List.takeWhile_append_dropWhile (p := (· != 0x3A)) (l := stripReturn line)
      -- What stopped `takeWhile` is the first colon.
      have hcolon : colon = 0x3A := by
        have hfirst := List.head?_dropWhile_not (· != 0x3A) (stripReturn line)
        simpa [hdrop] using hfirst
      rw [hdrop, hcolon] at hsplit
      refine .intro (stripReturn_eq_iff.mp hsplit.symm) ?_ (trim_eq_iff.mp h.1) (trim_eq_iff.mp h.2)
      intro hmem
      simpa using List.mem_takeWhile_imp hmem
  · rintro ⟨hline, hbefore, hname, hvalue⟩
    obtain ⟨htake, hdrop⟩ := takeWhile_dropWhile_of_colon hbefore _
    unfold nameValue?
    rw [stripReturn_eq_iff.mpr hline, htake, hdrop]
    simp only [Option.some.injEq, Prod.mk.injEq]
    exact ⟨trim_eq_iff.mpr hname, trim_eq_iff.mpr hvalue⟩

/-- A line says the value of a name if it is a header of that name, small and capital letters
alike, and its value is a text. -/
def Says (name line value : Bytes) : Prop :=
  ∃ written, IsHeader line written value ∧ List.Forall₂ Ascii.SameLetter written name ∧
    Utf8.IsText value

theorem valueIn?_eq_some_iff {name line value : Bytes} :
    valueIn? name line = some value ↔ Says name line value := by
  unfold valueIn?
  constructor
  · intro h
    split at h
    · rename_i written found hfound
      split at h
      · rename_i hmatches
        rw [Bool.and_eq_true] at hmatches
        obtain rfl := Option.some.inj h
        exact ⟨written, nameValue?_eq_some_iff.mp hfound, Ascii.equalFold_iff.mp hmatches.1,
          Utf8.isValid_iff.mp hmatches.2⟩
      · simp at h
    · simp at h
  · rintro ⟨written, hheader, hname, htext⟩
    simp only [nameValue?_eq_some_iff.mpr hheader, Ascii.equalFold_iff.mpr hname,
      Utf8.isValid_iff.mpr htext, Bool.and_self, if_true]

theorem valueIn?_eq_none_iff {name line : Bytes} :
    valueIn? name line = none ↔ ∀ value, ¬Says name line value := by
  rw [Option.eq_none_iff_forall_not_mem]
  exact forall_congr' fun value => not_congr valueIn?_eq_some_iff

/-- The first line of the head that says a value of the name says this one. -/
def FirstSays (raw name value : Bytes) : Prop :=
  ∃ earlier line later, HeadLines raw (earlier ++ line :: later) ∧ Says name line value ∧
    ∀ other ∈ earlier, ∀ value, ¬Says name other value

theorem headerValue?_eq_some_iff {raw name value : Bytes} :
    headerValue? raw name = some value ↔ FirstSays raw name value := by
  rw [headerValue?, List.findSome?_eq_some_iff]
  constructor
  · rintro ⟨earlier, line, later, hlines, hvalue, hearlier⟩
    exact ⟨earlier, line, later, headLines_iff.mpr hlines, valueIn?_eq_some_iff.mp hvalue,
      fun other hother => valueIn?_eq_none_iff.mp (hearlier other hother)⟩
  · rintro ⟨earlier, line, later, hlines, hvalue, hearlier⟩
    exact ⟨earlier, line, later, headLines_iff.mp hlines, valueIn?_eq_some_iff.mpr hvalue,
      fun other hother => valueIn?_eq_none_iff.mpr (hearlier other hother)⟩

theorem headerValue?_eq_none_iff {raw name : Bytes} :
    headerValue? raw name = none ↔
      ∀ lines, HeadLines raw lines → ∀ line ∈ lines, ∀ value, ¬Says name line value := by
  rw [headerValue?, List.findSome?_eq_none_iff]
  constructor
  · intro h lines hlines line hline
    rw [headLines_iff.mp hlines] at h
    exact valueIn?_eq_none_iff.mp (h line hline)
  · intro h line hline
    exact valueIn?_eq_none_iff.mpr (h _ (headLines_iff.mpr rfl) line hline)

theorem headerValue?_headOf (raw name : Bytes) :
    headerValue? (headOf raw) name = headerValue? raw name := by
  rw [headerValue?, headOf_headOf, headerValue?]

/-- **A header is what the first line with its name says.** A value is found exactly if it is said
by a line of the head other than the first and no such line in front of it says any; nothing is
found exactly if no such line does. What stands behind a blank line makes no difference. -/
theorem header_is_first_in_head (raw name : Bytes) :
    (∀ value, headerValue? raw name = some value ↔ FirstSays raw name value) ∧
    (headerValue? raw name = none ↔
      ∀ lines, HeadLines raw lines → ∀ line ∈ lines, ∀ value, ¬Says name line value) ∧
    ∀ front rest rest', headerValue? (front ++ headEnd ++ rest) name =
      headerValue? (front ++ headEnd ++ rest') name := by
  refine ⟨fun value => headerValue?_eq_some_iff, headerValue?_eq_none_iff, ?_⟩
  intro front rest rest'
  rw [headerValue?, headerValue?, headOf_append, headOf_append]

end Handshake

end WebSocket

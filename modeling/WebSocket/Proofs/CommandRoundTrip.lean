import WebSocket.Proofs.DecimalReading
import WebSocket.Proofs.LineComments

namespace WebSocket

namespace ConnectionId

variable {id : ConnectionId} {number : String}

/-- The two ways to write the number of a connection. -/
inductive Spelled (id : ConnectionId) : String → Prop where
  | display : Spelled id id.display
  | bare : Spelled id (toString id.number.toNat)

theorem toList_display (id : ConnectionId) :
    id.display.toList = '#' :: (toString id.number.toNat).toList := by
  rw [display, String.toList_append]
  rfl

theorem isDigit_of_mem {n : Nat} {c : Char} (h : c ∈ (toString n).toList) :
    c.isDigit = true := by
  rw [Nat.toString_eq_ofList_toDigits, String.toList_ofList] at h
  exact Nat.isDigit_of_mem_toDigits (by decide) (by decide) h

theorem mem_of_spelled (h : id.Spelled number) :
    ∀ c ∈ number.toList, c = '#' ∨ c.isDigit = true := by
  intro c hc
  cases h with
  | display =>
      rw [toList_display, List.mem_cons] at hc
      exact hc.imp_right isDigit_of_mem
  | bare => exact .inr (isDigit_of_mem hc)

theorem isBlank_of_isDigit {c : Char} (h : c.isDigit = true) : Text.isBlank c = false := by
  have hrange : 48 ≤ c.toNat ∧ c.toNat ≤ 57 := by
    simpa [Char.isDigit, UInt32.le_iff_toNat_le] using h
  simp only [Text.isBlank, Bool.or_eq_false_iff, Bool.and_eq_false_iff, decide_eq_false_iff_not,
    beq_eq_false_iff_ne]
  omega

theorem isBlank_of_spelled (h : id.Spelled number) :
    ∀ c ∈ number.toList, Text.isBlank c = false := by
  intro c hc
  rcases mem_of_spelled h c hc with rfl | hdigit
  · decide
  · exact isBlank_of_isDigit hdigit

theorem slash_not_mem_of_spelled (h : id.Spelled number) : '/' ∉ number.toList := by
  intro hslash
  rcases mem_of_spelled h '/' hslash with hc | hc <;> exact absurd hc (by decide)

theorem ne_nil_of_spelled (h : id.Spelled number) : number.toList ≠ [] := by
  cases h with
  | display => simp [toList_display]
  | bare =>
      rw [Nat.toString_eq_ofList_toDigits, String.toList_ofList]
      exact Nat.toDigits_ne_nil

theorem trim_of_not_blank {text : List Char} (h : ∀ c ∈ text, Text.isBlank c = false) :
    Text.trim text = text := by
  refine trim_eq_iff.mpr ⟨⟨[], [], by simp, by simp, by simp⟩, ?_, ?_⟩
  · exact fun c hc => h c (List.mem_of_mem_head? hc)
  · exact fun c hc => h c (List.mem_of_getLast? hc)

theorem parse_of_spelled (h : id.Spelled number) : parse number.toList = .ok id := by
  have hnumber : Text.readNat UInt64.size (toString id.number.toNat).toList =
      .ok id.number.toNat := Text.readNat_toString id.number.toNat_lt
  have hdigits : (toString id.number.toNat).toList.dropWhile (· == '#') =
      (toString id.number.toNat).toList := by
    refine dropWhile_of_head? fun c hc => ?_
    have hdigit := isDigit_of_mem (List.mem_of_mem_head? hc)
    rw [beq_eq_false_iff_ne]
    rintro rfl
    exact absurd hdigit (by decide)
  have hdrop : number.toList.dropWhile (· == '#') = (toString id.number.toNat).toList := by
    cases h with
    | display => rwa [toList_display]
    | bare => exact hdigits
  rw [parse, trim_of_not_blank (isBlank_of_spelled h), hdrop, hnumber]
  simp [Except.map]

end ConnectionId

namespace Console

/-- How a command can be written: the parts of it, with some blanks between any two of them. -/
inductive Written : Command → String → Prop where
  | broadcast {text : String} (htext : Tellable text.toList) (hclear : ¬HasSlashes text.toList)
      (hfirst : ∀ c ∈ text.toList.head?, c ≠ '@' ∧ c ≠ '/') : Written (.broadcast text) text
  | send {id : ConnectionId} {number gap text : String} (hnumber : id.Spelled number)
      (hgap : gap ≠ "") (hblank : ∀ c ∈ gap.toList, Text.isBlank c = true)
      (htext : Tellable text.toList) (hclear : ¬HasSlashes text.toList) :
      Written (.send id text) ("@" ++ number ++ gap ++ text)
  | kick {id : ConnectionId} {number gap : String} (hnumber : id.Spelled number)
      (hgap : gap ≠ "") (hblank : ∀ c ∈ gap.toList, Text.isBlank c = true) :
      Written (.kick id) ("/kick" ++ gap ++ number)
  | list : Written .list "/list"

theorem slash_not_mem_of_blank {gap : List Char} (h : ∀ c ∈ gap, Text.isBlank c = true) :
    '/' ∉ gap :=
  fun hslash => absurd (h '/' hslash) (by decide)

theorem parse_around {left line right : String}
    (hleft : ∀ c ∈ left.toList, Text.isBlank c = true)
    (hright : ∀ c ∈ right.toList, Text.isBlank c = true) (hline : Tellable line.toList)
    (hclear : ¬HasSlashes line.toList) :
    Command.parse (left ++ line ++ right) = readTrimmed line.toList := by
  have hwhole : ¬HasSlashes (left.toList ++ line.toList ++ right.toList) := by
    rwa [hasSlashes_append_of_not_mem_right (slash_not_mem_of_blank hright),
      hasSlashes_append_of_not_mem (slash_not_mem_of_blank hleft)]
  rw [Command.parse, String.toList_append, String.toList_append,
    stripComment_of_not_hasSlashes hwhole, trim_of_tellable hline hleft hright]

variable {command : Command} {line : String}

theorem trimStart_append {gap text : List Char} (hgap : ∀ c ∈ gap, Text.isBlank c = true)
    (htext : ∀ c ∈ text.head?, Text.isBlank c = false) : Text.trimStart (gap ++ text) = text := by
  rw [Text.trimStart, List.dropWhile_append_of_pos hgap, dropWhile_of_head? htext]

theorem words_kick {number gap : List Char} (hne : number ≠ [])
    (hnumber : ∀ c ∈ number, Text.isBlank c = false) (hgap : gap ≠ [])
    (hblank : ∀ c ∈ gap, Text.isBlank c = true) :
    Words Text.isBlank ("kick".toList ++ (gap ++ number)) ["kick".toList, number] := by
  have hnone : Words Text.isBlank [] [] := .none (by simp)
  have hlast : Words Text.isBlank (gap ++ (number ++ [])) [number] :=
    .word hblank hne hnumber (by simp) hnone
  rw [List.append_nil] at hlast
  have hword : ∀ c ∈ "kick".toList, Text.isBlank c = false :=
    List.forall_iff_forall_mem.mp (by decide)
  refine .word_append (by decide) hword (fun c hc => ?_) hlast
  rw [List.head?_append_of_ne_nil _ hgap] at hc
  exact hblank c (List.mem_of_mem_head? hc)

theorem understood_of_written (h : Written command line) : Understood line.toList command := by
  cases h with
  | broadcast htext _ hfirst =>
      have hbroadcast := Understood.broadcast htext.ne_nil hfirst
      rwa [String.ofList_toList] at hbroadcast
  | @send id number gap text hnumber hgap hblank htext =>
      obtain ⟨blank, gaps, hcons⟩ :=
        List.exists_cons_of_ne_nil (mt String.toList_eq_nil_iff.mp hgap)
      rw [hcons, List.forall_mem_cons] at hblank
      have hsend : Understood ('@' :: (number.toList ++ blank :: (gaps ++ text.toList))) _ :=
        .send (ConnectionId.isBlank_of_spelled hnumber) hblank.1
          (ConnectionId.parse_of_spelled hnumber)
      rw [trimStart_append hblank.2 htext.first, String.ofList_toList] at hsend
      simpa [String.toList_append, hcons] using hsend
  | @kick id number gap hnumber hgap hblank =>
      have hwords := words_kick (ConnectionId.ne_nil_of_spelled hnumber)
        (ConnectionId.isBlank_of_spelled hnumber) (mt String.toList_eq_nil_iff.mp hgap) hblank
      have hkick := Understood.kick hwords (ConnectionId.parse_of_spelled hnumber)
      simpa [String.toList_append] using hkick
  | list => exact .list (words_eq_iff.mp (by decide))

theorem tellable_of_written (h : Written command line) : Tellable line.toList := by
  cases h with
  | broadcast htext => exact htext
  | @send id number gap text _ _ _ htext =>
      simp only [String.toList_append]
      refine ⟨by simp, ?_, ?_⟩
      · rintro c ⟨⟩
        decide
      · rw [List.getLast?_append_of_ne_nil _ htext.ne_nil]
        exact htext.last
  | @kick id number gap hnumber =>
      simp only [String.toList_append]
      refine ⟨by simp, ?_, ?_⟩
      · rintro c ⟨⟩
        decide
      · rw [List.getLast?_append_of_ne_nil _ (ConnectionId.ne_nil_of_spelled hnumber)]
        exact fun c hc => ConnectionId.isBlank_of_spelled hnumber c (List.mem_of_getLast? hc)
  | list => exact ⟨by decide, by rintro c ⟨⟩; decide, by rintro c ⟨⟩; decide⟩

/-- Nothing in a written command is taken for a comment. -/
theorem not_hasSlashes_of_written (h : Written command line) : ¬HasSlashes line.toList := by
  cases h with
  | broadcast _ hclear => exact hclear
  | @send id number gap text hnumber _ hblank _ hclear =>
      have hfront : '/' ∉ ("@" ++ number ++ gap).toList := by
        simp only [String.toList_append, List.mem_append, not_or]
        exact ⟨⟨by decide, ConnectionId.slash_not_mem_of_spelled hnumber⟩,
          slash_not_mem_of_blank hblank⟩
      rwa [String.toList_append, hasSlashes_append_of_not_mem hfront]
  | @kick id number gap hnumber _ hblank =>
      have hbehind : '/' ∉ gap.toList ++ number.toList := by
        rw [List.mem_append, not_or]
        exact ⟨slash_not_mem_of_blank hblank, ConnectionId.slash_not_mem_of_spelled hnumber⟩
      rw [String.toList_append, String.toList_append, List.append_assoc,
        hasSlashes_append_of_not_mem_right hbehind]
      decide
  | list => decide

/-- **A command that is written out is read back**, with any blanks around it and between its parts,
whichever form its number has; and whatever a line is read as, the text that anybody is told by it is
not empty and has no blanks around it. -/
theorem written_command_is_read :
    (∀ command line, Written command line → ∀ left right : String,
      (∀ c ∈ left.toList, Text.isBlank c = true) → (∀ c ∈ right.toList, Text.isBlank c = true) →
        Command.parse (left ++ line ++ right) = .ok command) ∧
    (∀ line command, Command.parse line = .ok command →
      ∀ text ∈ command.told?, Tellable text.toList) := by
  constructor
  · intro command line hwritten left right hleft hright
    rw [parse_around hleft hright (tellable_of_written hwritten)
      (not_hasSlashes_of_written hwritten), readTrimmed_eq_ok_iff]
    exact understood_of_written hwritten
  · intro line command hparse
    have htrimmed := trimmed_trim (stripComment line.toList)
    exact tellable_of_understood (readTrimmed_eq_ok_iff.mp hparse) htrimmed.first htrimmed.last

theorem written_command_is_read_of_send :
    let line := "@" ++ "#18446744073709551615" ++ "\t " ++ "/bye: 1/2"
    let command := Command.send ⟨18446744073709551615⟩ "/bye: 1/2"
    Written command line ∧ Command.parse (" " ++ line ++ "\r\n") = .ok command ∧
      Tellable "/bye: 1/2".toList := by
  intro line command
  have hnumber : ConnectionId.Spelled ⟨18446744073709551615⟩ "#18446744073709551615" := .display
  have htext : Tellable "/bye: 1/2".toList :=
    ⟨by decide, by rintro c ⟨⟩; decide, by rintro c ⟨⟩; decide⟩
  have hgap : ∀ c ∈ "\t ".toList, Text.isBlank c = true := List.all_eq_true.mp (by decide)
  have hleft : ∀ c ∈ " ".toList, Text.isBlank c = true := List.all_eq_true.mp (by decide)
  have hright : ∀ c ∈ "\r\n".toList, Text.isBlank c = true := List.all_eq_true.mp (by decide)
  have hwritten : Written command line :=
    .send hnumber (by decide) hgap htext (by decide +kernel)
  have hread := written_command_is_read.1 command line hwritten " " "\r\n" hleft hright
  exact ⟨hwritten, hread, written_command_is_read.2 _ command hread _ rfl⟩

end Console

end WebSocket

import WebSocket.Proofs.CommandReading

namespace WebSocket.Console

/-- Two slashes stand in the text, one behind the other. -/
def HasSlashes (text : List Char) : Prop :=
  ['/', '/'] <:+: text

instance (text : List Char) : Decidable (HasSlashes text) :=
  inferInstanceAs (Decidable (['/', '/'] <:+: text))

/-- The last two slashes of the line stand between `before` and `behind`. -/
structure LastSlashes (line before behind : List Char) : Prop where
  parts : line = before ++ '/' :: '/' :: behind
  last : ¬HasSlashes ('/' :: behind)

theorem hasSlashes_append (before behind : List Char) :
    HasSlashes (before ++ '/' :: '/' :: behind) :=
  ⟨before, behind, by simp⟩

theorem hasSlashes_cons_iff {c : Char} {text : List Char} :
    HasSlashes (c :: text) ↔ (c = '/' ∧ text.head? = some '/') ∨ HasSlashes text := by
  unfold HasSlashes
  rw [List.infix_cons_iff]
  refine or_congr ?_ Iff.rfl
  cases text <;> simp [List.cons_prefix_cons, eq_comm]

theorem hasSlashes_reverse {text : List Char} : HasSlashes text.reverse ↔ HasSlashes text :=
  @List.reverse_infix Char ['/', '/'] text

theorem hasSlashes_append_of_not_mem {front : List Char} (h : '/' ∉ front) (text : List Char) :
    HasSlashes (front ++ text) ↔ HasSlashes text := by
  induction front with
  | nil => rfl
  | cons c front ih =>
      rw [List.mem_cons, not_or] at h
      rw [List.cons_append, hasSlashes_cons_iff, ih h.2]
      exact or_iff_right fun hc => h.1 hc.1.symm

theorem hasSlashes_append_of_not_mem_right {tail : List Char} (h : '/' ∉ tail)
    (text : List Char) : HasSlashes (text ++ tail) ↔ HasSlashes text := by
  rw [← hasSlashes_reverse, List.reverse_append,
    hasSlashes_append_of_not_mem (by simpa using h), hasSlashes_reverse]

theorem exists_lastSlashes {text : List Char} (h : HasSlashes text) :
    ∃ before behind, LastSlashes text before behind := by
  induction text with
  | nil => simp [HasSlashes] at h
  | cons c text ih =>
      by_cases htext : HasSlashes text
      · obtain ⟨before, behind, rfl, hlast⟩ := ih htext
        exact ⟨c :: before, behind, rfl, hlast⟩
      · obtain ⟨rfl, hhead⟩ := (hasSlashes_cons_iff.mp h).resolve_right htext
        obtain ⟨behind, rfl⟩ := List.head?_eq_some_iff.mp hhead
        exact ⟨[], behind, rfl, htext⟩

theorem LastSlashes.append {text before behind : List Char} (h : LastSlashes text before behind)
    (front : List Char) : LastSlashes (front ++ text) (front ++ before) behind :=
  ⟨by rw [h.parts, List.append_assoc], h.last⟩

theorem beforeSlashes?_cons {c : Char} {rest : List Char}
    (h : ¬(c = '/' ∧ rest.head? = some '/')) :
    beforeSlashes? (c :: rest) = beforeSlashes? rest := by
  refine beforeSlashes?.eq_2 c rest ?_
  rintro before rfl rfl
  exact h ⟨rfl, rfl⟩

theorem beforeSlashes?_eq_none {text : List Char} (h : ¬HasSlashes text) :
    beforeSlashes? text = none := by
  induction text with
  | nil => rfl
  | cons c text ih =>
      rw [hasSlashes_cons_iff, not_or] at h
      rw [beforeSlashes?_cons h.1, ih h.2]

theorem beforeSlashes?_append {late : List Char} (h : ¬HasSlashes (late ++ ['/']))
    (before : List Char) : beforeSlashes? (late ++ '/' :: '/' :: before) = some before := by
  induction late with
  | nil => rfl
  | cons c late ih =>
      rw [List.cons_append, hasSlashes_cons_iff, not_or] at h
      have hhead : (late ++ '/' :: '/' :: before).head? = (late ++ ['/']).head? := by
        cases late <;> rfl
      rw [List.cons_append, beforeSlashes?_cons (by rw [hhead]; exact h.1), ih h.2]

theorem stripComment_of_not_hasSlashes {line : List Char} (h : ¬HasSlashes line) :
    stripComment line = line := by
  rw [stripComment, beforeSlashes?_eq_none (mt hasSlashes_reverse.mp h)]

theorem stripComment_of_lastSlashes {line before behind : List Char}
    (h : LastSlashes line before behind) :
    stripComment line = if before.getLast? = some ':' then line else before := by
  have hlate : ¬HasSlashes (behind.reverse ++ ['/']) := by
    rw [← List.reverse_cons, hasSlashes_reverse]
    exact h.last
  have hreverse : line.reverse = behind.reverse ++ '/' :: '/' :: before.reverse := by
    rw [h.parts]
    simp
  rw [stripComment, hreverse, beforeSlashes?_append hlate]
  simp only [List.head?_reverse, List.reverse_reverse]

/-- The line with a comment behind it. -/
def commented (line comment : List Char) : List Char :=
  line ++ '/' :: '/' :: comment

/-- No two slashes stand behind those that begin the comment, not even together with the second of
them. -/
def PlainComment (comment : List Char) : Prop :=
  ¬HasSlashes ('/' :: comment)

instance (comment : List Char) : Decidable (PlainComment comment) :=
  inferInstanceAs (Decidable ¬HasSlashes ('/' :: comment))

theorem not_plainComment_iff {comment : List Char} :
    ¬PlainComment comment ↔ ∃ kept dropped, LastSlashes ('/' :: comment) kept dropped := by
  unfold PlainComment
  rw [not_not]
  constructor
  · exact exists_lastSlashes
  · rintro ⟨kept, dropped, hparts, -⟩
    rw [hparts]
    exact hasSlashes_append kept dropped

theorem stripComment_of_plainComment {line comment : List Char} (h : PlainComment comment)
    (hline : line.getLast? ≠ some ':') : stripComment (commented line comment) = line := by
  have hlast : LastSlashes (commented line comment) line comment := ⟨rfl, h⟩
  rw [stripComment_of_lastSlashes hlast, if_neg hline]

/-- Of a comment with two slashes the part in front of them stays, or with a colon there all of
it. -/
theorem stripComment_of_kept {comment kept dropped : List Char}
    (h : LastSlashes ('/' :: comment) kept dropped) (line : List Char) :
    stripComment (commented line comment) =
      line ++ '/' :: if kept.getLast? = some ':' then '/' :: comment else kept := by
  have hlast : LastSlashes (commented line comment) (line ++ '/' :: kept) dropped :=
    (h.append ['/']).append line
  have hcolon : (line ++ '/' :: kept).getLast? = some ':' ↔ kept.getLast? = some ':' := by
    rw [List.getLast?_append, List.getLast?_cons]
    cases kept.getLast? <;> simp
  rw [stripComment_of_lastSlashes hlast, if_congr hcolon rfl rfl]
  split <;> rfl

theorem exists_trim_append_slash {line : List Char} (hne : Text.trim line ≠ [])
    (tail : List Char) :
    ∃ more, '/' ∈ more ∧ Text.trim (line ++ '/' :: tail) = Text.trim line ++ more := by
  obtain ⟨⟨left, right, hline, hleft, -⟩, hfirst, -⟩ := trimmed_trim line
  obtain ⟨⟨gap, behind, htail, hgap, hbehind⟩, -, hlast⟩ := trimmed_trim ('/' :: tail)
  have hslash : '/' ∈ Text.trim ('/' :: tail) := by
    have hmem : '/' ∈ gap ++ Text.trim ('/' :: tail) ++ behind := htail ▸ List.mem_cons_self
    rw [List.mem_append, List.mem_append] at hmem
    rcases hmem with (hmem | hmem) | hmem
    · exact absurd (hgap '/' hmem) (by decide)
    · exact hmem
    · exact absurd (hbehind '/' hmem) (by decide)
  have hsplit : line ++ '/' :: tail =
      left ++ (Text.trim line ++ (right ++ gap ++ Text.trim ('/' :: tail))) ++ behind := by
    calc
      line ++ '/' :: tail =
          (left ++ Text.trim line ++ right) ++ (gap ++ Text.trim ('/' :: tail) ++ behind) := by
        rw [← hline, ← htail]
      _ = _ := by simp only [List.append_assoc]
  refine ⟨right ++ gap ++ Text.trim ('/' :: tail), List.mem_append_right _ hslash,
    trim_eq_iff.mpr ⟨⟨left, behind, hsplit, hleft, hbehind⟩, ?_, ?_⟩⟩
  · rwa [List.head?_append_of_ne_nil _ hne]
  · rwa [← List.append_assoc, List.getLast?_append_of_ne_nil _ (List.ne_nil_of_mem hslash)]

theorem exists_broadcast_of_slash {line : List Char} {text : String}
    (h : readTrimmed (Text.trim line) = .ok (.broadcast text)) (tail : List Char) :
    ∃ more : String, '/' ∈ more.toList ∧
      readTrimmed (Text.trim (line ++ '/' :: tail)) = .ok (.broadcast (text ++ more)) := by
  rw [readTrimmed_eq_ok_iff] at h
  generalize htrim : Text.trim line = core at h
  cases h with
  | broadcast hne hfirst =>
      obtain ⟨more, hslash, hmore⟩ := exists_trim_append_slash (htrim ▸ hne) tail
      rw [htrim] at hmore
      refine ⟨.ofList more, by rwa [String.toList_ofList], ?_⟩
      rw [hmore, ← String.ofList_append, readTrimmed_eq_ok_iff]
      refine .broadcast (List.append_ne_nil_of_left_ne_nil hne more) ?_
      rwa [List.head?_append_of_ne_nil _ hne]

/-- **A comment in which no two slashes stand never changes the command.** Of any other comment a
part is read as if it belonged to the line: what stands in front of its last two slashes, or all of
it if there is a colon in front of these. So a text for everybody is told with a part of the comment
exactly if the comment has two slashes in it. -/
theorem comment_is_dropped (line comment : String) (hline : ¬HasSlashes line.toList)
    (hend : line.toList.getLast? ≠ some ':') :
    (PlainComment comment.toList →
      Command.parse (line ++ "//" ++ comment) = Command.parse line) ∧
    (∀ kept dropped, LastSlashes ('/' :: comment.toList) kept dropped →
      Command.parse (line ++ "//" ++ comment) = readTrimmed (Text.trim (line.toList ++
        '/' :: if kept.getLast? = some ':' then '/' :: comment.toList else kept))) ∧
    (∀ text, Command.parse line = .ok (.broadcast text) → ¬PlainComment comment.toList →
      ∃ more : String, '/' ∈ more.toList ∧
        Command.parse (line ++ "//" ++ comment) = .ok (.broadcast (text ++ more))) := by
  have hwhole : (line ++ "//" ++ comment).toList = commented line.toList comment.toList := by
    rw [String.toList_append, String.toList_append, List.append_assoc]
    rfl
  have hkept : ∀ kept dropped, LastSlashes ('/' :: comment.toList) kept dropped →
      Command.parse (line ++ "//" ++ comment) = readTrimmed (Text.trim (line.toList ++
        '/' :: if kept.getLast? = some ':' then '/' :: comment.toList else kept)) := by
    intro kept dropped hlast
    rw [Command.parse, hwhole, stripComment_of_kept hlast]
  have hbare : Command.parse line = readTrimmed (Text.trim line.toList) := by
    rw [Command.parse, stripComment_of_not_hasSlashes hline]
  refine ⟨fun hplain => ?_, hkept, fun text htext hnot => ?_⟩
  · rw [hbare, Command.parse, hwhole, stripComment_of_plainComment hplain hend]
  · obtain ⟨kept, dropped, hlast⟩ := not_plainComment_iff.mp hnot
    rw [hbare] at htext
    rw [hkept kept dropped hlast]
    exact exists_broadcast_of_slash htext _

theorem comment_is_dropped_of_notes :
    ¬HasSlashes "bye ".toList ∧ "bye ".toList.getLast? ≠ some ':' ∧
      Command.parse ("bye " ++ "//" ++ " at 5:30") = Command.parse "bye " ∧
      Command.parse ("bye " ++ "//" ++ " now // later") = .ok (.broadcast "bye // now") := by
  have hline : ¬HasSlashes "bye ".toList := by decide
  have hend : "bye ".toList.getLast? ≠ some ':' := by decide
  have hlast : LastSlashes ('/' :: " now // later".toList) "/ now ".toList " later".toList :=
    ⟨rfl, by decide +kernel⟩
  have hplain : PlainComment " at 5:30".toList := by decide +kernel
  refine ⟨hline, hend, (comment_is_dropped "bye " " at 5:30" hline hend).1 hplain, ?_⟩
  rw [(comment_is_dropped "bye " " now // later" hline hend).2.1 _ _ hlast]
  decide +kernel

/-- A comment with an address in it is told to everybody, word for word. -/
theorem comment_with_address_is_told :
    ¬HasSlashes "bye ".toList ∧ (∀ c ∈ "bye ".toList.getLast?, c ≠ ':' ∧ c ≠ '/') ∧
      Command.parse "bye " = .ok (.broadcast "bye") ∧
      Command.parse ("bye " ++ "//" ++ " see ws://a") =
        .ok (.broadcast "bye // see ws://a") := by
  refine ⟨by decide, ?_, by decide +kernel, by decide +kernel⟩
  rintro c ⟨⟩
  decide

end WebSocket.Console

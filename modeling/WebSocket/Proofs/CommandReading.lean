import WebSocket.Console.Command
import WebSocket.Proofs.Splitting

namespace WebSocket.Console

/-- What a line can be understood as. -/
inductive Understood : List Char → Command → Prop where
  | nothing : Understood [] .nothing
  | send {id : ConnectionId} {spelled text : List Char} {blank : Char}
      (hspelled : ∀ c ∈ spelled, Text.isBlank c = false) (hblank : Text.isBlank blank = true)
      (hid : ConnectionId.parse spelled = .ok id) :
      Understood ('@' :: (spelled ++ blank :: text)) (.send id (.ofList (Text.trimStart text)))
  | list {rest : List Char} (hwords : Words Text.isBlank rest ["list".toList]) :
      Understood ('/' :: rest) .list
  /-- Words behind the identifier do not matter. -/
  | kick {id : ConnectionId} {rest spelled : List Char} {more : List (List Char)}
      (hwords : Words Text.isBlank rest ("kick".toList :: spelled :: more))
      (hid : ConnectionId.parse spelled = .ok id) : Understood ('/' :: rest) (.kick id)
  | broadcast {text : List Char} (hne : text ≠ []) (hfirst : ∀ c ∈ text.head?, c ≠ '@' ∧ c ≠ '/') :
      Understood text (.broadcast (.ofList text))

theorem readId_eq_ok_iff {text : List Char} {id : ConnectionId} :
    readId text = .ok id ↔ ConnectionId.parse text = .ok id := by
  unfold readId
  cases ConnectionId.parse text <;> simp

theorem map_readId_eq_ok_iff {text : List Char} {f : ConnectionId → Command} {command : Command} :
    (readId text).map f = .ok command ↔
      ∃ id, ConnectionId.parse text = .ok id ∧ f id = command := by
  cases h : readId text with
  | error e =>
      have hparse : ∀ id, ConnectionId.parse text ≠ .ok id := by
        intro id hid
        rw [readId_eq_ok_iff.mpr hid] at h
        cases h
      simp [Except.map, hparse]
  | ok id => simp [Except.map, readId_eq_ok_iff.mp h]

theorem readSend_append {spelled text : List Char} {blank : Char}
    (hspelled : ∀ c ∈ spelled, Text.isBlank c = false) (hblank : Text.isBlank blank = true) :
    readSend (spelled ++ blank :: text) =
      (readId spelled).map fun id => .send id (.ofList (Text.trimStart text)) := by
  have hfront : (spelled ++ blank :: text).takeWhile (!Text.isBlank ·) = spelled := by
    rw [List.takeWhile_append_of_pos (by simpa using hspelled),
      List.takeWhile_cons_of_neg (by simp [hblank]), List.append_nil]
  have hbehind : (spelled ++ blank :: text).dropWhile (!Text.isBlank ·) = blank :: text := by
    rw [List.dropWhile_append_of_pos (by simpa using hspelled),
      List.dropWhile_cons_of_neg (by simp [hblank])]
  rw [readSend, hfront, hbehind]

theorem understood_of_readSend {rest : List Char} {command : Command}
    (h : readSend rest = .ok command) : Understood ('@' :: rest) command := by
  have hpieces : Pieces Text.isBlank rest _ := pieces_splitWhere rest
  generalize splitWhere Text.isBlank rest = pieces at hpieces
  cases hpieces with
  | last hnone =>
      have hdrop : rest.dropWhile (!Text.isBlank ·) = [] :=
        List.dropWhile_eq_nil_iff.mpr (by simpa using hnone)
      simp [readSend, hdrop] at h
  | cut hspelled hblank _ =>
      rw [readSend_append hspelled hblank, map_readId_eq_ok_iff] at h
      obtain ⟨id, hid, rfl⟩ := h
      exact .send hspelled hblank hid

theorem understood_of_readSlash {rest : List Char} {command : Command}
    (h : readSlash rest = .ok command) : Understood ('/' :: rest) command := by
  have hwords : Words Text.isBlank rest (Text.words rest) := words_eq_iff.mp rfl
  unfold readSlash at h
  split at h
  · rename_i name hname
    rw [hname] at hwords
    split at h
    · rename_i hlist
      subst hlist
      cases h
      exact .list hwords
    · split at h <;> cases h
  · rename_i name spelled more hname
    rw [hname] at hwords
    split at h
    · rename_i hkick
      subst hkick
      obtain ⟨id, hid, rfl⟩ := map_readId_eq_ok_iff.mp h
      exact .kick hwords hid
    · cases h
  · cases h

/-- A line is read as a command exactly if it has the shape of it. -/
theorem readTrimmed_eq_ok_iff {line : List Char} {command : Command} :
    readTrimmed line = .ok command ↔ Understood line command := by
  constructor
  · intro h
    unfold readTrimmed at h
    split at h
    · cases h
      exact .nothing
    · exact understood_of_readSend h
    · exact understood_of_readSlash h
    · rename_i hnil hsend hslash
      cases h
      refine .broadcast (fun hempty => hnil hempty) ?_
      intro c hc
      obtain ⟨rest, rfl⟩ := List.head?_eq_some_iff.mp hc
      exact ⟨fun hat => hsend rest (by rw [hat]), fun hat => hslash rest (by rw [hat])⟩
  · intro h
    cases h with
    | nothing => rfl
    | send hspelled hblank hid =>
        rw [readTrimmed, readSend_append hspelled hblank, readId_eq_ok_iff.mpr hid]
        rfl
    | list hwords =>
        have hlist : Text.words _ = _ := words_eq_iff.mpr hwords
        rw [readTrimmed, readSlash, hlist]
        rfl
    | kick hwords hid =>
        have hkick : Text.words _ = _ := words_eq_iff.mpr hwords
        rw [readTrimmed, readSlash, hkick]
        exact map_readId_eq_ok_iff.mpr ⟨_, hid, rfl⟩
    | broadcast hne hfirst =>
        cases line with
        | nil => exact absurd rfl hne
        | cons c rest =>
            have hfirst := hfirst c rfl
            refine readTrimmed.eq_4 (c :: rest) (by simp) ?_ ?_
            · intro other heq
              exact hfirst.1 (List.cons.inj heq).1
            · intro other heq
              exact hfirst.2 (List.cons.inj heq).1

/-- Some text without blanks around it. -/
structure Tellable (text : List Char) : Prop where
  ne_nil : text ≠ []
  first : ∀ c ∈ text.head?, Text.isBlank c = false
  last : ∀ c ∈ text.getLast?, Text.isBlank c = false

/-- The text that a command tells to anybody, if it tells any. -/
def Command.told? : Command → Option String
  | .broadcast text => some text
  | .send _ text => some text
  | .kick _ => none
  | .list => none
  | .nothing => none

theorem trimmed_trim (line : List Char) : Trimmed Text.isBlank line (Text.trim line) :=
  trim_eq_iff.mp rfl

theorem trim_of_tellable {text : List Char} (h : Tellable text) {left right : List Char}
    (hleft : ∀ c ∈ left, Text.isBlank c = true) (hright : ∀ c ∈ right, Text.isBlank c = true) :
    Text.trim (left ++ text ++ right) = text :=
  trim_eq_iff.mpr ⟨⟨left, right, rfl, hleft, hright⟩, h.first, h.last⟩

theorem tellable_trimStart {text : List Char} {blank : Char} (hblank : Text.isBlank blank = true)
    (hlast : ∀ c ∈ (blank :: text).getLast?, Text.isBlank c = false) :
    Tellable (Text.trimStart text) := by
  have hsplit : text.takeWhile Text.isBlank ++ Text.trimStart text = text :=
    List.takeWhile_append_dropWhile
  refine ⟨fun hnil => ?_, head?_of_dropWhile text, fun c hc => hlast c ?_⟩
  · have hall : ∀ c ∈ blank :: text, Text.isBlank c = true :=
      List.forall_mem_cons.mpr ⟨hblank, List.dropWhile_eq_nil_iff.mp hnil⟩
    have hend := List.getLast?_eq_some_getLast (List.cons_ne_nil blank text)
    simpa [hlast _ hend] using hall _ (List.getLast_mem (List.cons_ne_nil blank text))
  · rw [List.getLast?_cons, ← hsplit, List.getLast?_append, hc]
    rfl

theorem tellable_of_understood {line : List Char} {command : Command}
    (h : Understood line command) (hfirst : ∀ c ∈ line.head?, Text.isBlank c = false)
    (hlast : ∀ c ∈ line.getLast?, Text.isBlank c = false) :
    ∀ text ∈ command.told?, Tellable text.toList := by
  intro told htold
  cases h with
  | nothing | list | kick => cases htold
  | broadcast hne =>
      cases htold
      rw [String.toList_ofList]
      exact ⟨hne, hfirst, hlast⟩
  | send _ hblank =>
      cases htold
      rw [String.toList_ofList]
      refine tellable_trimStart hblank fun c hc => hlast c ?_
      rw [List.getLast?_cons, List.getLast?_append, hc]
      rfl

end WebSocket.Console

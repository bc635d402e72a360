import WebSocket.Proofs.HeaderLookup
import WebSocket.Proofs.RequestLayout

/-!
What a request asks for stands in its first line. The path is read from the bytes in front of the
first line end, a carriage return with a line feed, but the lines that can be headers begin behind
the first line feed. Where the two agree, no header can become a part of the path; a line feed
without a carriage return keeps them apart.
-/

namespace WebSocket.Handshake

/-- What a line asks for: its second word, or a slash where it has none or is no text. -/
inductive Target (line : Bytes) : Bytes → Prop where
  | word {first target : Bytes} {later : List Bytes} (htext : Utf8.IsText line)
      (hwords : Words Ascii.isBlank line (first :: target :: later)) : Target line target
  | short {words : List Bytes} (hwords : Words Ascii.isBlank line words)
      (hshort : words.length < 2) : Target line [0x2F]
  | illegible (h : ¬Utf8.IsText line) : Target line [0x2F]

theorem Target.unique {line target other : Bytes} (h : Target line target)
    (hother : Target line other) : target = other := by
  cases h with
  | word htext hwords =>
      cases hother with
      | word _ hwords' =>
          have hsame := hwords.unique hwords'
          simp only [List.cons.injEq] at hsame
          exact hsame.2.1
      | short hwords' hshort =>
          rw [← hwords.unique hwords', List.length_cons, List.length_cons] at hshort
          omega
      | illegible hno => exact absurd htext hno
  | short hwords hshort =>
      cases hother with
      | word _ hwords' =>
          rw [hwords.unique hwords', List.length_cons, List.length_cons] at hshort
          omega
      | short | illegible => rfl
  | illegible hno =>
      cases hother with
      | word htext => exact absurd htext hno
      | short | illegible => rfl

theorem Request.path_target (request : Request) : Target request.firstLine request.path := by
  unfold path
  by_cases htext : Utf8.isValid request.firstLine = true
  · rw [if_pos htext]
    have hwords : Words Ascii.isBlank request.firstLine (Ascii.words request.firstLine) :=
      words_eq_iff.mp rfl
    split
    · rename_i heq
      rw [heq] at hwords
      exact .word (Utf8.isValid_iff.mp htext) hwords
    · rename_i hnone
      refine .short hwords ?_
      generalize Ascii.words request.firstLine = words at hnone
      match words with
      | [] | [_] => simp
      | first :: target :: later => exact absurd rfl (hnone first target later)
  · rw [if_neg htext]
    exact .illegible fun hlegible => htext (Utf8.isValid_iff.mpr hlegible)

theorem Target.append_return {line target : Bytes} (h : Target line target) :
    Target (line ++ [0x0D]) target := by
  have hwords : ∀ words, Words Ascii.isBlank line words →
      Words Ascii.isBlank (line ++ [0x0D]) words := by
    intro words hwords
    have hnone : Words Ascii.isBlank [] [] := .none (by simp)
    simpa using hwords.append_blank (x := 0x0D) rfl hnone
  have htext : Utf8.IsText (line ++ [0x0D]) ↔ Utf8.IsText line := by
    rw [Utf8.isText_append_cons_iff (by decide)]
    exact and_iff_left ⟨"", rfl⟩
  cases h with
  | word hline h => exact .word (htext.mpr hline) (hwords _ h)
  | short h hshort => exact .short (hwords _ h) hshort
  | illegible h => exact .illegible fun hline => h (htext.mp hline)

/-- The line of a head that can be no header: what stands in front of the first line feed, or
everything if there is none. -/
def requestLine (head : Bytes) : Bytes :=
  head.takeWhile (· != 0x0A)

theorem pieces_requestLine (head : Bytes) :
    Pieces (· == 0x0A) head (requestLine head :: headerLines head) := by
  have hpieces : Pieces (· == 0x0A) head _ := pieces_splitWhere head
  obtain ⟨first, lines, hlines⟩ :=
    List.exists_cons_of_ne_nil (splitWhere_ne_nil (· == 0x0A) head)
  rw [hlines] at hpieces
  have hfirst : requestLine head = first := takeWhile_of_pieces hpieces
  rwa [headerLines, hlines, hfirst]

/-- The first line feed of the head, if it has one, stands behind a carriage return. -/
def LineEnded (head : Bytes) : Prop :=
  0x0A ∉ head ∨ ∃ front behind, head = front ++ lineEnd ++ behind ∧ 0x0A ∉ front

theorem lineFeed_free {front : Bytes} (h : 0x0A ∉ front) : ∀ b ∈ front, (b == 0x0A) = false := by
  simpa only [beq_eq_false_iff_ne] using List.forall_mem_ne'.mpr h

theorem requestLine_of_not_mem {head : Bytes} (h : 0x0A ∉ head) : requestLine head = head :=
  takeWhile_of_pieces (.last (lineFeed_free h))

theorem requestLine_append {front : Bytes} (h : 0x0A ∉ front) (behind : Bytes) :
    requestLine (front ++ 0x0A :: behind) = front :=
  takeWhile_of_pieces
    (.cut (lineFeed_free h) (beq_self_eq_true 0x0A) (pieces_splitWhere behind))

theorem requestLine_of_mem {head : Bytes} (h : 0x0A ∈ head) :
    0x0A ∉ requestLine head ∧ ∃ behind, head = requestLine head ++ 0x0A :: behind := by
  have hpieces := pieces_requestLine head
  generalize requestLine head = line at hpieces ⊢
  generalize headerLines head = lines at hpieces
  cases hpieces with
  | last hnone => simpa using hnone _ h
  | @cut _ behind b _ hline hb _ =>
      refine ⟨fun hmem => by simpa using hline _ hmem, behind, ?_⟩
      rw [eq_of_beq hb]

theorem precedes_lineEnd {front : Bytes} (h : 0x0A ∉ front) (behind : Bytes) :
    Bytes.Precedes front lineEnd (front ++ lineEnd ++ behind) := by
  refine ⟨⟨behind, rfl⟩, fun other rest hother => ?_⟩
  rw [List.append_assoc, List.append_assoc, List.append_eq_append_iff] at hother
  rcases hother with ⟨more, rfl, -⟩ | ⟨more, rfl, hmore⟩
  · rw [List.length_append]
    exact Nat.le_add_right ..
  · -- A line end in front would end inside `front`, or with the carriage return behind it.
    rcases more with _ | ⟨b, _ | ⟨c, more⟩⟩
    · simp
    · simp [lineEnd] at hmore
    · simp only [lineEnd, List.cons_append, List.cons.injEq] at hmore
      simp [← hmore.2.1] at h

theorem Request.firstLine_of_lineEnded {request : Request} (h : LineEnded request.head) :
    requestLine request.head = request.firstLine ∨
      requestLine request.head = request.firstLine ++ [0x0D] := by
  unfold firstLine
  rcases h with hnone | ⟨front, behind, hhead, hfront⟩
  · have hfind : Bytes.find? lineEnd request.head = none := by
      rw [Bytes.find?_eq_none_iff]
      intro hinside
      exact hnone (hinside.subset (by simp [lineEnd]))
    rw [hfind]
    exact .inl (requestLine_of_not_mem hnone)
  · rw [hhead, Bytes.find?_of_precedes (precedes_lineEnd hfront behind)]
    right
    have hcut : front ++ lineEnd ++ behind = (front ++ [0x0D]) ++ 0x0A :: behind := by
      simp [lineEnd]
    rw [hcut, requestLine_append (by simpa using hfront)]
    simp

/-- Where the first line feed stands alone, what the path is read from goes on behind it. -/
theorem Request.firstLine_of_not_lineEnded {request : Request} (h : ¬LineEnded request.head) :
    requestLine request.head ++ [0x0A] <+: request.firstLine := by
  rw [LineEnded, not_or, not_not] at h
  obtain ⟨hmem, hbare⟩ := h
  obtain ⟨hline, rest, hhead⟩ := requestLine_of_mem hmem
  unfold firstLine
  cases hfind : Bytes.find? lineEnd request.head with
  | none => exact ⟨rest, by rw [List.append_assoc]; exact hhead.symm⟩
  | some position =>
      obtain ⟨behind, hfound⟩ := Bytes.exists_of_find? hfind
      change _ <+: request.head.take position
      generalize request.head.take position = front at hfound ⊢
      have hcuts := hfound.symm.trans hhead
      rw [List.append_assoc, List.append_eq_append_iff] at hcuts
      rcases hcuts with ⟨more, hmore, hrest⟩ | ⟨more, hmore, hrest⟩
      · -- The line end that was found would end the request line, or stand inside it.
        rcases more with _ | ⟨b, _ | ⟨c, more⟩⟩
        · simp [lineEnd] at hrest
        · simp only [lineEnd, List.cons_append, List.nil_append, List.cons.injEq] at hrest
          obtain ⟨rfl, -, rfl⟩ := hrest
          refine absurd ⟨front, behind, hfound, fun hlf => hline ?_⟩ hbare
          rw [hmore]
          exact List.mem_append_left _ hlf
        · simp only [lineEnd, List.cons_append, List.cons.injEq] at hrest
          refine absurd ?_ hline
          rw [hmore, ← hrest.2.1]
          simp
      · rcases more with _ | ⟨b, more⟩
        · simp [lineEnd] at hrest
        · rw [List.cons_append, List.cons.injEq] at hrest
          rw [hmore, ← hrest.1]
          exact ⟨more, by simp⟩

/-- The path can be told from the request line alone: the line ends with a line end, or it has two
words and the bytes behind it that the path is read from are text too. -/
def Request.TellsPath (request : Request) : Prop :=
  LineEnded request.head ∨ Utf8.IsText request.firstLine ∧
    ∃ first target later, Words Ascii.isBlank (requestLine request.head) (first :: target :: later)

theorem Request.target_of_tellsPath {request : Request} (h : request.TellsPath) :
    Target (requestLine request.head) request.path := by
  by_cases hended : LineEnded request.head
  · rcases firstLine_of_lineEnded hended with hline | hline
    · rw [hline]
      exact request.path_target
    · rw [hline]
      exact request.path_target.append_return
  · obtain ⟨htext, first, target, later, hwords⟩ := h.resolve_left hended
    obtain ⟨rest, hrest⟩ := firstLine_of_not_lineEnded hended
    rw [List.append_assoc, List.singleton_append] at hrest
    rw [← hrest, Utf8.isText_append_cons_iff (by decide)] at htext
    have hbehind : Words Ascii.isBlank rest _ := words_of_pieces (pieces_splitWhere rest)
    have hall := hwords.append_blank (x := 0x0A) rfl hbehind
    rw [hrest, List.cons_append, List.cons_append] at hall
    have hpath : Target request.firstLine target :=
      .word (by rw [← hrest, Utf8.isText_append_cons_iff (by decide)]; exact htext) hall
    rw [request.path_target.unique hpath]
    exact .word htext.1 hwords

/-- **The path is what the request line asks for**, wherever the request line can be told: it is the
second word of that line, or a slash, and two requests with the same line have the same path,
whatever their headers say. The request line is the line that can be no header. In any case the path
is what the bytes in front of the first line end ask for; where the first line feed stands alone,
these are more than the request line. -/
theorem Request.path_is_target_of_line (request : Request) :
    Pieces (· == 0x0A) request.head (requestLine request.head :: headerLines request.head) ∧
    (request.TellsPath →
      Target (requestLine request.head) request.path ∧
        ∀ other : Request, other.TellsPath → requestLine other.head = requestLine request.head →
          other.path = request.path) ∧
    Target request.firstLine request.path ∧
    (¬LineEnded request.head → requestLine request.head ++ [0x0A] <+: request.firstLine) := by
  refine ⟨pieces_requestLine request.head, fun htells => ?_, request.path_target,
    firstLine_of_not_lineEnded⟩
  have hpath := target_of_tellsPath htells
  refine ⟨hpath, fun other hother hline => ?_⟩
  have hother := target_of_tellsPath hother
  rw [hline] at hother
  exact hother.unique hpath

/-- A request in the standard scheme. -/
def chatRequest : Request where
  head := Utf8.encode "GET /chat HTTP/1.1\r\nHost: a.b\r\nSec-WebSocket-Key: AQ=="
  scheme := .rfc6455
  challenge := []

/-- A request with the same request line. Its headers are others, and one of them is no text. -/
def otherChatRequest : Request where
  head := Utf8.encode "GET /chat HTTP/1.1\r\nSec-WebSocket-Key: AQ==\r\nReferer: GET /other " ++
    [0xFF]
  scheme := .rfc6455
  challenge := []

theorem Request.path_of_chatRequests :
    Negotiator.standard.parse (chatRequest.head ++ headEnd) = .ok (some chatRequest) ∧
      Negotiator.standard.parse (otherChatRequest.head ++ headEnd) = .ok (some otherChatRequest) ∧
      chatRequest.TellsPath ∧ otherChatRequest.TellsPath ∧
      requestLine otherChatRequest.head = requestLine chatRequest.head ∧
      chatRequest.path = Utf8.encode "/chat" ∧ otherChatRequest.path = chatRequest.path := by
  have htells : chatRequest.TellsPath :=
    .inl (.inr ⟨Utf8.encode "GET /chat HTTP/1.1",
      Utf8.encode "Host: a.b\r\nSec-WebSocket-Key: AQ==", by decide +kernel, by decide +kernel⟩)
  have hothertells : otherChatRequest.TellsPath :=
    .inl (.inr ⟨Utf8.encode "GET /chat HTTP/1.1",
      Utf8.encode "Sec-WebSocket-Key: AQ==\r\nReferer: GET /other " ++ [0xFF],
      by decide +kernel, by decide +kernel⟩)
  have hline : requestLine otherChatRequest.head = requestLine chatRequest.head := by
    decide +kernel
  obtain ⟨-, htarget, -, -⟩ := chatRequest.path_is_target_of_line
  obtain ⟨hpath, hsame⟩ := htarget htells
  have hwords : Words Ascii.isBlank (requestLine chatRequest.head)
      [Utf8.encode "GET", Utf8.encode "/chat", Utf8.encode "HTTP/1.1"] :=
    words_eq_iff.mp (by decide +kernel)
  have htext : Utf8.IsText (requestLine chatRequest.head) :=
    Utf8.isValid_iff.mp (by decide +kernel)
  exact ⟨by decide +kernel, by decide +kernel, htells, hothertells, hline,
    hpath.unique (.word htext hwords), hsame otherChatRequest hothertells hline⟩

/-- A request in the older scheme whose request line is one word and ends with a line feed alone. -/
def bareLineRequest : Request where
  head := Utf8.encode "GET\nHost: a.b\r\nSec-WebSocket-Key1: 4 2\r\nSec-WebSocket-Key2: 1 2"
  scheme := .legacy
  challenge := Utf8.encode "12345678"

/-- The name of a header is taken for the path, and repeated as such. -/
theorem header_is_taken_for_path :
    Negotiator.standard.parse (bareLineRequest.head ++ headEnd ++ bareLineRequest.challenge) =
        .ok (some bareLineRequest) ∧
      requestLine bareLineRequest.head = Utf8.encode "GET" ∧
      bareLineRequest.path = Utf8.encode "Host:" ∧
      ¬Target (requestLine bareLineRequest.head) bareLineRequest.path ∧
      locationLine bareLineRequest =
        .ok [Utf8.encode "Sec-WebSocket-Location: ws://a.bHost:"] := by
  have hline : requestLine bareLineRequest.head = Utf8.encode "GET" := by decide +kernel
  have hpath : bareLineRequest.path = Utf8.encode "Host:" := by decide +kernel
  refine ⟨by decide +kernel, hline, hpath, fun htarget => ?_, by decide +kernel⟩
  have hwords : Words Ascii.isBlank (Utf8.encode "GET") [Utf8.encode "GET"] :=
    words_eq_iff.mp (by decide +kernel)
  rw [hline, hpath] at htarget
  exact absurd (htarget.unique (.short hwords (by decide))) (by decide +kernel)

end WebSocket.Handshake

import WebSocket.Proofs.RequestLayout

namespace WebSocket.Handshake

def lengthen (b : UInt8) : List Bytes → List Bytes
  | [] => [[b]]
  | piece :: pieces => (b :: piece) :: pieces

/-- The pieces between the line ends: one more than there are line ends. -/
def splitLines : Bytes → List Bytes
  | 0x0D :: 0x0A :: rest => [] :: splitLines rest
  | b :: rest => lengthen b (splitLines rest)
  | [] => [[]]

theorem splitLines_ne_nil (bytes : Bytes) : splitLines bytes ≠ [] := by
  fun_cases splitLines bytes with
  | case1 => simp
  | case2 b rest => cases splitLines rest <;> simp [lengthen]
  | case3 => simp

theorem lengthen_append (b : UInt8) {pieces : List Bytes} (h : pieces ≠ []) (more : List Bytes) :
    lengthen b (pieces ++ more) = lengthen b pieces ++ more := by
  cases pieces with
  | nil => exact absurd rfl h
  | cons piece pieces => rfl

theorem splitLines_append (front rest : Bytes) :
    splitLines (front ++ lineEnd ++ rest) = splitLines front ++ splitLines rest := by
  fun_induction splitLines front with
  | case1 front ih => simpa [splitLines] using ih
  | case2 b front hend ih =>
      -- Where `b` begins no line end in front, it begins none in the whole either.
      have hcons : splitLines (b :: (front ++ lineEnd ++ rest)) =
          lengthen b (splitLines (front ++ lineEnd ++ rest)) := by
        refine splitLines.eq_2 _ _ fun behind hb happend => ?_
        cases front with
        | nil => simp [lineEnd] at happend
        | cons c front =>
            rw [List.cons_append, List.cons_append, List.cons.injEq] at happend
            exact hend front hb (by rw [happend.1])
      rw [List.cons_append, List.cons_append, hcons, ih, lengthen_append b (splitLines_ne_nil front)]
  | case3 => simp [splitLines, lineEnd]

theorem splitLines_of_not_mem {line : Bytes} (h : (0x0D : UInt8) ∉ line) :
    splitLines line = [line] := by
  induction line with
  | nil => rfl
  | cons b line ih =>
      rw [List.mem_cons, not_or] at h
      rw [splitLines.eq_2 _ _ fun _ hb _ => h.1 hb.symm, ih h.2]
      rfl

theorem eq_nil_of_splitLines {bytes : Bytes} (h : splitLines bytes = [[]]) : bytes = [] := by
  revert h
  fun_cases splitLines bytes with
  | case1 rest => simp [splitLines_ne_nil]
  | case2 b rest => cases splitLines rest <;> simp [lengthen]
  | case3 => simp

theorem splitLines_render {lines : List Bytes} (h : ∀ line ∈ lines, (0x0D : UInt8) ∉ line) :
    splitLines (render lines []) = lines ++ [[], []] := by
  induction lines with
  | nil => rfl
  | cons line lines ih =>
      have hcons : render (line :: lines) [] = line ++ lineEnd ++ render lines [] := by
        simp [render]
      rw [hcons, splitLines_append, splitLines_of_not_mem (h line (by simp)),
        ih fun other hother => h other (by simp [hother])]
      rfl

theorem render_eq_append (lines : List Bytes) (body : Bytes) :
    render lines body = render lines [] ++ body := by
  simp [render]

theorem headEnd_suffix_render {lines : List Bytes} (h : lines ≠ []) :
    headEnd <:+ render lines [] := by
  refine ⟨lines.dropLast.flatMap (· ++ lineEnd) ++ lines.getLast h, ?_⟩
  have hlast : lines.flatMap (· ++ lineEnd) =
      lines.dropLast.flatMap (· ++ lineEnd) ++ (lines.getLast h ++ lineEnd) := by
    conv_lhs => rw [← List.dropLast_concat_getLast h]
    rw [List.flatMap_append, List.flatMap_singleton]
  rw [render, hlast]
  simp [headEnd]

/-- A head without empty lines ends at its first blank line. -/
theorem eq_nil_of_headEnd {head : Bytes} {lines : List Bytes}
    (hsplit : splitLines head = lines ++ [[], []]) (hlines : [] ∉ lines) {front rest : Bytes}
    (h : head = front ++ headEnd ++ rest) : rest = [] := by
  have hcut : splitLines head = splitLines front ++ [] :: splitLines rest := by
    have happend : head = front ++ lineEnd ++ ([] ++ lineEnd ++ rest) := by
      simpa [headEnd] using h
    rw [happend, splitLines_append, splitLines_append]
    rfl
  rw [hcut] at hsplit
  apply eq_nil_of_splitLines
  rcases List.append_eq_append_iff.mp hsplit with ⟨more, hmore, hrest⟩ | ⟨more, hmore, hrest⟩
  · cases more with
    | nil => simpa using hrest
    | cons piece more =>
        rw [List.cons_append, List.cons.injEq] at hrest
        rw [hmore, ← hrest.1] at hlines
        simp at hlines
  · -- All pieces of the end would have to stand behind the blank line.
    cases more with
    | nil => simpa using hrest.symm
    | cons piece more =>
        cases more with
        | nil => simp [splitLines_ne_nil] at hrest
        | cons other more => simp at hrest

/-- A line without control bytes, tabs apart. -/
def Clean (line : Bytes) : Prop :=
  ∀ b ∈ line, Ascii.isControl b = true → b = 0x09

instance (line : Bytes) : Decidable (Clean line) :=
  inferInstanceAs (Decidable (∀ b ∈ line, Ascii.isControl b = true → b = 0x09))

theorem Clean.append {line more : Bytes} (h : Clean line) (hmore : Clean more) :
    Clean (line ++ more) := by
  intro b hb
  rcases List.mem_append.mp hb with hb | hb
  · exact h b hb
  · exact hmore b hb

theorem Clean.not_mem {line : Bytes} (h : Clean line) : (0x0D : UInt8) ∉ line := by
  intro hmem
  have htab : (0x0D : UInt8) = 0x09 := h _ hmem (by decide)
  exact absurd htab (by decide)

theorem of_echoable {value echoed : Bytes} (h : echoable value = .ok echoed) :
    echoed = value ∧ Clean value := by
  unfold echoable at h
  split at h
  · simp at h
  · rename_i hany
    simp only [Except.ok.injEq] at h
    refine ⟨h.symm, fun b hb hcontrol => ?_⟩
    by_contra htab
    exact hany (List.any_eq_true.mpr ⟨b, hb, by simp [hcontrol, htab]⟩)

theorem Clean.cons {b : UInt8} {line : Bytes} (hb : Ascii.isControl b = false) (h : Clean line) :
    Clean (b :: line) := by
  intro c hc hcontrol
  rcases List.mem_cons.mp hc with rfl | hc
  · simp [hb] at hcontrol
  · exact h c hc hcontrol

theorem isControl_base64Letter {n : Nat} (h : n < 64) :
    Ascii.isControl (Digest.base64Letter n) = false := by
  have hall : ∀ n < 64, Ascii.isControl (Digest.base64Letter n) = false := by
    decide +kernel
  exact hall n h

theorem clean_base64 (bytes : Bytes) : Clean (Digest.base64 bytes) := by
  have hpad : Ascii.isControl Digest.base64Pad = false := by decide
  have hempty : Clean [] := by simp [Clean]
  fun_induction Digest.base64 bytes with
  | case1 => exact hempty
  | case2 a n =>
      have hn : n < 4096 := by have := a.toNat_lt; omega
      exact .cons (isControl_base64Letter (by omega)) <| .cons (isControl_base64Letter (by omega)) <|
        .cons hpad <| .cons hpad hempty
  | case3 a b n =>
      have hn : n < 262144 := by have := a.toNat_lt; have := b.toNat_lt; omega
      exact .cons (isControl_base64Letter (by omega)) <| .cons (isControl_base64Letter (by omega)) <|
        .cons (isControl_base64Letter (by omega)) <| .cons hpad hempty
  | case4 a b c rest n ih =>
      have hn : n < 16777216 := by
        have := a.toNat_lt
        have := b.toNat_lt
        have := c.toNat_lt
        omega
      exact .cons (isControl_base64Letter (by omega)) <| .cons (isControl_base64Letter (by omega)) <|
        .cons (isControl_base64Letter (by omega)) <| .cons (isControl_base64Letter (by omega)) ih

theorem length_md5 (message : Bytes) : (Digest.md5 message).length = 16 := by
  simp [Digest.md5, Digest.Md5State.bytes, ByteOrder.bytes]

theorem keyNumber_lt {value : Bytes} {number : Nat} (h : keyNumber value = .ok number) :
    number < UInt32.size := by
  unfold keyNumber at h
  split at h
  · simp at h
  · dsimp only at h
    split at h
    · simp at h
    · rename_i hbounds
      simp only [Except.ok.injEq] at h
      omega

/-- The request has a header of that name, whatever its value is. -/
def Request.Names (request : Request) (name : Bytes) : Prop :=
  ∃ line ∈ headerLines request.head, ∃ lineName value,
    nameValue? line = some (lineName, value) ∧ Ascii.equalFold lineName name = true

/-- The request has a header of that name whose value is UTF-8. The lookup passes over headers with
any other value, as if they were not there. -/
def Request.NamesText (request : Request) (name : Bytes) : Prop :=
  ∃ line ∈ headerLines request.head, ∃ lineName value,
    nameValue? line = some (lineName, value) ∧ Ascii.equalFold lineName name = true ∧
      Utf8.isValid value = true

theorem isSome_valueIn?_iff {name line : Bytes} :
    (valueIn? name line).isSome ↔ ∃ lineName value, nameValue? line = some (lineName, value) ∧
      Ascii.equalFold lineName name = true ∧ Utf8.isValid value = true := by
  unfold valueIn?
  cases nameValue? line with
  | none => simp
  | some pair =>
      obtain ⟨lineName, value⟩ := pair
      simp

theorem Negotiator.Reads.headOf_head {negotiator : Negotiator} {raw rest : Bytes}
    {request : Request} (h : negotiator.Reads raw request rest) :
    headOf request.head = request.head := by
  rw [h.head_eq, headOf_headOf]

theorem Negotiator.Reads.isSome_header?_iff {negotiator : Negotiator} {raw rest : Bytes}
    {request : Request} (h : negotiator.Reads raw request rest) (name : Bytes) :
    (request.header? name).isSome ↔ request.NamesText name := by
  rw [Request.header?, headerValue?, h.headOf_head, List.findSome?_isSome_iff]
  exact exists_congr fun line => and_congr_right fun _ => isSome_valueIn?_iff

def originName : Bytes := Utf8.encode "Origin"

def hostName : Bytes := Utf8.encode "Host"

/-- What the line about the origin says, if the request names one. -/
def originEcho (request : Request) : Option Bytes :=
  (request.header? originName).map (Utf8.encode "Sec-WebSocket-Origin: " ++ ·)

/-- What the line about the location says, if the request names a host. -/
def locationEcho (request : Request) : Option Bytes :=
  (request.header? hostName).map fun host =>
    Utf8.encode "Sec-WebSocket-Location: " ++ (Utf8.encode "ws://" ++ host ++ request.path)

/-- The lines and the body that belong into the answer to a request. -/
inductive Answered (request : Request) : List Bytes → Bytes → Prop where
  | standard {key : Bytes} :
      request.scheme = .rfc6455 → request.header? keyHeader = some key →
      Answered request
        [Utf8.encode "HTTP/1.1 101 Switching Protocols", Utf8.encode "Upgrade: websocket",
          Utf8.encode "Connection: Upgrade",
          Utf8.encode "Sec-WebSocket-Accept: " ++ Digest.acceptKey key] []
  | legacy {key1 key2 : Bytes} {number1 number2 : Nat} :
      request.scheme = .legacy → request.challenge.length = 8 →
      request.header? keyHeader1 = some key1 → keyNumber key1 = .ok number1 →
      request.header? keyHeader2 = some key2 → keyNumber key2 = .ok number2 →
      number1 < UInt32.size → number2 < UInt32.size →
      Answered request
        ([Utf8.encode "HTTP/1.1 101 Web Socket Protocol Handshake", Utf8.encode "Upgrade: WebSocket",
          Utf8.encode "Connection: Upgrade"] ++ (originEcho request).toList ++
          (locationEcho request).toList)
        (Digest.md5 (Bytes.bigEndian 4 number1 ++ Bytes.bigEndian 4 number2 ++ request.challenge))

theorem of_echoed {name value : Bytes} {lines : List Bytes} (hname : Clean name)
    (h : (do return [name ++ (← echoable value)]) = Except.ok lines) :
    lines = [name ++ value] ∧ ∀ line ∈ lines, Clean line := by
  obtain ⟨echoed, hechoed, hlines⟩ := exists_ok_of_bind h
  obtain ⟨rfl, hclean⟩ := of_echoable hechoed
  simp only [pure, Except.pure, Except.ok.injEq] at hlines
  rw [← hlines]
  exact ⟨rfl, by simpa using hname.append hclean⟩

theorem of_originLine {request : Request} {lines : List Bytes}
    (h : originLine request = .ok lines) :
    lines = (originEcho request).toList ∧ ∀ line ∈ lines, Clean line := by
  unfold originLine at h
  unfold originEcho originName
  split at h
  · rename_i hnone
    simp only [Except.ok.injEq] at h
    simp [hnone, ← h]
  · rename_i origin hsome
    rw [hsome]
    exact of_echoed (by decide +kernel) h

theorem of_locationLine {request : Request} {lines : List Bytes}
    (h : locationLine request = .ok lines) :
    lines = (locationEcho request).toList ∧ ∀ line ∈ lines, Clean line := by
  unfold locationLine at h
  unfold locationEcho hostName
  split at h
  · rename_i hnone
    simp only [Except.ok.injEq] at h
    simp [hnone, ← h]
  · rename_i host hsome
    rw [hsome]
    exact of_echoed (by decide +kernel) h

theorem answered_of_respondStandard {request : Request} {response : Bytes}
    (hscheme : request.scheme = .rfc6455) (h : respondStandard request = .ok response) :
    ∃ lines body, response = render lines body ∧ (∀ line ∈ lines, Clean line) ∧
      Answered request lines body := by
  unfold respondStandard at h
  split at h
  · simp at h
  · rename_i key hkey
    simp only [Except.ok.injEq] at h
    refine ⟨standardLines key, [], h.symm, ?_, .standard hscheme hkey⟩
    have hname : Clean (Utf8.encode "Sec-WebSocket-Accept: ") := by decide +kernel
    have haccept : Clean (Utf8.encode "Sec-WebSocket-Accept: " ++ Digest.acceptKey key) :=
      hname.append (clean_base64 _)
    have hfixed : Clean (Utf8.encode "HTTP/1.1 101 Switching Protocols") ∧
        Clean (Utf8.encode "Upgrade: websocket") ∧ Clean (Utf8.encode "Connection: Upgrade") := by
      decide +kernel
    simp [standardLines, haccept, hfixed]

theorem answered_of_respondLegacy {request : Request} {response : Bytes}
    (hscheme : request.scheme = .legacy) (hchallenge : request.challenge.length = 8)
    (h : respondLegacy request = .ok response) :
    ∃ lines body, response = render lines body ∧ (∀ line ∈ lines, Clean line) ∧
      Answered request lines body := by
  unfold respondLegacy at h
  split at h
  · rename_i key1 key2 hkey1 hkey2
    obtain ⟨number1, hnumber1, h⟩ := exists_ok_of_bind h
    obtain ⟨number2, hnumber2, h⟩ := exists_ok_of_bind h
    obtain ⟨origin, horigin, h⟩ := exists_ok_of_bind h
    obtain ⟨location, hlocation, h⟩ := exists_ok_of_bind h
    obtain ⟨rfl, hcleanOrigin⟩ := of_originLine horigin
    obtain ⟨rfl, hcleanLocation⟩ := of_locationLine hlocation
    simp only [pure, Except.pure, Except.ok.injEq] at h
    refine ⟨_, _, h.symm, ?_, .legacy hscheme hchallenge hkey1 hnumber1 hkey2 hnumber2
      (keyNumber_lt hnumber1) (keyNumber_lt hnumber2)⟩
    have hfixed : ∀ line ∈ [Utf8.encode "HTTP/1.1 101 Web Socket Protocol Handshake",
        Utf8.encode "Upgrade: WebSocket", Utf8.encode "Connection: Upgrade"], Clean line := by
      decide +kernel
    intro line hline
    rcases List.mem_append.mp hline with hline | hline
    · rcases List.mem_append.mp hline with hline | hline
      · exact hfixed line hline
      · exact hcleanOrigin line hline
    · exact hcleanLocation line hline
  · simp at h

theorem Answered.ne_nil {request : Request} {lines : List Bytes} {body : Bytes}
    (h : Answered request lines body) : lines ≠ [] := by
  cases h <;> simp

theorem Answered.nil_not_mem {request : Request} {lines : List Bytes} {body : Bytes}
    (h : Answered request lines body) : [] ∉ lines := by
  have hend : ∀ text : Bytes, text ≠ [] → ∀ value, [] ≠ text ++ value := by
    intro text htext value hnil
    exact htext (List.append_eq_nil_iff.mp hnil.symm).1
  cases h with
  | standard =>
      intro hmem
      simp only [List.mem_cons, List.not_mem_nil, or_false] at hmem
      rcases hmem with hmem | hmem | hmem | hmem
      · exact absurd hmem (by decide +kernel)
      · exact absurd hmem (by decide +kernel)
      · exact absurd hmem (by decide +kernel)
      · exact hend _ (by decide +kernel) _ hmem
  | legacy =>
      intro hmem
      simp only [List.mem_append, Option.mem_toList, originEcho, locationEcho,
        Option.map_eq_some_iff] at hmem
      rcases hmem with (hmem | ⟨origin, -, hmem⟩) | ⟨host, -, hmem⟩
      · exact absurd hmem (by decide +kernel)
      · exact hend _ (by decide +kernel) _ hmem.symm
      · exact hend _ (by decide +kernel) _ hmem.symm

theorem Answered.of_legacy {request : Request} {lines : List Bytes} {body : Bytes}
    (h : Answered request lines body) (hlegacy : request.scheme = .legacy) :
    body.length = 16 ∧ lines =
      [Utf8.encode "HTTP/1.1 101 Web Socket Protocol Handshake", Utf8.encode "Upgrade: WebSocket",
        Utf8.encode "Connection: Upgrade"] ++ (originEcho request).toList ++
        (locationEcho request).toList := by
  cases h with
  | standard hstandard => simp [hlegacy] at hstandard
  | legacy => exact ⟨length_md5 _, rfl⟩

theorem answered_of_respond {negotiator : Negotiator} {raw rest : Bytes} {request : Request}
    (hreads : negotiator.Reads raw request rest) {response : Bytes}
    (h : respond request = .ok response) :
    ∃ lines body, response = render lines body ∧ (∀ line ∈ lines, Clean line) ∧
      Answered request lines body := by
  unfold respond at h
  split at h
  · rename_i hscheme
    exact answered_of_respondStandard hscheme h
  · rename_i hscheme
    refine answered_of_respondLegacy hscheme ?_ h
    rw [hreads.challenge, hscheme]
    rfl

theorem Negotiator.answered_of_accepted {negotiator : Negotiator} {raw : Bytes} {u : Upgrade}
    (h : negotiator.negotiate raw = .accepted u) :
    ∃ request rest lines body, negotiator.parse raw = .ok (some request) ∧
      negotiator.Reads raw request rest ∧ u = ⟨render lines body, request.scheme, request.size⟩ ∧
      (∀ line ∈ lines, Clean line) ∧ splitLines (render lines []) = lines ++ [[], []] ∧
      Answered request lines body := by
  obtain ⟨request, response, hparse, hrespond, rfl⟩ := exists_request_of_accepted h
  obtain ⟨rest, hreads⟩ := reads_of_parse hparse
  obtain ⟨lines, body, rfl, hclean, hanswered⟩ := answered_of_respond hreads hrespond
  have hsplit : splitLines (render lines []) = lines ++ [[], []] :=
    splitLines_render fun line hline => (hclean line hline).not_mem
  exact ⟨request, rest, lines, body, hparse, hreads, rfl, hclean, hsplit, hanswered⟩

/-- **No byte of a request can add a line to its answer.** The answer to every accepted request is
a head, which ends at its first blank line, and a body. Cut at its line ends, the head is the lines
that belong into the answer, and an empty piece on both sides of the last line end. No line holds a
control byte other than a tab. The lines about the origin and the location stand there just where
the request has such headers with a value that is UTF-8. -/
theorem Negotiator.response_cannot_be_split {negotiator : Negotiator} {raw : Bytes} {u : Upgrade}
    (h : negotiator.negotiate raw = .accepted u) :
    ∃ request lines head body,
      negotiator.parse raw = .ok (some request) ∧ u.scheme = request.scheme ∧
      u.response = head ++ body ∧
      headEnd <:+ head ∧ (∀ front rest, head = front ++ headEnd ++ rest → rest = []) ∧
      splitLines head = lines ++ [[], []] ∧
      (∀ line ∈ lines, Clean line) ∧
      Answered request lines body ∧ (u.scheme = .legacy → body.length = 16) ∧
      ((originEcho request).isSome ↔ request.NamesText originName) ∧
      ((locationEcho request).isSome ↔ request.NamesText hostName) := by
  obtain ⟨request, rest, lines, body, hparse, hreads, rfl, hclean, hsplit, hanswered⟩ :=
    answered_of_accepted h
  refine ⟨request, lines, render lines [], body, hparse, rfl, render_eq_append lines body,
    headEnd_suffix_render hanswered.ne_nil, fun front rest => ?_, hsplit, hclean, hanswered,
    ?_, ?_, ?_⟩
  · exact eq_nil_of_headEnd hsplit hanswered.nil_not_mem
  · exact fun hlegacy => (hanswered.of_legacy hlegacy).1
  · rw [originEcho, Option.isSome_map, hreads.isSome_header?_iff]
  · rw [locationEcho, Option.isSome_map, hreads.isSome_header?_iff]

/-- A request in the older scheme. A bare carriage return stands in front of what it says about
its origin. -/
def originRequest : Bytes :=
  Utf8.encode ("GET /chat HTTP/1.1\r\nHost: a.b\r\nOrigin: \r c.d \r\n" ++
    "Sec-WebSocket-Key1: 4 2\r\nSec-WebSocket-Key2: 1 2\r\n\r\n12345678")

theorem Negotiator.response_to_originRequest :
    ∃ u lines head body, standard.negotiate originRequest = .accepted u ∧
      u.response = head ++ body ∧ splitLines head = lines ++ [[], []] ∧ body.length = 16 ∧
      lines = [Utf8.encode "HTTP/1.1 101 Web Socket Protocol Handshake",
        Utf8.encode "Upgrade: WebSocket", Utf8.encode "Connection: Upgrade",
        Utf8.encode "Sec-WebSocket-Origin: c.d",
        Utf8.encode "Sec-WebSocket-Location: ws://a.b/chat"] := by
  have hoffer : (standard.negotiate originRequest).upgrade?.isSome = true := by
    decide +kernel
  obtain ⟨u, hupgrade⟩ := Option.isSome_iff_exists.mp hoffer
  have haccepted := Outcome.eq_accepted_of_upgrade? hupgrade
  obtain ⟨request, lines, head, body, hparse, hscheme, hresponse, -, -, hsplit, -, hanswered,
    hbody, -, -⟩ := response_cannot_be_split haccepted
  have hread : (standard.parse originRequest).toOption.join.any (fun request =>
      request.scheme = .legacy ∧
        originEcho request = some (Utf8.encode "Sec-WebSocket-Origin: c.d") ∧
        locationEcho request = some (Utf8.encode "Sec-WebSocket-Location: ws://a.b/chat")) =
      true := by
    decide +kernel
  rw [hparse] at hread
  obtain ⟨hlegacy, horigin, hlocation⟩ := of_decide_eq_true hread
  refine ⟨u, lines, head, body, haccepted, hresponse, hsplit, hbody (by rw [hscheme, hlegacy]), ?_⟩
  rw [(hanswered.of_legacy hlegacy).2, horigin, hlocation]
  rfl

/-- A request in the older scheme whose origin is no text. -/
def illegibleOriginRequest : Bytes :=
  Utf8.encode "GET / HTTP/1.1\r\nOrigin: " ++ 0xFF :: Utf8.encode
    "\r\nSec-WebSocket-Key1: 4 2\r\nSec-WebSocket-Key2: 1 2\r\n\r\n12345678"

/-- The request has a header about its origin. Still it is accepted, and no line of the answer is
about the origin. -/
theorem Negotiator.illegible_origin_is_not_echoed :
    ∃ request u head body, standard.parse illegibleOriginRequest = .ok (some request) ∧
      request.Names originName ∧ standard.negotiate illegibleOriginRequest = .accepted u ∧
      u.scheme = .legacy ∧ u.response = head ++ body ∧ body.length = 16 ∧
      splitLines head = [Utf8.encode "HTTP/1.1 101 Web Socket Protocol Handshake",
        Utf8.encode "Upgrade: WebSocket", Utf8.encode "Connection: Upgrade", [], []] := by
  have hoffer : (standard.negotiate illegibleOriginRequest).upgrade?.isSome = true := by
    decide +kernel
  obtain ⟨u, hupgrade⟩ := Option.isSome_iff_exists.mp hoffer
  have haccepted := Outcome.eq_accepted_of_upgrade? hupgrade
  obtain ⟨request, rest, lines, body, hparse, -, rfl, -, hsplit, hanswered⟩ :=
    answered_of_accepted haccepted
  have hread : (standard.parse illegibleOriginRequest).toOption.join.any (fun request =>
      request.scheme = .legacy ∧ originEcho request = none ∧ locationEcho request = none ∧
        Utf8.encode "Origin: " ++ [0xFF, 0x0D] ∈ headerLines request.head) = true := by
    decide +kernel
  rw [hparse] at hread
  obtain ⟨hlegacy, horigin, hlocation, hline⟩ := of_decide_eq_true hread
  obtain ⟨hlength, hlines⟩ := hanswered.of_legacy hlegacy
  have hnames : request.Names originName :=
    ⟨_, hline, originName, [0xFF], by decide +kernel, by decide +kernel⟩
  refine ⟨request, _, render lines [], body, hparse, hnames, haccepted, hlegacy,
    render_eq_append lines body, hlength, ?_⟩
  rw [hsplit, hlines, horigin, hlocation]
  rfl

end WebSocket.Handshake

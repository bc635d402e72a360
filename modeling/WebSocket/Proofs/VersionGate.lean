import WebSocket.Proofs.HeaderLookup
import WebSocket.Proofs.RequestLayout

namespace WebSocket.Handshake

variable {head version : Bytes}

theorem isSupportedVersion_iff :
    isSupportedVersion version = true ↔
      version = Utf8.encode "8" ∨ version = Utf8.encode "13" := by
  rw [isSupportedVersion, Bool.or_eq_true, beq_iff_eq, beq_iff_eq]

/-- What a head with a version asks for: the standard scheme, in a supported version and with a
key, or nothing that can be given. -/
theorem detectScheme_eq_ok_iff (hversion : headerValue? head versionHeader = some version)
    (allowLegacy : Bool) (scheme : Scheme) :
    detectScheme allowLegacy head = .ok scheme ↔
      scheme = .rfc6455 ∧ (version = Utf8.encode "8" ∨ version = Utf8.encode "13") ∧
        ∃ key, key ≠ [] ∧ headerValue? head keyHeader = some key := by
  unfold detectScheme
  simp only [hversion, Option.isNone_some, Bool.false_and, Bool.false_eq_true, if_false,
    Option.all_some]
  split
  · rename_i hkey
    simp [hkey]
  · rename_i hkey
    simp [hkey]
  · rename_i first key hkey
    rw [← isSupportedVersion_iff, hkey]
    split
    · rename_i hsupported
      simp [hsupported, eq_comm]
    · rename_i hsupported
      simp [hsupported]

namespace Negotiator

variable {negotiator : Negotiator} {raw : Bytes}

theorem parse_ne_none (hcomplete : headEnd <:+: raw)
    (hscheme : detectScheme negotiator.allowLegacy (headOf raw) ≠ .ok .legacy) :
    negotiator.parse raw ≠ .ok none := by
  intro hparse
  unfold parse at hparse
  cases hfind : Bytes.find? headEnd raw with
  | none => exact Bytes.find?_eq_none_iff.mp hfind hcomplete
  | some position =>
      simp only [headOf, hfind] at hscheme
      simp only [hfind] at hparse
      split at hparse
      · simp at hparse
      split at hparse
      · simp at hparse
      · simp at hparse
      · rename_i hlegacy
        exact hscheme hlegacy

theorem negotiate_of_refused (hcomplete : headEnd <:+: raw)
    (hscheme : detectScheme negotiator.allowLegacy (headOf raw) ≠ .ok .legacy)
    (hrefused : ∀ u, negotiator.negotiate raw ≠ .accepted u) :
    ∃ e, negotiator.negotiate raw = .rejected e := by
  cases hoffer : negotiator.negotiate raw with
  | accepted u => exact absurd hoffer (hrefused u)
  | rejected e => exact ⟨e, rfl⟩
  | incomplete =>
      unfold negotiate at hoffer
      split at hoffer
      · simp at hoffer
      · rename_i hparse
        exact absurd hparse (parse_ne_none hcomplete hscheme)
      · split at hoffer <;> simp at hoffer

theorem accepted_of_request {request : Request} {response : Bytes}
    (hparse : negotiator.parse raw = .ok (some request))
    (hresponse : respond request = .ok response) :
    negotiator.negotiate raw = .accepted ⟨response, request.scheme, request.size⟩ := by
  simp only [negotiate, hparse, hresponse]

theorem accepted_of_standard (hcomplete : headEnd <:+: raw)
    (hshort : (headOf raw).length + headEnd.length ≤ negotiator.maxHead)
    (hscheme : detectScheme negotiator.allowLegacy (headOf raw) = .ok .rfc6455)
    (hkey : (headerValue? (headOf raw) keyHeader).isSome) :
    ∃ u, negotiator.negotiate raw = .accepted u := by
  obtain ⟨key, hkey⟩ := Option.isSome_iff_exists.mp hkey
  cases hfind : Bytes.find? headEnd raw with
  | none => exact absurd hcomplete (Bytes.find?_eq_none_iff.mp hfind)
  | some position =>
      have hhead : headOf raw = raw.take position := by rw [headOf, hfind]
      have hbound := Bytes.find?_bound hfind
      have hlength : (headOf raw).length = position := by
        rw [hhead, List.length_take]
        omega
      obtain ⟨rest, hraw⟩ := Bytes.exists_of_find? hfind
      have hreads : negotiator.Reads raw ⟨headOf raw, .rfc6455, []⟩ rest := by
        refine ⟨?_, ?_, hshort, hscheme, rfl⟩
        · rwa [List.append_nil, hhead]
        · rwa [hlength]
      have hresponse :
          respond ⟨headOf raw, .rfc6455, []⟩ = .ok (render (standardLines key) []) := by
        simp only [respond, respondStandard, Request.header?, hkey]
      exact ⟨_, accepted_of_request (parse_of_reads hreads) hresponse⟩

/-- **A version cannot be talked around.** Take a complete head in which some header of that name
has a text for its value, and the first such value. The request is accepted in the standard scheme
only, and only in version 8 or 13; it is accepted then if the head is short enough and gives a key;
and in every other case it is refused, whatever else the head says. -/
theorem named_version_decides {version : Bytes} (hcomplete : headEnd <:+: raw)
    (hversion : FirstSays raw versionHeader version) :
    (∀ u, negotiator.negotiate raw = .accepted u →
      u.scheme = .rfc6455 ∧ (version = Utf8.encode "8" ∨ version = Utf8.encode "13")) ∧
    ((∀ u, negotiator.negotiate raw ≠ .accepted u) →
      ∃ e, negotiator.negotiate raw = .rejected e) ∧
    ((∃ u, negotiator.negotiate raw = .accepted u) ↔
      (version = Utf8.encode "8" ∨ version = Utf8.encode "13") ∧
        (headOf raw).length + headEnd.length ≤ negotiator.maxHead ∧
        ∃ key, key ≠ [] ∧ FirstSays raw keyHeader key) := by
  have hsaid : headerValue? (headOf raw) versionHeader = some version := by
    rw [headerValue?_headOf]
    exact headerValue?_eq_some_iff.mpr hversion
  have hdetect := detectScheme_eq_ok_iff hsaid negotiator.allowLegacy
  -- Whatever is accepted was asked for by the head, whose scheme the version decides.
  have haccepted : ∀ u, negotiator.negotiate raw = .accepted u →
      (headOf raw).length + headEnd.length ≤ negotiator.maxHead ∧
        detectScheme negotiator.allowLegacy (headOf raw) = .ok u.scheme := by
    intro u hu
    obtain ⟨request, response, hparse, -, rfl⟩ := exists_request_of_accepted hu
    obtain ⟨rest, hreads⟩ := reads_of_parse hparse
    rw [← hreads.head_eq]
    exact ⟨hreads.short, hreads.scheme⟩
  refine ⟨?_, ?_, ?_, ?_⟩
  · intro u hu
    obtain ⟨hscheme, hsupported, -⟩ := (hdetect u.scheme).mp (haccepted u hu).2
    exact ⟨hscheme, hsupported⟩
  · refine negotiate_of_refused hcomplete fun hlegacy => ?_
    simpa using ((hdetect .legacy).mp hlegacy).1
  · rintro ⟨u, hu⟩
    obtain ⟨hshort, hscheme⟩ := haccepted u hu
    obtain ⟨-, hsupported, key, hkey, hvalue⟩ := (hdetect u.scheme).mp hscheme
    rw [headerValue?_headOf] at hvalue
    exact ⟨hsupported, hshort, key, hkey, headerValue?_eq_some_iff.mp hvalue⟩
  · rintro ⟨hsupported, hshort, key, hkey, hfirst⟩
    have hvalue : headerValue? (headOf raw) keyHeader = some key := by
      rw [headerValue?_headOf]
      exact headerValue?_eq_some_iff.mpr hfirst
    refine accepted_of_standard hcomplete hshort ?_ (by rw [hvalue]; rfl)
    exact (hdetect .rfc6455).mpr ⟨rfl, hsupported, key, hkey, hvalue⟩

/-- A request that names two versions, and the keys of both schemes. The first version is no
text. -/
def twoVersionsRequest : Bytes :=
  Utf8.encode "GET / HTTP/1.1\r\nSec-WebSocket-Version: " ++ 0xFF :: Utf8.encode
    ("\r\nSec-WebSocket-Key1: 4 2\r\nsec-websocket-version : 13 \r\nSec-WebSocket-Key2: 1 2\r\n" ++
      "Sec-WebSocket-Key: AQ==\r\n\r\n12345678")

theorem second_version_decides :
    headEnd <:+: twoVersionsRequest ∧
      FirstSays twoVersionsRequest versionHeader (Utf8.encode "13") ∧
      ∃ u, standard.negotiate twoVersionsRequest = .accepted u ∧ u.scheme = .rfc6455 := by
  have hcomplete : headEnd <:+: twoVersionsRequest := by decide +kernel
  have hversion : FirstSays twoVersionsRequest versionHeader (Utf8.encode "13") :=
    headerValue?_eq_some_iff.mp (by decide +kernel)
  obtain ⟨honly, -, hiff⟩ := @named_version_decides standard _ _ hcomplete hversion
  obtain ⟨u, hu⟩ := hiff.mpr ⟨.inr rfl, by decide +kernel, Utf8.encode "AQ==", by decide +kernel,
    headerValue?_eq_some_iff.mp (by decide +kernel)⟩
  exact ⟨hcomplete, hversion, u, hu, (honly u hu).1⟩

/-- A request that names one version, which is no text, and the keys of the older scheme. -/
def illegibleVersionRequest : Bytes :=
  Utf8.encode "GET / HTTP/1.1\r\nSec-WebSocket-Version: " ++ 0xFF :: Utf8.encode
    "\r\nSec-WebSocket-Key1: 4 2\r\nSec-WebSocket-Key2: 1 2\r\n\r\n12345678"

/-- The first header of the head is one with the name of the version, and its value is neither of
the supported ones. Still the request is accepted, in the older scheme. -/
theorem illegible_version_is_passed_over :
    headEnd <:+: illegibleVersionRequest ∧
    (∃ line lines written, HeadLines illegibleVersionRequest (line :: lines) ∧
      IsHeader line written [0xFF] ∧ List.Forall₂ Ascii.SameLetter written versionHeader) ∧
    [0xFF] ≠ Utf8.encode "8" ∧ [0xFF] ≠ Utf8.encode "13" ∧
    ∃ u, standard.negotiate illegibleVersionRequest = .accepted u ∧ u.scheme = .legacy := by
  have hlines : HeadLines illegibleVersionRequest
      ((versionHeader ++ Utf8.encode ": " ++ [0xFF, 0x0D]) ::
        (headerLines (headOf illegibleVersionRequest)).tail) :=
    headLines_iff.mpr (by decide +kernel)
  have hoffer : (standard.negotiate illegibleVersionRequest).upgrade?.any
      (fun u => u.scheme = .legacy) = true := by decide +kernel
  obtain ⟨u, hupgrade, hscheme⟩ := (Option.any_eq_true ..).mp hoffer
  refine ⟨by decide +kernel, ⟨_, _, versionHeader, hlines, ?_, ?_⟩, by decide +kernel,
    by decide +kernel, u, Outcome.eq_accepted_of_upgrade? hupgrade, of_decide_eq_true hscheme⟩
  · exact nameValue?_eq_some_iff.mp (by decide +kernel)
  · exact Ascii.equalFold_iff.mp (by decide +kernel)

end Negotiator

end WebSocket.Handshake

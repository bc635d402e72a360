import WebSocket.Proofs.ByteSearch
import WebSocket.Proofs.NegotiationStability

namespace WebSocket

namespace Handshake

theorem exists_ok_of_bind {α β : Type} {first : Except Error α} {next : α → Except Error β} {b : β}
    (h : first >>= next = .ok b) : ∃ a, first = .ok a ∧ next a = .ok b := by
  cases first with
  | error e => simp [bind, Except.bind] at h
  | ok a => exact ⟨a, rfl, h⟩

theorem headEnd_ne_nil : headEnd ≠ [] := by
  decide

theorem headOf_headOf (raw : Bytes) : headOf (headOf raw) = headOf raw := by
  cases hfind : Bytes.find? headEnd raw with
  | none =>
      have hhead : headOf raw = raw := by rw [headOf, hfind]
      rw [hhead, hhead]
  | some position =>
      have hhead : headOf raw = raw.take position := by rw [headOf, hfind]
      rw [hhead, headOf, Bytes.find?_take_of_some headEnd_ne_nil hfind]

def Outcome.upgrade? : Outcome → Option Upgrade
  | .accepted u => some u
  | _ => none

theorem Outcome.eq_accepted_of_upgrade? {outcome : Outcome} {u : Upgrade}
    (h : outcome.upgrade? = some u) : outcome = .accepted u := by
  cases outcome with
  | accepted v =>
      obtain rfl := Option.some.inj h
      rfl
  | rejected e => cases h
  | incomplete => cases h

def challengeSize : Scheme → Nat
  | .rfc6455 => 0
  | .legacy => challengeLength

/-- A request at the front of a byte string, under the rules of a negotiator, with `rest` behind
it. -/
structure Negotiator.Reads (negotiator : Negotiator) (raw : Bytes) (request : Request)
    (rest : Bytes) : Prop where
  raw_eq : raw = request.head ++ headEnd ++ request.challenge ++ rest
  /-- The head ends at the first blank line. -/
  first : Bytes.find? headEnd raw = some request.head.length
  short : request.head.length + headEnd.length ≤ negotiator.maxHead
  scheme : detectScheme negotiator.allowLegacy request.head = .ok request.scheme
  challenge : request.challenge.length = challengeSize request.scheme

namespace Negotiator

variable {negotiator : Negotiator} {raw : Bytes} {request : Request}

theorem Reads.head_eq {rest : Bytes} (h : negotiator.Reads raw request rest) :
    request.head = headOf raw := by
  rw [headOf, h.first, h.raw_eq, List.append_assoc, List.append_assoc]
  exact List.take_left.symm

theorem reads_of_parse (h : negotiator.parse raw = .ok (some request)) :
    ∃ rest, negotiator.Reads raw request rest := by
  unfold parse at h
  cases hfind : Bytes.find? headEnd raw with
  | none =>
      simp only [hfind] at h
      split at h <;> simp at h
  | some position =>
      simp only [hfind] at h
      split at h
      · simp at h
      rename_i hshort
      obtain ⟨behind, hraw⟩ := Bytes.exists_of_find? hfind
      have hbound := Bytes.find?_bound hfind
      have hhead : (raw.take position).length = position := by
        rw [List.length_take]
        omega
      have hdrop : raw.drop (position + headEnd.length) = behind := by
        rw [hraw]
        exact List.drop_left' (by rw [List.length_append, hhead])
      rw [← hhead] at hfind hshort
      rw [hdrop] at h
      split at h
      · simp at h
      · rename_i hscheme
        simp only [Except.ok.injEq, Option.some.injEq] at h
        subst h
        exact ⟨behind, by simpa using hraw, hfind, Nat.le_of_not_lt hshort, hscheme, rfl⟩
      · rename_i hscheme
        split at h
        · simp at h
        rename_i challenge rest hchallenge
        simp only [Except.ok.injEq, Option.some.injEq] at h
        subst h
        obtain ⟨rfl, hlength⟩ := Bytes.eq_append_of_splitExactly? hchallenge
        refine ⟨rest, ?_, hfind, Nat.le_of_not_lt hshort, hscheme, hlength⟩
        rwa [← List.append_assoc] at hraw

theorem parse_of_reads {rest : Bytes} (h : negotiator.Reads raw request rest) :
    negotiator.parse raw = .ok (some request) := by
  obtain ⟨head, scheme, challenge⟩ := request
  obtain ⟨hraw, hfirst, hshort, hscheme, hchallenge⟩ := h
  simp only at hraw hfirst hshort hscheme hchallenge
  have htake : raw.take head.length = head := by
    rw [hraw, List.append_assoc, List.append_assoc]
    exact List.take_left' rfl
  have hdrop : raw.drop (head.length + headEnd.length) = challenge ++ rest := by
    rw [hraw, List.append_assoc]
    exact List.drop_left' (List.length_append ..)
  unfold parse
  simp only [hfirst]
  rw [if_neg (by omega), htake, hscheme, hdrop]
  cases scheme with
  | rfc6455 => rw [List.length_eq_zero_iff.mp hchallenge]
  | legacy =>
      simp only [Bytes.splitExactly?_append rest (n := challengeLength) hchallenge]

/-- The bytes that a request takes up are a request by themselves. -/
theorem parse_take_size (h : negotiator.parse raw = .ok (some request)) :
    negotiator.parse (raw.take request.size) = .ok (some request) := by
  obtain ⟨rest, hreads⟩ := reads_of_parse h
  have htake : raw.take request.size = request.head ++ headEnd ++ request.challenge := by
    rw [hreads.raw_eq]
    refine List.take_left' ?_
    simp only [List.length_append, Request.size]
  have halone : negotiator.Reads (raw.take request.size) request [] :=
    { hreads with
      raw_eq := by rw [htake, List.append_nil]
      first := Bytes.find?_take hreads.first (by simp only [Request.size]; omega) }
  exact parse_of_reads halone

theorem exists_request_of_accepted {u : Upgrade} (h : negotiator.negotiate raw = .accepted u) :
    ∃ request response, negotiator.parse raw = .ok (some request) ∧
      respond request = .ok response ∧ u = ⟨response, request.scheme, request.size⟩ := by
  unfold negotiate at h
  split at h
  · simp at h
  · simp at h
  · rename_i request hparse
    split at h
    · rename_i response hresponse
      simp only [Outcome.accepted.injEq] at h
      exact ⟨request, response, hparse, hresponse, h.symm⟩
    · simp at h

theorem negotiate_take_consumed {u : Upgrade} (h : negotiator.negotiate raw = .accepted u) :
    negotiator.negotiate (raw.take u.consumed) = .accepted u := by
  obtain ⟨request, response, hparse, hresponse, rfl⟩ := exists_request_of_accepted h
  simp only [negotiate, parse_take_size hparse, hresponse]

theorem negotiate_take_of_lt {u : Upgrade} (h : negotiator.negotiate raw = .accepted u) {k : Nat}
    (hk : k < u.consumed) : negotiator.negotiate (raw.take k) = .incomplete := by
  have hwhole : raw.take k ++ raw.drop k = raw := List.take_append_drop k raw
  -- Neither a refusal nor an acceptance of the part could be taken back when the rest arrives.
  cases hpart : negotiator.negotiate (raw.take k) with
  | incomplete => rfl
  | rejected e =>
      have hrejected := negotiate_append_of_rejected hpart (raw.drop k)
      rw [hwhole, h] at hrejected
      simp at hrejected
  | accepted u' =>
      have haccepted := negotiate_append_of_accepted hpart (raw.drop k)
      rw [hwhole, h, Outcome.accepted.injEq] at haccepted
      have hlength := consumed_le_of_accepted hpart
      rw [List.length_take, ← haccepted] at hlength
      omega

/-- **A request is taken up as it stands.** A refusal stays whatever follows; an acceptance stays
the same whatever follows, lies inside the bytes that were received, and needs each of the bytes
that it takes up and no other. -/
theorem request_is_taken_exactly (negotiator : Negotiator) (raw more : Bytes) :
    (∀ e, negotiator.negotiate raw = .rejected e →
      negotiator.negotiate (raw ++ more) = .rejected e) ∧
    ∀ u, negotiator.negotiate raw = .accepted u →
      negotiator.negotiate (raw ++ more) = .accepted u ∧
      u.consumed ≤ raw.length ∧
      negotiator.negotiate (raw.take u.consumed) = .accepted u ∧
      ∀ k < u.consumed, negotiator.negotiate (raw.take k) = .incomplete := by
  constructor
  · intro e hrejected
    exact negotiate_append_of_rejected hrejected more
  · intro u haccepted
    exact ⟨negotiate_append_of_accepted haccepted more, consumed_le_of_accepted haccepted,
      negotiate_take_consumed haccepted, fun k => negotiate_take_of_lt haccepted⟩

/-- A small request in the older scheme. -/
def olderRequest : Bytes :=
  Utf8.encode "GET / HTTP/1.1\r\nSec-WebSocket-Key1: 4 2\r\nSec-WebSocket-Key2: 1 2\r\n\r\n12345678"

theorem older_request_is_taken_exactly :
    ∃ u, standard.negotiate olderRequest = .accepted u ∧ u.scheme = .legacy ∧
      standard.negotiate (olderRequest ++ [0x00]) = .accepted u ∧
      standard.negotiate (olderRequest.take (olderRequest.length - 1)) = .incomplete := by
  have hoffer : (standard.negotiate olderRequest).upgrade?.any
      (fun u => u.scheme = .legacy ∧ u.consumed = olderRequest.length) = true := by
    decide +kernel
  obtain ⟨u, hupgrade, hfacts⟩ := (Option.any_eq_true ..).mp hoffer
  obtain ⟨hscheme, hconsumed⟩ := of_decide_eq_true hfacts
  have haccepted := Outcome.eq_accepted_of_upgrade? hupgrade
  obtain ⟨hmore, -, -, hparts⟩ :=
    (request_is_taken_exactly standard olderRequest [0x00]).2 u haccepted
  exact ⟨u, haccepted, hscheme, hmore, hparts _ (by rw [hconsumed]; decide +kernel)⟩

end Negotiator

end Handshake

end WebSocket

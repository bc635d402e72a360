import WebSocket.Handshake.Response
import WebSocket.Proofs.ByteStrings

namespace WebSocket.Handshake

namespace Negotiator

theorem parse_append_of_error {negotiator : Negotiator} {raw : Bytes} {e : Error}
    (h : negotiator.parse raw = .error e) (more : Bytes) :
    negotiator.parse (raw ++ more) = .error e := by
  unfold parse at h ⊢
  cases hfind : Bytes.find? headEnd raw with
  | none =>
      simp only [hfind] at h
      split at h
      · rename_i hlong
        cases hmore : Bytes.find? headEnd (raw ++ more) with
        | none =>
            have : negotiator.maxHead < (raw ++ more).length := by
              simp only [List.length_append]
              omega
            simp only [if_pos this]
            exact h
        | some position =>
            have hbound := Bytes.length_lt_of_find?_append hfind hmore
            have : negotiator.maxHead < position + headEnd.length := by omega
            simp only [if_pos this]
            exact h
      · simp at h
  | some position =>
      simp only [hfind, Bytes.find?_append_of_some hfind more] at h ⊢
      have hbound := Bytes.find?_bound hfind
      have htake : (raw ++ more).take position = raw.take position :=
        List.take_append_of_le_length (by omega)
      rw [htake]
      split at h
      · rename_i hlong
        rw [if_pos hlong]
        exact h
      · rename_i hlong
        rw [if_neg hlong]
        cases hdetect : detectScheme negotiator.allowLegacy (raw.take position) with
        | error cause => simpa only [hdetect] using h
        | ok scheme =>
            simp only [hdetect] at h
            cases scheme with
            | rfc6455 => simp at h
            | legacy =>
                simp only at h
                split at h <;> simp at h

theorem parse_append_of_request {negotiator : Negotiator} {raw : Bytes} {request : Request}
    (h : negotiator.parse raw = .ok (some request)) (more : Bytes) :
    negotiator.parse (raw ++ more) = .ok (some request) := by
  unfold parse at h ⊢
  cases hfind : Bytes.find? headEnd raw with
  | none =>
      simp only [hfind] at h
      split at h <;> simp at h
  | some position =>
      simp only [hfind, Bytes.find?_append_of_some hfind more] at h ⊢
      have hbound := Bytes.find?_bound hfind
      have htake : (raw ++ more).take position = raw.take position :=
        List.take_append_of_le_length (by omega)
      have hdrop : (raw ++ more).drop (position + headEnd.length) =
          raw.drop (position + headEnd.length) ++ more :=
        List.drop_append_of_le_length hbound
      rw [htake, hdrop]
      split at h
      · simp at h
      · rename_i hlong
        rw [if_neg hlong]
        cases hdetect : detectScheme negotiator.allowLegacy (raw.take position) with
        | error cause => simp [hdetect] at h
        | ok scheme =>
            simp only [hdetect] at h ⊢
            cases scheme with
            | rfc6455 => exact h
            | legacy =>
                simp only at h ⊢
                split at h
                · simp at h
                · rename_i challenge rest hchallenge
                  rw [Bytes.splitExactly?_append_right hchallenge more]
                  exact h

theorem size_le_of_parse {negotiator : Negotiator} {raw : Bytes} {request : Request}
    (h : negotiator.parse raw = .ok (some request)) : request.size ≤ raw.length := by
  unfold parse at h
  cases hfind : Bytes.find? headEnd raw with
  | none =>
      simp only [hfind] at h
      split at h <;> simp at h
  | some position =>
      have hbound := Bytes.find?_bound hfind
      simp only [hfind] at h
      split at h
      · simp at h
      · split at h
        · simp at h
        · simp only [Except.ok.injEq, Option.some.injEq] at h
          subst h
          simp only [Request.size, List.length_take, List.length_nil]
          omega
        · split at h
          · simp at h
          · rename_i challenge rest hchallenge
            simp only [Except.ok.injEq, Option.some.injEq] at h
            subst h
            obtain ⟨happend, -⟩ := Bytes.eq_append_of_splitExactly? hchallenge
            have hlength := congrArg List.length happend
            simp only [List.length_drop, List.length_append] at hlength
            simp only [Request.size, List.length_take]
            omega

theorem size_le_maxHead {negotiator : Negotiator} {raw : Bytes} {request : Request}
    (h : negotiator.parse raw = .ok (some request)) (hscheme : request.scheme = .rfc6455) :
    request.size ≤ negotiator.maxHead := by
  unfold parse at h
  cases hfind : Bytes.find? headEnd raw with
  | none =>
      simp only [hfind] at h
      split at h <;> simp at h
  | some position =>
      simp only [hfind] at h
      split at h
      · simp at h
      · rename_i hshort
        split at h
        · simp at h
        · simp only [Except.ok.injEq, Option.some.injEq] at h
          subst h
          simp only [Request.size, List.length_take, List.length_nil]
          omega
        · split at h
          · simp at h
          · simp only [Except.ok.injEq, Option.some.injEq] at h
            subst h
            simp at hscheme

theorem negotiate_append_of_rejected {negotiator : Negotiator} {raw : Bytes} {e : Error}
    (h : negotiator.negotiate raw = .rejected e) (more : Bytes) :
    negotiator.negotiate (raw ++ more) = .rejected e := by
  unfold negotiate at h ⊢
  split at h
  · rename_i hparse
    rw [parse_append_of_error hparse more]
    exact h
  · simp at h
  · rename_i request hparse
    rw [parse_append_of_request hparse more]
    exact h

theorem negotiate_append_of_accepted {negotiator : Negotiator} {raw : Bytes} {u : Upgrade}
    (h : negotiator.negotiate raw = .accepted u) (more : Bytes) :
    negotiator.negotiate (raw ++ more) = .accepted u := by
  unfold negotiate at h ⊢
  split at h
  · simp at h
  · simp at h
  · rename_i request hparse
    rw [parse_append_of_request hparse more]
    exact h

theorem consumed_le_of_accepted {negotiator : Negotiator} {raw : Bytes} {u : Upgrade}
    (h : negotiator.negotiate raw = .accepted u) : u.consumed ≤ raw.length := by
  unfold negotiate at h
  split at h
  · simp at h
  · simp at h
  · rename_i request hparse
    split at h
    · simp only [Outcome.accepted.injEq] at h
      subst h
      exact size_le_of_parse hparse
    · simp at h

theorem consumed_le_maxHead {negotiator : Negotiator} {raw : Bytes} {u : Upgrade}
    (h : negotiator.negotiate raw = .accepted u) (hscheme : u.scheme = .rfc6455) :
    u.consumed ≤ negotiator.maxHead := by
  unfold negotiate at h
  split at h
  · simp at h
  · simp at h
  · rename_i request hparse
    split at h
    · simp only [Outcome.accepted.injEq] at h
      subst h
      exact size_le_maxHead hparse hscheme
    · simp at h

end Negotiator

end WebSocket.Handshake

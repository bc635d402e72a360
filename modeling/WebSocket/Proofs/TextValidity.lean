import Mathlib.Data.List.Basic
import WebSocket.Proofs.TextRoundTrip

namespace WebSocket.Utf8

theorem toNat_ofNat_of_valid {n : Nat} (h : n.isValidChar) : (Char.ofNat n).toNat = n := by
  rw [Char.ofNat, dif_pos h]
  rfl

theorem ofNat_eq {n : Nat} {b : UInt8} (h : n = b.toNat) : UInt8.ofNat n = b := by
  rw [h, UInt8.ofNat_toNat]

section

variable {a b c d : UInt8}

/-- A byte behind the first one of a character. -/
def IsTail (b : UInt8) : Prop :=
  0x80 ≤ b.toNat ∧ b.toNat ≤ 0xBF

theorem encodeChar_one (ha : a.toNat < 0x80) : encodeChar (Char.ofNat a.toNat) = [a] := by
  rw [encodeChar, toNat_ofNat_of_valid (.inl (by omega))]
  rw [if_pos ha, ofNat_eq rfl]

theorem encodeChar_two (ha : 0xC2 ≤ a.toNat) (ha' : a.toNat < 0xE0) (hb : IsTail b) :
    encodeChar (Char.ofNat ((a.toNat - 0xC0) * 64 + (b.toNat - 0x80))) = [a, b] := by
  obtain ⟨hb, hb'⟩ := hb
  rw [encodeChar, toNat_ofNat_of_valid (.inl (by omega))]
  rw [if_neg (by omega), if_pos (by omega), ofNat_eq (b := a) (by omega),
    ofNat_eq (b := b) (by omega)]

theorem encodeChar_three (ha : 0xE0 ≤ a.toNat) (ha' : a.toNat < 0xF0) (hb : IsTail b)
    (hc : IsTail c) (hlow : a.toNat = 0xE0 → 0xA0 ≤ b.toNat)
    (hhigh : a.toNat = 0xED → b.toNat ≤ 0x9F) :
    encodeChar (Char.ofNat (((a.toNat - 0xE0) * 64 + (b.toNat - 0x80)) * 64 + (c.toNat - 0x80))) =
      [a, b, c] := by
  obtain ⟨hb, hb'⟩ := hb
  obtain ⟨hc, hc'⟩ := hc
  have hvalid :
      (((a.toNat - 0xE0) * 64 + (b.toNat - 0x80)) * 64 + (c.toNat - 0x80)).isValidChar := by
    unfold Nat.isValidChar
    omega
  rw [encodeChar, toNat_ofNat_of_valid hvalid]
  rw [if_neg (by omega), if_neg (by omega), if_pos (by omega), ofNat_eq (b := a) (by omega),
    ofNat_eq (b := b) (by omega), ofNat_eq (b := c) (by omega)]

theorem encodeChar_four (ha : 0xF0 ≤ a.toNat) (ha' : a.toNat < 0xF5) (hb : IsTail b)
    (hc : IsTail c) (hd : IsTail d) (hlow : a.toNat = 0xF0 → 0x90 ≤ b.toNat)
    (hhigh : a.toNat = 0xF4 → b.toNat ≤ 0x8F) :
    encodeChar (Char.ofNat ((((a.toNat - 0xF0) * 64 + (b.toNat - 0x80)) * 64 +
      (c.toNat - 0x80)) * 64 + (d.toNat - 0x80))) = [a, b, c, d] := by
  obtain ⟨hb, hb'⟩ := hb
  obtain ⟨hc, hc'⟩ := hc
  obtain ⟨hd, hd'⟩ := hd
  have hvalid : ((((a.toNat - 0xF0) * 64 + (b.toNat - 0x80)) * 64 + (c.toNat - 0x80)) * 64 +
      (d.toNat - 0x80)).isValidChar := by
    unfold Nat.isValidChar
    omega
  rw [encodeChar, toNat_ofNat_of_valid hvalid]
  rw [if_neg (by omega), if_neg (by omega), if_neg (by omega), ofNat_eq (b := a) (by omega),
    ofNat_eq (b := b) (by omega), ofNat_eq (b := c) (by omega), ofNat_eq (b := d) (by omega)]

end

open Scan

/-- The rest of a character: the next byte from `low` to `high`, and each one behind it with six
bits. -/
def Completes (low high : UInt8) : Bytes → Prop
  | [] => True
  | b :: tail => low ≤ b ∧ b ≤ high ∧ ∀ c ∈ tail, IsTail c

/-- The number that the rest of a character makes of the bits that are known. -/
def extend (bits : Nat) (tail : Bytes) : Nat :=
  tail.foldl (fun n b => n * 64 + (b.toNat - 0x80)) bits

theorem extend_cons (bits : Nat) (b : UInt8) (tail : Bytes) :
    extend bits (b :: tail) = extend (bits * 64 + (b.toNat - 0x80)) tail := by
  simp only [extend, List.foldl_cons]

/-- The bytes `begun` are the beginning of each character that the scan can still make of them. -/
def Begun (s : Scan) (begun : Bytes) : Prop :=
  if s.owed = 0 then begun = []
  else ∀ tail : Bytes, tail.length = s.owed → Completes s.low s.high tail →
    encodeChar (Char.ofNat (extend s.bits tail)) = begun ++ tail

/-- Unless there was a gap, a scan has read characters, and perhaps the beginning of one more. -/
def Spelled (s : Scan) (bytes : Bytes) : Prop :=
  none ∉ s.done → ∃ (chars : List Char) (begun : Bytes),
    s.done = chars.reverse.map some ∧ bytes = chars.flatMap encodeChar ++ begun ∧ Begun s begun

variable {s : Scan} {b : UInt8} {bytes : Bytes}

theorem done_expect (s : Scan) (bits owed : Nat) (low high : UInt8) :
    (s.expect bits owed low high).done = s.done := rfl

theorem begun_iff_of_between (howed : s.owed = 0) {begun : Bytes} :
    Begun s begun ↔ begun = [] := by
  rw [Begun, if_pos howed]

theorem begun_expect {bits owed : Nat} {low high : UInt8} {begun : Bytes} (howed : owed ≠ 0)
    (h : ∀ tail : Bytes, tail.length = owed → Completes low high tail →
      encodeChar (Char.ofNat (extend bits tail)) = begun ++ tail) :
    Begun (s.expect bits owed low high) begun := by
  unfold Begun
  rw [if_neg (show (s.expect bits owed low high).owed ≠ 0 from howed)]
  exact h

theorem begun_two (ha : 0xC2 ≤ b.toNat) (ha' : b.toNat < 0xE0) :
    Begun (s.expect (b.toNat - 0xC0) 1 0x80 0xBF) [b] := by
  refine begun_expect (by decide) fun tail hlength htail => ?_
  obtain ⟨c, rfl⟩ := List.length_eq_one_iff.mp hlength
  obtain ⟨hlow, hhigh, -⟩ := htail
  exact encodeChar_two ha ha' ⟨hlow, hhigh⟩

theorem begun_three {low high : UInt8} (ha : 0xE0 ≤ b.toNat) (ha' : b.toNat < 0xF0)
    (hlow : (if b.toNat = 0xE0 then 0xA0 else 0x80) ≤ low.toNat)
    (hhigh : high.toNat ≤ (if b.toNat = 0xED then 0x9F else 0xBF)) :
    Begun (s.expect (b.toNat - 0xE0) 2 low high) [b] := by
  refine begun_expect (by decide) fun tail hlength htail => ?_
  obtain ⟨c, d, rfl⟩ := List.length_eq_two.mp hlength
  obtain ⟨hclow, hchigh, hrest⟩ := htail
  rw [UInt8.le_iff_toNat_le] at hclow hchigh
  have hc : IsTail c := by
    unfold IsTail
    split at hlow <;> split at hhigh <;> omega
  refine encodeChar_three ha ha' hc (hrest d (by simp)) ?_ ?_
  · intro he
    rw [if_pos he] at hlow
    omega
  · intro he
    rw [if_pos he] at hhigh
    omega

theorem begun_four {low high : UInt8} (ha : 0xF0 ≤ b.toNat) (ha' : b.toNat < 0xF5)
    (hlow : (if b.toNat = 0xF0 then 0x90 else 0x80) ≤ low.toNat)
    (hhigh : high.toNat ≤ (if b.toNat = 0xF4 then 0x8F else 0xBF)) :
    Begun (s.expect (b.toNat - 0xF0) 3 low high) [b] := by
  refine begun_expect (by decide) fun tail hlength htail => ?_
  obtain ⟨c, d, e, rfl⟩ := List.length_eq_three.mp hlength
  obtain ⟨hclow, hchigh, hrest⟩ := htail
  rw [UInt8.le_iff_toNat_le] at hclow hchigh
  have hc : IsTail c := by
    unfold IsTail
    split at hlow <;> split at hhigh <;> omega
  refine encodeChar_four ha ha' hc (hrest d (by simp)) (hrest e (by simp)) ?_ ?_
  · intro he
    rw [if_pos he] at hlow
    omega
  · intro he
    rw [if_pos he] at hhigh
    omega

/-- What the first byte of a character can be: the whole of it, its beginning, or no such byte. -/
inductive Headed (s : Scan) (b : UInt8) : Scan → Prop where
  | whole {c : Char} (h : encodeChar c = [b]) : Headed s b (s.push (some c))
  | begun {bits owed : Nat} {low high : UInt8} (howed : owed ≠ 0)
      (h : Begun (s.expect bits owed low high) [b]) : Headed s b (s.expect bits owed low high)
  | gap : Headed s b (s.push none)

theorem headed (s : Scan) (b : UInt8) : Headed s b (s.head b) := by
  have hthree : ∀ low high : UInt8, 0xE0 ≤ b.toNat → b.toNat < 0xF0 →
      (if b.toNat = 0xE0 then 0xA0 else 0x80) ≤ low.toNat →
      high.toNat ≤ (if b.toNat = 0xED then 0x9F else 0xBF) →
      Headed s b (s.expect (b.toNat - 0xE0) 2 low high) := fun low high ha ha' hlow hhigh =>
    .begun (by decide) (begun_three ha ha' hlow hhigh)
  have hfour : ∀ low high : UInt8, 0xF0 ≤ b.toNat → b.toNat < 0xF5 →
      (if b.toNat = 0xF0 then 0x90 else 0x80) ≤ low.toNat →
      high.toNat ≤ (if b.toNat = 0xF4 then 0x8F else 0xBF) →
      Headed s b (s.expect (b.toNat - 0xF0) 3 low high) := fun low high ha ha' hlow hhigh =>
    .begun (by decide) (begun_four ha ha' hlow hhigh)
  unfold head
  dsimp only
  split
  · exact .whole (encodeChar_one ‹_›)
  split
  · exact .gap
  split
  · exact .begun (by decide) (begun_two (by omega) ‹_›)
  split
  · rename_i he
    simpa [he] using hthree 0xA0 0xBF (by omega) (by omega) (by simp [he]) (by simp [he])
  split
  · rename_i he
    simpa [he] using hthree 0x80 0x9F (by omega) (by omega) (by simp [he]) (by simp [he])
  split
  · exact hthree 0x80 0xBF (by omega) ‹_› (by simp [*]) (by simp [*])
  split
  · rename_i he
    simpa [he] using hfour 0x90 0xBF (by omega) (by omega) (by simp [he]) (by simp [he])
  split
  · exact hfour 0x80 0xBF (by omega) (by omega) (by simp [*]) (by simp; split <;> omega)
  split
  · rename_i he
    simpa [he] using hfour 0x80 0x8F (by omega) (by omega) (by simp [he]) (by simp [he])
  · exact .gap

theorem isTail_of_completes {tail : Bytes} (h : Completes 0x80 0xBF tail) :
    ∀ c ∈ tail, IsTail c := by
  cases tail with
  | nil => simp
  | cons b tail =>
      obtain ⟨hlow, hhigh, hrest⟩ := h
      exact List.forall_mem_cons.mpr ⟨⟨hlow, hhigh⟩, hrest⟩

theorem spelled_head (h : Spelled s bytes) (howed : s.owed = 0) (b : UInt8) :
    Spelled (s.head b) (bytes ++ [b]) := by
  intro hnone
  have hheaded := headed s b
  generalize s.head b = after at hheaded hnone ⊢
  cases hheaded with
  | gap => simp [push] at hnone
  | @whole c hc =>
      obtain ⟨chars, begun, hdone, rfl, hbegun⟩ := h fun hmem => hnone (List.mem_cons_of_mem _ hmem)
      obtain rfl := (begun_iff_of_between howed).mp hbegun
      exact ⟨chars ++ [c], [], by simp [push, hdone], by simp [hc],
        (begun_iff_of_between rfl).mpr rfl⟩
  | begun _ hbegun' =>
      obtain ⟨chars, begun, hdone, rfl, hbegun⟩ := h hnone
      obtain rfl := (begun_iff_of_between howed).mp hbegun
      exact ⟨chars, [b], hdone, by simp, hbegun'⟩

theorem spelled_next (h : Spelled s bytes) (b : UInt8) : Spelled (s.next b) (bytes ++ [b]) := by
  unfold next
  split
  · rename_i howed
    exact spelled_head h howed b
  rename_i howed
  split
  · rename_i hrange
    dsimp only
    split
    · rename_i hone
      intro hnone
      obtain ⟨chars, begun, hdone, rfl, hbegun⟩ := h fun hmem => hnone (List.mem_cons_of_mem _ hmem)
      rw [Begun, if_neg howed, hone] at hbegun
      have hlast := hbegun [b] rfl ⟨hrange.1, hrange.2, by simp⟩
      refine ⟨chars ++ [Char.ofNat (s.bits * 64 + (b.toNat - 0x80))], [], ?_, ?_,
        (begun_iff_of_between rfl).mpr rfl⟩
      · simp [push, hdone]
      · simpa [extend] using hlast.symm
    · rename_i hmore
      intro hnone
      obtain ⟨chars, begun, hdone, rfl, hbegun⟩ := h (by rwa [done_expect] at hnone)
      refine ⟨chars, begun ++ [b], by rwa [done_expect], List.append_assoc .., ?_⟩
      refine begun_expect (by omega) ?_
      intro tail hlength htail
      rw [Begun, if_neg howed] at hbegun
      have hrest : (b :: tail).length = s.owed := by
        rw [List.length_cons]
        omega
      have hwhole := hbegun (b :: tail) hrest ⟨hrange.1, hrange.2, isTail_of_completes htail⟩
      rwa [extend_cons, List.append_cons] at hwhole
  · -- What was begun cannot go on like this, which leaves a gap.
    exact spelled_head (s := s.push none) (fun hnone => absurd (List.mem_cons_self ..) hnone) rfl b

theorem spelled_foldl (h : Spelled s bytes) (more : Bytes) :
    Spelled (more.foldl next s) (bytes ++ more) := by
  induction more generalizing s bytes with
  | nil => simpa using h
  | cons b more ih =>
      rw [List.append_cons]
      exact ih (spelled_next h b)

/-- **UTF-8 is what texts are written with.** A byte string is valid exactly if it is the bytes of
some text. -/
theorem isValid_iff : isValid bytes = true ↔ ∃ text, encode text = bytes := by
  constructor
  · intro hvalid
    have hstart : Spelled start [] := fun _ =>
      ⟨[], [], rfl, rfl, (begun_iff_of_between rfl).mpr rfl⟩
    have hspelled := spelled_foldl hstart bytes
    rw [isValid, scan, finish, List.all_reverse] at hvalid
    split at hvalid
    · rename_i howed
      have hnone : none ∉ (bytes.foldl next start).done := fun hmem => by
        simpa using List.all_eq_true.mp hvalid none hmem
      obtain ⟨chars, begun, -, hbytes, hbegun⟩ := hspelled hnone
      obtain rfl := (begun_iff_of_between howed).mp hbegun
      exact ⟨String.ofList chars, by simpa [encode] using hbytes.symm⟩
    · simp at hvalid
  · rintro ⟨text, rfl⟩
    exact isValid_encode text

theorem sentinel_not_mem_of_isValid (h : isValid bytes = true) : Legacy.sentinel ∉ bytes := by
  obtain ⟨text, rfl⟩ := isValid_iff.mp h
  exact sentinel_not_mem_encode text

/-- The bytes of some text. -/
def IsText (bytes : Bytes) : Prop :=
  ∃ text, encode text = bytes

theorem encodeChar_of_mem {c : Char} {b : UInt8} (hmem : b ∈ encodeChar c) (hb : b.toNat < 0x80) :
    encodeChar c = [b] := by
  have hbound := toNat_lt c
  have hlarge : ∀ n : Nat, 0x80 ≤ n → n < 0x100 → b ≠ UInt8.ofNat n := by
    rintro n hlow hhigh rfl
    rw [UInt8.toNat_ofNat_of_lt' hhigh] at hb
    omega
  unfold encodeChar at hmem ⊢
  dsimp only at hmem ⊢
  split at hmem
  · rename_i hsmall
    rw [if_pos hsmall, List.mem_singleton.mp hmem]
  -- Every other character has bytes above 127 only.
  split at hmem
  · simp only [List.mem_cons, List.not_mem_nil, or_false] at hmem
    rcases hmem with hmem | hmem <;> exact absurd hmem (hlarge _ (by omega) (by omega))
  split at hmem
  · simp only [List.mem_cons, List.not_mem_nil, or_false] at hmem
    rcases hmem with hmem | hmem | hmem <;> exact absurd hmem (hlarge _ (by omega) (by omega))
  · simp only [List.mem_cons, List.not_mem_nil, or_false] at hmem
    rcases hmem with hmem | hmem | hmem | hmem <;>
      exact absurd hmem (hlarge _ (by omega) (by omega))

/-- An ASCII byte is a character of its own, so a text can be cut there. -/
theorem exists_split_of_ascii {chars : List Char} {front behind : Bytes} {b : UInt8}
    (hb : b.toNat < 0x80) (h : chars.flatMap encodeChar = front ++ b :: behind) :
    ∃ before after : List Char, before.flatMap encodeChar = front ∧
      after.flatMap encodeChar = behind := by
  induction chars generalizing front with
  | nil => simp at h
  | cons c chars ih =>
      rw [List.flatMap_cons, List.append_eq_append_iff] at h
      rcases h with ⟨rest, rfl, hrest⟩ | ⟨rest, hc, hrest⟩
      · obtain ⟨before, after, rfl, hafter⟩ := ih hrest
        exact ⟨c :: before, after, List.flatMap_cons, hafter⟩
      · cases rest with
        | nil =>
            have hbehind : chars.flatMap encodeChar = [] ++ b :: behind := hrest.symm
            obtain ⟨before, after, hbefore, hafter⟩ := ih hbehind
            refine ⟨c :: before, after, ?_, hafter⟩
            rw [List.flatMap_cons, hbefore, hc, List.append_nil, List.append_nil]
        | cons d rest =>
            rw [List.cons_append, List.cons.injEq] at hrest
            obtain ⟨rfl, rfl⟩ := hrest
            have hsingle : front ++ b :: rest = [b] := by
              rw [← hc]
              exact encodeChar_of_mem (by simp [hc]) hb
            have hlength := congrArg List.length hsingle
            simp only [List.length_append, List.length_cons, List.length_nil] at hlength
            obtain rfl : front = [] := List.length_eq_zero_iff.mp (by omega)
            obtain rfl : rest = [] := List.length_eq_zero_iff.mp (by omega)
            exact ⟨[], chars, rfl, rfl⟩

theorem isText_append_cons_iff {front behind : Bytes} {b : UInt8} (hb : b.toNat < 0x80) :
    IsText (front ++ b :: behind) ↔ IsText front ∧ IsText behind := by
  constructor
  · rintro ⟨text, htext⟩
    obtain ⟨before, after, hbefore, hafter⟩ := exists_split_of_ascii hb htext
    exact ⟨⟨String.ofList before, by simpa [encode] using hbefore⟩,
      ⟨String.ofList after, by simpa [encode] using hafter⟩⟩
  · rintro ⟨⟨before, rfl⟩, ⟨after, rfl⟩⟩
    refine ⟨before ++ String.ofList [Char.ofNat b.toNat] ++ after, ?_⟩
    rw [encode_append, encode_append, List.append_assoc]
    congr 1
    simp [encode, encodeChar_one hb]

end WebSocket.Utf8

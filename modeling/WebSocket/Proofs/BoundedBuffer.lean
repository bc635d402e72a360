import WebSocket.Proofs.ByteSearch
import WebSocket.Accumulator

/-!
The receive buffer as a bounded list of bytes: what its owner can ask of it, what comes of it by
rules that do not speak of the buffer, and that any number of requests in any order come to just
that. A machine clamps positions to the buffer with sums that stop at the largest word, cuts bytes
out at the front in another way than further behind, and searches window by window; no step of that
ever leaves the buffer, and it all comes to the same.
-/

namespace WebSocket.Accumulator

/-! ## Requests -/

/-- What the owner of a buffer can ask of it. Positions and counts are any machine words. -/
inductive Request where
  | append (chunk : Bytes)
  | find (pattern : Bytes)
  | slice (start count : UInt64)
  | removeRange (start count : UInt64)
  | clear
  deriving DecidableEq

/-- What the owner learns. -/
inductive Reply where
  | done
  | refused (error : Error)
  | position (position : Option Nat)
  | bytes (bytes : Bytes)
  deriving DecidableEq

def serve (buffer : Accumulator) : Request → Reply × Accumulator
  | .append chunk =>
    match buffer.append chunk with
    | .ok after => (.done, after)
    | .error e => (.refused e, buffer)
  | .find pattern => (.position (buffer.find? pattern), buffer)
  | .slice start count => (.bytes (buffer.slice start.toNat count.toNat), buffer)
  | .removeRange start count => (.done, buffer.removeRange start.toNat count.toNat)
  | .clear => (.done, buffer.clear)

def serveAll (buffer : Accumulator) : List Request → List Reply × Accumulator
  | [] => ([], buffer)
  | request :: requests =>
    let (reply, next) := buffer.serve request
    let (replies, last) := next.serveAll requests
    (reply :: replies, last)

/-! ## The rules -/

/-- Where `start` and `count` point to in a list of bytes: `middle`, between `front` and `back`. A
range that begins or ends behind the bytes is cut short. -/
structure Range (bytes : Bytes) (start count : Nat) (front middle back : Bytes) : Prop where
  parts : bytes = front ++ middle ++ back
  place : front.length = min start bytes.length
  extent : middle.length = min count (bytes.length - front.length)

/-- What a request to a list of at most `limit` bytes comes to. -/
inductive Serves (limit : Nat) (bytes : Bytes) : Request → Reply → Bytes → Prop where
  | appended {chunk : Bytes} (h : bytes.length + chunk.length ≤ limit) :
      Serves limit bytes (.append chunk) .done (bytes ++ chunk)
  | refused {chunk : Bytes} (h : limit < bytes.length + chunk.length) :
      Serves limit bytes (.append chunk) (.refused .readBufferFull) bytes
  | found {pattern front : Bytes} (h : Bytes.Precedes front pattern bytes) :
      Serves limit bytes (.find pattern) (.position (some front.length)) bytes
  | absent {pattern : Bytes} (h : ¬pattern <:+: bytes) :
      Serves limit bytes (.find pattern) (.position none) bytes
  | sliced {start count : UInt64} {front middle back : Bytes}
      (h : Range bytes start.toNat count.toNat front middle back) :
      Serves limit bytes (.slice start count) (.bytes middle) bytes
  | removed {start count : UInt64} {front middle back : Bytes}
      (h : Range bytes start.toNat count.toNat front middle back) :
      Serves limit bytes (.removeRange start count) .done (front ++ back)
  | cleared : Serves limit bytes .clear .done []

/-- What requests come to, one after the other. -/
inductive ServesAll (limit : Nat) : Bytes → List Request → List Reply → Bytes → Prop where
  | nil {bytes : Bytes} : ServesAll limit bytes [] [] bytes
  | cons {bytes next last : Bytes} {request : Request} {reply : Reply} {requests : List Request}
      {replies : List Reply} (h : Serves limit bytes request reply next)
      (hrest : ServesAll limit next requests replies last) :
      ServesAll limit bytes (request :: requests) (reply :: replies) last

variable {buffer : Accumulator} {limit : Nat} {bytes : Bytes}

theorem range_take (bytes : Bytes) (start count : Nat) :
    Range bytes start count (bytes.take start) ((bytes.drop start).take count)
      (bytes.drop (start + count)) where
  parts := by
    rw [List.append_assoc, ← List.drop_drop, List.take_append_drop, List.take_append_drop]
  place := List.length_take
  extent := by
    simp only [List.length_take, List.length_drop]
    omega

theorem Range.unique {start count : Nat} {front middle back front' middle' back' : Bytes}
    (h : Range bytes start count front middle back)
    (h' : Range bytes start count front' middle' back') :
    front = front' ∧ middle = middle' ∧ back = back' := by
  have hfront : front.length = front'.length := h.place.trans h'.place.symm
  have hmiddle : middle.length = middle'.length := by rw [h.extent, h'.extent, hfront]
  have hparts := h.parts.symm.trans h'.parts
  obtain ⟨hboth, hback⟩ := List.append_inj hparts (by simp [hfront, hmiddle])
  obtain ⟨hsame, hrest⟩ := List.append_inj hboth hfront
  exact ⟨hsame, hrest, hback⟩

theorem serves_serve (buffer : Accumulator) (request : Request) :
    Serves buffer.limit buffer.contents request (buffer.serve request).1
        (buffer.serve request).2.contents ∧
      (buffer.serve request).2.limit = buffer.limit := by
  cases request with
  | append chunk =>
      by_cases hlarge : buffer.limit < buffer.contents.length + chunk.length
      · have happend : buffer.append chunk = .error .readBufferFull := if_pos hlarge
        rw [serve, happend]
        exact ⟨.refused hlarge, rfl⟩
      · have happend : buffer.append chunk = .ok ⟨buffer.contents ++ chunk, buffer.limit⟩ :=
          if_neg hlarge
        rw [serve, happend]
        exact ⟨.appended (Nat.le_of_not_lt hlarge), rfl⟩
  | find pattern =>
      refine ⟨?_, rfl⟩
      rw [serve, find?]
      cases hfind : Bytes.find? pattern buffer.contents with
      | none => exact .absent (Bytes.find?_eq_none_iff.mp hfind)
      | some position =>
          have hlength : (buffer.contents.take position).length = position := by
            rw [List.length_take, Nat.min_eq_left]
            exact (Nat.le_add_right ..).trans (Bytes.find?_bound hfind)
          have hfound : Serves buffer.limit buffer.contents (.find pattern) _ _ :=
            .found (Bytes.precedes_of_find? hfind)
          rwa [hlength] at hfound
  | slice start count => exact ⟨.sliced (range_take _ _ _), rfl⟩
  | removeRange start count => exact ⟨.removed (range_take _ _ _), rfl⟩
  | clear => exact ⟨.cleared, rfl⟩

/-- The rules leave nothing open. -/
theorem Serves.unique {request : Request} {reply reply' : Reply} {next next' : Bytes}
    (h : Serves limit bytes request reply next) (h' : Serves limit bytes request reply' next') :
    reply = reply' ∧ next = next' := by
  cases h with
  | appended hfits =>
      cases h' with
      | appended => exact ⟨rfl, rfl⟩
      | refused hlarge => omega
  | refused hlarge =>
      cases h' with
      | appended hfits => omega
      | refused => exact ⟨rfl, rfl⟩
  | found hfound =>
      cases h' with
      | found hfound' => exact ⟨by rw [hfound.length_unique hfound'], rfl⟩
      | absent hnone => exact absurd hfound.isInfix hnone
  | absent hnone =>
      cases h' with
      | found hfound => exact absurd hfound.isInfix hnone
      | absent => exact ⟨rfl, rfl⟩
  | sliced hrange =>
      cases h' with
      | sliced hrange' => exact ⟨by rw [(hrange.unique hrange').2.1], rfl⟩
  | removed hrange =>
      cases h' with
      | removed hrange' =>
          obtain ⟨rfl, -, rfl⟩ := hrange.unique hrange'
          exact ⟨rfl, rfl⟩
  | cleared =>
      cases h' with
      | cleared => exact ⟨rfl, rfl⟩

/-! ## The steps of a machine -/

/-- The sum of two machine words, or the largest word where no word is the sum. -/
def saturatingSum (a b : Nat) : Nat :=
  if a + b < UInt64.size then a + b else UInt64.size - 1

/-- Where a range begins and where it ends, both within the buffer. -/
def bounds (buffer : Accumulator) (start count : UInt64) : Nat × Nat :=
  let first := min start.toNat buffer.size
  (first, min (saturatingSum first count.toNat) buffer.size)

/-- Every part of the bytes that is `width` bytes long, from the front on. -/
def windows (width : Nat) (bytes : Bytes) : List Bytes :=
  (List.range (bytes.length + 1 - width)).map fun position => (bytes.drop position).take width

def stepFind (buffer : Accumulator) (pattern : Bytes) : Option Nat :=
  if pattern = [] then some 0
  else (windows pattern.length buffer.contents).findIdx? (· == pattern)

/-- Takes a range out of the front that ends with it. None if an end of the range is outside of what
it is cut from. -/
def stepSlice (buffer : Accumulator) (start count : UInt64) : Option Bytes := do
  let (first, stop) := buffer.bounds start count
  let (front, _) ← Bytes.splitExactly? stop buffer.contents
  let (_, middle) ← Bytes.splitExactly? first front
  return middle

/-- Removes a range: at the front it is split off; further behind, what follows it is split off, what
is left is cut short, and both are joined. None if the range ends outside of the buffer. -/
def stepRemove (buffer : Accumulator) (start count : UInt64) : Option Accumulator := do
  let (first, stop) := buffer.bounds start count
  let (front, back) ← Bytes.splitExactly? stop buffer.contents
  if first = 0 then return { buffer with contents := back }
  else return { buffer with contents := front.take first ++ back }

/-- One request, step by step. What is appended is checked as it is: the lengths of two byte strings
that are in memory have a sum that is a machine word. -/
def step (buffer : Accumulator) : Request → Option (Reply × Accumulator)
  | .find pattern => some (.position (buffer.stepFind pattern), buffer)
  | .slice start count => do
    let middle ← buffer.stepSlice start count
    return (.bytes middle, buffer)
  | .removeRange start count => do
    let after ← buffer.stepRemove start count
    return (.done, after)
  | .append chunk => some (buffer.serve (.append chunk))
  | .clear => some (buffer.serve .clear)

def stepAll (buffer : Accumulator) : List Request → Option (List Reply × Accumulator)
  | [] => some ([], buffer)
  | request :: requests => do
    let (reply, next) ← buffer.step request
    let (replies, last) ← next.stepAll requests
    return (reply :: replies, last)

theorem bounds_eq (h : buffer.size < UInt64.size) (start count : UInt64) :
    buffer.bounds start count =
      (min start.toNat buffer.size,
        min (min start.toNat buffer.size + count.toNat) buffer.size) := by
  simp only [bounds, saturatingSum]
  split
  · rfl
  · have hstop : min (UInt64.size - 1) buffer.size =
        min (min start.toNat buffer.size + count.toNat) buffer.size := by omega
    rw [hstop]

theorem range_bounds (h : buffer.size < UInt64.size) (start count : UInt64) :
    let (first, stop) := buffer.bounds start count
    first ≤ stop ∧ stop ≤ buffer.contents.length ∧
      Range buffer.contents start.toNat count.toNat ((buffer.contents.take stop).take first)
        ((buffer.contents.take stop).drop first) (buffer.contents.drop stop) := by
  rw [bounds_eq h]
  simp only [size]
  refine ⟨by omega, by omega, ?_, ?_, ?_⟩
  · rw [List.take_append_drop, List.take_append_drop]
  · simp only [List.length_take]
    omega
  · simp only [List.length_take, List.length_drop]
    omega

theorem stepSlice_eq (h : buffer.size < UInt64.size) (start count : UInt64) :
    buffer.stepSlice start count = some (buffer.slice start.toNat count.toNat) := by
  have hrange := range_bounds h start count
  unfold stepSlice
  generalize buffer.bounds start count = ends at hrange
  obtain ⟨first, stop⟩ := ends
  obtain ⟨hfirst, hstop, hrange⟩ := hrange
  have hfront : first ≤ (buffer.contents.take stop).length := by
    rw [List.length_take]
    omega
  have hmiddle := (hrange.unique (range_take _ _ _)).2.1
  simp only [Bytes.splitExactly?_of_le hstop, Bytes.splitExactly?_of_le hfront, hmiddle, bind,
    Option.bind, pure, slice]

theorem stepRemove_eq (h : buffer.size < UInt64.size) (start count : UInt64) :
    buffer.stepRemove start count = some (buffer.removeRange start.toNat count.toNat) := by
  have hrange := range_bounds h start count
  unfold stepRemove
  generalize buffer.bounds start count = ends at hrange
  obtain ⟨first, stop⟩ := ends
  obtain ⟨hfirst, hstop, hrange⟩ := hrange
  obtain ⟨hfront, -, hback⟩ := hrange.unique (range_take _ _ _)
  simp only [Bytes.splitExactly?_of_le hstop, bind, Option.bind, pure]
  split
  · rename_i hzero
    rw [hzero, List.take_zero] at hfront
    rw [removeRange, ← hfront, ← hback, List.nil_append]
  · rw [removeRange, ← hfront, ← hback]

/-! ### Windows -/

theorem getElem_windows {width position : Nat} (h : position < (windows width bytes).length) :
    (windows width bytes)[position] = (bytes.drop position).take width := by
  simp [windows]

theorem length_windows (width : Nat) (bytes : Bytes) :
    (windows width bytes).length = bytes.length + 1 - width := by
  simp [windows]

theorem eq_append_of_window {pattern : Bytes} {position : Nat}
    (h : (bytes.drop position).take pattern.length = pattern) :
    bytes = bytes.take position ++ pattern ++ bytes.drop (position + pattern.length) := by
  calc
    bytes = bytes.take position ++ ((bytes.drop position).take pattern.length ++
        (bytes.drop position).drop pattern.length) := by
      rw [List.take_append_drop, List.take_append_drop]
    _ = _ := by rw [h, List.drop_drop, List.append_assoc]

theorem stepFind_eq (pattern : Bytes) : buffer.stepFind pattern = buffer.find? pattern := by
  unfold stepFind find?
  split
  · rename_i hempty
    subst hempty
    cases buffer.contents <;> rfl
  rename_i hpattern
  cases hfind : Bytes.find? pattern buffer.contents with
  | none =>
      rw [List.findIdx?_eq_none_iff]
      intro window hwindow
      obtain ⟨position, -, rfl⟩ := List.mem_map.mp hwindow
      rw [beq_eq_false_iff_ne]
      intro hsame
      exact Bytes.find?_eq_none_iff.mp hfind ⟨_, _, (eq_append_of_window hsame).symm⟩
  | some position =>
      have hprecedes := Bytes.precedes_of_find? hfind
      have hbound := Bytes.find?_bound hfind
      have hposition : (buffer.contents.take position).length = position := by
        rw [List.length_take]
        omega
      rw [List.findIdx?_eq_some_iff_getElem]
      refine ⟨?_, ?_, fun earlier hearlier => ?_⟩
      · rw [length_windows]
        omega
      · rw [getElem_windows, beq_iff_eq]
        exact (List.prefix_iff_eq_take.mp (Bytes.prefix_drop_of_findFrom? hfind)).symm
      · rw [getElem_windows, beq_iff_eq]
        intro hsame
        have hfirst := hprecedes.first _ _ (eq_append_of_window hsame)
        rw [hposition, List.length_take] at hfirst
        omega

theorem step_eq (h : buffer.size < UInt64.size) (request : Request) :
    buffer.step request = some (buffer.serve request) := by
  cases request with
  | append | clear => rfl
  | find pattern => rw [step, serve, stepFind_eq]
  | slice start count => simp only [step, stepSlice_eq h, bind, Option.bind, pure, serve]
  | removeRange start count => simp only [step, stepRemove_eq h, bind, Option.bind, pure, serve]

/-! ## Any number of requests -/

theorem size_serve_le (h : buffer.size ≤ buffer.limit) (request : Request) :
    (buffer.serve request).2.size ≤ (buffer.serve request).2.limit := by
  obtain ⟨hserves, hlimit⟩ := serves_serve buffer request
  rw [hlimit]
  generalize buffer.serve request = result at hserves
  obtain ⟨reply, next⟩ := result
  simp only [size] at h hserves ⊢
  generalize next.contents = bytes at hserves
  cases hserves with
  | appended hfits => rwa [List.length_append]
  | refused | found | absent | sliced => exact h
  | removed hrange =>
      have hparts := congrArg List.length hrange.parts
      simp only [List.length_append] at hparts ⊢
      omega
  | cleared => exact Nat.zero_le _

theorem servesAll_serveAll (buffer : Accumulator) (requests : List Request) :
    ServesAll buffer.limit buffer.contents requests (buffer.serveAll requests).1
        (buffer.serveAll requests).2.contents ∧
      (buffer.serveAll requests).2.limit = buffer.limit := by
  induction requests generalizing buffer with
  | nil => exact ⟨.nil, rfl⟩
  | cons request requests ih =>
      obtain ⟨hserves, hlimit⟩ := serves_serve buffer request
      have hrest := ih (buffer.serve request).2
      rw [hlimit] at hrest
      exact ⟨.cons hserves hrest.1, hrest.2⟩

theorem ServesAll.unique {requests : List Request} {replies replies' : List Reply}
    {last last' : Bytes} (h : ServesAll limit bytes requests replies last)
    (h' : ServesAll limit bytes requests replies' last') : replies = replies' ∧ last = last' := by
  induction h generalizing replies' with
  | nil =>
      cases h'
      exact ⟨rfl, rfl⟩
  | cons hserves _ ih =>
      cases h' with
      | cons hserves' hrest' =>
          obtain ⟨rfl, rfl⟩ := hserves.unique hserves'
          obtain ⟨rfl, rfl⟩ := ih hrest'
          exact ⟨rfl, rfl⟩

theorem size_serveAll_le (h : buffer.size ≤ buffer.limit) (requests : List Request) :
    (buffer.serveAll requests).2.size ≤ buffer.limit := by
  induction requests generalizing buffer with
  | nil => exact h
  | cons request requests ih =>
      have hrest := ih (size_serve_le h request)
      rwa [(serves_serve buffer request).2] at hrest

theorem stepAll_eq (hlimit : buffer.limit < UInt64.size) (h : buffer.size ≤ buffer.limit)
    (requests : List Request) : buffer.stepAll requests = some (buffer.serveAll requests) := by
  induction requests generalizing buffer with
  | nil => rfl
  | cons request requests ih =>
      have hnext := (serves_serve buffer request).2
      rw [← hnext] at hlimit
      rw [stepAll, step_eq (h.trans_lt (hnext ▸ hlimit))]
      simp only [bind, Option.bind, pure, ih hlimit (size_serve_le h request), serveAll]

/-- **The buffer is a list of bytes with a limit.** Whatever is asked of it in whatever order, with
whatever machine words as positions and counts, no step leaves the buffer, and the replies are those
of a list of at most `limit` bytes: what fits is appended and nothing else, a pattern is found where it
stands first or stands nowhere, and a range is read and removed at the same place. -/
theorem buffer_is_bounded_list (limit : UInt64) (requests : List Request) :
    ∃ replies last,
      (empty limit.toNat).stepAll requests = some (replies, ⟨last, limit.toNat⟩) ∧
      (empty limit.toNat).serveAll requests = (replies, ⟨last, limit.toNat⟩) ∧
      (∀ replies' last', ServesAll limit.toNat [] requests replies' last' ↔
        replies' = replies ∧ last' = last) ∧
      last.length ≤ limit.toNat ∧
      ∀ start count : UInt64, ∃ front back,
        Range last start.toNat count.toNat front
          (Accumulator.slice ⟨last, limit.toNat⟩ start.toNat count.toNat) back ∧
        (Accumulator.removeRange ⟨last, limit.toNat⟩ start.toNat count.toNat).contents =
          front ++ back := by
  obtain ⟨hserves, hlast⟩ := servesAll_serveAll (empty limit.toNat) requests
  have hempty : (empty limit.toNat).size ≤ (empty limit.toNat).limit := Nat.zero_le _
  have hsize := size_serveAll_le hempty requests
  have hstep := stepAll_eq limit.toNat_lt hempty requests
  generalize (empty limit.toNat).serveAll requests = result at *
  obtain ⟨replies, last, limit'⟩ := result
  obtain rfl : limit' = limit.toNat := hlast
  refine ⟨replies, last, hstep, rfl, fun replies' last' => ⟨fun h => ?_, ?_⟩, hsize, ?_⟩
  · exact h.unique hserves
  · rintro ⟨rfl, rfl⟩
    exact hserves
  · intro start count
    exact ⟨_, _, range_take last start.toNat count.toNat, rfl⟩

end WebSocket.Accumulator

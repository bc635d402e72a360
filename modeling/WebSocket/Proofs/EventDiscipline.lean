import WebSocket.Proofs.ConnectionSilence

namespace WebSocket

/-- What the requests and frames that were acted on amount to. -/
structure Assembly where
  opened : Bool
  /-- The payload of the message that is being put together. -/
  fragment : Option Bytes
  messages : List String

namespace Assembly

def empty : Assembly := ⟨false, none, []⟩

def deliver (a : Assembly) (payload : Bytes) : Assembly :=
  { a with messages := a.messages ++ [Utf8.decode payload] }

/-- One more frame: a message ends where its final frame ends, and control frames in between do
not belong to it. -/
def readFrame (a : Assembly) (f : Frame) : Assembly :=
  match f.opcode with
  | .text | .binary =>
    if f.fin then a.deliver f.payload else { a with fragment := some f.payload }
  | .continuation =>
    let payload := a.fragment.getD [] ++ f.payload
    if f.fin then { a with fragment := none }.deliver payload
    else { a with fragment := some payload }
  | .close | .ping | .pong => a

/-- One more request or frame. Frames behind a close frame do not count. -/
def read (a : Assembly) : Item → Assembly
  | .request _ => { a with opened := true }
  | .frame .established f => a.readFrame f
  | .frame _ _ => a

/-- What requests and frames, one after another, amount to. -/
def ofItems (items : List Item) : Assembly :=
  items.foldl read empty

/-- The events that an application should hear about while the connection is there. -/
def events (a : Assembly) : List Event :=
  (if a.opened then [.opened] else []) ++ a.messages.map .message

theorem events_deliver (a : Assembly) (payload : Bytes) :
    (a.deliver payload).events = a.events ++ [.message (Utf8.decode payload)] := by
  simp only [events, deliver, List.map_append, List.append_assoc]
  rfl

end Assembly

/-- The requests and frames that a connection acts on in a run of calls. -/
def Ledger.taken (l : Ledger) : List Operation → List Item
  | [] => []
  | call :: calls => l.met call ++ (l.call call).taken calls

namespace Connection

/-- The application was told, or will be told, what the assembly says; and the connection knows how
far it has come. -/
structure Told (a : Assembly) (c : Connection) : Prop where
  pending : c.pending = a.events ++ if c.closedReported then [.closed] else []
  opened : c.opened = a.opened
  /-- The end is only reported when nothing can follow it. -/
  reported : c.closedReported = true → c.opened = true ∧ c.phase = .closed
  framed : c.Framed → c.opened = true
  unframed : c.phase = .connecting ∨ c.phase = .handshaking → c.opened = false
  messages : a.opened = false → a.messages = []
  fragment : ¬c.Silent → a.fragment = c.fragment.map fun _ => c.accumulated
  accumulated : ¬c.Silent → c.fragment = none → c.accumulated = []

variable {a : Assembly} {c d : Connection}

theorem told_new (options : Options) : (new options).Told .empty where
  pending := rfl
  opened := rfl
  reported := by simp [new]
  framed := by simp [Framed, new]
  unframed := by simp [new]
  messages := by simp [Assembly.empty]
  fragment := by simp [Assembly.empty, new]
  accumulated := by simp [new]

theorem told_of_closed (h : c.Told a) (hphase : d.phase = .closed)
    (hpending : d.pending = c.pending) (hopened : d.opened = c.opened)
    (hreported : d.closedReported = c.closedReported) :
    d.Told a where
  pending := by rw [hpending, hreported, h.pending]
  opened := hopened.trans h.opened
  reported := by
    rw [hreported, hopened]
    exact fun hclosed => ⟨(h.reported hclosed).1, hphase⟩
  framed := by simp [Framed, hphase]
  unframed := by simp [hphase]
  messages := h.messages
  fragment := fun hsilent => absurd (.inr hphase) hsilent
  accumulated := fun hsilent => absurd (.inr hphase) hsilent

theorem told_of_closing (h : c.Told a) (hframed : c.Framed) (hphase : d.phase = .closing)
    (hpending : d.pending = c.pending) (hopened : d.opened = c.opened)
    (hreported : d.closedReported = c.closedReported) : d.Told a where
  pending := by rw [hpending, hreported, h.pending]
  opened := hopened.trans h.opened
  reported := by
    rw [hreported]
    intro hclosed
    rcases hframed with hphase | hphase <;> simp [(h.reported hclosed).2] at hphase
  framed := fun _ => hopened.trans (h.framed hframed)
  unframed := by simp [hphase]
  messages := h.messages
  fragment := fun hsilent => absurd (.inl hphase) hsilent
  accumulated := fun hsilent => absurd (.inl hphase) hsilent

theorem told_reported (h : c.Told a) :
    ({ c with
      phase := .closed
      closedReported := c.closedReported || c.opened
      pending := c.pending ++ c.farewell } : Connection).Told a where
  pending := by
    change c.pending ++ c.farewell = _
    rw [h.pending]
    cases hopened : c.opened <;> cases hreported : c.closedReported <;>
      simp [farewell, hopened, hreported]
  opened := h.opened
  reported := by
    simp only [Bool.or_eq_true, and_true]
    rintro (hreported | hopened)
    · exact (h.reported hreported).1
    · exact hopened
  framed := by simp [Framed]
  unframed := by simp
  messages := h.messages
  fragment := fun hsilent => absurd (.inr rfl) hsilent
  accumulated := fun hsilent => absurd (.inr rfl) hsilent

theorem told_around (h : c.Told a) (data : Bytes) : (c.around [] [] data).Told a :=
  ⟨h.pending, h.opened, h.reported, h.framed, h.unframed, h.messages, h.fragment, h.accumulated⟩

theorem told_write (h : c.Told a) (bytes : Bytes) : (c.write bytes).Told a :=
  ⟨h.pending, h.opened, h.reported, h.framed, h.unframed, h.messages, h.fragment, h.accumulated⟩

theorem told_upgrade (h : c.Told a) (hphase : c.phase = .handshaking) (u : Handshake.Upgrade) :
    (c.upgrade u).Told (a.read (.request u)) := by
  have hopened : c.opened = false := h.unframed (.inr hphase)
  have hreported : c.closedReported = false := by
    cases hreported : c.closedReported with
    | false => rfl
    | true => simpa [hopened] using (h.reported hreported).1
  have hlive : ¬c.Silent := by simp [Silent, hphase]
  have hempty : a.opened = false := h.opened.symm.trans hopened
  refine ⟨?_, rfl, ?_, fun _ => rfl, ?_, ?_, fun _ => h.fragment hlive,
    fun _ => h.accumulated hlive⟩
  · simp only [upgrade, write, h.pending, hreported, Assembly.events, Assembly.read, hempty,
      h.messages hempty]
    rfl
  · simp [upgrade, write, hreported]
  · simp [upgrade]
  · simp [Assembly.read]

theorem told_deliver (h : c.Told a) (hphase : c.phase = .established) (payload : Bytes) :
    ({ c with pending := c.pending ++ [.message (Utf8.decode payload)] } : Connection).Told
      (a.deliver payload) := by
  have hopened : c.opened = true := h.framed (.inl hphase)
  have hreported : c.closedReported = false := by
    cases hreported : c.closedReported with
    | false => rfl
    | true => simpa [hphase] using (h.reported hreported).2
  refine ⟨?_, h.opened, h.reported, h.framed, h.unframed, ?_, h.fragment, h.accumulated⟩
  · simp [h.pending, hreported, Assembly.events_deliver]
  · intro hempty
    simp [← h.opened, hopened, Assembly.deliver] at hempty

theorem told_delivered (h : c.Told a) (hphase : c.phase = .established) {opcode : OpCode}
    {payload : Bytes} (hdelivered : Delivered c opcode payload (.going d)) :
    d.Told (a.deliver payload) := by
  cases hdelivered with
  | dropped hphase' => exact absurd hphase hphase'
  | handed => exact told_deliver h hphase payload

theorem told_fragments (h : c.Told a) (fragment : Option OpCode) (accumulated : Bytes)
    (hempty : fragment = none → accumulated = []) :
    ({ c with fragment := fragment, accumulated := accumulated } : Connection).Told
      { a with fragment := fragment.map fun _ => accumulated } :=
  ⟨h.pending, h.opened, h.reported, h.framed, h.unframed, h.messages, fun _ => rfl,
    fun _ => hempty⟩

theorem told_acted (h : c.Told a) (hphase : c.phase = .established) {f : Frame}
    (hacted : Acted c f (.going d)) : d.Told (a.readFrame f) := by
  have hlive : ¬c.Silent := by simp [Silent, hphase]
  have hfragment := h.fragment hlive
  have haccumulated := h.accumulated hlive
  cases hacted with
  | ignored hopcode =>
      rcases hopcode with hopcode | ⟨hopcode, -⟩ <;> simpa [Assembly.readFrame, hopcode] using h
  | answered hopcode _ hqueue =>
      obtain ⟨bytes, rfl⟩ := eq_write_of_queue hqueue
      simpa [Assembly.readFrame, hopcode] using told_write h bytes
  | begun hopcode hnone hfin =>
      have hread : a.readFrame f = { a with fragment := some f.payload } := by
        rcases hopcode with hopcode | hopcode <;> simp [Assembly.readFrame, hopcode, hfin]
      rw [hread, haccumulated hnone]
      exact told_fragments h (some f.opcode) _ (by simp)
  | single hopcode hnone hfin hdelivered =>
      have hread : a.readFrame f = a.deliver f.payload := by
        rcases hopcode with hopcode | hopcode <;> simp [Assembly.readFrame, hopcode, hfin]
      rw [hread]
      exact told_delivered h hphase hdelivered
  | continued hopcode hsome _ hfin =>
      have hread : a.readFrame f = { a with fragment := some (c.accumulated ++ f.payload) } := by
        simp [Assembly.readFrame, hopcode, hfin, hfragment, hsome]
      rw [hread]
      have htold := told_fragments h c.fragment (c.accumulated ++ f.payload) (by simp [hsome])
      rw [hsome] at htold ⊢
      exact htold
  | completed hopcode hsome _ hfin hdelivered =>
      have hread : a.readFrame f =
          { a with fragment := none }.deliver (c.accumulated ++ f.payload) := by
        simp [Assembly.readFrame, hopcode, hfin, hfragment, hsome]
      rw [hread]
      have htold := told_fragments h none [] (by simp)
      exact told_delivered htold hphase hdelivered
  | echoed hopcode _ _ hqueue =>
      obtain ⟨bytes, rfl⟩ := eq_write_of_queue hqueue
      simpa [Assembly.readFrame, hopcode] using
        told_of_closing h (.inl hphase) (d := { c.write bytes with
          peerClosed := true, phase := .closing }) rfl rfl rfl rfl
  | ended _ _ hphase' => simp [hphase] at hphase'
  | late _ _ hphase' => exact absurd hphase hphase'

theorem told_acted_closing (h : c.Told a) (hphase : c.phase = .closing) {f : Frame}
    (hacted : Acted c f (.going d)) : d.Told a := by
  have hsame : ∀ {d : Connection}, d.phase = c.phase → d.pending = c.pending →
      d.opened = c.opened → d.closedReported = c.closedReported → d.Told a := fun hphase' =>
    told_of_closing h (.inr hphase) (hphase'.trans hphase)
  cases hacted with
  | ended =>
      simp only [reportClosed_snd, toList_reportClosed]
      have hreport := told_reported h
      exact ⟨hreport.pending, hreport.opened, hreport.reported, hreport.framed, hreport.unframed,
        hreport.messages, hreport.fragment, hreport.accumulated⟩
  | single _ _ _ hdelivered =>
      rw [Progress.going.inj (delivered_of_silent (.inl hphase) hdelivered)]
      exact hsame rfl rfl rfl rfl
  | completed _ _ _ _ hdelivered =>
      rw [Progress.going.inj (delivered_of_silent
        (c := { c with fragment := none, accumulated := [] }) (.inl hphase) hdelivered)]
      exact hsame rfl rfl rfl rfl
  | answered _ hphase' | echoed _ _ hphase' => simp [hphase] at hphase'
  | _ => exact hsame rfl rfl rfl rfl

theorem told_withBuffered (h : c.Told a) (bytes : Bytes) : (c.withBuffered bytes).Told a :=
  ⟨h.pending, h.opened, h.reported, h.framed, h.unframed, h.messages, h.fragment, h.accumulated⟩

theorem told_round (h : c.Told a) {item : Item} (hround : c.round = .progress (.going d))
    (hitem : c.front? = some item) : d.Told (a.read item) := by
  have hrounded := rounded c
  rw [hround] at hrounded
  cases hrounded with
  | upgraded hphase hnegotiate =>
      rw [front?_of_upgraded hphase hnegotiate, Option.some.injEq] at hitem
      rw [← hitem]
      exact told_upgrade h hphase _
  | @acted _ _ rest _ hframed hscheme hdecode hacted =>
      rw [front?_of_frame hframed hscheme hdecode, Option.some.injEq] at hitem
      rw [← hitem]
      rcases hframed with hphase | hphase <;> rw [hphase]
      · exact told_acted (told_withBuffered h rest) hphase hacted
      · exact told_acted_closing (told_withBuffered h rest) hphase hacted

theorem told_broken (h : c.Told a) {e : Error} (hbroken : c.Broken e d) : (d.fail e).Told a := by
  obtain ⟨bytes, hfail⟩ := fail_eq_write d e
  rw [hfail]
  by_cases hphase : c.phase = .handshaking
  · rw [eq_of_broken hbroken hphase]
    exact told_of_closed h rfl rfl rfl rfl
  · have halike := alike_of_broken hbroken hphase
    exact told_of_closed h rfl halike.pending halike.opened halike.closedReported

/-- What is taken in is told as far as it was acted on, whether or not there is an error behind. -/
theorem told_intake (h : c.Told a) (data : Bytes) :
    (c.intake data).ended.Told ((c.takes data).foldl .read a) := by
  refine ended_intake (P := fun d done => d.Told (done.foldl .read a)) ?_ ?_ ?_ ?_ h data
  · intro d done data hd
    exact told_around hd data
  · intro d after done item hd hround hitem
    rw [List.foldl_append]
    exact told_round hd hround hitem
  · intro d after done e hd hbroken
    exact told_broken hd hbroken
  · intro d done hd
    exact told_of_closed hd rfl rfl rfl rfl

theorem told_accept (h : c.Told a) : c.accept.Told a := by
  unfold accept
  split
  · rename_i hphase
    have hlive : ¬c.Silent := by simp [Silent, hphase]
    refine ⟨h.pending, h.opened, ?_, ?_, ?_, h.messages, fun _ => h.fragment hlive,
      fun _ => h.accumulated hlive⟩
    · intro hreported
      simpa [hphase] using (h.reported hreported).2
    · simp [Framed]
    · exact fun _ => h.unframed (.inl hphase)
  · exact h

theorem told_act (h : c.Told a) (call : Operation) (hcall : ∀ data, call ≠ .receive data) :
    (c.act call).Told a := by
  cases call with
  | accept => exact told_accept h
  | receive data => exact absurd rfl (hcall data)
  | sendText text =>
      obtain ⟨bytes, hsend⟩ := sendText_getD c text
      simpa only [act, hsend] using told_write h bytes
  | sendEncoded bytes =>
      obtain ⟨sent, hsend⟩ := sendEncoded_getD c bytes
      simpa only [act, hsend] using told_write h sent
  | close code =>
      cases hphase : c.phase with
      | established =>
          obtain ⟨bytes, hqueue⟩ := queue_getD c (.close code [])
          simp only [act, close, hphase, hqueue]
          exact told_of_closing h (.inl hphase) rfl rfl rfl rfl
      | connecting | handshaking =>
          simp only [act, close, hphase]
          exact told_of_closed h rfl rfl rfl rfl
      | closing | closed => simpa only [act, close, hphase] using h
  | finish =>
      by_cases hending : (c.phase = .closing && c.peerClosed) = true
      · simp only [act, finish, if_pos hending, reportClosed_snd, toList_reportClosed]
        exact told_reported h
      · simpa only [act, finish, if_neg hending, Option.toList_none, List.append_nil] using h
  | onTimeout =>
      have hfail : ∀ e : Error, (c.fail e).Told a := by
        intro e
        obtain ⟨bytes, hfail⟩ := fail_eq_write c e
        rw [hfail]
        exact told_of_closed h rfl rfl rfl rfl
      cases hphase : c.phase <;> simp only [act, onTimeout, hphase]
      all_goals first | exact hfail _ | exact told_of_closed h rfl rfl rfl rfl
  | takeOutbound => exact h
  | onDisconnect =>
      simp only [act, onDisconnect_fst]
      simp only [onDisconnect, reportClosed_snd]
      exact told_reported h

end Connection

namespace Ledger

open Connection

theorem told_call {l : Ledger} {a : Assembly} (hprompt : l.Prompt) (h : l.whole.Told a)
    (call : Operation) : (l.call call).whole.Told ((l.met call).foldl .read a) := by
  cases call with
  | receive data =>
      rw [whole_receive, met_receive]
      exact told_intake (told_accept h) data
  | _ =>
      rw [whole_call l hprompt]
      exact told_act h _ (by simp)

theorem told_run {l : Ledger} {a : Assembly} (hprompt : l.Prompt) (h : l.whole.Told a)
    (calls : List Operation) : (l.run calls).whole.Told ((l.taken calls).foldl .read a) := by
  induction calls generalizing l a with
  | nil => exact h
  | cons call calls ih =>
      rw [run_cons, taken, List.foldl_append]
      exact ih (prompt_call hprompt call) (told_call hprompt h call)

theorem events_onDisconnect {l : Ledger} {a : Assembly} (h : l.whole.Told a) :
    (l.call .onDisconnect).events = a.events ++ if a.opened then [.closed] else [] := by
  have hevents : (l.call .onDisconnect).events = l.whole.pending ++ l.whole.farewell := by
    simp only [call, onDisconnect_fst, whole, around_pending, List.append_assoc]
    rfl
  rw [hevents, h.pending, List.append_assoc, List.append_cancel_left_eq]
  cases hreported : l.whole.closedReported with
  | false => simp [farewell, hreported, h.opened]
  | true => simp [farewell, hreported, ← h.opened, (h.reported hreported).1]

/-- Whatever was handed out so far begins like the whole story. -/
theorem events_begin {l : Ledger} {a : Assembly} (h : l.whole.Told a) :
    l.events <+: .opened :: a.messages.map .message ++ [.closed] := by
  have hpending : l.events <+: l.whole.pending := List.prefix_append _ _
  refine hpending.trans ?_
  rw [h.pending]
  cases hopened : a.opened with
  | false =>
      have hreported : l.whole.closedReported = false := by
        cases hreported : l.whole.closedReported with
        | false => rfl
        | true => simpa [h.opened, hopened] using (h.reported hreported).1
      simp [Assembly.events, hopened, hreported, h.messages hopened]
  | true => cases l.whole.closedReported <;> simp [Assembly.events, hopened]

theorem count_closed_events (a : Assembly) : a.events.count .closed = 0 := by
  rw [List.count_eq_zero]
  cases hopened : a.opened <;> simp [Assembly.events, hopened]

theorem opened_mem_events (a : Assembly) : .opened ∈ a.events ↔ a.opened = true := by
  cases hopened : a.opened <;> simp [Assembly.events, hopened]

/-- **The application hears everything, and in order.** At any time it has heard a beginning of
opening, messages, end. When the connection is gone it has heard of exactly what the requests and
frames amount to that were acted on, and of the end exactly once if the connection had opened. -/
theorem events_of_run (options : Options) (calls : List Operation) :
    let heard := Assembly.ofItems ((new options).taken calls)
    let l := (new options).run calls
    l.events <+: .opened :: heard.messages.map .message ++ [.closed] ∧
      (l.call .onDisconnect).events = heard.events ++ (if heard.opened then [.closed] else []) ∧
      (l.call .onDisconnect).events.count .closed =
        if .opened ∈ (l.call .onDisconnect).events then 1 else 0 := by
  intro heard l
  have htold : l.whole.Told heard := told_run (prompt_new options) (told_new options) calls
  have hevents := events_onDisconnect htold
  refine ⟨events_begin htold, hevents, ?_⟩
  rw [hevents, List.count_append, count_closed_events]
  cases hopened : heard.opened <;> simp [opened_mem_events, hopened]

end Ledger

end WebSocket

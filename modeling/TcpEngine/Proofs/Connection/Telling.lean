import TcpEngine.Proofs.Connection.Window
import TcpEngine.Proofs.Stream

/-!
What a connection has said, whatever its peer says. The next number to use is the place behind its
stream, and all that waits and so may be sent again is part of the stream. Segments that arrive and
timers that run out change nothing of that; only calls make the stream longer.
-/
namespace TcpEngine

def State.maySpeak : State → Bool
  | .synSent | .synReceived | .established | .closeWait => true
  | _ => false

def Stream.after (st : Stream) (event : Event) (ds : List Datagram) : Stream :=
  if ds = [] then st
  else match event with
    | .send _ text => { st with text := st.text ++ text }
    | .close _ => { st with ended := true }
    | _ => st

namespace Stream

variable (st : Stream) (event : Event) (ds : List Datagram)

theorem after_text : (st.after event ds).text = st.text ++ if ds = [] then [] else event.text := by
  unfold after
  split
  · exact (List.append_nil st.text).symm
  · cases event <;> first | rfl | exact (List.append_nil st.text).symm

theorem after_open (here : Endpoint) (opening : Opening) (timeout : Option Duration) :
    st.after (.openConnection here opening timeout) ds = st := by
  unfold after
  split <;> rfl

end Stream

namespace Connection

/-- A connection has said a stream, and all that waits is part of it. -/
structure Telling (st : Stream) (c : Connection) : Prop where
  initial : c.send.initial = st.initial
  next : c.send.next = st.initial.advance st.length
  unended : c.state.maySpeak = true → st.ended = false
  carries : ∀ e ∈ c.queue, st.Carries e.flags e.seq e.text

variable {st : Stream} {c c' : Connection} {σ : List Signal} {s : Segment} {iss : SeqNumber}
  {now : Instant} {call : CallId} {event : Event} {ds : List Datagram} {timer : Option Config}

theorem Telling.keeps (h : Telling st c) (initial : c'.send.initial = c.send.initial)
    (next : c'.send.next = c.send.next)
    (queue : ∀ e ∈ c'.queue, e.content ∈ c.queue.map Unacked.content)
    (speaks : c'.state.maySpeak = true → c.state.maySpeak = true) : Telling st c' where
  initial := initial.trans h.initial
  next := next.trans h.next
  unended := fun may => h.unended (speaks may)
  carries := by
    intro e member
    obtain ⟨d, there, same⟩ := List.mem_map.mp (queue e member)
    simp only [Unacked.content, Prod.mk.injEq] at same
    obtain ⟨seq, flags, text, _⟩ := same
    rw [← seq, ← flags, ← text]
    exact h.carries d there

theorem released_content {unacked : SeqNumber} {queue rest done : List Unacked}
    (released : Released unacked queue rest done) :
    ∀ e ∈ rest, e.content ∈ queue.map Unacked.content := by
  intro e member
  rw [released.split]
  exact List.mem_map_of_mem (List.mem_append_right _ member)

theorem turn_content (turn : Turn timer now c σ c') :
    ∀ e ∈ c'.queue, e.content ∈ c.queue.map Unacked.content := by
  intro e member
  cases turn with
  | deliver ends =>
    rcases deliver_ends ends with ⟨_, rfl, _⟩ | ⟨_, _, _, _, rfl⟩
    · exact List.mem_map_of_mem member
    · exact List.mem_map_of_mem member
  | release ends =>
    obtain ⟨_, released, _⟩ := release_ends ends
    exact released_content released e member
  | review _ looked =>
    obtain ⟨_, reviewed, _⟩ := review_ends looked
    exact reviewed.kept.subset (List.mem_map_of_mem member)
  | terminate ends =>
    obtain ⟨_, rfl⟩ := terminate_ends.mp ends
    exact absurd member List.not_mem_nil

theorem turn_asks (turn : Turn timer now c σ c') (asks : c'.state = .synSent) : c.state = .synSent := by
  cases turn with
  | deliver ends => rwa [deliver_state ends] at asks
  | release => exact asks
  | review => exact asks
  | terminate ends =>
    obtain ⟨_, rfl⟩ := terminate_ends.mp ends
    cases asks

theorem move_asks (move : Move s iss now c σ c') (asks : c'.state = .synSent) :
    c.state = .synSent ∧ ∀ e ∈ c'.queue, e.content ∈ c.queue.map Unacked.content := by
  cases move with
  | turn turn => exact ⟨turn_asks turn asks, turn_content turn⟩
  | note _ _ _ _ _ same =>
    subst same
    exact ⟨asks, fun _ => List.mem_map_of_mem⟩
  | acceptFirst open' _ ok =>
    rw [acceptText_state ok] at asks
    rcases open' with state | state <;> cases state.symm.trans asks
  | advance live =>
    exact absurd asks (not_asking (synchronized_of_past live))
  | accept live _ ok =>
    rw [acceptText_state ok] at asks
    exact absurd asks (not_asking (synchronized_of_past (past_of_receives live)))
  | finish live _ _ ends =>
    exact absurd asks (not_asking (countFin_state (synchronized_of_past live) ends))
  | takeUp | greet | cross | establish | halfClose | wait => cases asks

structure Quiet (c c' : Connection) : Prop where
  next : c'.send.next = c.send.next
  goes : c'.state = .closed ∨ c'.state.maySpeak = c.state.maySpeak ∧ c'.send.fin = c.send.fin ∧
    (c.state = .closed → c'.state = .closed)

theorem Quiet.refl (c : Connection) : Quiet c c := ⟨rfl, Or.inr ⟨rfl, rfl, id⟩⟩

theorem Quiet.trans {d : Connection} (first : Quiet c d) (later : Quiet d c') : Quiet c c' where
  next := later.next.trans first.next
  goes := by
    rcases later.goes with gone | ⟨speaks', fin', closed'⟩
    · exact Or.inl gone
    · rcases first.goes with gone | ⟨speaks, fin, closed⟩
      · exact Or.inl (closed' gone)
      · exact Or.inr ⟨speaks'.trans speaks, fin'.trans fin, fun gone => closed' (closed gone)⟩

theorem Quiet.speaks (h : Quiet c c') (may : c'.state.maySpeak = true) :
    c.state.maySpeak = true := by
  rcases h.goes with gone | ⟨same, _⟩
  · rw [gone] at may
    cases may
  · exact same ▸ may

theorem quiet_turn (turn : Turn timer now c σ c') : Quiet c c' := by
  cases turn with
  | deliver ends =>
    rcases deliver_ends ends with ⟨_, rfl, _⟩ | ⟨_, _, _, _, rfl⟩
    · exact .refl _
    · exact ⟨rfl, Or.inr ⟨rfl, rfl, id⟩⟩
  | release | review => exact ⟨rfl, Or.inr ⟨rfl, rfl, id⟩⟩
  | terminate ends =>
    obtain ⟨_, rfl⟩ := terminate_ends.mp ends
    exact ⟨rfl, Or.inl rfl⟩

theorem peerFinished_speaks (c : Connection) (now : Instant) :
    (c.peerFinished now).state.maySpeak = c.state.maySpeak := by
  unfold peerFinished
  split
  · rename_i state
    rw [state]
    rfl
  · rename_i state
    rw [state]
    rfl
  · rename_i state
    rw [state]
    split <;> rfl
  · rename_i state
    rw [state]
    rfl
  · rfl
  · rfl

theorem quiet_move (away : c.state ≠ .listen) (move : Move s iss now c σ c') : Quiet c c' := by
  have from' {before : State} (state : c.state = before) (open' : before ≠ .closed) :
      c.state = .closed → c'.state = .closed :=
    fun closed => absurd (state.symm.trans closed) open'
  have accepted {seq : SeqNumber} (ok : c.acceptText seq s.text = .ok c') : Quiet c c' := by
    rcases acceptText_ok ok with rfl | ⟨_, _, _, _, _, _, rfl⟩
    · exact .refl _
    · exact ⟨rfl, Or.inr ⟨rfl, rfl, id⟩⟩
  cases move with
  | turn turn => exact quiet_turn turn
  | note _ _ _ _ _ same =>
    subst same
    exact ⟨rfl, Or.inr ⟨rfl, rfl, id⟩⟩
  | takeUp takes => exact absurd (takesUp_iff.mp takes).1 away
  | greet state | cross state | establish state | halfClose state | wait state =>
    refine ⟨rfl, Or.inr ⟨?_, rfl, from' state (by decide)⟩⟩
    rw [state]
    rfl
  | acceptFirst _ _ ok => exact accepted ok
  | advance => exact ⟨rfl, Or.inr ⟨rfl, rfl, id⟩⟩
  | accept _ _ ok => exact accepted ok
  | finish live _ _ ends =>
    have speaks : c'.state.maySpeak = c.state.maySpeak := by
      obtain ⟨rfl, _⟩ := Prod.mk.inj (countFin_ends ends).2
      exact peerFinished_speaks c.ended now
    obtain ⟨_, _, rfl⟩ := countFin_counts ends
    refine ⟨rfl, Or.inr ⟨speaks, rfl, ?_⟩⟩
    intro closed
    rw [closed] at live
    cases live

theorem quiet_moves (away : c.state ≠ .listen) (moves : Chain (Move s iss now) c σ c') :
    Quiet c c' := by
  have both := moves.keeps (P := fun d => d.state ≠ .listen ∧ Quiet c d)
    (fun before move => ⟨move_away before.1 move, before.2.trans (quiet_move before.1 move)⟩)
    ⟨away, .refl c⟩
  exact both.2

theorem quiet_turns (turns : Chain (Turn timer now) c σ c') : Quiet c c' :=
  turns.keeps (P := Quiet c) (fun before turn => before.trans (quiet_turn turn)) (.refl c)

theorem telling_turn (h : Telling st c) (turn : Turn timer now c σ c') : Telling st c' := by
  have quiet := quiet_turn turn
  exact h.keeps (turn_initial turn) quiet.next (turn_content turn) quiet.speaks

/-- A SYN that is sent again with an acknowledgment still says the same. -/
theorem Telling.both (h : Telling st c) :
    ∀ e ∈ c.queue.map fun e =>
      if e.flags.has .syn then { e with flags := Flags.ofList [.syn, .ack] } else e,
      st.Carries e.flags e.seq e.text := by
  intro e member
  obtain ⟨d, there, same⟩ := List.mem_map.mp member
  have said := h.carries d there
  split at same
  · rename_i syn
    subst same
    obtain ⟨start, none, _⟩ := said.opens syn
    have opens : st.Carries (.ofList [.syn, .ack]) st.initial [] := Stream.carries_syn (by decide)
    rw [← start, ← none] at opens
    exact opens
  · exact same ▸ said

theorem telling_move (away : c.state ≠ .listen) (h : Telling st c) (move : Move s iss now c σ c') :
    Telling st c' := by
  have quiet := quiet_move away move
  have keeps (queue : ∀ e ∈ c'.queue, e.content ∈ c.queue.map Unacked.content) : Telling st c' :=
    h.keeps (move_initial away move) quiet.next queue quiet.speaks
  have accepted {seq : SeqNumber} (ok : c.acceptText seq s.text = .ok c') : Telling st c' := by
    rcases acceptText_ok ok with rfl | ⟨_, _, _, _, _, _, rfl⟩
    · exact h
    · exact keeps fun _ => List.mem_map_of_mem
  cases move with
  | turn turn => exact telling_turn h turn
  | note _ _ _ _ _ equal =>
    subst equal
    exact keeps fun _ => List.mem_map_of_mem
  | takeUp takes => exact absurd (takesUp_iff.mp takes).1 away
  | greet _ _ _ _ _ ends | advance _ _ _ _ ends =>
    obtain ⟨_, released, _⟩ := release_ends ends
    exact keeps (released_content released)
  | cross asked => exact ⟨h.initial, h.next, fun _ => h.unended (by rw [asked]; rfl), h.both⟩
  | acceptFirst _ _ ok => exact accepted ok
  | accept _ _ ok => exact accepted ok
  | establish | halfClose | wait => exact keeps fun _ => List.mem_map_of_mem
  | finish _ _ _ ends =>
    obtain ⟨_, _, rfl⟩ := countFin_counts ends
    exact keeps fun _ => List.mem_map_of_mem

theorem telling_moves (away : c.state ≠ .listen) (h : Telling st c)
    (moves : Chain (Move s iss now) c σ c') : Telling st c' := by
  have both := moves.keeps (P := fun d => d.state ≠ .listen ∧ Telling st d)
    (fun before move => ⟨move_away before.1 move, telling_move before.1 before.2 move⟩) ⟨away, h⟩
  exact both.2

theorem telling_turns (h : Telling st c) (turns : Chain (Turn timer now) c σ c') : Telling st c' :=
  turns.keeps (P := Telling st) telling_turn h

/- The beginning of a stream. -/

theorem telling_syn (flags : Flags) {e : Unacked} (plain : flags.has .fin = false)
    (initial : c.send.initial = iss) (next : c.send.next = iss.advance 1) (queue : c.queue = [e])
    (entry : e.seq = iss ∧ e.flags = flags ∧ e.text = []) : Telling ⟨iss, [], false⟩ c where
  initial := initial
  next := next
  unended := fun _ => rfl
  carries := by
    intro d member
    rw [queue, List.mem_singleton] at member
    obtain ⟨seq, same, none⟩ := entry
    rw [member, seq, same, none]
    exact Stream.carries_syn plain

theorem telling_takenUp (coherent : Coherent c) (takes : c.takesUp s = true) :
    Telling ⟨iss, [], false⟩ (c.takenUp s iss now) := by
  apply telling_syn (.ofList [.syn, .ack]) _ _ _ (takenUp_queue coherent takes)
  · exact ⟨rfl, rfl, rfl⟩
  · decide
  · rfl
  · rfl

theorem telling_asked (coherent : Coherent c) (free : c.Free) (foreign : Endpoint)
    (userTimeout : Duration) :
    Telling ⟨iss, [], false⟩ ((c.starting foreign iss userTimeout).asked iss now call) := by
  apply telling_syn (.ofList [.syn]) _ _ _ (asked_queue coherent free foreign userTimeout)
  · exact ⟨rfl, rfl, rfl⟩
  · decide
  · rfl
  · rfl

/- Calls. -/

theorem Telling.tells {st' : Stream} (h : Telling st c) {e : Unacked}
    (grows : st.Grows st') (more : st'.length = st.length + e.size)
    (carries : st'.Carries e.flags e.seq e.text)
    (initial' : c'.send.initial = c.send.initial)
    (next' : c'.send.next = c.send.next.advance e.size) (queue' : c'.queue = c.queue ++ [e])
    (unended : c'.state.maySpeak = true → st'.ended = false) : Telling st' c' where
  initial := by rw [initial', grows.initial, h.initial]
  next := by rw [next', h.next, SeqNumber.advance_advance, grows.initial, more]
  unended := unended
  carries := by
    intro d member
    rw [queue'] at member
    rcases List.mem_append.mp member with old | new
    · exact (h.carries d old).grows grows
    · rw [List.mem_singleton.mp new]
      exact carries

theorem unended_of_live (h : Telling st c) (live : c.state = .established ∨ c.state = .closeWait) :
    st.ended = false := by
  apply h.unended
  rcases live with state | state <;> rw [state] <;> rfl

theorem unended_of_finishes {after : State} (h : Telling st c) (states : Finishes c.state after) :
    st.ended = false := by
  apply h.unended
  rcases states with ⟨state | state, _⟩ | ⟨state, _⟩ <;> rw [state] <;> rfl

theorem grows_text (unended : st.ended = false) (text : Octets) :
    st.Grows { st with text := st.text ++ text } where
  initial := rfl
  text := List.prefix_append _ _
  ended := by
    intro ended
    rw [unended] at ended
    cases ended

theorem grows_end (unended : st.ended = false) : st.Grows { st with ended := true } where
  initial := rfl
  text := List.prefix_refl _
  ended := by
    intro ended
    rw [unended] at ended
    cases ended

theorem telling_sent {text : Octets} (h : Telling st c)
    (live : c.state = .established ∨ c.state = .closeWait) :
    Telling { st with text := st.text ++ text } (c.sent text now call) := by
  have unended := unended_of_live h live
  have syn : (Flags.ofList [.ack, .psh]).has .syn = false := by decide
  have fin : (Flags.ofList [.ack, .psh]).has .fin = false := by decide
  have here : c.send.next = st.initial.advance (1 + st.text.length) := by
    rw [h.next, Stream.length, Stream.places, unended]
    rfl
  have part : text <+: (st.text ++ text).drop st.text.length := by rw [List.drop_left]
  have size := Unacked.size_sent c.send.next text now call
  refine h.tells (grows_text unended text) ?_ (Stream.carries_text syn fin here part) rfl
    (size ▸ rfl) rfl fun _ => unended
  rw [size]
  simp only [Stream.length, Stream.places, List.length_append]
  omega

theorem telling_finished {after : State} (h : Telling st c) (states : Finishes c.state after) :
    Telling { st with ended := true } (c.finished after now call) := by
  have unended := unended_of_finishes h states
  have syn : (Flags.ofList [.fin, .ack]).has .syn = false := by decide
  have here : c.send.next = st.initial.advance (1 + st.text.length) := by
    rw [h.next, Stream.length, Stream.places, unended]
    rfl
  have said : Stream.Carries { st with ended := true } (.ofList [.fin, .ack]) c.send.next [] :=
    Stream.carries_fin syn rfl here
  have size := Unacked.size_finished c.send.next now call
  refine h.tells (grows_end unended) ?_ said rfl (size ▸ rfl) rfl ?_
  · rw [size]
    simp only [Stream.length, Stream.places, unended]
    rfl
  · intro may
    rcases states with ⟨_, rfl⟩ | ⟨_, rfl⟩ <;> cases may

/-- A call to a connection that is not free says what it sends, and changes nothing of what was said
    before. -/
theorem telling_called (h : Telling st c) (busy : ¬ c.Free)
    (called : Called iss now call event c σ ds c') :
    Telling (st.after event ds) c' ∧ st.Grows (st.after event ds) := by
  cases called with
  | told => exact ⟨h, .refl st⟩
  | timed => exact ⟨⟨h.initial, h.next, h.unended, h.carries⟩, .refl st⟩
  | listen free => exact absurd free busy
  | fail free => exact absurd free busy
  | ask free => exact absurd free busy
  | send live => exact ⟨telling_sent h live, grows_text (unended_of_live h live) _⟩
  | @receive here capacity _ _ _ _ _ _ ends =>
    have same : st.after (.receive here capacity) ds = st := by
      unfold Stream.after
      split <;> rfl
    have asked : Telling st { c with reception := some ⟨capacity, call⟩ } :=
      ⟨h.initial, h.next, h.unended, h.carries⟩
    rw [same]
    exact ⟨telling_turn asked (.deliver ends : Turn none now _ _ _), .refl st⟩
  | quit _ ends => exact ⟨telling_turn h (.terminate ends : Turn none now _ _ _), .refl st⟩
  | finish states =>
    exact ⟨telling_finished h states, grows_end (unended_of_finishes h states)⟩
  | idle => exact ⟨h, .refl st⟩
  | @abort here _ _ _ _ _ ends =>
    have same : st.after (.abort here) ds = st := by
      unfold Stream.after
      split <;> rfl
    rw [same]
    exact ⟨telling_turn h (.terminate ends : Turn none now _ _ _), .refl st⟩

end Connection
end TcpEngine

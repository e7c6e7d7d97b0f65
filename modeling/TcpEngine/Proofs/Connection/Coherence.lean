import TcpEngine.Proofs.Connection.Handlers
import TcpEngine.Proofs.Stack.Calls

/-!
What the state of a connection says about its other parts. A closed connection holds nothing, a
listening one has nothing sent or received, and one that waits for an answer to its SYN has sent
just that.
-/
namespace TcpEngine

theorem Ring.isEmpty_iff {r : Ring} : r.isEmpty = true ↔ r.toList = [] := by
  rw [isEmpty, beq_iff_eq, ← length_toList, List.length_eq_zero_iff]

namespace Connection

/-- No incarnation is on. -/
def Free (c : Connection) : Prop := c.state = .closed ∨ c.state = .listen

instance (c : Connection) : Decidable c.Free := inferInstanceAs (Decidable (_ ∨ _))

theorem not_free_of_live {c : Connection} (live : c.state.isSynchronized = true) : ¬ c.Free := by
  rintro (state | state) <;> rw [state] at live <;> cases live

theorem dead_of_free {c : Connection} (free : c.Free) : c.state.isSynchronized = false := by
  rcases free with state | state <;> rw [state] <;> rfl

structure Coherent (c : Connection) : Prop where
  closed : c.state = .closed → c.foreign = none ∧ c.reception = none
  /-- Before the peer's SYN has come there is no text, and before ours was sent nothing waits. -/
  silent : c.state.isSynchronized = false → c.send.fin = none ∧ c.buffer.toList = []
  unsent : c.state = .closed ∨ c.state = .listen → c.queue = []
  asking : c.state = .synSent →
    c.send.unacked = c.send.initial ∧ c.send.next = c.send.initial.advance 1
  known : c.state ≠ .closed → c.state ≠ .listen → c.foreign.isSome = true

theorem Coherent.of_synchronized {c : Connection} (live : c.state.isSynchronized = true)
    (known : c.foreign.isSome = true) : Coherent c where
  closed := by
    intro state
    rw [state] at live
    cases live
  silent := by
    intro dead
    rw [live] at dead
    cases dead
  unsent := by
    rintro (state | state) <;> rw [state] at live <;> cases live
  asking := by
    intro state
    rw [state] at live
    cases live
  known := fun _ _ => known

theorem Coherent.fresh {c : Connection} (h : Coherent c) (asked : c.state = .synSent) :
    c.send.unacked = c.send.initial :=
  (h.asking asked).1

theorem Coherent.peer {c : Connection} (h : Coherent c) (live : c.state.isSynchronized = true) :
    c.foreign.isSome = true := by
  refine h.known ?_ ?_
  all_goals
    intro state
    rw [state] at live
    cases live

theorem Coherent.moves {c c' : Connection} (h : Coherent c) (live : c.state.isSynchronized = true)
    (live' : c'.state.isSynchronized = true) (same : c'.foreign = c.foreign) : Coherent c' :=
  .of_synchronized live' (same ▸ h.peer live)

theorem coherent_bound (here : Endpoint) (config : Config) : Coherent (.bound here config) where
  closed := fun _ => ⟨rfl, rfl⟩
  silent := fun _ => ⟨rfl, Ring.toList_empty _⟩
  unsent := fun _ => rfl
  asking := by
    intro state
    cases state
  known := fun state => absurd rfl state

theorem coherent_shut (c : Connection) : Coherent c.shut where
  closed := fun _ => ⟨rfl, rfl⟩
  silent := fun _ => ⟨rfl, Ring.toList_clear _⟩
  unsent := fun _ => rfl
  asking := by
    intro state
    cases state
  known := fun state => absurd rfl state

theorem Coherent.with_queue {c : Connection} (h : Coherent c) {queue : List Unacked}
    {roundTrip : RoundTrip} (fewer : c.queue = [] → queue = []) :
    Coherent { c with queue, roundTrip } where
  closed := h.closed
  silent := h.silent
  unsent := fun free => fewer (h.unsent free)
  asking := h.asking
  known := h.known

theorem coherent_deliver {c c' : Connection} {σ : List Signal} (h : Coherent c)
    (ends : c.deliver.Ends σ c') : Coherent c' := by
  rcases deliver_ends ends with ⟨_, rfl, _⟩ | ⟨reception, asked, filled, _, rfl⟩
  · exact h
  · cases live : c.state.isSynchronized with
    | true => exact h.moves live live rfl
    | false =>
      rw [Ring.isEmpty_iff.mpr (h.silent live).2] at filled
      cases filled

theorem coherent_turn {c c' : Connection} {timer : Option Config} {now : Instant} {σ : List Signal}
    (h : Coherent c) (turn : Turn timer now c σ c') : Coherent c' := by
  cases turn with
  | deliver ends => exact coherent_deliver h ends
  | release ends =>
    obtain ⟨done, released, _⟩ := release_ends ends
    refine h.with_queue fun empty => ?_
    have split := released.split
    rw [empty] at split
    exact (List.append_eq_nil_iff.mp split.symm).2
  | review _ looked =>
    obtain ⟨givenUp, reviewed, rfl⟩ := review_ends looked
    refine h.with_queue fun empty => ?_
    have kept := reviewed.kept
    rw [empty] at kept
    exact List.map_eq_nil_iff.mp (List.sublist_nil.mp kept)
  | terminate ends =>
    obtain ⟨_, rfl⟩ := terminate_ends.mp ends
    exact coherent_shut c

theorem acceptText_coherent {c c' : Connection} {seq : SeqNumber} {text : Octets}
    (h : Coherent c) (live : c.state.isSynchronized = true)
    (ok : c.acceptText seq text = .ok c') : Coherent c' := by
  rcases acceptText_ok ok with rfl | ⟨_, _, _, _, _, _, rfl⟩
  · exact h
  · exact h.moves live live rfl

theorem coherent_move {s : Segment} {iss : SeqNumber} {now : Instant} {c c' : Connection}
    {σ : List Signal} (h : Coherent c) (move : Move s iss now c σ c') : Coherent c' := by
  cases move with
  | turn turn => exact coherent_turn h turn
  | note _ _ _ _ _ same =>
    subst same
    exact ⟨h.closed, h.silent, h.unsent, h.asking, h.known⟩
  | takeUp => exact .of_synchronized rfl rfl
  | greet asked =>
    refine .of_synchronized rfl (h.known ?_ ?_) <;> simp [asked]
  | cross asked =>
    refine .of_synchronized rfl (h.known ?_ ?_) <;> simp [asked]
  | acceptFirst open' _ ok =>
    refine acceptText_coherent h ?_ ok
    rcases open' with state | state <;> rw [state] <;> rfl
  | establish state => exact h.moves (by rw [state]; rfl) rfl rfl
  | advance live =>
    have live := synchronized_of_past live
    exact h.moves live live rfl
  | halfClose state => exact h.moves (by rw [state]; rfl) rfl rfl
  | wait state => exact h.moves (by rw [state]; rfl) rfl rfl
  | accept live _ ok =>
    exact acceptText_coherent h (synchronized_of_past (past_of_receives live)) ok
  | finish live _ _ ends =>
    have live := synchronized_of_past live
    have live' := countFin_state live ends
    obtain ⟨_, _, rfl⟩ := countFin_counts ends
    exact h.moves live live' rfl

theorem coherent_called {iss : SeqNumber} {now : Instant} {call : CallId} {event : Event}
    {c c' : Connection} {σ : List Signal} {ds : List Datagram} (h : Coherent c)
    (called : Called iss now call event c σ ds c') : Coherent c' := by
  cases called with
  | told => exact h
  | timed => exact ⟨h.closed, h.silent, h.unsent, h.asking, h.known⟩
  | listen free =>
    have dead : c.state.isSynchronized = false := by
      rcases free with state | state <;> rw [state] <;> rfl
    refine ⟨?_, fun _ => h.silent dead, fun _ => h.unsent free, ?_, fun _ listen => absurd rfl listen⟩
    all_goals
      intro state
      cases state
  | fail free =>
    have dead : c.state.isSynchronized = false := by
      rcases free with state | state <;> rw [state] <;> rfl
    refine ⟨h.closed, fun _ => ⟨rfl, (h.silent dead).2⟩, h.unsent, ?_, h.known⟩
    intro state
    rcases free with free | free <;> cases free.symm.trans state
  | ask free =>
    have dead : c.state.isSynchronized = false := by
      rcases free with state | state <;> rw [state] <;> rfl
    refine ⟨?_, fun _ => ⟨rfl, (h.silent dead).2⟩, ?_, fun _ => ⟨rfl, rfl⟩, fun _ _ => rfl⟩
    · intro state
      cases state
    · rintro (state | state) <;> cases state
  | send live =>
    have live : c.state.isSynchronized = true := by
      rcases live with state | state <;> rw [state] <;> rfl
    exact h.moves live live rfl
  | receive idle live ends =>
    refine coherent_deliver ?_ ends
    exact ⟨fun state => absurd state live, h.silent, h.unsent, h.asking, h.known⟩
  | quit _ ends =>
    obtain ⟨_, rfl⟩ := terminate_ends.mp ends
    exact coherent_shut c
  | finish states =>
    rcases states with ⟨state | state, rfl⟩ | ⟨state, rfl⟩
    all_goals exact h.moves (by rw [state]; rfl) rfl rfl
  | idle => exact h
  | abort _ ends =>
    obtain ⟨_, rfl⟩ := terminate_ends.mp ends
    exact coherent_shut c

/- Nothing waits where a new incarnation begins but its SYN. -/

theorem takenUp_queue {s : Segment} {iss : SeqNumber} {now : Instant} {c : Connection}
    (coherent : Coherent c) (takes : c.takesUp s = true) :
    (c.takenUp s iss now).queue = [⟨iss, .ofList [.syn, .ack], [], now, now, 0, none⟩] := by
  rw [takenUp, coherent.unsent (Or.inr (takesUp_iff.mp takes).1)]
  rfl

theorem asked_queue {iss : SeqNumber} {now : Instant} {call : CallId} {c : Connection}
    (coherent : Coherent c) (free : c.Free) (foreign : Endpoint) (userTimeout : Duration) :
    ((c.starting foreign iss userTimeout).asked iss now call).queue
      = [⟨iss, .ofList [.syn], [], now, now, 0, some call⟩] := by
  simp only [asked, starting, coherent.unsent free, List.nil_append]

theorem called_free {iss : SeqNumber} {now : Instant} {call : CallId} {event : Event}
    {c c' : Connection} {σ : List Signal} {ds : List Datagram} (free : c.Free) (called : Called iss now call event c σ ds c') :
    (c'.Free ∧ (∀ d ∈ ds, Holds d (c.control [.rst])) ∧ (ds = [] ∨ event.text = [])) ∨
      ∃ foreign userTimeout d, c' = (c.starting foreign iss userTimeout).asked iss now call ∧
        σ = [] ∧ ds = [d] ∧ Holds d ((c.starting foreign iss userTimeout).control [.syn]) ∧
        ∃ here timeout, event = .openConnection here (.active (some foreign)) timeout := by
  have still {d : Connection} (same : d.state = c.state) : d.Free := by
    unfold Free
    rw [same]
    exact free
  have nothing : ∀ d ∈ ([] : List Datagram), Holds d (c.control [.rst]) :=
    fun _ member => absurd member List.not_mem_nil
  cases called with
  | told => exact Or.inl ⟨free, nothing, Or.inl rfl⟩
  | timed => exact Or.inl ⟨free, nothing, Or.inl rfl⟩
  | listen => exact Or.inl ⟨Or.inr rfl, nothing, Or.inl rfl⟩
  | fail => exact Or.inl ⟨free, nothing, Or.inl rfl⟩
  | @ask _ foreign _ _ d _ userTimeout holds =>
    exact Or.inr ⟨foreign, userTimeout, d, rfl, rfl, rfl, holds, _, _, rfl⟩
  | send open' =>
    rcases free with state | state <;> rcases open' with other | other <;>
      cases state.symm.trans other
  | receive _ _ ends holds =>
    have same := deliver_state ends
    refine Or.inl ⟨still same, ?_, Or.inr rfl⟩
    intro d member
    have live := (holds d member).1
    rw [same, dead_of_free free] at live
    cases live
  | quit _ ends =>
    obtain ⟨_, rfl⟩ := terminate_ends.mp ends
    exact Or.inl ⟨Or.inl rfl, nothing, Or.inl rfl⟩
  | finish states =>
    rcases free with state | state <;> rcases states with ⟨other | other, _⟩ | ⟨other, _⟩ <;>
      cases state.symm.trans other
  | idle => exact Or.inl ⟨free, nothing, Or.inl rfl⟩
  | abort _ ends holds =>
    obtain ⟨_, rfl⟩ := terminate_ends.mp ends
    exact Or.inl ⟨Or.inl rfl, holds, Or.inr rfl⟩

theorem turn_dead {c c' : Connection} {timer : Option Config} {now : Instant} {σ : List Signal}
    (dead : c.state.isSynchronized = false) (turn : Turn timer now c σ c') :
    c'.state.isSynchronized = false := by
  cases turn with
  | deliver ends => rw [deliver_state ends, dead]
  | release => exact dead
  | review => exact dead
  | terminate ends =>
    obtain ⟨_, rfl⟩ := terminate_ends.mp ends
    rfl

theorem turns_state {timer : Option Config} {now : Instant} {c c' : Connection} {σ : List Signal}
    (turns : Chain (Turn timer now) c σ c') : c'.state = c.state ∨ c'.state = .closed := by
  refine turns.keeps (P := fun d => d.state = c.state ∨ d.state = .closed) ?_ (Or.inl rfl)
  intro d τ d' before turn
  cases turn with
  | deliver ends => rwa [deliver_state ends]
  | release => exact before
  | review => exact before
  | terminate ends =>
    obtain ⟨_, rfl⟩ := terminate_ends.mp ends
    exact Or.inr rfl

theorem turn_free {c c' : Connection} {timer : Option Config} {now : Instant} {σ : List Signal}
    (free : c.Free) (turn : Turn timer now c σ c') : c'.Free := by
  unfold Free at free ⊢
  cases turn with
  | deliver ends =>
    rw [deliver_state ends]
    exact free
  | release => exact free
  | review => exact free
  | terminate ends =>
    obtain ⟨_, rfl⟩ := terminate_ends.mp ends
    exact Or.inl rfl

/- No connection changes its own endpoint. -/

theorem turn_here {c c' : Connection} {timer : Option Config} {now : Instant} {σ : List Signal}
    (turn : Turn timer now c σ c') : c'.here = c.here := by
  cases turn with
  | deliver ends => rcases deliver_ends ends with ⟨_, rfl, _⟩ | ⟨_, _, _, _, rfl⟩ <;> rfl
  | release => rfl
  | review => rfl
  | terminate ends =>
    obtain ⟨_, rfl⟩ := terminate_ends.mp ends
    rfl

theorem acceptText_here {c c' : Connection} {seq : SeqNumber} {text : Octets}
    (ok : c.acceptText seq text = .ok c') : c'.here = c.here := by
  rcases acceptText_ok ok with rfl | ⟨_, _, _, _, _, _, rfl⟩ <;> rfl

theorem move_here {s : Segment} {iss : SeqNumber} {now : Instant} {c c' : Connection}
    {σ : List Signal} (move : Move s iss now c σ c') : c'.here = c.here := by
  cases move with
  | turn turn => exact turn_here turn
  | note _ _ _ _ _ same => exact same ▸ rfl
  | acceptFirst _ _ ok => exact acceptText_here ok
  | accept _ _ ok => exact acceptText_here ok
  | finish _ _ _ ends =>
    obtain ⟨_, _, rfl⟩ := countFin_counts ends
    rfl
  | _ => rfl

theorem turns_here {timer : Option Config} {now : Instant} {c c' : Connection} {σ : List Signal}
    (turns : Chain (Turn timer now) c σ c') : c'.here = c.here :=
  turns.keeps (P := fun d => d.here = c.here) (fun same turn => (turn_here turn).trans same) rfl

theorem moves_here {s : Segment} {iss : SeqNumber} {now : Instant} {c c' : Connection}
    {σ : List Signal} (moves : Chain (Move s iss now) c σ c') : c'.here = c.here :=
  moves.keeps (P := fun d => d.here = c.here) (fun same move => (move_here move).trans same) rfl

theorem move_away {s : Segment} {iss : SeqNumber} {now : Instant} {c c' : Connection}
    {σ : List Signal} (away : c.state ≠ .listen) (move : Move s iss now c σ c') :
    c'.state ≠ .listen := by
  intro listen
  cases move with
  | turn turn =>
    cases turn with
    | deliver ends =>
      rw [deliver_state ends] at listen
      exact away listen
    | release => exact away listen
    | review => exact away listen
    | terminate ends =>
      obtain ⟨_, rfl⟩ := terminate_ends.mp ends
      cases listen
  | note _ _ _ _ _ same =>
    subst same
    exact away listen
  | acceptFirst _ _ ok =>
    rw [acceptText_state ok] at listen
    exact away listen
  | accept _ _ ok =>
    rw [acceptText_state ok] at listen
    exact away listen
  | advance => exact away listen
  | finish live _ _ ends =>
    have later := countFin_state (synchronized_of_past live) ends
    rw [listen] at later
    cases later
  | _ => cases listen

theorem turn_initial {c c' : Connection} {timer : Option Config} {now : Instant} {σ : List Signal}
    (turn : Turn timer now c σ c') : c'.send.initial = c.send.initial := by
  cases turn with
  | deliver ends => rcases deliver_ends ends with ⟨_, rfl, _⟩ | ⟨_, _, _, _, rfl⟩ <;> rfl
  | release | review => rfl
  | terminate ends =>
    obtain ⟨_, rfl⟩ := terminate_ends.mp ends
    rfl

theorem turns_initial {timer : Option Config} {now : Instant} {c c' : Connection} {σ : List Signal}
    (turns : Chain (Turn timer now) c σ c') : c'.send.initial = c.send.initial :=
  turns.keeps (P := fun d => d.send.initial = c.send.initial)
    (fun same turn => (turn_initial turn).trans same) rfl

theorem move_initial {s : Segment} {iss : SeqNumber} {now : Instant} {c c' : Connection}
    {σ : List Signal} (away : c.state ≠ .listen) (move : Move s iss now c σ c') :
    c'.send.initial = c.send.initial := by
  cases move with
  | turn turn => exact turn_initial turn
  | note _ _ _ _ _ same => exact same ▸ rfl
  | takeUp takes => exact absurd (takesUp_iff.mp takes).1 away
  | acceptFirst _ _ ok | accept _ _ ok =>
    rcases acceptText_ok ok with rfl | ⟨_, _, _, _, _, _, rfl⟩ <;> rfl
  | finish _ _ _ ends =>
    obtain ⟨_, _, rfl⟩ := countFin_counts ends
    rfl
  | greet | cross | establish | advance | halfClose | wait => rfl

theorem moves_initial {s : Segment} {iss : SeqNumber} {now : Instant} {c c' : Connection}
    {σ : List Signal} (away : c.state ≠ .listen) (moves : Chain (Move s iss now) c σ c') :
    c'.send.initial = c.send.initial := by
  have both := moves.keeps
    (P := fun d => d.state ≠ .listen ∧ d.send.initial = c.send.initial)
    (fun before move => ⟨move_away before.1 move, (move_initial before.1 move).trans before.2⟩)
    ⟨away, rfl⟩
  exact both.2

/-- No call to a connection that is not free changes a number of it that the handshake has fixed, or
    what was received. -/
theorem called_fixed {iss : SeqNumber} {now : Instant} {call : CallId} {event : Event}
    {c c' : Connection} {σ : List Signal} {ds : List Datagram} (busy : ¬ c.Free)
    (called : Called iss now call event c σ ds c') :
    c'.send.initial = c.send.initial ∧ c'.receive = c.receive ∧
      (c'.state = .synSent → c.state = .synSent) := by
  cases called with
  | told | timed | idle => exact ⟨rfl, rfl, id⟩
  | listen free | fail free | ask free => exact absurd free busy
  | send => exact ⟨rfl, rfl, id⟩
  | receive _ _ ends =>
    have state := deliver_state ends
    refine ⟨?_, ?_, fun asks => state ▸ asks⟩
    · rcases deliver_ends ends with ⟨_, rfl, _⟩ | ⟨_, _, _, _, rfl⟩ <;> rfl
    · rcases deliver_ends ends with ⟨_, rfl, _⟩ | ⟨_, _, _, _, rfl⟩ <;> rfl
  | quit _ ends | abort _ ends =>
    obtain ⟨_, rfl⟩ := terminate_ends.mp ends
    refine ⟨rfl, rfl, ?_⟩
    intro asks
    cases asks
  | finish states =>
    refine ⟨rfl, rfl, ?_⟩
    intro asks
    rcases states with ⟨_, rfl⟩ | ⟨_, rfl⟩ <;> cases asks

theorem called_here {iss : SeqNumber} {now : Instant} {call : CallId} {event : Event}
    {c c' : Connection} {σ : List Signal} {ds : List Datagram}
    (called : Called iss now call event c σ ds c') : c'.here = c.here := by
  cases called with
  | receive _ _ ends => rcases deliver_ends ends with ⟨_, rfl, _⟩ | ⟨_, _, _, _, rfl⟩ <;> rfl
  | quit _ ends =>
    obtain ⟨_, rfl⟩ := terminate_ends.mp ends
    rfl
  | abort _ ends =>
    obtain ⟨_, rfl⟩ := terminate_ends.mp ends
    rfl
  | _ => rfl

end Connection
end TcpEngine

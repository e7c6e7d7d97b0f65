import TcpEngine.Proofs.Finality

/-!
The diagram of the states: which states an event may lead to from each. A segment may take a connection
several steps at once, as it may end the handshake, acknowledge our FIN and bring that of the peer; so the
steps of a segment are closed under composition.
-/
namespace TcpEngine

namespace State

def openings : State → List State
  | .closed | .listen => [.listen, .synSent]
  | _ => []

def closings : State → List State
  | .listen | .synSent => [.closed]
  | .synReceived | .established => [.finWait1]
  | .closeWait => [.lastAck]
  | _ => []

def arrivals : State → List State
  | .closed => []
  | .listen => [.synReceived]
  | .synSent => [.synReceived, .established, .closeWait, .closed]
  | .synReceived => [.established, .closeWait, .closed]
  | .established => [.closeWait, .closed]
  | .finWait1 => [.finWait2, .closing, .timeWait, .closed]
  | .finWait2 => [.timeWait, .closed]
  | .closing => [.timeWait, .closed]
  | .closeWait | .lastAck | .timeWait => [.closed]

def after (before : State) : Event → List State
  | .openConnection .. => before.openings
  | .close _ => before.closings
  | .abort _ | .sweep => [.closed]
  | .ingress .. => before.arrivals
  | _ => []

theorem mem_all (state : State) : state ∈ all := by
  cases state <;> decide

theorem closed_mem_arrivals {state : State} (away : state ≠ .listen) :
    state = .closed ∨ .closed ∈ state.arrivals := by
  cases state <;> first | exact absurd rfl away | decide

theorem arrivals_trans {a b c : State} (away : a ≠ .listen) (first : b = a ∨ b ∈ a.arrivals)
    (later : c = b ∨ c ∈ b.arrivals) : c = a ∨ c ∈ a.arrivals := by
  have all : ∀ a ∈ all, a ≠ .listen → ∀ b ∈ a.arrivals, ∀ c ∈ b.arrivals, c = a ∨ c ∈ a.arrivals := by
    decide
  rcases first with rfl | first
  · exact later
  · rcases later with rfl | later
    · exact .inr first
    · exact all a a.mem_all away b first c later

end State

def Event.Concerns (event : Event) (c : Connection) : Prop :=
  event.callee? = some c.here ∨ event.bringsTo c ≠ [] ∨ event = .sweep

namespace Connection

variable {s : Segment} {iss : SeqNumber} {now : Instant} {call : CallId} {σ : List Signal}
  {a : Arrival} {c c' : Connection} {event : Event} {ds : List Datagram} {timer : Option Config}

theorem peerFinished_arrivals (c : Connection) (now : Instant) (past : c.state.pastHandshake = true) :
    (c.peerFinished now).state = c.state ∨ (c.peerFinished now).state ∈ c.state.arrivals := by
  unfold peerFinished
  split
  · rename_i state
    rw [state] at past
    cases past
  · rename_i state
    exact .inr (by simp [state, State.arrivals])
  · rename_i state
    refine .inr ?_
    split <;> simp [state, State.arrivals, enterTimeWait]
  · rename_i state
    exact .inr (by simp [state, State.arrivals, enterTimeWait])
  · exact .inl rfl
  · exact .inl rfl

theorem turn_arrivals (away : c.state ≠ .listen) (turn : Turn timer now c σ c') :
    c'.state = c.state ∨ c'.state ∈ c.state.arrivals := by
  cases turn with
  | deliver ends => exact .inl (deliver_state ends)
  | release | review => exact .inl rfl
  | terminate ends =>
    obtain ⟨_, rfl⟩ := terminate_ends.mp ends
    exact (State.closed_mem_arrivals away).imp_left Eq.symm

theorem move_arrivals (away : c.state ≠ .listen) (move : Move s iss now c σ c') :
    c'.state = c.state ∨ c'.state ∈ c.state.arrivals := by
  cases move with
  | turn turn => exact turn_arrivals away turn
  | note _ _ _ _ _ same =>
    subst same
    exact .inl rfl
  | takeUp takes => exact absurd (takesUp_iff.mp takes).1 away
  | greet asked | cross asked => exact .inr (by simp [asked, State.arrivals])
  | acceptFirst _ _ ok | accept _ _ ok => exact .inl (acceptText_state ok)
  | establish state | halfClose state | wait state =>
    exact .inr (by simp [state, State.arrivals, enterTimeWait])
  | advance => exact .inl rfl
  | finish past _ _ ends =>
    obtain ⟨rfl, _⟩ := Prod.mk.inj (countFin_ends ends).2
    exact c.ended.peerFinished_arrivals now past

theorem moves_arrivals (away : c.state ≠ .listen) (moves : Chain (Move s iss now) c σ c') :
    c'.state = c.state ∨ c'.state ∈ c.state.arrivals := by
  have kept {d : Connection} {τ : List Signal} {d' : Connection}
      (before : d.state ≠ .listen ∧ (d.state = c.state ∨ d.state ∈ c.state.arrivals))
      (move : Move s iss now d τ d') :
      d'.state ≠ .listen ∧ (d'.state = c.state ∨ d'.state ∈ c.state.arrivals) :=
    ⟨move_away before.1 move, State.arrivals_trans away before.2 (move_arrivals before.1 move)⟩
  have all := moves.keeps (P := fun d => d.state ≠ .listen ∧
    (d.state = c.state ∨ d.state ∈ c.state.arrivals)) kept ⟨away, .inl rfl⟩
  exact all.2

theorem arrives_arrivals (coherent : c.Coherent) (h : (c.arrives s iss now).Ends σ a) :
    a.connection.state = c.state ∨ a.connection.state ∈ c.state.arrivals := by
  by_cases listen : c.state = .listen
  · rcases (arrives_free (.inr listen) h).2 with same | ⟨_, _, taken⟩
    · exact .inl (congrArg state same)
    · rw [taken, listen]
      exact .inr (by decide)
  · exact moves_arrivals listen (arrives_handled coherent.fresh h).1

theorem called_after (called : Called iss now call event c σ ds c') :
    c'.state = c.state ∨ c'.state ∈ c.state.after event := by
  cases called with
  | told | timed | fail | send | idle => exact .inl rfl
  | listen free | ask free =>
    refine .inr ?_
    rcases free with state | state <;> simp [state, State.after, State.openings, asked]
  | receive _ _ ends =>
    have same := deliver_state ends
    exact .inl same
  | quit early ends =>
    obtain ⟨_, rfl⟩ := terminate_ends.mp ends
    refine .inr ?_
    rcases early with state | state <;> rw [state] <;> exact List.mem_cons_self
  | finish states =>
    refine .inr ?_
    rcases states with ⟨state | state, rfl⟩ | ⟨state, rfl⟩ <;> rw [state] <;> exact List.mem_cons_self
  | abort _ ends =>
    obtain ⟨_, rfl⟩ := terminate_ends.mp ends
    exact .inr List.mem_cons_self

end Connection

theorem befalls_after {config : Config} {now : Instant} {call : CallId} {event : Event}
    {c c' : Connection} {σ : List Signal} {ds : List Datagram} (coherent : c.Coherent)
    (h : Befalls config now call event c σ ds c') :
    c'.state = c.state ∨ event.Concerns c ∧ c'.state ∈ c.state.after event := by
  cases h with
  | spared => exact .inl rfl
  | called _ callee called => exact (Connection.called_after called).imp_right fun goes => ⟨.inl callee, goes⟩
  | arrived _ brings claims arrives =>
    obtain ⟨_, _, _, rfl, _⟩ := Event.reads_of_segment? brings
    refine (Connection.arrives_arrivals coherent arrives).imp_right fun goes => ⟨.inr (.inl ?_), goes⟩
    rw [Event.bringsTo_claimed brings claims]
    exact List.cons_ne_nil _ _
  | timed ends =>
    refine (Connection.turns_state (Connection.onTimer_turns ends).1).imp_right fun gone => ?_
    rw [gone]
    exact ⟨.inr (.inr rfl), List.mem_cons_self⟩

end TcpEngine

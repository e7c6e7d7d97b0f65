import TcpEngine.Proofs.Connection.Coherence

/-!
Sizes that a connection keeps to, whatever arrives: the window never grows beyond what a header can
announce, and no segment in the queue has more text than that.
-/
namespace TcpEngine
namespace Connection

def Brief (bound : Nat) (c : Connection) : Prop := ∀ e ∈ c.queue, e.text.length ≤ bound

structure Limited (c : Connection) : Prop where
  room : c.buffer.capacity ≤ 65535
  brief : ∀ e ∈ c.queue, e.text.length ≤ 65535
  /-- Nothing is acknowledged before the handshake is done. -/
  fresh : c.state = .synReceived → c.send.unacked = c.send.initial

variable {c c' : Connection} {s : Segment} {iss : SeqNumber} {now : Instant} {σ : List Signal}
  {timer : Option Config} {bound : Nat} {queue done : List Unacked} {unacked : SeqNumber}
  {call : CallId} {event : Event} {ds : List Datagram}

/- Texts get no longer. Only a send call brings a new one. -/

theorem Brief.release (h : Brief bound c) (released : Released unacked c.queue queue done) :
    ∀ e ∈ queue, e.text.length ≤ bound := by
  intro e member
  refine h e ?_
  rw [released.split]
  exact List.mem_append_right _ member

theorem Brief.push (h : Brief bound c) {e : Unacked} (short : e.text.length ≤ bound) :
    ∀ d ∈ c.queue ++ [e], d.text.length ≤ bound := by
  intro d member
  rcases List.mem_append.mp member with old | new
  · exact h d old
  · rw [List.mem_singleton.mp new]
    exact short

theorem brief_deliver (h : Brief bound c) (ends : c.deliver.Ends σ c') : Brief bound c' := by
  rcases deliver_ends ends with ⟨_, rfl, _⟩ | ⟨_, _, _, _, rfl⟩ <;> exact h

theorem brief_accept {seq : SeqNumber} {text : Octets} (h : Brief bound c)
    (ok : c.acceptText seq text = .ok c') : Brief bound c' := by
  rcases acceptText_ok ok with rfl | ⟨_, _, _, _, _, _, rfl⟩ <;> exact h

theorem brief_turn (h : Brief bound c) (turn : Turn timer now c σ c') : Brief bound c' := by
  cases turn with
  | deliver ends => exact brief_deliver h ends
  | release ends =>
    obtain ⟨_, released, _⟩ := release_ends ends
    exact h.release released
  | review _ looked =>
    obtain ⟨_, reviewed, _⟩ := review_ends looked
    intro e member
    have kept := reviewed.kept.subset (List.mem_map_of_mem member)
    obtain ⟨d, there, same⟩ := List.mem_map.mp kept
    simp only [Unacked.content, Prod.mk.injEq] at same
    rw [← same.2.2.1]
    exact h d there
  | terminate ends =>
    obtain ⟨_, rfl⟩ := terminate_ends.mp ends
    exact fun _ member => absurd member List.not_mem_nil

theorem brief_move (h : Brief bound c) (move : Move s iss now c σ c') : Brief bound c' := by
  cases move with
  | turn turn => exact brief_turn h turn
  | note _ _ _ _ _ same =>
    subst same
    exact h
  | takeUp => exact h.push (Nat.zero_le _)
  | greet _ _ _ _ _ ends | advance _ _ _ _ ends =>
    obtain ⟨_, released, _⟩ := release_ends ends
    exact h.release released
  | cross =>
    intro e member
    obtain ⟨d, there, same⟩ := List.mem_map.mp member
    have short := h d there
    split at same <;> rwa [← same]
  | acceptFirst _ _ ok | accept _ _ ok => exact brief_accept h ok
  | finish _ _ _ ends =>
    obtain ⟨_, _, rfl⟩ := countFin_counts ends
    exact h
  | establish | halfClose | wait => exact h

theorem brief_called (h : Brief bound c) (short : ∀ here text, event = .send here text →
      (c.state = .established ∨ c.state = .closeWait) → text.length ≤ c.send.window.toNat →
        text.length ≤ bound)
    (called : Called iss now call event c σ ds c') : Brief bound c' := by
  cases called with
  | told | timed | listen | fail | idle => exact h
  | ask | finish => exact h.push (Nat.zero_le _)
  | send live _ fits => exact h.push (short _ _ rfl live fits)
  | @receive _ capacity _ _ _ _ _ _ ends =>
    have asked : Brief bound { c with reception := some ⟨capacity, call⟩ } := h
    exact brief_deliver asked ends
  | quit _ ends | abort _ ends =>
    have turn : Turn none now c _ c' := .terminate ends
    exact brief_turn h turn

theorem brief_moves (h : Brief bound c) (moves : Chain (Move s iss now) c σ c') : Brief bound c' :=
  moves.keeps (P := Brief bound) brief_move h

theorem brief_turns (h : Brief bound c) (turns : Chain (Turn timer now) c σ c') : Brief bound c' :=
  turns.keeps (P := Brief bound) brief_turn h

/- Limits. -/

theorem limited_bound (here : Endpoint) (config : Config) : Limited (.bound here config) where
  room := Nat.min_le_right _ _
  brief := fun _ member => absurd member List.not_mem_nil
  fresh := by
    intro state
    cases state

theorem Limited.keeps (h : Limited c) (room : c'.buffer.capacity = c.buffer.capacity)
    (brief : Brief 65535 c')
    (fresh : c'.state = .synReceived →
      c.state = .synReceived ∧ c'.send.unacked = c.send.unacked ∧ c'.send.initial = c.send.initial) :
    Limited c' where
  room := by
    rw [room]
    exact h.room
  brief := brief
  fresh := by
    intro state
    obtain ⟨before, unacked, initial⟩ := fresh state
    rw [unacked, initial]
    exact h.fresh before

theorem limited_deliver (h : Limited c) (ends : c.deliver.Ends σ c') : Limited c' := by
  have brief := brief_deliver h.brief ends
  rcases deliver_ends ends with ⟨_, rfl, _⟩ | ⟨reception, _, _, _, rfl⟩
  · exact h
  · exact h.keeps (Ring.dequeue_capacity _ _) brief fun state => ⟨state, rfl, rfl⟩

theorem limited_turn (h : Limited c) (turn : Turn timer now c σ c') : Limited c' := by
  have brief := brief_turn h.brief turn
  cases turn with
  | deliver ends => exact limited_deliver h ends
  | release => exact h.keeps rfl brief fun state => ⟨state, rfl, rfl⟩
  | review => exact ⟨h.room, brief, h.fresh⟩
  | terminate ends =>
    obtain ⟨_, rfl⟩ := terminate_ends.mp ends
    exact ⟨h.room, brief, fun state => by cases state⟩

theorem limited_accept {seq : SeqNumber} {text : Octets} (h : Limited c)
    (ok : c.acceptText seq text = .ok c') : Limited c' := by
  have brief := brief_accept h.brief ok
  rcases acceptText_ok ok with rfl | ⟨_, _, _, _, _, _, rfl⟩
  · exact h
  · exact h.keeps (Ring.enqueue_capacity _ _) brief fun state => ⟨state, rfl, rfl⟩

theorem limited_move (coherent : Coherent c) (h : Limited c) (move : Move s iss now c σ c') :
    Limited c' := by
  have brief := brief_move h.brief move
  cases move with
  | turn turn => exact limited_turn h turn
  | note _ _ _ _ _ same =>
    subst same
    exact ⟨h.room, brief, h.fresh⟩
  | takeUp => exact ⟨h.room, brief, fun _ => rfl⟩
  | greet | establish | halfClose | wait => exact ⟨h.room, brief, fun state => by cases state⟩
  | cross asked => exact ⟨h.room, brief, fun _ => (coherent.asking asked).1⟩
  | acceptFirst _ _ ok => exact limited_accept h ok
  | advance live =>
    refine ⟨h.room, brief, ?_⟩
    intro state
    rw [show c.state = .synReceived from state] at live
    cases live
  | accept _ _ ok => exact limited_accept h ok
  | finish live _ _ ends =>
    have past : c'.state ≠ .synReceived := by
      obtain ⟨rfl, _⟩ := Prod.mk.inj (countFin_ends ends).2
      exact peerFinished_past (c := c.ended) now live
    obtain ⟨_, _, rfl⟩ := countFin_counts ends
    exact ⟨h.room, brief, fun state => absurd state past⟩

theorem limited_called (h : Limited c) (called : Called iss now call event c σ ds c') : Limited c' := by
  have window := c.send.window.toNat_lt
  have brief := brief_called h.brief
    (fun _ _ _ _ fits => Nat.le_trans fits (Nat.le_of_lt_succ window)) called
  cases called with
  | told | idle => exact h
  | timed => exact ⟨h.room, brief, h.fresh⟩
  | listen | ask => exact ⟨h.room, brief, fun state => by cases state⟩
  | fail free =>
    refine ⟨h.room, brief, ?_⟩
    intro state
    rcases free with free | free <;> cases free.symm.trans state
  | send live =>
    refine ⟨h.room, brief, ?_⟩
    intro state
    rcases live with live | live <;> cases live.symm.trans state
  | receive _ _ ends =>
    refine limited_deliver ?_ ends
    exact ⟨h.room, h.brief, h.fresh⟩
  | finish states =>
    refine ⟨h.room, brief, ?_⟩
    intro state
    rcases states with ⟨_, rfl⟩ | ⟨_, rfl⟩ <;> cases state
  | quit _ ends | abort _ ends =>
    have turn : Turn none now c _ c' := .terminate ends
    exact limited_turn h turn

theorem limited_moves (coherent : Coherent c) (h : Limited c)
    (moves : Chain (Move s iss now) c σ c') : Limited c' := by
  have both := moves.keeps (P := fun d => Coherent d ∧ Limited d)
    (fun before move => ⟨coherent_move before.1 move, limited_move before.1 before.2 move⟩)
    ⟨coherent, h⟩
  exact both.2

theorem limited_turns (h : Limited c) (turns : Chain (Turn timer now) c σ c') : Limited c' :=
  turns.keeps (P := Limited) limited_turn h

end Connection
end TcpEngine

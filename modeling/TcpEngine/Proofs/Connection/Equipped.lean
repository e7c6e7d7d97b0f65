import TcpEngine.Proofs.Connection.Telling

/-!
What waits at a connection, as the timer would send it again. Before the peer has answered that is our
SYN by itself. Afterwards every segment acknowledges: a SYN that was crossed by another one gets its
acknowledgment then, and one that was answered is released.
-/
namespace TcpEngine

def Flags.Acknowledge (flags : Flags) : Prop := flags.has .ack = true ∧ flags.has .rst = false

instance (flags : Flags) : Decidable flags.Acknowledge := inferInstanceAs (Decidable (_ ∧ _))

namespace Connection

structure Equipped (c : Connection) : Prop where
  asks : c.state = .synSent →
    ∀ e ∈ c.queue, e.flags = .ofList [.syn] ∧ e.seq = c.send.initial ∧ e.text = []
  acks : c.state.isSynchronized = true → ∀ e ∈ c.queue, e.flags.Acknowledge

variable {c c' : Connection} {σ : List Signal} {s : Segment} {iss ack : SeqNumber} {now : Instant}
  {timer : Option Config} {call : CallId} {event : Event} {ds : List Datagram}
  {queue done : List Unacked}

theorem Equipped.keeps (h : Equipped c) (initial : c'.send.initial = c.send.initial)
    (queue : ∀ e ∈ c'.queue, e.content ∈ c.queue.map Unacked.content)
    (asks : c'.state = .synSent → c.state = .synSent)
    (live : c'.state.isSynchronized = true → c.state.isSynchronized = true) : Equipped c' where
  asks := by
    intro state e member
    obtain ⟨d, there, same⟩ := List.mem_map.mp (queue e member)
    simp only [Unacked.content, Prod.mk.injEq] at same
    obtain ⟨seq, flags, text, _⟩ := same
    rw [← seq, ← flags, ← text, initial]
    exact h.asks (asks state) d there
  acks := by
    intro state e member
    obtain ⟨d, there, same⟩ := List.mem_map.mp (queue e member)
    simp only [Unacked.content, Prod.mk.injEq] at same
    rw [← same.2.1]
    exact h.acks (live state) d there

theorem equipped_of_acks (live : c.state.isSynchronized = true)
    (acks : ∀ e ∈ c.queue, e.flags.Acknowledge) : Equipped c where
  asks := fun asks => absurd asks (not_asking live)
  acks := fun _ => acks

theorem equipped_of_free (free : c.Free) : Equipped c where
  asks := by
    intro asks
    rcases free with state | state <;> cases state.symm.trans asks
  acks := by
    intro live
    rw [dead_of_free free] at live
    cases live

/-- The one number that answers a SYN is the one behind it. -/
theorem Coherent.answered (h : Coherent c) (asked : c.state = .synSent)
    (above : ack.after c.send.initial = true) (sent : ack.atOrBefore c.send.next = true) :
    ack = c.send.initial.advance 1 := by
  obtain ⟨_, next⟩ := h.asking asked
  have apart := SeqNumber.ahead_from ack c.send.next c.send.initial
  have bound := SeqNumber.ahead_lt ack c.send.initial
  rw [SeqNumber.after_iff] at above
  rw [SeqNumber.atOrBefore_iff, ← Bool.not_eq_true, SeqNumber.after_iff] at sent
  rw [next, SeqNumber.ahead_advance (by decide)] at apart
  rw [next] at sent
  simp only [SeqNumber.halfCircle] at above sent
  have one : ack.ahead c.send.initial = 1 := by omega
  rw [← SeqNumber.advance_ahead ack c.send.initial, one]

theorem Equipped.released (h : Equipped c) (asked : c.state = .synSent)
    (released : Released (c.send.initial.advance 1) c.queue queue done) : queue = [] := by
  cases queue with
  | nil => rfl
  | cons e rest =>
    have member : e ∈ c.queue := by
      rw [released.split]
      exact List.mem_append_right _ List.mem_cons_self
    obtain ⟨flags, seq, text⟩ := h.asks asked e member
    obtain ⟨stop, ends, later⟩ := released.uncovered e rfl
    obtain ⟨_, rfl⟩ := Unacked.stop_ok.mp ends
    have one : (Flags.ofList [.syn]).sequenceLength = 1 := by decide
    rw [flags, seq, text, one, List.length_nil, Nat.zero_add, SeqNumber.after_iff,
      SeqNumber.ahead_self] at later
    exact absurd later.1 (Nat.lt_irrefl 0)

theorem equipped_shut (c : Connection) : Equipped c.shut := equipped_of_free (Or.inl rfl)

theorem equipped_deliver (h : Equipped c) (ends : c.deliver.Ends σ c') : Equipped c' := by
  rcases deliver_ends ends with ⟨_, rfl, _⟩ | ⟨_, _, _, _, rfl⟩
  · exact h
  · exact ⟨h.asks, h.acks⟩

theorem equipped_accept {seq : SeqNumber} {text : Octets} (h : Equipped c)
    (ok : c.acceptText seq text = .ok c') : Equipped c' := by
  rcases acceptText_ok ok with rfl | ⟨_, _, _, _, _, _, rfl⟩
  · exact h
  · exact ⟨h.asks, h.acks⟩

theorem equipped_turn (h : Equipped c) (turn : Turn timer now c σ c') : Equipped c' := by
  have content := turn_content turn
  have initial := turn_initial turn
  cases turn with
  | deliver ends => exact equipped_deliver h ends
  | release | review => exact h.keeps initial content id id
  | terminate ends =>
    obtain ⟨_, rfl⟩ := terminate_ends.mp ends
    exact equipped_shut c

theorem equipped_move (coherent : Coherent c) (h : Equipped c) (move : Move s iss now c σ c') :
    Equipped c' := by
  have acked : (Flags.ofList [.syn, .ack]).Acknowledge := by decide
  cases move with
  | turn turn => exact equipped_turn h turn
  | note _ _ _ _ _ same =>
    subst same
    exact ⟨h.asks, h.acks⟩
  | takeUp takes =>
    refine equipped_of_acks rfl ?_
    rw [takenUp_queue coherent takes]
    intro e member
    rw [List.mem_singleton.mp member]
    exact acked
  | greet asked _ _ above sent ends =>
    obtain ⟨_, released, _⟩ := release_ends ends
    rw [coherent.answered asked above sent] at released
    refine equipped_of_acks rfl ?_
    intro e member
    rw [h.released asked released] at member
    exact absurd member List.not_mem_nil
  | cross asked =>
    refine equipped_of_acks rfl ?_
    intro e member
    obtain ⟨d, there, same⟩ := List.mem_map.mp member
    have syn : d.flags.has .syn = true := by
      rw [(h.asks asked d there).1]
      decide
    rw [if_pos syn] at same
    rw [← same]
    exact acked
  | acceptFirst _ _ ok | accept _ _ ok => exact equipped_accept h ok
  | establish state | halfClose state | wait state =>
    exact equipped_of_acks rfl (h.acks (by rw [state]; rfl))
  | advance live _ _ _ ends =>
    obtain ⟨_, released, _⟩ := release_ends ends
    exact h.keeps rfl (released_content released) id id
  | finish live _ _ ends =>
    have live := synchronized_of_past live
    have live' := countFin_state live ends
    obtain ⟨_, _, rfl⟩ := countFin_counts ends
    exact equipped_of_acks live' (h.acks live)

theorem equipped_called (coherent : Coherent c) (h : Equipped c)
    (called : Called iss now call event c σ ds c') : Equipped c' := by
  have more {d : Connection} {e : Unacked} (live : c.state.isSynchronized = true)
      (live' : d.state.isSynchronized = true) (queue : d.queue = c.queue ++ [e])
      (last : e.flags.Acknowledge) : Equipped d := by
    refine equipped_of_acks live' ?_
    intro f member
    rw [queue] at member
    rcases List.mem_append.mp member with old | new
    · exact h.acks live f old
    · rw [List.mem_singleton.mp new]
      exact last
  cases called with
  | told | idle => exact h
  | timed => exact ⟨h.asks, h.acks⟩
  | listen => exact equipped_of_free (Or.inr rfl)
  | fail free => exact equipped_of_free free
  | @ask _ foreign _ _ _ free userTimeout =>
    refine ⟨fun _ => ?_, fun live => by cases live⟩
    rw [asked_queue coherent free foreign userTimeout]
    intro e member
    rw [List.mem_singleton.mp member]
    exact ⟨rfl, rfl, rfl⟩
  | send live =>
    have live : c.state.isSynchronized = true := by
      rcases live with state | state <;> rw [state] <;> rfl
    have acked : (Flags.ofList [.ack, .psh]).Acknowledge := by decide
    exact more live live rfl acked
  | @receive _ capacity _ _ _ _ _ _ ends =>
    have asked : Equipped { c with reception := some ⟨capacity, call⟩ } := ⟨h.asks, h.acks⟩
    exact equipped_deliver asked ends
  | quit _ ends | abort _ ends =>
    obtain ⟨_, rfl⟩ := terminate_ends.mp ends
    exact equipped_shut c
  | finish states =>
    have acked : (Flags.ofList [.fin, .ack]).Acknowledge := by decide
    refine more ?_ ?_ rfl acked
    · rcases states with ⟨state | state, _⟩ | ⟨state, _⟩ <;> rw [state] <;> rfl
    · rcases states with ⟨_, rfl⟩ | ⟨_, rfl⟩ <;> rfl

theorem equipped_moves (coherent : Coherent c) (h : Equipped c)
    (moves : Chain (Move s iss now) c σ c') : Equipped c' := by
  have both := moves.keeps (P := fun d => Coherent d ∧ Equipped d)
    (fun before move => ⟨coherent_move before.1 move, equipped_move before.1 before.2 move⟩)
    ⟨coherent, h⟩
  exact both.2

theorem equipped_turns (h : Equipped c) (turns : Chain (Turn timer now) c σ c') : Equipped c' :=
  turns.keeps (P := Equipped) equipped_turn h

end Connection
end TcpEngine

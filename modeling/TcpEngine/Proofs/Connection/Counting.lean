import TcpEngine.Proofs.Connection.Gaining
import TcpEngine.Proofs.Handshake

/-!
Where RCV.NXT stands: behind the SYN of the peer, all text that was handed out or is in the buffer, and
every FIN that was counted. So it does once the SYN has come, and what is taken in later keeps it so.
-/
namespace TcpEngine
namespace Connection

variable {s : Segment} {iss ack : SeqNumber} {now : Instant} {σ τ : List Signal} {a : Arrival}
  {c c' : Connection} {received more : Octets} {fins n : Nat} {timer : Option Config} {call : CallId}
  {event : Event} {ds : List Datagram} {config : Config}

def Counted (received : Octets) (fins : Nat) (c : Connection) : Prop :=
  c.receive.next = c.receive.initial.advance (1 + (received ++ c.buffer.toList).length + fins)

theorem Gains.counted (gains : Gains more n σ c c') (counted : Counted received fins c) :
    Counted (received ++ handed σ) (fins + n) c' := by
  have text := congrArg List.length gains.text
  simp only [List.length_append] at text
  unfold Counted at counted ⊢
  rw [gains.next, gains.initial, counted, SeqNumber.advance_advance]
  congr 1
  simp only [List.length_append]
  omega

theorem Counted.edge (counted : Counted received fins c) : c.receive.next.advance c.window
    = c.receive.initial.advance (1 + received.length + fins + c.buffer.capacity) := by
  have held := c.buffer.length_le
  unfold Counted at counted
  rw [counted, SeqNumber.advance_advance]
  congr 1
  simp only [List.length_append, Ring.length_toList, window, Ring.window]
  omega

/- The first segment of the peer. -/

structure Started (s : Segment) (σ : List Signal) (c : Connection) : Prop where
  live : c.state.isSynchronized = true
  counted : ∃ fins, fins ≤ (s.header.flags.has .fin).toNat ∧ (c.state.peerDone = false → fins = 0) ∧
    Counted (handed σ) fins c

theorem Counted.keeps (counted : Counted received fins c) (receive : c'.receive = c.receive)
    (buffer : c'.buffer = c.buffer) : Counted received fins c' := by
  unfold Counted at counted ⊢
  rw [receive, buffer]
  exact counted

theorem counted_accept {seq : SeqNumber} {text : Octets} (ok : c.acceptText seq text = .ok c')
    (next : c.receive.next = c.receive.initial.advance 1) (empty : c.buffer.toList = []) :
    Counted [] 0 c' := by
  have first : Counted [] 0 c := by
    simp only [Counted, next, empty, List.append_nil, List.length_nil, Nat.add_zero]
  obtain ⟨more, _, gains⟩ := gains_accept ok
  have counted := gains.counted first
  rwa [Nat.add_zero, List.nil_append] at counted

theorem takeUp_starts (empty : c.buffer.toList = []) (h : c.takeUp s iss now = .ok a) :
    Started s [] a.connection := by
  simp only [takeUp, except_bind_ok, SeqNumber.add_ok] at h
  obtain ⟨first, ⟨_, rfl⟩, next, ⟨_, rfl⟩, kept, ok, h⟩ := h
  have counted : Counted [] 0 kept := counted_accept ok rfl empty
  have live : kept.state.isSynchronized = true := by
    rw [acceptText_state ok]
    rfl
  split at h
  · obtain rfl := except_pure_ok.mp h
    exact ⟨live, 0, Nat.zero_le _, fun _ => rfl, counted⟩
  · obtain rfl := except_pure_ok.mp h
    exact ⟨live, 0, Nat.zero_le _, fun _ => rfl, counted.keeps rfl rfl⟩

theorem greeting_starts {kept : Connection} {window : SeqNumber} (counted : Counted [] 0 kept)
    (h : Act.Ends (do
      let c ← (setWindow { kept with state := .established } s.header window).deliver
      let (c, _) ← c.receiveFin s now
      return .answered c (c.control [.ack])) σ a) : Started s σ a.connection := by
  rw [Act.ends_bind] at h
  obtain ⟨ρ, c₁, _, served, h, rfl⟩ := h
  rw [Act.ends_bind] at h
  obtain ⟨τ, ⟨c₂, finished⟩, _, fin, h, rfl⟩ := h
  obtain ⟨rfl, rfl⟩ := Act.ends_pure.mp h
  have opening : Counted [] 0 (setWindow { kept with state := .established } s.header window) :=
    counted.keeps rfl rfl
  obtain ⟨fins, few, undone, ended⟩ := gains_fin fin
  have counted' := ended.counted ((gains_deliver served).counted opening)
  rw [Nat.zero_add, List.nil_append, ← handed_append] at counted'
  have live : c₁.state.isSynchronized = true := by
    rw [deliver_state served]
    rfl
  have past : c₁.state.pastHandshake = true := by
    rw [deliver_state served]
    rfl
  rw [List.append_nil]
  refine ⟨?_, fins, few, undone past, counted'⟩
  rcases receiveFin_ends fin with ⟨_, same⟩ | ⟨_, _, ends⟩
  · rw [(Prod.mk.inj same).1]
    exact live
  · exact countFin_state live ends

theorem met_starts {kept : Connection} (counted : Counted [] 0 kept)
    (h : Act.Ends (if kept.send.unacked.after kept.send.initial then do
        let c ← (setWindow { kept with state := .established } s.header kept.send.unacked).deliver
        let (c, _) ← c.receiveFin s now
        return .answered c (c.control [.ack])
      else
        let crossed : Connection :=
          { setWindow { kept with state := .synReceived } s.header kept.send.initial with
            queue := kept.queue.map fun e =>
              if e.flags.has .syn then { e with flags := .ofList [.syn, .ack] } else e }
        return .answered crossed (crossed.segment (.ofList [.syn, .ack]) crossed.send.initial []))
      σ a) : Started s σ a.connection := by
  split at h
  · exact greeting_starts counted h
  · obtain ⟨rfl, rfl⟩ := Act.ends_pure.mp h
    exact ⟨rfl, 0, Nat.zero_le _, fun _ => rfl, counted.keeps rfl rfl⟩

theorem meet_starts (empty : c.buffer.toList = []) (h : (c.meet s now).Ends σ a) :
    Started s σ a.connection := by
  unfold meet at h
  rw [Act.ends_bind] at h
  obtain ⟨_, first, τ, added, h, rfl⟩ := h
  obtain ⟨rfl, sum⟩ := Act.ends_lift.mp added
  obtain ⟨_, rfl⟩ := SeqNumber.add_ok.mp sum
  dsimp only at h
  split at h
  · split at h
    · rw [Act.ends_bind] at h
      obtain ⟨_, _, _, ends, h, rfl⟩ := h
      obtain ⟨queue, roundTrip, released, rfl⟩ := releaseAcked_ends ends
      obtain ⟨done, _, rfl⟩ := release_ends released
      rw [Act.ends_bind] at h
      obtain ⟨_, kept, _, lifted, h, rfl⟩ := h
      obtain ⟨rfl, ok⟩ := Act.ends_lift.mp lifted
      have started := met_starts (counted_accept ok rfl empty) h
      obtain ⟨fins, few, undone, counted⟩ := started.counted
      refine ⟨started.live, fins, few, undone, ?_⟩
      rw [List.nil_append, List.nil_append, handed_append, handed_done, List.nil_append]
      exact counted
    · rw [pure_bind, Act.ends_bind] at h
      obtain ⟨_, kept, _, lifted, h, rfl⟩ := h
      obtain ⟨rfl, ok⟩ := Act.ends_lift.mp lifted
      exact met_starts (counted_accept ok rfl empty) h
  · rw [pure_bind, Act.ends_bind] at h
    obtain ⟨_, kept, _, lifted, h, rfl⟩ := h
    obtain ⟨rfl, ok⟩ := Act.ends_lift.mp lifted
    exact met_starts (counted_accept ok rfl empty) h

theorem arrives_starts (coherent : Coherent c) (dead : c.state.isSynchronized = false)
    (h : (c.arrives s iss now).Ends σ a) :
    a.connection.state.isSynchronized = false ∧ handed σ = [] ∨ Started s σ a.connection := by
  have empty := (coherent.silent dead).2
  unfold arrives at h
  split at h
  · simp only [Act.ends_bind, Act.ends_lift, Act.ends_pure] at h
    obtain ⟨_, _, _, ⟨rfl, _⟩, ⟨rfl, rfl⟩, rfl⟩ := h
    exact Or.inl ⟨dead, rfl⟩
  · obtain ⟨rfl, ok⟩ := Act.ends_lift.mp h
    unfold arrivesListen at ok
    split at ok
    · cases ok
      exact Or.inl ⟨dead, rfl⟩
    · split at ok
      · simp only [except_bind_ok, except_pure_ok] at ok
        obtain ⟨_, _, rfl⟩ := ok
        exact Or.inl ⟨dead, rfl⟩
      · split at ok
        · exact Or.inr (takeUp_starts empty ok)
        · cases ok
          exact Or.inl ⟨dead, rfl⟩
  · unfold arrivesSynSent at h
    dsimp only at h
    split at h
    · simp only [Act.ends_bind, Act.ends_lift, Act.ends_pure] at h
      obtain ⟨_, _, _, ⟨rfl, _⟩, ⟨rfl, rfl⟩, rfl⟩ := h
      exact Or.inl ⟨dead, rfl⟩
    · split at h
      · split at h
        · rw [Act.ends_bind] at h
          obtain ⟨_, _, _, ends, h, rfl⟩ := h
          obtain ⟨rfl, rfl⟩ := Act.ends_pure.mp h
          obtain ⟨rfl, rfl⟩ := terminate_ends.mp ends
          rw [List.append_nil]
          exact Or.inl ⟨rfl, handed_fails _ _⟩
        · obtain ⟨rfl, rfl⟩ := Act.ends_pure.mp h
          exact Or.inl ⟨dead, rfl⟩
      · split at h
        · exact Or.inr (meet_starts empty h)
        · obtain ⟨rfl, rfl⟩ := Act.ends_pure.mp h
          exact Or.inl ⟨dead, rfl⟩
  · rename_i closed listen asked
    cases state : c.state <;> first | contradiction | (rw [state] at dead; cases dead)

/- The storage of the buffer. -/

theorem capacity_turn (turn : Turn timer now c σ c') : c'.buffer.capacity = c.buffer.capacity := by
  cases turn with
  | deliver ends => exact (gains_deliver ends).capacity
  | release | review => rfl
  | terminate ends =>
    obtain ⟨_, rfl⟩ := terminate_ends.mp ends
    rfl

theorem capacity_move (move : Move s iss now c σ c') : c'.buffer.capacity = c.buffer.capacity := by
  cases move with
  | turn turn => exact capacity_turn turn
  | note _ _ _ _ _ same =>
    subst same
    rfl
  | acceptFirst _ _ ok | accept _ _ ok =>
    obtain ⟨_, _, gains⟩ := gains_accept ok
    exact gains.capacity
  | finish _ _ _ ends =>
    obtain ⟨_, _, rfl⟩ := countFin_counts ends
    rfl
  | takeUp | greet | cross | establish | advance | halfClose | wait => rfl

theorem capacity_called (called : Called iss now call event c σ ds c') :
    c'.buffer.capacity = c.buffer.capacity := by
  cases called with
  | receive _ _ ends => exact (gains_deliver ends).capacity
  | quit _ ends | abort _ ends =>
    obtain ⟨_, rfl⟩ := terminate_ends.mp ends
    rfl
  | told | timed | listen | fail | ask | send | finish | idle => rfl

/- Calls and the timer. -/

theorem called_gains (live : c.state.isSynchronized = true) (live' : c'.state.isSynchronized = true)
    (called : Called iss now call event c σ ds c') : Gains [] 0 σ c c' := by
  cases called with
  | told _ reply plain =>
    refine gains_still rfl rfl rfl ?_
    cases reply with
    | received octets =>
      rw [plain octets rfl]
      rfl
    | _ => rfl
  | timed | send | finish | idle => exact gains_still rfl rfl rfl rfl
  | listen | ask => cases live'
  | fail free =>
    rw [dead_of_free free] at live
    cases live
  | @receive _ capacity _ _ _ _ _ _ ends =>
    have asked : Gains [] 0 [] c { c with reception := some ⟨capacity, call⟩ } :=
      gains_still rfl rfl rfl rfl
    exact asked.trans (gains_deliver ends)
  | quit _ ends | abort _ ends =>
    obtain ⟨_, rfl⟩ := terminate_ends.mp ends
    cases live'

theorem onTimer_gains {segments : List Segment} (live' : c'.state.isSynchronized = true)
    (ends : (c.onTimer now config).Ends σ (c', segments)) : Gains [] 0 σ c c' := by
  have silent := onTimer_handed ends
  have shut {d : Connection} {error : CallError} {τ : List Signal}
      (h : (d.terminate error).Ends τ c') : Gains [] 0 σ c c' := by
    obtain ⟨_, rfl⟩ := terminate_ends.mp h
    cases live'
  rcases onTimer_ends ends with ⟨_, ⟨_, rfl⟩ | ended⟩ |
    ⟨_, _, _, _, _, _, _, _, _, ⟨_, ended⟩ | ⟨_, rfl, _⟩⟩
  · exact gains_still rfl rfl rfl silent
  · exact shut ended
  · exact shut ended
  · exact gains_still rfl rfl rfl silent

theorem called_dead (dead : c.state.isSynchronized = false)
    (called : Called iss now call event c σ ds c') : c'.state.isSynchronized = false := by
  cases called with
  | told | timed | idle => exact dead
  | listen | ask => rfl
  | fail free => exact dead
  | send live =>
    rcases live with state | state <;> rw [state] at dead <;> cases dead
  | receive _ _ ends =>
    rw [deliver_state ends]
    exact dead
  | quit _ ends | abort _ ends =>
    obtain ⟨_, rfl⟩ := terminate_ends.mp ends
    rfl
  | finish states =>
    rcases states with ⟨state | state, _⟩ | ⟨state, _⟩ <;> rw [state] at dead <;> cases dead

end Connection
end TcpEngine

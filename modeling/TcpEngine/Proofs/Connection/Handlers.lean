import TcpEngine.Proofs.Connection.Move

/-!
The handlers of arriving segments are chains of moves, and their answers are of four kinds.
-/
namespace TcpEngine
namespace Connection

variable {s : Segment} {iss : SeqNumber} {now : Instant}

structure Handled (s : Segment) (iss : SeqNumber) (now : Instant) (c : Connection)
    (σ : List Signal) (a : Arrival) : Prop where
  moves : Chain (Move s iss now) c σ a.connection
  answers : ∀ answer ∈ a.answers, Answers s a.connection answer

theorem handled_silent {c c' : Connection} {σ : List Signal}
    (moves : Chain (Move s iss now) c σ c') : Handled s iss now c σ (.silent c') :=
  ⟨moves, fun _ member => absurd member List.not_mem_nil⟩

theorem handled_answered {c c' : Connection} {σ : List Signal} {answer : Option Segment}
    (moves : Chain (Move s iss now) c σ c') (kind : ∀ a, answer = some a → Answers s c' a) :
    Handled s iss now c σ (.answered c' answer) :=
  ⟨moves, fun a member => kind a (Option.mem_toList.mp member)⟩

theorem Handled.after {c c₁ : Connection} {σ τ : List Signal} {a : Arrival}
    (first : Chain (Move s iss now) c σ c₁) (h : Handled s iss now c₁ τ a) :
    Handled s iss now c (σ ++ τ) a :=
  ⟨first.append h.moves, h.answers⟩

/- Steps of the handlers. -/

theorem note_window (c : Connection) (h : Header) (ack : SeqNumber) :
    Move s iss now c [] (c.setWindow h ack) :=
  .note h.window h.seq ack c.receive.urgent c.waitingSince rfl

theorem noteUrgent_eq {c c' : Connection} {h : Header} (noted : c.noteUrgent h = .ok c') :
    ∃ urgent, c' = { c with receive := { c.receive with urgent } } := by
  unfold noteUrgent at noted
  split at noted
  · simp only [except_bind_ok, except_pure_ok] at noted
    obtain ⟨urgent, _, same⟩ := noted
    split at same
    · exact ⟨urgent, same⟩
    · exact ⟨c.receive.urgent, same⟩
  · cases noted
    exact ⟨c.receive.urgent, rfl⟩

theorem noteUrgent_move {c c' : Connection} (h : c.noteUrgent s.header = .ok c') :
    Move s iss now c [] c' ∧ c'.state = c.state := by
  obtain ⟨urgent, rfl⟩ := noteUrgent_eq h
  exact ⟨.note c.send.window c.send.windowSeq c.send.windowAck urgent c.waitingSince rfl, rfl⟩

theorem refreshWindow_eq (c : Connection) (h : Header) (ack : SeqNumber) :
    ∃ window windowSeq windowAck, c.refreshWindow h ack
      = { c with send := { c.send with window, windowSeq, windowAck } } := by
  unfold refreshWindow
  split
  · exact ⟨_, _, _, rfl⟩
  · exact ⟨c.send.window, c.send.windowSeq, c.send.windowAck, rfl⟩

theorem refreshWindow_state (c : Connection) (h : Header) (ack : SeqNumber) :
    (c.refreshWindow h ack).state = c.state := by
  obtain ⟨_, _, _, same⟩ := refreshWindow_eq c h ack
  rw [same]

theorem refreshWindow_moves (c : Connection) (h : Header) (ack : SeqNumber) :
    Move s iss now c [] (c.refreshWindow h ack) := by
  obtain ⟨window, windowSeq, windowAck, same⟩ := refreshWindow_eq c h ack
  exact .note window windowSeq windowAck c.receive.urgent c.waitingSince same

theorem receiveFin_moves {c c' : Connection} {finished : Bool} {σ : List Signal}
    (live : c.state.pastHandshake = true) (h : (c.receiveFin s now).Ends σ (c', finished)) :
    Chain (Move s iss now) c σ c' := by
  rcases receiveFin_ends h with ⟨rfl, same⟩ | ⟨fin, place, ends⟩
  · obtain ⟨rfl, _⟩ := Prod.mk.inj same
    exact .nil _
  · obtain ⟨_, same⟩ := countFin_ends ends
    obtain ⟨_, rfl⟩ := Prod.mk.inj same
    exact .single (.finish live fin place ends)

theorem peerFinished_state (c : Connection) (now : Instant) :
    c.state.isSynchronized = true → (c.peerFinished now).state.isSynchronized = true := by
  intro live
  unfold peerFinished
  split
  · rfl
  · rfl
  · split <;> rfl
  · rfl
  · exact live
  · exact live

theorem peerFinished_past {c : Connection} (now : Instant) (past : c.state.pastHandshake = true) :
    (c.peerFinished now).state ≠ .synReceived := by
  intro state
  unfold peerFinished at state
  split at state
  · cases state
  · cases state
  · split at state <;> cases state
  · cases state
  all_goals
    rw [show c.state = .synReceived from state] at past
    cases past

theorem countFin_state {c c' : Connection} {finished : Bool} {σ : List Signal}
    (live : c.state.isSynchronized = true) (h : (c.countFin now).Ends σ (c', finished)) :
    c'.state.isSynchronized = true := by
  obtain ⟨rfl, _⟩ := Prod.mk.inj (countFin_ends h).2
  exact peerFinished_state c.ended now live

theorem receiveFin_state {c c' : Connection} {finished : Bool} {σ : List Signal}
    (live : c.state.isSynchronized = true) (h : (c.receiveFin s now).Ends σ (c', finished)) :
    c'.state.isSynchronized = true := by
  rcases receiveFin_ends h with ⟨_, same⟩ | ⟨_, _, ends⟩
  · obtain ⟨rfl, _⟩ := Prod.mk.inj same
    exact live
  · exact countFin_state live ends

theorem synchronized_of_past {state : State} (past : state.pastHandshake = true) :
    state.isSynchronized = true := by
  unfold State.pastHandshake at past
  exact (Bool.and_eq_true_iff.mp past).1

theorem not_asking {state : State} (live : state.isSynchronized = true) : state ≠ .synSent := by
  rintro rfl
  cases live

theorem past_of_receives {state : State} (receives : state.receivesText = true) :
    state.pastHandshake = true := by
  cases state <;> first | rfl | cases receives

theorem deliver_state {c c' : Connection} {σ : List Signal} (h : c.deliver.Ends σ c') :
    c'.state = c.state := by
  rcases deliver_ends h with ⟨_, rfl, _⟩ | ⟨_, _, _, _, rfl⟩ <;> rfl

theorem acceptText_state {c c' : Connection} {seq : SeqNumber} {text : Octets}
    (h : c.acceptText seq text = .ok c') : c'.state = c.state := by
  rcases acceptText_ok h with rfl | ⟨_, _, _, _, _, _, rfl⟩ <;> rfl

theorem finish_handled {c : Connection} {σ : List Signal} {a : Arrival} {due : Bool}
    (live : c.state.pastHandshake = true)
    (h : Act.Ends (do
      let (c, finished) ← c.receiveFin s now
      if due || finished then return .answered c (c.control [.ack])
      else return .silent c) σ a) : Handled s iss now c σ a := by
  simp only [Act.ends_bind] at h
  obtain ⟨σ₁, ⟨c', finished⟩, _, fin, h, rfl⟩ := h
  have moves : Chain (Move s iss now) c σ₁ c' := receiveFin_moves live fin
  have live' := receiveFin_state (synchronized_of_past live) fin
  split at h
  · obtain ⟨rfl, rfl⟩ := Act.ends_pure.mp h
    rw [List.append_nil]
    exact handled_answered moves fun _ h => .ack live' h
  · obtain ⟨rfl, rfl⟩ := Act.ends_pure.mp h
    rw [List.append_nil]
    exact handled_silent moves

theorem finish_ends {c : Connection} {σ : List Signal} {a : Arrival} {due : Bool}
    (h : Act.Ends (do
      let (c, finished) ← c.receiveFin s now
      if due || finished then return .answered c (c.control [.ack])
      else return .silent c) σ a) :
    ∃ finished, (c.receiveFin s now).Ends σ (a.connection, finished) := by
  simp only [Act.ends_bind] at h
  obtain ⟨ρ, ⟨c', finished⟩, _, fin, h, rfl⟩ := h
  split at h
  · obtain ⟨rfl, rfl⟩ := Act.ends_pure.mp h
    exact ⟨finished, (List.append_nil ρ).symm ▸ fin⟩
  · obtain ⟨rfl, rfl⟩ := Act.ends_pure.mp h
    exact ⟨finished, (List.append_nil ρ).symm ▸ fin⟩

theorem receiveContent_ends {c : Connection} {σ : List Signal} {a : Arrival}
    (h : (c.receiveContent s now).Ends σ a) : ∃ urgent c₁ τ finished,
      (c₁ = { c with receive := { c.receive with urgent } } ∨
        ∃ kept ρ, acceptText { c with receive := { c.receive with urgent } } s.header.seq s.text
          = .ok kept ∧ kept.deliver.Ends ρ c₁) ∧
      (c₁.receiveFin s now).Ends τ (a.connection, finished) := by
  unfold receiveContent at h
  rw [Act.ends_bind] at h
  obtain ⟨_, _, _, noted, h, _⟩ := h
  obtain ⟨urgent, rfl⟩ := noteUrgent_eq (Act.ends_lift.mp noted).2
  dsimp only at h
  split at h
  · simp only [Act.ends_bind, Act.ends_lift] at h
    obtain ⟨_, kept, _, ⟨_, taken⟩, ⟨ρ, c₁, τ, served, rest, _⟩, _⟩ := h
    obtain ⟨finished, fin⟩ := finish_ends (Act.ends_bind.mpr rest)
    exact ⟨urgent, c₁, τ, finished, Or.inr ⟨kept, ρ, taken, served⟩, fin⟩
  · rw [pure_bind] at h
    obtain ⟨finished, fin⟩ := finish_ends h
    exact ⟨urgent, _, _, finished, Or.inl rfl, fin⟩

theorem acceptText_moves {c kept c' : Connection} {σ : List Signal}
    (live : c.state.receivesText = true) (plain : s.header.flags.has .syn = false)
    (taken : c.acceptText s.header.seq s.text = .ok kept) (served : kept.deliver.Ends σ c') :
    Chain (Move s iss now) c σ c' :=
  Chain.cons (Move.accept live plain taken) (Chain.single (Move.turn (Turn.deliver served)))

theorem receiveContent_handled {c : Connection} {σ : List Signal} {a : Arrival}
    (live : c.state.pastHandshake = true) (plain : s.header.flags.has .syn = false)
    (h : (c.receiveContent s now).Ends σ a) : Handled s iss now c σ a := by
  unfold receiveContent at h
  rw [Act.ends_bind] at h
  obtain ⟨_, c₁, σ₁, noted, h, rfl⟩ := h
  obtain ⟨rfl, ok⟩ := Act.ends_lift.mp noted
  obtain ⟨noting, same⟩ : Move s iss now c [] c₁ ∧ c₁.state = c.state := noteUrgent_move ok
  have live₁ : c₁.state.pastHandshake = true := same ▸ live
  refine Handled.after (Chain.single noting) ?_
  dsimp only at h
  split at h
  · rename_i takes
    have receives : c₁.state.receivesText = true := (Bool.and_eq_true_iff.mp takes).2
    simp only [Act.ends_bind, Act.ends_lift] at h
    obtain ⟨_, kept, _, ⟨rfl, taken⟩, ⟨σ₂, c₂, _, served, rest, rfl⟩, rfl⟩ := h
    have moves : Chain (Move s iss now) c₁ σ₂ c₂ := acceptText_moves receives plain taken served
    have live₂ : c₂.state.pastHandshake = true := by
      rw [deliver_state served, acceptText_state taken]
      exact live₁
    rw [List.nil_append]
    exact Handled.after moves (finish_handled live₂ (Act.ends_bind.mpr rest))
  · rw [pure_bind] at h
    exact finish_handled live₁ h

theorem progress_handled {c : Connection} {σ : List Signal} {a : Arrival}
    (live : c.state.pastHandshake = true) (plain : s.header.flags.has .syn = false)
    (h : (c.progress s now).Ends σ a) : Handled s iss now c σ a := by
  unfold progress at h
  split at h
  · rename_i state
    split at h
    · rename_i acked
      have moved : Move s iss now c [] { c with state := .finWait2 } := .halfClose state acked
      exact Handled.after (Chain.single moved) (receiveContent_handled rfl plain h)
    · exact receiveContent_handled live plain h
  · rename_i state
    split at h
    · rename_i acked
      have moved : Move s iss now c [] (c.enterTimeWait now) := .wait state acked
      exact Handled.after (Chain.single moved) (receiveContent_handled rfl plain h)
    · obtain ⟨rfl, rfl⟩ := Act.ends_pure.mp h
      exact handled_silent (.nil c)
  · split at h
    · rw [Act.ends_bind] at h
      obtain ⟨σ₁, c', _, ends, h, rfl⟩ := h
      obtain ⟨rfl, rfl⟩ := Act.ends_pure.mp h
      rw [List.append_nil]
      exact handled_silent (.single (.turn (.terminate ends)))
    · obtain ⟨rfl, rfl⟩ := Act.ends_pure.mp h
      exact handled_silent (.nil c)
  · exact receiveContent_handled live plain h

theorem acknowledge_handled {c : Connection} {ack : SeqNumber} {σ : List Signal} {a : Arrival}
    (live : c.state.pastHandshake = true) (plain : s.header.flags.has .syn = false)
    (given : s.header.ack = some ack) (h : (c.acknowledge s ack now).Ends σ a) :
    Handled s iss now c σ a := by
  rw [acknowledge_eq] at h
  split at h
  · obtain ⟨rfl, rfl⟩ := Act.ends_pure.mp h
    exact handled_answered (.nil c) fun _ h => .ack (synchronized_of_past live) h
  · rename_i sent
    split at h
    · rename_i above
      rw [Act.ends_bind] at h
      obtain ⟨σ₁, c₁, σ₂, ends, h, rfl⟩ := h
      obtain ⟨queue, roundTrip, released, rfl⟩ := releaseAcked_ends ends
      have moved : Move s iss now c σ₁ _ :=
        .advance live given (by simpa using sent) above released
      refine Handled.after (.single moved) (Handled.after
        (.single (refreshWindow_moves _ s.header ack)) (progress_handled ?_ plain h))
      rw [refreshWindow_state]
      exact live
    · rw [pure_bind] at h
      refine Handled.after (.single (refreshWindow_moves c s.header ack))
        (progress_handled ?_ plain h)
      rw [refreshWindow_state]
      exact live

theorem arrivesWithAck_handled {c : Connection} {ack : SeqNumber} {σ : List Signal} {a : Arrival}
    (live : c.state.isSynchronized = true) (plain : s.header.flags.has .syn = false)
    (given : s.header.ack = some ack) (h : (c.arrivesWithAck s ack now).Ends σ a) :
    Handled s iss now c σ a := by
  unfold arrivesWithAck at h
  split at h
  · rename_i state
    split at h
    · rename_i valid
      obtain ⟨above, sent⟩ := Bool.and_eq_true_iff.mp valid
      rw [Act.ends_bind] at h
      obtain ⟨σ₁, c₁, σ₂, served, h, rfl⟩ := h
      have opened : Move s iss now c [] { c with state := .established } :=
        .establish state given above sent
      have live₁ : c₁.state.pastHandshake = true := by
        rw [deliver_state served]
        rfl
      exact Handled.after (.cons opened (.single (.turn (.deliver served))))
        (acknowledge_handled live₁ plain given h)
    · simp only [Act.ends_bind, Act.ends_lift, Act.ends_pure] at h
      obtain ⟨_, answer, _, ⟨rfl, reset⟩, ⟨rfl, rfl⟩, rfl⟩ := h
      exact handled_answered (.nil c) fun _ given => .reset (given ▸ reset)
  · rename_i state
    refine acknowledge_handled ?_ plain given h
    simp [State.pastHandshake, live, state]

theorem arrivesSynchronized_handled {c : Connection} {σ : List Signal} {a : Arrival}
    (live : c.state.isSynchronized = true) (h : (c.arrivesSynchronized s now).Ends σ a) :
    Chain (Move s iss now) c σ a.connection ∧ ∀ answer ∈ a.answers,
      Answers s a.connection answer ∨ c.control [.rst] = some answer := by
  have handled {a : Arrival} (h : Handled s iss now c σ a) :
      Chain (Move s iss now) c σ a.connection ∧ ∀ answer ∈ a.answers,
        Answers s a.connection answer ∨ c.control [.rst] = some answer :=
    ⟨h.moves, fun answer member => Or.inl (h.answers answer member)⟩
  unfold arrivesSynchronized at h
  dsimp only at h
  rw [Act.ends_bind] at h
  obtain ⟨_, acceptable, τ, tested, h, rfl⟩ := h
  obtain ⟨rfl, _⟩ := Act.ends_lift.mp tested
  rw [List.nil_append] at handled ⊢
  split at h
  · split at h
    · rw [Act.ends_bind] at h
      obtain ⟨σ₁, c', _, ends, h, rfl⟩ := h
      obtain ⟨rfl, rfl⟩ := Act.ends_pure.mp h
      rw [List.append_nil] at handled ⊢
      exact handled (handled_silent (.single (.turn (.terminate ends))))
    · split at h
      · rw [Act.ends_bind] at h
        obtain ⟨σ₁, c', _, ends, h, rfl⟩ := h
        obtain ⟨rfl, rfl⟩ := Act.ends_pure.mp h
        rw [List.append_nil]
        exact ⟨.single (.turn (.terminate ends)),
          fun answer member => Or.inr (Option.mem_toList.mp member)⟩
      · rename_i plain
        split at h
        · obtain ⟨rfl, rfl⟩ := Act.ends_pure.mp h
          exact handled (handled_silent (.nil c))
        · rename_i ack given
          exact handled (arrivesWithAck_handled live (by simpa using plain) given h)
  · split at h
    · obtain ⟨rfl, rfl⟩ := Act.ends_pure.mp h
      exact handled (handled_silent (.nil c))
    · obtain ⟨rfl, rfl⟩ := Act.ends_pure.mp h
      split
      · refine handled (handled_answered (.single (.note c.send.window c.send.windowSeq
          c.send.windowAck c.receive.urgent now rfl)) fun _ h => .ack live h)
      · exact handled (handled_answered (.nil c) fun _ h => .ack live h)

theorem acceptText_with {c kept : Connection} {seq : SeqNumber} {text : Octets}
    (h : c.acceptText seq text = .ok kept) (state : State) (queue : List Unacked) :
    acceptText { c with state, queue } seq text = .ok { kept with state, queue } := by
  unfold acceptText at h ⊢
  split
  · rename_i empty
    rw [if_pos empty] at h
    cases h
    rfl
  · rename_i some
    rw [if_neg some] at h
    split
    · rename_i reached
      rw [if_pos reached] at h
      simp only [except_bind_ok, except_pure_ok] at h ⊢
      obtain ⟨known, apart, next, sum, rfl⟩ := h
      exact ⟨known, apart, next, sum, rfl⟩
    · rename_i ahead
      rw [if_neg ahead] at h
      cases h
      rfl

theorem greeting_handled {c kept : Connection} {window : SeqNumber} {σ : List Signal} {a : Arrival}
    (syn : s.header.flags.has .syn = true)
    (taken : c.acceptText (s.header.seq.advance 1) s.text = .ok kept)
    (h : Act.Ends (do
      let c ← (setWindow { kept with state := .established } s.header window).deliver
      let (c, _) ← c.receiveFin s now
      return .answered c (c.control [.ack])) σ a) :
    Handled s iss now { c with state := .established } σ a ∧
      a.connection.state.isSynchronized = true := by
  have accepted : acceptText { c with state := .established } (s.header.seq.advance 1) s.text
      = .ok { kept with state := .established } := by
    have same : kept.queue = c.queue := by
      rcases acceptText_ok taken with rfl | ⟨_, _, _, _, _, _, rfl⟩ <;> rfl
    rw [acceptText_with taken .established c.queue, ← same]
  rw [Act.ends_bind] at h
  obtain ⟨σ₁, c₁, _, served, h, rfl⟩ := h
  rw [Act.ends_bind] at h
  obtain ⟨σ₂, ⟨c₂, finished⟩, _, fin, h, rfl⟩ := h
  obtain ⟨rfl, rfl⟩ := Act.ends_pure.mp h
  have live : c₁.state.pastHandshake = true := by
    rw [deliver_state served]
    rfl
  have moves : Chain (Move s iss now) { c with state := .established } σ₁ c₁ :=
    .cons (.acceptFirst (Or.inr rfl) syn accepted)
      (.cons (note_window _ s.header window) (.single (.turn (.deliver served))))
  have live' := receiveFin_state (synchronized_of_past live) fin
  rw [List.append_nil]
  exact ⟨Handled.after moves (handled_answered (receiveFin_moves live fin) fun _ h => .ack live' h),
    live'⟩

theorem crossing_handled {c kept : Connection} {window : SeqNumber} {queue : List Unacked}
    (syn : s.header.flags.has .syn = true)
    (taken : c.acceptText (s.header.seq.advance 1) s.text = .ok kept) :
    let crossed : Connection :=
      { setWindow { kept with state := .synReceived } s.header window with queue }
    Handled s iss now { c with state := .synReceived, queue } []
      (.answered crossed (crossed.segment (.ofList [.syn, .ack]) crossed.send.initial [])) := by
  intro crossed
  have accepted : acceptText { c with state := .synReceived, queue } (s.header.seq.advance 1) s.text
      = .ok { kept with state := .synReceived, queue } :=
    acceptText_with taken .synReceived queue
  have noted : Move s iss now { kept with state := .synReceived, queue } [] crossed :=
    note_window _ s.header window
  exact handled_answered (.cons (.acceptFirst (Or.inl rfl) syn accepted) (.single noted))
    fun _ h => .syn rfl h

theorem meet_handled {c : Connection} {σ : List Signal} {a : Arrival} (asked : c.state = .synSent)
    (fresh : c.send.unacked = c.send.initial) (syn : s.header.flags.has .syn = true)
    (valid : ∀ ack, s.header.ack = some ack →
      ack.after c.send.initial = true ∧ ack.atOrBefore c.send.next = true)
    (h : (c.meet s now).Ends σ a) :
    Handled s iss now c σ a ∧ a.connection.state.isSynchronized = true := by
  unfold meet at h
  rw [Act.ends_bind] at h
  obtain ⟨_, first, τ, added, h, rfl⟩ := h
  obtain ⟨rfl, sum⟩ := Act.ends_lift.mp added
  obtain ⟨_, rfl⟩ := SeqNumber.add_ok.mp sum
  rw [List.nil_append]
  dsimp only at h
  split at h
  · rename_i ack given
    obtain ⟨above, sent⟩ := valid ack given
    rw [fresh, if_pos above, Act.ends_bind] at h
    obtain ⟨σ₁, c₁, σ₂, ends, h, rfl⟩ := h
    obtain ⟨queue, roundTrip, released, rfl⟩ := releaseAcked_ends ends
    rw [Act.ends_bind] at h
    obtain ⟨_, c₂, σ₃, taken, h, rfl⟩ := h
    obtain ⟨rfl, ok⟩ := Act.ends_lift.mp taken
    have kept : c₂.send.unacked = ack ∧ c₂.send.initial = c.send.initial := by
      rcases acceptText_ok ok with rfl | ⟨_, _, _, _, _, _, rfl⟩ <;> exact ⟨rfl, rfl⟩
    rw [kept.1, kept.2, if_pos above] at h
    obtain ⟨handled, live⟩ := greeting_handled syn ok h
    exact ⟨Handled.after (.single (.greet asked syn given above sent released)) handled, live⟩
  · rename_i none
    rw [pure_bind, Act.ends_bind] at h
    obtain ⟨_, c₂, σ₃, taken, h, rfl⟩ := h
    obtain ⟨rfl, ok⟩ := Act.ends_lift.mp taken
    have kept : c₂.send.unacked.after c₂.send.initial = false ∧ c₂.queue = c.queue := by
      have still : c.send.unacked.after c.send.initial = false := by
        rw [fresh, ← SeqNumber.advance_zero c.send.initial]
        exact Bool.eq_false_iff.mpr fun above =>
          absurd ((SeqNumber.after_advance ⟨by decide, by decide⟩).mp above) (Nat.lt_irrefl 0)
      rcases acceptText_ok ok with rfl | ⟨_, _, _, _, _, _, rfl⟩ <;> exact ⟨still, rfl⟩
    rw [if_neg (by simp [kept.1])] at h
    obtain ⟨rfl, rfl⟩ := Act.ends_pure.mp h
    rw [kept.2]
    exact ⟨Handled.after (.single (.cross asked syn none)) (crossing_handled syn ok), rfl⟩

theorem arrivesSynSent_handled {c : Connection} {σ : List Signal} {a : Arrival}
    (asked : c.state = .synSent) (fresh : c.send.unacked = c.send.initial)
    (h : (c.arrivesSynSent s now).Ends σ a) : Handled s iss now c σ a := by
  unfold arrivesSynSent at h
  dsimp only at h
  split at h
  · simp only [Act.ends_bind, Act.ends_lift, Act.ends_pure] at h
    obtain ⟨_, answer, _, ⟨rfl, reset⟩, ⟨rfl, rfl⟩, rfl⟩ := h
    exact handled_answered (.nil c) fun _ given => .reset (given ▸ reset)
  · rename_i valid
    split at h
    · split at h
      · rw [Act.ends_bind] at h
        obtain ⟨σ₁, c', _, ends, h, rfl⟩ := h
        obtain ⟨rfl, rfl⟩ := Act.ends_pure.mp h
        rw [List.append_nil]
        exact handled_silent (.single (.turn (.terminate ends)))
      · obtain ⟨rfl, rfl⟩ := Act.ends_pure.mp h
        exact handled_silent (.nil c)
    · split at h
      · rename_i syn
        refine (meet_handled asked fresh syn ?_ h).1
        intro ack given
        simpa [given] using valid
      · obtain ⟨rfl, rfl⟩ := Act.ends_pure.mp h
        exact handled_silent (.nil c)

theorem takeUp_handled {c : Connection} {a : Arrival} (takes : c.takesUp s = true)
    (h : c.takeUp s iss now = .ok a) :
    Handled s iss now (c.takenUp s iss now) [] a ∧ a.connection.state = .synReceived := by
  obtain ⟨_, _, _, syn⟩ := takesUp_iff.mp takes
  simp only [takeUp, except_bind_ok, SeqNumber.add_ok] at h
  obtain ⟨first, ⟨_, rfl⟩, next, ⟨_, rfl⟩, kept, ok, h⟩ := h
  have stays : kept.state = .synReceived ∧ kept.foreign = some s.sender ∧ kept.queue = c.queue
      ∧ kept.send.initial = iss := by
    rcases acceptText_ok ok with rfl | ⟨_, _, _, _, _, _, rfl⟩ <;> exact ⟨rfl, rfl, rfl, rfl⟩
  obtain ⟨state, known, waiting, initial⟩ := stays
  split at h
  · rename_i none
    rw [segment, known] at none
    cases none
  · rename_i answer sent
    obtain rfl := except_pure_ok.mp h
    have entry : kept.enqueue answer none now
        = { kept with
            state := .synReceived
            queue := c.queue ++ [⟨iss, .ofList [.syn, .ack], [], now, now, 0, none⟩] } := by
      rw [segment, known] at sent
      cases sent
      rw [enqueue, waiting, ← state]
    have accepted := acceptText_with ok .synReceived
      (c.queue ++ [⟨iss, .ofList [.syn, .ack], [], now, now, 0, none⟩])
    rw [entry]
    have noted : Move s iss now (c.takenUp s iss now) [] _ := note_window _ s.header iss
    refine ⟨handled_answered (.cons noted (.single (.acceptFirst (Or.inl rfl) syn accepted))) ?_,
      rfl⟩
    intro a given
    refine .syn rfl ?_
    rw [← given, ← sent]
    simp only [segment, initial, window]

theorem arrivesListen_handled {c : Connection} {a : Arrival}
    (h : c.arrivesListen s iss now = .ok a) : Handled s iss now c [] a := by
  unfold arrivesListen at h
  split at h
  · cases h
    exact handled_silent (.nil c)
  · split at h
    · simp only [except_bind_ok, except_pure_ok] at h
      obtain ⟨answer, reset, rfl⟩ := h
      exact handled_answered (.nil c) fun _ given => .reset (given ▸ reset)
    · split at h
      · rename_i takes
        exact Handled.after (.single (.takeUp takes)) (takeUp_handled takes h).1
      · cases h
        exact handled_silent (.nil c)

theorem arrives_free {c : Connection} {σ : List Signal} {a : Arrival}
    (free : c.state = .closed ∨ c.state = .listen) (h : (c.arrives s iss now).Ends σ a) :
    σ = [] ∧ (a.connection = c ∨ c.takesUp s = true ∧
      Handled s iss now (c.takenUp s iss now) [] a ∧ a.connection.state = .synReceived) := by
  unfold arrives at h
  rcases free with state | state <;> simp only [state] at h
  · simp only [Act.ends_bind, Act.ends_lift, Act.ends_pure] at h
    obtain ⟨_, _, _, ⟨rfl, _⟩, ⟨rfl, rfl⟩, rfl⟩ := h
    exact ⟨rfl, Or.inl rfl⟩
  · obtain ⟨rfl, ok⟩ := Act.ends_lift.mp h
    refine ⟨rfl, ?_⟩
    unfold arrivesListen at ok
    split at ok
    · cases ok
      exact Or.inl rfl
    · split at ok
      · simp only [except_bind_ok, except_pure_ok] at ok
        obtain ⟨_, _, rfl⟩ := ok
        exact Or.inl rfl
      · split at ok
        · rename_i takes
          exact Or.inr ⟨takes, takeUp_handled takes ok⟩
        · cases ok
          exact Or.inl rfl

/-- Whatever segment arrives, it is handled by moves. Only a SYN in the window is answered by a reset
    of our own. -/
theorem arrives_handled {c : Connection} {σ : List Signal} {a : Arrival}
    (fresh : c.state = .synSent → c.send.unacked = c.send.initial)
    (h : (c.arrives s iss now).Ends σ a) :
    Chain (Move s iss now) c σ a.connection ∧ ∀ answer ∈ a.answers,
      Answers s a.connection answer ∨ c.control [.rst] = some answer := by
  have handled {a : Arrival} (h : Handled s iss now c σ a) :
      Chain (Move s iss now) c σ a.connection ∧ ∀ answer ∈ a.answers,
        Answers s a.connection answer ∨ c.control [.rst] = some answer :=
    ⟨h.moves, fun answer member => Or.inl (h.answers answer member)⟩
  unfold arrives at h
  split at h
  · simp only [Act.ends_bind, Act.ends_lift, Act.ends_pure] at h
    obtain ⟨_, answer, _, ⟨rfl, reset⟩, ⟨rfl, rfl⟩, rfl⟩ := h
    exact handled (handled_answered (.nil c) fun _ given => .reset (given ▸ reset))
  · obtain ⟨rfl, ok⟩ := Act.ends_lift.mp h
    exact handled (arrivesListen_handled ok)
  · rename_i asked
    exact handled (arrivesSynSent_handled asked (fresh asked) h)
  · rename_i closed listen asked
    refine arrivesSynchronized_handled ?_ h
    cases state : c.state <;> first | rfl | contradiction

theorem onTimer_turns {c c' : Connection} {config : Config} {σ : List Signal}
    {segments : List Segment} (h : (c.onTimer now config).Ends σ (c', segments)) :
    Chain (Turn (some config) now) c σ c' ∧ ∀ sent ∈ segments, ∃ e ∈ c'.queue,
      c'.segment e.flags e.seq e.text = some sent := by
  rcases onTimer_ends h with ⟨rfl, stay⟩ | ⟨queue, roundTrip, found, σ₁, σ₂, σ₃, first, second, rfl, last⟩
  · refine ⟨?_, fun _ member => absurd member List.not_mem_nil⟩
    rcases stay with ⟨rfl, rfl⟩ | ends
    · exact .nil _
    · exact .single (.terminate ends)
  · obtain ⟨_, reviewed, _⟩ := review_ends second
    have seen : Turn (some config) now { c with queue, roundTrip } _
        { c with queue := found.queue, roundTrip } := .review rfl second
    rcases last with ⟨rfl, ends⟩ | ⟨rfl, rfl, rfl⟩
    · exact ⟨.cons (.release first) (.cons seen (.single (.terminate ends))),
        fun _ member => absurd member List.not_mem_nil⟩
    · refine ⟨.cons (.release first) (.cons seen (.nil _)), ?_⟩
      intro sent member
      obtain ⟨e, resent, same⟩ := List.mem_filterMap.mp member
      exact ⟨e, reviewed.resend e resent, same⟩

end Connection
end TcpEngine

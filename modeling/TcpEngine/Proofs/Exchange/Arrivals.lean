import TcpEngine.Proofs.Exchange.Standing

/-!
A segment arrives at one side of an exchange. A reset ends the connection or does nothing, and all
other segments that are for this side were sent by the other one.
-/
namespace TcpEngine
namespace Connection

variable {here peer : Endpoint} {mine theirs mine' : Option Stream} {reach reached reach' : Nat}
  {got got' : Octets} {c c' : Connection} {σ : List Signal} {s : Segment} {iss : SeqNumber}
  {now : Instant} {a : Arrival}

theorem arrives_reset (raised : s.header.flags.has .rst = true)
    (h : (c.arrives s iss now).Ends σ a) :
    (∃ error, (c.terminate error).Ends σ a.connection) ∨
      (σ = [] ∧ ∃ waitingSince, a.connection = { c with waitingSince }) := by
  have same : a.connection = c → ∃ waitingSince, a.connection = { c with waitingSince } :=
    fun same => ⟨c.waitingSince, same⟩
  unfold arrives at h
  split at h
  · simp only [Act.ends_bind, Act.ends_lift, Act.ends_pure] at h
    obtain ⟨_, _, _, ⟨rfl, _⟩, ⟨rfl, rfl⟩, rfl⟩ := h
    exact Or.inr ⟨rfl, same rfl⟩
  · obtain ⟨rfl, ok⟩ := Act.ends_lift.mp h
    unfold arrivesListen at ok
    rw [if_pos raised] at ok
    cases ok
    exact Or.inr ⟨rfl, same rfl⟩
  · unfold arrivesSynSent at h
    dsimp only at h
    split at h
    · simp only [Act.ends_bind, Act.ends_lift, Act.ends_pure] at h
      obtain ⟨_, _, _, ⟨rfl, _⟩, ⟨rfl, rfl⟩, rfl⟩ := h
      exact Or.inr ⟨rfl, same rfl⟩
    · split at h
      · rw [Act.ends_bind] at h
        obtain ⟨σ₁, c', _, ends, h, rfl⟩ := h
        obtain ⟨rfl, rfl⟩ := Act.ends_pure.mp h
        rw [List.append_nil]
        exact Or.inl ⟨_, ends⟩
      · obtain ⟨rfl, rfl⟩ := Act.ends_pure.mp h
        exact Or.inr ⟨rfl, same rfl⟩
  · refine arrivesSynchronized_idle h (Or.inl ?_)
    rintro ⟨_, lowered, _⟩
    rw [raised] at lowered
    cases lowered

theorem move_foreign (away : c.state ≠ .listen) (move : Move s iss now c σ c') :
    c'.foreign = c.foreign ∨ c'.foreign = none := by
  cases move with
  | turn turn => exact turn_foreign turn
  | note _ _ _ _ _ same => exact Or.inl (same ▸ rfl)
  | takeUp takes => exact absurd (takesUp_iff.mp takes).1 away
  | acceptFirst _ _ ok =>
    rcases acceptText_ok ok with rfl | ⟨_, _, _, _, _, _, rfl⟩ <;> exact Or.inl rfl
  | accept _ _ ok =>
    rcases acceptText_ok ok with rfl | ⟨_, _, _, _, _, _, rfl⟩ <;> exact Or.inl rfl
  | finish _ _ _ ends =>
    obtain ⟨_, _, rfl⟩ := countFin_counts ends
    exact Or.inl rfl
  | _ => exact Or.inl rfl

theorem moves_towards (away : c.state ≠ .listen)
    (towards : ∀ foreign, c.foreign = some foreign → foreign = peer)
    (moves : Chain (Move s iss now) c σ c') :
    ∀ foreign, c'.foreign = some foreign → foreign = peer := by
  have all := moves.keeps (P := fun d => d.state ≠ .listen ∧
      ∀ foreign, d.foreign = some foreign → foreign = peer)
    (fun before move => by
      obtain ⟨away, towards⟩ := before
      refine ⟨move_away away move, fun foreign known => ?_⟩
      rcases move_foreign away move with same | none
      · exact towards foreign (same ▸ known)
      · cases none.symm.trans known) ⟨away, towards⟩
  exact all.2

theorem Standing.answers (h : Standing peer mine theirs reach reached got c) {answer : Segment}
    (kind : Answers s c answer) :
    answer.Formed ∧ (answer.header.flags.has .rst = true ∨ Said c.here peer mine theirs reach answer) := by
  have ack : (Flags.ofList [.ack]).has .syn = false ∧ (Flags.ofList [.ack]).has .fin = false := by
    decide
  cases kind with
  | reset reset =>
    obtain ⟨formed, raised⟩ := resetReply_formed reset
    exact ⟨formed, Or.inl raised⟩
  | ack live sent =>
    obtain ⟨st, _, said, _, _⟩ := h.speaking (not_free_of_live live)
    exact ⟨(segment_formed sent).1,
      Or.inr (h.tells sent ⟨st, said, Stream.carries_nothing ack.1 ack.2⟩ fun _ => live)⟩
  | syn state sent =>
    have live : c.state.isSynchronized = true := by
      rw [state]
      rfl
    obtain ⟨st, _, said, _, speaking⟩ := h.speaking (not_free_of_live live)
    refine ⟨(segment_formed sent).1, Or.inr (h.tells sent ⟨st, said, ?_⟩ fun _ => live)⟩
    rw [speaking.initial]
    exact Stream.carries_syn (by decide)

theorem arrival_lawful (coherent : Coherent c) (ends : (c.arrives s iss now).Ends σ a)
    (standing : Standing peer mine' theirs reach' reached got' a.connection) {ds : List Datagram}
    (holds : ∀ d ∈ ds, ∃ answer ∈ a.answers, Stack.datagram answer = .ok d) :
    a.connection.here = c.here ∧ ∀ d ∈ ds, Lawful c.here peer mine' theirs reach' reached d := by
  obtain ⟨moves, kinds⟩ := arrives_handled coherent.fresh ends
  have same := moves_here moves
  refine ⟨same, fun d member => ?_⟩
  obtain ⟨answer, there, posted⟩ := holds d member
  rcases kinds answer there with kind | reset
  · obtain ⟨formed, reset | said⟩ := standing.answers kind
    · exact ⟨answer, formed, posted, Or.inl reset⟩
    · exact ⟨answer, formed, posted, Or.inr (Or.inl (same ▸ said))⟩
  · obtain ⟨formed, flags⟩ := segment_formed reset
    exact ⟨answer, formed, posted, Or.inl (flags ▸ by decide)⟩

theorem evolved_reset (h : Standing peer mine theirs reach reached got c)
    (raised : s.header.flags.has .rst = true) (ends : (c.arrives s iss now).Ends σ a)
    {ds : List Datagram} (holds : ∀ d ∈ ds, ∃ answer ∈ a.answers, Stack.datagram answer = .ok d)
    (call : CallId) : Evolved peer mine theirs reach reached got c call σ ds a.connection mine := by
  have quiet := arrives_reset raised ends
  have silent : handed σ = [] ∧ ∀ done, Signal.tellsDone done ∉ σ := by
    rcases quiet with ⟨_, ends⟩ | ⟨rfl, _⟩
    · obtain ⟨rfl, _⟩ := terminate_ends.mp ends
      exact ⟨handed_fails _ _, fails_silent _ _⟩
    · exact ⟨rfl, fun _ => List.not_mem_nil⟩
  have stays (free : c.Free) : a.connection.Free := by
    rcases quiet with ⟨_, ends⟩ | ⟨_, _, same⟩
    · obtain ⟨_, same⟩ := terminate_ends.mp ends
      rw [same]
      exact Or.inl rfl
    · rw [same]
      exact free
  have unborn (unsaid : mine = none) :
      mine = none ∧ a.connection.Free ∧ got ++ handed σ = [] := by
    obtain ⟨free, empty, _⟩ := h.unborn unsaid
    rw [empty, silent.1]
    exact ⟨unsaid, stays free, rfl⟩
  obtain ⟨standing, forward⟩ :
      Standing peer mine theirs (a.connection.heardTo (got ++ handed σ) reach) reached
        (got ++ handed σ) a.connection ∧
      reach ≤ a.connection.heardTo (got ++ handed σ) reach := by
    rcases quiet with ⟨_, ends⟩ | ⟨_, _, same⟩
    · obtain ⟨_, same⟩ := terminate_ends.mp ends
      rw [same] at unborn ⊢
      exact h.renew (fun foreign known => by cases known) (coherent_shut c) unborn
        (fun busy => absurd (Or.inl rfl) busy)
        fun st there => (h.hearing st there).over silent.1 (Or.inl rfl)
    · rw [same] at unborn ⊢
      have coherent := h.coherent
      refine h.renew h.towards
        ⟨coherent.closed, coherent.silent, coherent.unsent, coherent.asking, coherent.known⟩ unborn ?_
        fun st there => (h.hearing st there).keeps silent.1 ⟨rfl, rfl⟩ rfl rfl id id
      intro busy
      obtain ⟨st, unacked, said, known, speaking⟩ := h.speaking busy
      have window := speaking.window
      exact ⟨st, unacked, said, known, speaking.initial,
        ⟨window.start, window.stop, window.order, window.room, window.laid⟩, speaking.unended,
        speaking.carries, speaking.bare⟩
  obtain ⟨same, lawful⟩ := arrival_lawful h.coherent ends standing holds
  exact ⟨standing, same, forward, .refl mine, ⟨fun unsaid => ⟨unsaid, (unborn unsaid).2.1⟩, And.left⟩,
    lawful, fun done told => absurd told (silent.2 done)⟩

theorem takenUp_stands (h : Standing peer mine theirs 0 reached [] c) (takes : c.takesUp s = true)
    (small : ∀ st, theirs = some st → st.text.length < SeqNumber.halfCircle)
    (long : s.header.textLength = s.text.length) (said : Said peer c.here theirs mine reached s)
    (moves : Chain (Move s iss now) (c.takenUp s iss now) [] c') :
    Standing peer (some ⟨iss, [], false⟩) theirs (c'.heardTo ([] ++ handed []) 0) reached
        ([] ++ handed []) c' ∧
      0 ≤ c'.heardTo ([] ++ handed []) 0 := by
  obtain ⟨theirs', there, carries⟩ := said.carries
  have began : Coherent (c.takenUp s iss now) := .of_synchronized rfl rfl
  have away : (c.takenUp s iss now).state ≠ .listen := by
    intro state
    cases state
  have first : Stream.length ⟨iss, [], false⟩ < SeqNumber.halfCircle := by
    change 1 < SeqNumber.halfCircle
    decide
  have honest : Honest ⟨iss, [], false⟩ 0 s := by
    intro ack given
    obtain ⟨_, _, unasked, _⟩ := takesUp_iff.mp takes
    cases unasked.symm.trans given
  obtain ⟨unacked, known, slides, speaking, _⟩ := speaking_moves began away first
    (Nat.zero_le _) honest (speaking_takenUp h.coherent takes) (Nat.zero_le 0) moves
  have greeted (foreign : Endpoint)
      (known : (c.takenUp s iss now).foreign = some foreign) : foreign = peer := by
    cases known
    exact said.source
  have hearing (st : Stream) (case : theirs = none ∨ theirs = some st) :
      Hearing st 0 ([] ++ handed []) c' := by
    rcases case with none | some
    · cases none.symm.trans there
    · cases there.symm.trans some
      exact hearing_moves (small _ there) began away
        (hearing_takenUp h.coherent takes carries.consistent) carries.consistent long moves
  exact h.renew (moves_towards away greeted moves) (moves.keeps (P := Coherent) coherent_move began)
    (fun unsaid => by cases unsaid)
    (fun _ => ⟨_, unacked, rfl, Nat.le_trans known (Nat.zero_le _), speaking⟩) hearing

theorem evolved_free (h : Standing peer mine theirs reach reached got c) (free : c.Free)
    (once : ¬ a.connection.Free → mine = none)
    (small : ∀ st, theirs = some st → st.text.length < SeqNumber.halfCircle)
    (long : s.header.textLength = s.text.length) (said : Said peer c.here theirs mine reached s)
    (ends : (c.arrives s iss now).Ends σ a) {ds : List Datagram}
    (holds : ∀ d ∈ ds, ∃ answer ∈ a.answers, Stack.datagram answer = .ok d) (call : CallId) :
    ∃ mine', Evolved peer mine theirs reach reached got c call σ ds a.connection mine' ∧
      Stream.spoken mine' = Stream.spoken mine := by
  obtain ⟨rfl, same | ⟨takes, handled, state⟩⟩ := arrives_free free ends
  · have standing : Standing peer mine theirs reach reached got a.connection := same ▸ h
    obtain ⟨_, lawful⟩ := arrival_lawful h.coherent ends standing holds
    exact ⟨mine, same ▸ evolved_rest h lawful call, rfl⟩
  · have busy : ¬ a.connection.Free := by
      rintro (other | other) <;> cases state.symm.trans other
    have unsaid := once busy
    obtain ⟨_, rfl, rfl⟩ := h.unborn unsaid
    obtain ⟨standing, forward⟩ := takenUp_stands h takes small long said handled.moves
    obtain ⟨here, lawful⟩ := arrival_lawful h.coherent ends standing holds
    refine ⟨some ⟨iss, [], false⟩, ⟨standing, here, forward, ?_, ?_, lawful, fun _ told => ?_⟩, ?_⟩
    · rw [unsaid]
      exact Stream.follows_none _
    · exact ⟨fun unsaid => (by cases unsaid), fun both => absurd both.2 busy⟩
    · cases told
    · rw [unsaid]
      rfl

theorem evolved_open (h : Standing peer mine theirs reach reached got c) (busy : ¬ c.Free)
    (small : ∀ st, mine = some st → st.length < SeqNumber.halfCircle)
    (within : ∀ st, mine = some st → reached ≤ st.length)
    (small' : ∀ st, theirs = some st → st.text.length < SeqNumber.halfCircle)
    (long : s.header.textLength = s.text.length) (said : Said peer c.here theirs mine reached s)
    (ends : (c.arrives s iss now).Ends σ a) {ds : List Datagram}
    (holds : ∀ d ∈ ds, ∃ answer ∈ a.answers, Stack.datagram answer = .ok d) (call : CallId) :
    Evolved peer mine theirs reach reached got c call σ ds a.connection mine := by
  obtain ⟨st, unacked, begun, known, speaking⟩ := h.speaking busy
  obtain ⟨theirs', there, carries⟩ := said.carries
  have away : c.state ≠ .listen := fun listen => busy (Or.inr listen)
  have moves := (arrives_handled h.coherent.fresh ends).1
  have honest : Honest st reached s := by
    intro ack given
    obtain ⟨st', place, begun', heard, here⟩ := said.honest ack given
    cases begun.symm.trans begun'
    exact ⟨place, heard, here⟩
  obtain ⟨unacked', known', slides, speaking', _⟩ := speaking_moves h.coherent away (small st begun)
    (within st begun) honest speaking known moves
  have coherent := moves.keeps (P := Coherent) coherent_move h.coherent
  have hearing (st : Stream) (case : theirs = none ∨ theirs = some st) :
      Hearing st reach (got ++ handed σ) a.connection := by
    rcases case with unsaid | some
    · cases unsaid.symm.trans there
    · cases there.symm.trans some
      exact hearing_moves (small' _ there) h.coherent away (h.hearing _ (Or.inr there))
        carries.consistent long moves
  obtain ⟨standing, forward⟩ : Standing peer mine theirs _ reached _ a.connection ∧ _ :=
    h.renew (moves_towards away h.towards moves) coherent
      (fun unsaid => by cases unsaid.symm.trans begun)
      (fun _ => ⟨st, unacked', begun, known', speaking'⟩) hearing
  obtain ⟨here, lawful⟩ := arrival_lawful h.coherent ends standing holds
  refine ⟨standing, here, forward, .refl mine, ?_, lawful, fun done told => Or.inr ?_⟩
  · constructor
    · intro unsaid
      cases unsaid.symm.trans begun
    · exact And.left
  · obtain ⟨e, member, waits, stop, stops, above, under⟩ := slides.done done told
    exact ⟨e, member, waits, st, stop, begun, speaking.carries e member, stops, by omega, by omega⟩

/-- Whatever lawful segment for this side arrives, the side evolves. -/
theorem evolved_arrived (h : Standing peer mine theirs reach reached got c)
    (apart : c.here ≠ peer) (once : c.Free → ¬ a.connection.Free → mine = none)
    (small : ∀ st, mine = some st → st.length < SeqNumber.halfCircle)
    (within : ∀ st, mine = some st → reached ≤ st.length)
    (small' : ∀ st, theirs = some st → st.text.length < SeqNumber.halfCircle)
    (long : s.header.textLength = s.text.length) (target : s.receiver = c.here)
    (kind : s.header.flags.has .rst = true ∨ Said c.here peer mine theirs reach s ∨
      Said peer c.here theirs mine reached s)
    (ends : (c.arrives s iss now).Ends σ a) {ds : List Datagram}
    (holds : ∀ d ∈ ds, ∃ answer ∈ a.answers, Stack.datagram answer = .ok d) (call : CallId) :
    ∃ mine', Evolved peer mine theirs reach reached got c call σ ds a.connection mine' ∧
      Stream.spoken mine' = Stream.spoken mine := by
  rcases kind with raised | own | said
  · exact ⟨mine, evolved_reset h raised ends holds call, rfl⟩
  · exact absurd (target.symm.trans own.target) apart
  · by_cases free : c.Free
    · exact evolved_free h free (once free) small' long said ends holds call
    · exact ⟨mine, evolved_open h free small within small' long said ends holds call, rfl⟩

end Connection
end TcpEngine

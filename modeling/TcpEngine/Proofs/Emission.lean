import TcpEngine.Proofs.Connection.Telling
import TcpEngine.Proofs.Stack.Life

/-!
What a stack says to the network in the name of one of its endpoints. Whatever the peer and the clock
do, all segments of an incarnation are parts of one stream: its SYN stands at the initial number, its
text is the text of the send calls whose segment was handed over, and its FIN stands behind that.
-/
namespace TcpEngine

def Emitted (here : Endpoint) (ds : List Datagram) (s : Segment) : Prop :=
  s.Formed ∧ s.sender = here ∧ ∃ d ∈ ds, Stack.datagram s = .ok d

def Faithful (here : Endpoint) (st : Stream) (d : Datagram) : Prop :=
  ∃ s, s.Formed ∧ Stack.datagram s = .ok d ∧
    (s.sender = here → st.Carries s.header.flags s.header.seq s.text)

variable {here : Endpoint} {st st' : Stream} {d : Datagram} {ds : List Datagram} {now : Instant}
  {call : CallId} {event : Event} {c c' : Connection} {σ : List Signal} {config : Config}

theorem Faithful.grows (h : Faithful here st d) (grows : st.Grows st') : Faithful here st' d := by
  obtain ⟨s, formed, posted, carries⟩ := h
  exact ⟨s, formed, posted, fun mine => (carries mine).grows grows⟩

theorem faithful_of_alien (alien : Alien here d) : Faithful here st d := by
  obtain ⟨s, formed, posted, kind⟩ := alien
  refine ⟨s, formed, posted, fun mine => ?_⟩
  rcases kind with ⟨⟨none, syn, fin⟩, _⟩ | other
  · rw [none]
    exact Stream.carries_nothing syn fin
  · exact absurd mine other

theorem faithful_of_segment {flags : Flags} {seq : SeqNumber} {text : Octets}
    (carries : st.Carries flags seq text) (holds : Holds d (c.segment flags seq text)) :
    Faithful here st d := by
  obtain ⟨s, sent, posted⟩ := holds
  refine ⟨s, (Connection.segment_formed sent).1, posted, fun _ => ?_⟩
  obtain ⟨_, _, rfl⟩ := Option.map_eq_some_iff.mp sent
  exact carries

theorem faithful_of_control {flags : List Flag} (syn : (Flags.ofList flags).has .syn = false)
    (fin : (Flags.ofList flags).has .fin = false) (holds : Holds d (c.control flags)) :
    Faithful here st d :=
  faithful_of_segment (Stream.carries_nothing syn fin) holds

/- What each kind of event says. -/

theorem called_faithful {iss : SeqNumber} (telling : c'.Telling st)
    (called : Called iss now call event c σ ds c') : ∀ d ∈ ds, Faithful here st d := by
  intro d member
  cases called with
  | told | timed | listen | fail | quit | idle => exact absurd member List.not_mem_nil
  | ask _ _ holds | send _ _ _ holds | finish _ holds =>
    rw [List.mem_singleton.mp member]
    exact faithful_of_segment
      (telling.carries _ (List.mem_append_right _ List.mem_cons_self)) holds
  | receive _ _ _ holds => exact faithful_of_control (by decide) (by decide) (holds d member).2
  | abort _ _ holds => exact faithful_of_control (by decide) (by decide) (holds d member)

theorem arrived_faithful {s : Segment} {iss : SeqNumber} {arrival : Arrival} (coherent : c.Coherent)
    (telling : arrival.connection.Telling st) (arrives : (c.arrives s iss now).Ends σ arrival)
    (holds : ∀ d ∈ ds, ∃ answer ∈ arrival.answers, Stack.datagram answer = .ok d) :
    ∀ d ∈ ds, Faithful here st d := by
  intro d member
  obtain ⟨answer, given, posted⟩ := holds d member
  rcases (Connection.arrives_handled coherent.fresh arrives).2 answer given with kind | rst
  · cases kind with
    | reset reset => exact faithful_of_alien (alien_of_reset reset posted)
    | ack _ sent => exact faithful_of_control (by decide) (by decide) ⟨answer, sent, posted⟩
    | syn _ sent =>
      refine faithful_of_segment ?_ ⟨answer, sent, posted⟩
      rw [telling.initial]
      exact Stream.carries_syn (by decide)
  · exact faithful_of_control (by decide) (by decide) ⟨answer, rst, posted⟩

theorem timed_faithful {config : Config} {segments : List Segment} (telling : c'.Telling st)
    (ends : (c.onTimer now config).Ends σ (c', segments))
    (holds : ∀ d ∈ ds, Alien here d ∨ ∃ s ∈ segments, Stack.datagram s = .ok d) :
    ∀ d ∈ ds, Faithful here st d := by
  intro d member
  rcases holds d member with alien | ⟨s, sent, posted⟩
  · exact faithful_of_alien alien
  · obtain ⟨e, waits, same⟩ := (Connection.onTimer_turns ends).2 s sent
    exact faithful_of_segment (telling.carries e waits) ⟨s, same, posted⟩

/-- Whatever befalls a connection that is not free, it goes on with its stream. -/
theorem befalls_tells (coherent : c.Coherent) (busy : ¬ c.Free) (telling : c.Telling st)
    (h : Befalls config now call event c σ ds c') :
    st.Grows (event.tells c ds st) ∧ c'.Telling (event.tells c ds st) ∧
      ∀ d ∈ ds, Faithful c.here (event.tells c ds st) d := by
  cases h with
  | spared uncalled alien =>
    rw [Event.tells_uncalled uncalled]
    exact ⟨.refl st, telling, fun d member => faithful_of_alien (alien d member)⟩
  | called iss callee called =>
    rw [Event.tells_called callee]
    obtain ⟨telling', grows⟩ := Connection.telling_called telling busy called
    exact ⟨grows, telling', called_faithful telling' called⟩
  | arrived iss brings _ arrives holds =>
    rw [Event.tells_uncalled (Event.uncalled_of_segment? brings)]
    have away : c.state ≠ .listen := fun listen => busy (Or.inr listen)
    have telling' := Connection.telling_moves away telling
      (Connection.arrives_handled coherent.fresh arrives).1
    exact ⟨.refl st, telling', arrived_faithful coherent telling' arrives holds⟩
  | timed ends holds =>
    have uncalled : Event.sweep.callee? ≠ some c.here := by
      intro callee
      cases callee
    rw [Event.tells_uncalled uncalled]
    have telling' := Connection.telling_turns telling (Connection.onTimer_turns ends).1
    exact ⟨.refl st, telling', timed_faithful telling' ends holds⟩

theorem begins_tells (coherent : c.Coherent) (free : c.Free)
    (h : Begins now call event c σ ds c') (same : st = ⟨c'.send.initial, [], false⟩) :
    event.tells c ds st = st ∧ c'.Telling st ∧ ∀ d ∈ ds, Faithful c.here st d := by
  cases h with
  | asks iss foreign userTimeout called =>
    have telling : ((c.starting foreign iss userTimeout).asked iss now call).Telling
        ⟨iss, [], false⟩ := Connection.telling_asked coherent free foreign userTimeout
    subst same
    refine ⟨?_, telling, called_faithful telling called⟩
    unfold Event.tells
    split
    · exact Stream.after_open _ _ _ _ _
    · rfl
  | takes s iss _ brings _ takes arrives moves _ holds =>
    have telling := Connection.telling_moves (c.takenUp_away s iss now)
      (Connection.telling_takenUp coherent takes) moves
    rw [same, telling.initial]
    exact ⟨Event.tells_uncalled (Event.uncalled_of_segment? brings) _ _, telling,
      arrived_faithful coherent telling arrives holds⟩

/- Over a whole life. -/

/-- All that was posted in a life is part of what was said. In the incarnation with the number `number`
    that has grown from `before`. -/
structure Told (here : Endpoint) (number : Nat) (before : Stream) (l : Life) : Prop where
  reached : number ≤ l.number
  grown : l.number = number → before.Grows l.said
  posted : ∀ d ∈ l.posted, Faithful here l.said d

variable {number : Nat} {before : Stream} {l : Life}

theorem told_lasts (here : Endpoint) (number : Nat) (before : Stream) :
    Stack.Lasting here (fun _ _ _ => True) (Told here number before) fun l c => c.Telling l.said where
  onward := fun _ _ => trivial
  begins := by
    intro place event now l c c' σ ds same coherent _ free begins told
    obtain ⟨still, telling, faithful⟩ := begins_tells coherent free begins rfl
    simp only [Life.goOn, Life.begun, still]
    refine ⟨⟨Nat.le_succ_of_le told.reached, ?_, ?_⟩, telling⟩
    · intro equal
      exact absurd (equal ▸ told.reached) (Nat.not_succ_le_self _)
    · exact fun d member => same ▸ faithful d member
  goes := by
    intro k k' place event now rest l c c' σ ds sound _ _ found _ busy befalls told telling
    obtain ⟨there, same⟩ := Table.get?_some found
    obtain ⟨grows, telling', faithful⟩ :=
      befalls_tells (sound.proper.coherent c there) busy telling befalls
    refine ⟨⟨told.reached, fun equal => (told.grown equal).trans grows, ?_⟩, fun _ => telling'⟩
    intro d member
    rcases List.mem_append.mp member with old | new
    · exact (told.posted d old).grows grows
    · exact same ▸ faithful d new

theorem told_unborn (here : Endpoint) : Told here 0 Life.unborn.said .unborn where
  reached := Nat.le_refl 0
  grown := fun _ => .refl _
  posted := fun _ member => absurd member List.not_mem_nil

theorem Told.anew (h : Told here number before l) : Told here l.number l.said l where
  reached := Nat.le_refl l.number
  grown := fun _ => .refl _
  posted := h.posted

theorem Told.emitted {s : Segment} (h : Told here number before l)
    (emitted : Emitted here l.posted s) :
    l.said.Carries s.header.flags s.header.seq s.text := by
  obtain ⟨formed, mine, d, member, posted⟩ := emitted
  obtain ⟨s', formed', posted', carries⟩ := h.posted d member
  have same := datagram_injective formed formed' posted posted'
  rw [same] at mine ⊢
  exact carries mine

namespace Stack

/-- In every history that begins with an empty table, all that was posted are segments, and those of
    one incarnation at an endpoint are parts of what was said in it. So no two of them have different
    octets at one number, and once a FIN was posted nothing more is said. -/
theorem emitted_part_of_stream {config : Config} {generator : SeqGenerator} {here : Endpoint}
    {history : List (Event × Instant)} {k : Stack} {σ : List Signal} {l : Life}
    (ends : ((Stack.empty config generator).run 0 history).Ends σ k)
    (life : (Stack.empty config generator).lived here .unborn 0 history = l) :
    (∀ c, k.table.get? here = some c → ¬ c.Free → c.send.initial = l.said.initial) ∧
    (∀ d ∈ l.posted, ∃ s, s.Formed ∧ datagram s = .ok d) ∧
    (∀ s, Emitted here l.posted s → l.said.Carries s.header.flags s.header.seq s.text) ∧
    (l.said.text.length < SeqNumber.halfCircle → ∀ s s', Emitted here l.posted s →
      Emitted here l.posted s' → ∀ {i j : Nat} {octet octet' : UInt8}, s.text[i]? = some octet →
        s'.text[j]? = some octet' → s.header.seq.advance i = s'.header.seq.advance j →
          octet = octet') ∧
    ∀ s, Emitted here l.posted s → s.header.flags.has .fin = true →
      ∀ {later : List (Event × Instant)} {k' : Stack} {τ : List Signal},
        (k.run history.length later).Ends τ k' →
        (k.lived here l history.length later).number = l.number →
        (k.lived here l history.length later).said = l.said := by
  obtain ⟨sound, _, told, telling⟩ := (told_lasts here 0 Life.unborn.said).run []
    (sound_empty config generator) trivial (lasts_none (told_unborn here)) ends
  rw [life] at told telling
  refine ⟨fun c same busy => (telling c same busy).initial, ?_, fun _ => told.emitted, ?_, ?_⟩
  · intro d member
    obtain ⟨s, formed, posted, _⟩ := told.posted d member
    exact ⟨s, formed, posted⟩
  · intro short s s' emitted emitted' i j octet octet' there there' same
    exact (told.emitted emitted).agree short (told.emitted emitted') there there' same
  · intro s emitted fin later k' τ onward same
    have ended : l.said.ended = true := ((told.emitted emitted).ends fin).1
    rw [Nat.zero_add] at sound
    obtain ⟨_, _, told', _⟩ := (told_lasts here l.number l.said).run [] sound trivial
      ⟨told.anew, telling⟩ onward
    exact (told'.grown same).ended ended

def parting : List (Event × Instant) :=
  asking ++
    [(agreement, .start),
     (.send ⟨⟨10, 0, 0, 1⟩, 49152⟩ [104, 105], .start),
     (.sweep, ⟨20000⟩),
     (.close ⟨⟨10, 0, 0, 1⟩, 49152⟩, ⟨20000⟩)]

theorem parting_part_of_stream : ∃ σ k l,
    ((Stack.empty { receiveWindow := 8 } (.ofKey 1 2)).run 0 parting).Ends σ k ∧
    (Stack.empty { receiveWindow := 8 } (.ofKey 1 2)).lived ⟨⟨10, 0, 0, 1⟩, 49152⟩ .unborn 0
      parting = l ∧ l.said.text = [104, 105] ∧ l.said.ended = true ∧ l.posted.length = 5 ∧
    ∀ s, Emitted ⟨⟨10, 0, 0, 1⟩, 49152⟩ l.posted s →
      l.said.Carries s.header.flags s.header.seq s.text := by
  have ends : ((Stack.empty { receiveWindow := 8 } (.ofKey 1 2)).run 0 parting).Ends _ _ :=
    Act.ends_result (.empty {} (.ofKey 1 2)) (by decide +kernel)
  obtain ⟨_, _, carries, _⟩ := @emitted_part_of_stream _ _ ⟨⟨10, 0, 0, 1⟩, 49152⟩ _ _ _ _ ends rfl
  exact ⟨_, _, _, ends, rfl, by decide +kernel, by decide +kernel, by decide +kernel, carries⟩

end Stack
end TcpEngine

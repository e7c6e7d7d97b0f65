import TcpEngine.Proofs.Emission

/-!
What a connection makes of the segments of its peer, in whatever order, overlap and number they come.
As long as they all agree with one stream, the text handed out and the text in the buffer are together
a beginning of it, RCV.NXT stands behind that, and the FIN is counted only behind all of it.
-/
namespace TcpEngine

variable {here : Endpoint} {st : Stream} {low : Nat} {got : Octets} {d : Datagram}
  {ds : List Datagram} {now : Instant} {call : CallId} {event : Event} {c c' : Connection}
  {σ : List Signal} {s : Segment} {config : Config}

/- The FIN of the peer. -/

theorem Event.bringsTo_claimed (brings : event.segment? = some s) (claims : c.claims s = true) :
    event.bringsTo c = [s] := by
  simp only [bringsTo, brings, Option.toList_some, List.filter_cons, claims, if_true,
    List.filter_nil]

theorem Event.bringsTo_nothing (brings : event.segment? = none) : event.bringsTo c = [] := by
  simp only [bringsTo, brings, Option.toList_none, List.filter_nil]

theorem Event.brings_of_mem (brought : s ∈ event.bringsTo c) :
    event.segment? = some s ∧ c.claims s = true := by
  obtain ⟨segment, claims⟩ := List.mem_filter.mp brought
  exact ⟨Option.mem_toList.mp segment, claims⟩

theorem Event.segment?_of_callee {here : Endpoint} (callee : event.callee? = some here) :
    event.segment? = none := by
  cases event <;> first | rfl | cases callee

namespace Connection

theorem called_done_same {iss : SeqNumber} (busy : ¬ c'.Free)
    (called : Called iss now call event c σ ds c') : c'.state.peerDone = c.state.peerDone := by
  cases called with
  | told | timed | send | idle => rfl
  | listen => exact absurd (Or.inr rfl) busy
  | fail free => exact absurd free busy
  | ask free => rcases free with state | state <;> rw [state] <;> rfl
  | receive _ _ ends => rw [deliver_state ends]
  | quit _ ends =>
    obtain ⟨_, rfl⟩ := terminate_ends.mp ends
    exact absurd (Or.inl rfl) busy
  | finish states =>
    rcases states with ⟨state | state, rfl⟩ | ⟨state, rfl⟩ <;> rw [state] <;> rfl
  | abort _ ends =>
    obtain ⟨_, rfl⟩ := terminate_ends.mp ends
    exact absurd (Or.inl rfl) busy

theorem finCounted_same : s.finCounted c c = false := by
  cases live : c.state.isSynchronized with
  | true => exact finCounted_still live rfl
  | false => exact finCounted_dead live

theorem arrived_counts {iss : SeqNumber} {a : Arrival} (coherent : c.Coherent) (limited : c.Limited)
    (long : s.header.textLength = s.text.length) (busy : ¬ a.connection.Free)
    (arrives : (c.arrives s iss now).Ends σ a) :
    a.connection.state.peerDone = (c.state.peerDone || s.finCounted c a.connection) := by
  cases live : c.state.isSynchronized with
  | true =>
    rw [arrives_synchronized live] at arrives
    exact (arrivesSynchronized_outcome live arrives).counts limited long live
      fun closed => busy (Or.inl closed)
  | false =>
    have undone : c.state.peerDone = false := by
      cases state : c.state <;> first | rfl | (rw [state] at live; cases live)
    rw [undone, Bool.false_or]
    exact ((arrives_first coherent live long arrives).resolve_left busy).1

end Connection

/-- Whatever befalls a connection, the FIN of its peer was counted before, or is counted now. -/
theorem befalls_counts (coherent : c.Coherent) (limited : c.Limited) (busy : ¬ c'.Free)
    (h : Befalls config now call event c σ ds c') :
    c'.state.peerDone
      = (c.state.peerDone || (event.bringsTo c).any fun s => s.finCounted c c') := by
  cases h with
  | spared =>
    have none : ((event.bringsTo c).any fun s => s.finCounted c c) = false := by
      rw [List.any_eq_false]
      intro s _
      rw [Connection.finCounted_same]
      exact Bool.false_ne_true
    rw [none, Bool.or_false]
  | called _ callee called =>
    rw [Event.bringsTo_nothing (Event.segment?_of_callee callee), List.any_nil, Bool.or_false]
    exact Connection.called_done_same busy called
  | arrived _ brings claims arrives =>
    rw [Event.bringsTo_claimed brings claims, List.any_cons, List.any_nil, Bool.or_false]
    exact Connection.arrived_counts coherent limited (Event.long_of_segment? brings) busy arrives
  | timed ends =>
    rw [Event.bringsTo_nothing rfl, List.any_nil, Bool.or_false]
    rcases Connection.turns_state (Connection.onTimer_turns ends).1 with same | closed
    · rw [same]
    · exact absurd (Or.inl closed) busy

theorem begins_counts (coherent : c.Coherent) (limited : c.Limited) (free : c.Free)
    (h : Begins now call event c σ ds c') :
    c'.state.peerDone = (event.bringsTo c).any fun s => s.finCounted c c' := by
  cases h with
  | asks => rfl
  | takes s iss arrival brings claims _ arrives _ state =>
    have undone : c.state.peerDone = false := by
      rcases free with gone | listens
      · rw [gone]
        rfl
      · rw [listens]
        rfl
    have busy : ¬ arrival.connection.Free := by
      rw [Connection.Free, state]
      decide
    rw [Event.bringsTo_claimed brings claims, List.any_cons, List.any_nil, Bool.or_false]
    have counts :=
      Connection.arrived_counts coherent limited (Event.long_of_segment? brings) busy arrives
    rwa [undone, Bool.false_or] at counts

/- The text of the peer. -/

def Life.Agrees (l : Life) (st : Stream) : Prop :=
  ∀ s ∈ l.arrived, st.Consistent s.header.flags s.header.seq s.text

instance (l : Life) (st : Stream) : Decidable (l.Agrees st) :=
  inferInstanceAs (Decidable (∀ s ∈ l.arrived, _))

theorem befalls_hears (small : st.text.length < SeqNumber.halfCircle) (coherent : c.Coherent)
    (busy : ¬ c.Free) (agrees : ∀ s ∈ event.bringsTo c,
      st.Consistent s.header.flags s.header.seq s.text) (hearing : c.Hearing st low got)
    (h : Befalls config now call event c σ ds c') : c'.Hearing st low (got ++ handed σ) := by
  cases h with
  | spared => exact (List.append_nil got).symm ▸ hearing
  | called _ _ called =>
    exact Connection.hearing_called coherent hearing (fun free => absurd free busy) called
  | arrived _ brings claims arrives =>
    rw [Event.bringsTo_claimed brings claims] at agrees
    have away : c.state ≠ .listen := fun listen => busy (Or.inr listen)
    exact Connection.hearing_moves small coherent away hearing (agrees _ List.mem_cons_self)
      (Event.long_of_segment? brings) (Connection.arrives_handled coherent.fresh arrives).1
  | timed ends =>
    exact Connection.hearing_turns coherent hearing (Connection.onTimer_turns ends).1

/-- An incarnation begins with hearing what came with the SYN. -/
theorem begins_hears (small : st.text.length < SeqNumber.halfCircle) (coherent : c.Coherent)
    (agrees : ∀ s ∈ event.bringsTo c, st.Consistent s.header.flags s.header.seq s.text)
    (h : Begins now call event c σ ds c') : c'.Hearing st 0 (handed σ) := by
  cases h with
  | asks =>
    refine ⟨List.nil_prefix, fun _ => ⟨rfl, rfl⟩, ?_⟩
    intro live
    cases live
  | takes s iss _ brings claims takes _ moves =>
    rw [Event.bringsTo_claimed brings claims] at agrees
    have consistent := agrees s List.mem_cons_self
    exact Connection.hearing_moves small (.of_synchronized rfl rfl) (c.takenUp_away s iss now)
      (Connection.hearing_takenUp coherent takes consistent) consistent
      (Event.long_of_segment? brings) moves

structure Listens (number : Nat) (st : Stream) (l : Life) : Prop where
  reached : number ≤ l.number
  text : l.Agrees st → l.received <+: st.text

/-- A connection goes on hearing the stream, if all segments that came agree with it. RCV.NXT has not
    fallen behind `low` in the incarnation with the number `number`. -/
structure Listening (number : Nat) (st : Stream) (low : Nat) (l : Life) (c : Connection) : Prop where
  hearing : l.Agrees st → c.Hearing st (if l.number = number then low else 0) l.received
  finished : l.finished = c.state.peerDone

variable {number : Nat} {l : Life}

theorem listens_lasts (here : Endpoint) (number : Nat) (low : Nat)
    (small : st.text.length < SeqNumber.halfCircle) :
    Stack.Lasting here (fun _ _ _ => True) (Listens number st) (Listening number st low) where
  onward := fun _ _ => trivial
  begins := by
    intro place event now l c c' σ ds _ coherent limited free begins listens
    have reached := listens.reached
    have anew : ¬ l.number + 1 = number := by omega
    have hearing (agrees : ∀ s ∈ event.bringsTo c,
        st.Consistent s.header.flags s.header.seq s.text) : c'.Hearing st 0 (handed σ) :=
      begins_hears small coherent agrees begins
    refine ⟨⟨Nat.le_succ_of_le reached, fun agrees => (hearing agrees).text⟩, ?_, ?_⟩
    · intro agrees
      exact (if_neg anew).symm ▸ hearing agrees
    · exact (begins_counts coherent limited free begins).symm
  goes := by
    intro k k' place event now rest l c c' σ ds sound _ _ found _ busy befalls listens listening
    have there := (Table.get?_some found).1
    have coherent := sound.proper.coherent c there
    have hearing (agrees : (l.goOn event σ ds c.send.unacked c c').Agrees st) :
        c'.Hearing st (if l.number = number then low else 0) (l.received ++ handed σ) := by
      refine befalls_hears small coherent busy ?_ (listening.hearing ?_) befalls
      · exact fun s member => agrees s (List.mem_append_right _ member)
      · exact fun s member => agrees s (List.mem_append_left _ member)
    refine ⟨⟨listens.reached, fun agrees => (hearing agrees).text⟩, fun busy' => ⟨hearing, ?_⟩⟩
    rw [befalls_counts coherent (sound.limited c there) busy' befalls, ← listening.finished]
    rfl

theorem listens_unborn (st : Stream) : Listens 0 st .unborn where
  reached := Nat.le_refl 0
  text := fun _ => List.nil_prefix

namespace Stack

/-- In every history that begins with an empty table, a synchronized connection whose segments all
    agree with a text has received a beginning of it, in what was handed out and in its buffer. RCV.NXT
    stands behind that, and behind the FIN of the peer if that was counted, which takes all of the
    text. What was received grows as long as the incarnation goes on. -/
theorem received_beginning_of_stream {config : Config} {generator : SeqGenerator} {here : Endpoint}
    {history : List (Event × Instant)} {k : Stack} {σ : List Signal} {l : Life} {c : Connection}
    {initial : SeqNumber} {text : Octets}
    (ends : ((Stack.empty config generator).run 0 history).Ends σ k)
    (life : (Stack.empty config generator).lived here .unborn 0 history = l)
    (found : k.table.get? here = some c) (live : c.state.isSynchronized = true)
    (small : text.length < SeqNumber.halfCircle) (agrees : l.Agrees ⟨initial, text, true⟩) :
    ∃ m, m ≤ text.length ∧ l.received ++ c.buffer.toList = text.take m ∧
      c.receive.initial = initial ∧
      c.receive.next = initial.advance (1 + m + l.finished.toNat) ∧
      (l.finished = true → m = text.length) ∧
      ∀ {later : List (Event × Instant)} {k' : Stack} {τ : List Signal} {l' : Life}
        {c' : Connection}, (k.run history.length later).Ends τ k' →
        k.lived here l history.length later = l' → l'.number = l.number →
        k'.table.get? here = some c' → c'.state.isSynchronized = true →
        l'.Agrees ⟨initial, text, true⟩ → m ≤ (l'.received ++ c'.buffer.toList).length := by
  obtain ⟨sound, _, listens, goes⟩ := (listens_lasts here 0 0 small).run []
    (sound_empty config generator) trivial (lasts_none (listens_unborn ⟨initial, text, true⟩)) ends
  rw [life] at listens goes
  have busy := Connection.not_free_of_live live
  obtain ⟨hearing, finished⟩ := goes c found busy
  obtain ⟨receiving, _⟩ := (hearing agrees).live live
  have whole : l.finished = true → l.received ++ c.buffer.toList = text := by
    rw [finished]
    exact fun fin => (receiving.heard.whole fin).2
  refine ⟨(l.received ++ c.buffer.toList).length, receiving.heard.text.length_le,
    List.prefix_iff_eq_take.mp receiving.heard.text, receiving.initial, ?_, ?_, ?_⟩
  · rw [receiving.next, finished]
    rfl
  · intro fin
    rw [whole fin]
  · intro later k' τ l' c' onward life' same found' live' agrees'
    have again : Lasts (Listens l.number ⟨initial, text, true⟩)
        (Listening l.number ⟨initial, text, true⟩ (c.reach l.received)) l (k.table.get? here) := by
      rw [found]
      refine lasts_some ⟨Nat.le_refl _, listens.text⟩ fun _ => ⟨fun _ => ?_, finished⟩
      rw [if_pos rfl]
      exact ⟨(hearing agrees).text, fun asks => absurd asks (Connection.not_asking live),
        fun _ => ⟨receiving, Nat.le_refl _⟩⟩
    rw [Nat.zero_add] at sound
    obtain ⟨_, _, _, goes'⟩ :=
      (listens_lasts here l.number (c.reach l.received) small).run [] sound trivial again onward
    rw [life'] at goes'
    obtain ⟨hearing', _⟩ := goes' c' found' (Connection.not_free_of_live live')
    obtain ⟨receiving', above⟩ := (hearing' agrees').live live'
    rw [if_pos same] at above
    exact receiving.heard.length_le receiving'.heard above

def repeated : List (Event × Instant) :=
  asking ++
    [(agreement, .start),
     -- The second segment repeats the text of the first, and brings the FIN.
     (.ingress [0, 80, 192, 0, 0, 0, 3, 233, 10, 62, 28, 189, 80, 16, 1, 244, 70, 168, 0, 0, 104]
       ⟨10, 0, 0, 2⟩ ⟨10, 0, 0, 1⟩, .start),
     (.ingress [0, 80, 192, 0, 0, 0, 3, 233, 10, 62, 28, 189, 80, 17, 1, 244, 70, 61, 0, 0, 104, 105]
       ⟨10, 0, 0, 2⟩ ⟨10, 0, 0, 1⟩, .start),
     (.receive ⟨⟨10, 0, 0, 1⟩, 49152⟩ 1, .start)]

theorem repeated_beginning_of_stream : ∃ σ k c l,
    ((Stack.empty { receiveWindow := 8 } (.ofKey 1 2)).run 0 repeated).Ends σ k ∧
    (Stack.empty { receiveWindow := 8 } (.ofKey 1 2)).lived ⟨⟨10, 0, 0, 1⟩, 49152⟩ .unborn 0
      repeated = l ∧ k.table.get? ⟨⟨10, 0, 0, 1⟩, 49152⟩ = some c ∧
    c.state.isSynchronized = true ∧ l.Agrees ⟨⟨1000⟩, [104, 105], true⟩ ∧ l.finished = true ∧
    ∃ m, m ≤ 2 ∧ l.received ++ c.buffer.toList = List.take m [104, 105] ∧
      c.receive.next = SeqNumber.advance ⟨1000⟩ (1 + m + l.finished.toNat) ∧
      (l.finished = true → m = 2) := by
  let k := Stack.empty { receiveWindow := 8 } (.ofKey 1 2)
  let k' := (k.run 0 repeated).result k
  let c := (k'.table.get? ⟨⟨10, 0, 0, 1⟩, 49152⟩).getD (.bound ⟨⟨10, 0, 0, 1⟩, 49152⟩ {})
  have ends : (k.run 0 repeated).Ends (k.run 0 repeated).signals k' :=
    Act.ends_result k (by decide +kernel)
  have found : k'.table.get? ⟨⟨10, 0, 0, 1⟩, 49152⟩ = some c := by decide +kernel
  have live : c.state.isSynchronized = true := by decide +kernel
  have agrees : (k.lived ⟨⟨10, 0, 0, 1⟩, 49152⟩ .unborn 0 repeated).Agrees
      ⟨⟨1000⟩, [104, 105], true⟩ := by decide +kernel
  obtain ⟨m, short, same, _, next, whole, _⟩ :=
    received_beginning_of_stream ends rfl found live (by decide) agrees
  exact ⟨_, k', c, _, ends, rfl, found, live, agrees, by decide +kernel, m, short, same, next, whole⟩

end Stack
end TcpEngine

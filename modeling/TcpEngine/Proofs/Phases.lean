import TcpEngine.Proofs.Connection.Closing
import TcpEngine.Proofs.Reception
import TcpEngine.Proofs.SendOrder

/-!
The phases of an incarnation. The state of a connection tells which of the four great things have
happened in it: our SYN was acknowledged, the FIN of the peer has come, our FIN was sent, and our FIN
was acknowledged.
-/
namespace TcpEngine

def State.sendsText : State → Bool
  | .established | .closeWait => true
  | _ => false

theorem State.live_of_sends {state : State} (sends : state.sendsText = true) :
    state.isSynchronized = true := by
  cases state <;> first | rfl | cases sends

theorem State.speaks_of_sends {state : State} (sends : state.sendsText = true) :
    state.maySpeak = true := by
  cases state <;> first | rfl | cases sends

variable {here : Endpoint} {origin : SeqNumber} {unacked next : Nat} {now : Instant} {call : CallId}
  {event : Event} {c c' : Connection} {σ : List Signal} {ds : List Datagram} {config : Config}

theorem befalls_closing (coherent : c.Coherent) (busy : ¬ c.Free)
    (window : c.Window origin unacked next)
    (steady : c.Steady event) (closing : c.Closing) (h : Befalls config now call event c σ ds c') :
    c'.Closing := by
  cases h with
  | spared => exact closing
  | called _ _ called => exact Connection.closing_called closing busy window called
  | arrived _ brings claims arrives =>
    exact Connection.closing_arrived closing busy coherent window (steady _ brings claims) arrives
  | timed ends =>
    exact Connection.closing_turns closing busy coherent window (Connection.onTimer_turns ends).1

theorem begins_opens (coherent : c.Coherent) (free : c.Free) (h : Begins now call event c σ ds c') :
    c'.state.sendsText = false ∧ c'.Closing ∧
      ∃ unacked, c'.Window c'.send.initial unacked 1 := by
  cases h with
  | asks iss foreign userTimeout =>
    exact ⟨rfl, Connection.closing_early rfl rfl, 0,
      Connection.window_fresh (.ofList [.syn]) (by decide) rfl rfl
        (Connection.asked_queue coherent free foreign userTimeout)⟩
  | takes s iss arrival _ _ takes _ moves state =>
    obtain ⟨_, _, unasked, _⟩ := Connection.takesUp_iff.mp takes
    have away := c.takenUp_away s iss now
    have first : (c.takenUp s iss now).Window iss 0 1 :=
      Connection.window_fresh (.ofList [.syn, .ack]) (by decide) rfl rfl
        (Connection.takenUp_queue coherent takes)
    obtain ⟨unacked, slides⟩ := Connection.moves_slide (.of_synchronized rfl rfl) away
      (Connection.straight_of_unasked unasked) first moves
    have initial : arrival.connection.send.initial = iss := Connection.moves_initial away moves
    refine ⟨by rw [state]; rfl, ?_, unacked, initial ▸ slides.window⟩
    refine Connection.closing_early (by rw [state]; rfl) ?_
    rcases (Connection.quiet_moves away moves).goes with gone | ⟨_, fin, _⟩
    · cases gone.symm.trans state
    · exact fin.trans (coherent.silent (Connection.dead_of_free free)).1

namespace Connection

variable {s : Segment} {iss : SeqNumber} {a : Arrival}

theorem called_greeted (busy : ¬ c.Free) (sends : c'.state.sendsText = true)
    (called : Called iss now call event c σ ds c') : c.state.sendsText = true := by
  cases called with
  | told | timed | send | idle => exact sends
  | listen free | fail free | ask free => exact absurd free busy
  | receive _ _ ends => exact deliver_state ends ▸ sends
  | quit _ ends | abort _ ends =>
    obtain ⟨_, rfl⟩ := terminate_ends.mp ends
    cases sends
  | finish states => rcases states with ⟨_, rfl⟩ | ⟨_, rfl⟩ <;> cases sends

theorem arrives_greeted (coherent : c.Coherent) (busy : ¬ c.Free)
    (long : s.header.textLength = s.text.length) (sends : a.connection.state.sendsText = true)
    (arrives : (c.arrives s iss now).Ends σ a) :
    c.state.sendsText = true ∨ a.connection.send.unacked ≠ c.send.unacked := by
  have quiet := quiet_moves (fun listen => busy (Or.inr listen))
    (arrives_handled coherent.fresh arrives).1
  have may := quiet.speaks (State.speaks_of_sends sends)
  have later {state : State} (early : state.sendsText = false) : a.connection.state ≠ state := by
    intro same
    rw [same, early] at sends
    cases sends
  cases state : c.state with
  | synSent =>
    have busy' : ¬ a.connection.Free := not_free_of_live (State.live_of_sends sends)
    have first := arrives_first coherent (by rw [state]; rfl) long arrives
    rcases (first.resolve_left busy').2 with asks | received | moved
    · exact absurd asks (later rfl)
    · exact absurd received (later rfl)
    · exact Or.inr moved
  | synReceived =>
    rcases arrives_leaves state arrives with received | gone | moved
    · exact absurd received (later rfl)
    · exact absurd gone (later rfl)
    · exact Or.inr moved
  | established | closeWait => exact Or.inl rfl
  | closed | listen | finWait1 | finWait2 | closing | lastAck | timeWait =>
    rw [state] at may
    cases may

end Connection

/-- Text may be sent only after an acknowledgment of our SYN. -/
theorem befalls_greeted (coherent : c.Coherent) (busy : ¬ c.Free)
    (sends : c'.state.sendsText = true) (h : Befalls config now call event c σ ds c') :
    c.state.sendsText = true ∨ c'.send.unacked ≠ c.send.unacked := by
  cases h with
  | spared => exact Or.inl sends
  | called _ _ called => exact Or.inl (Connection.called_greeted busy sends called)
  | arrived _ brings _ arrives =>
    exact Connection.arrives_greeted coherent busy (Event.long_of_segment? brings) sends arrives
  | timed ends =>
    rcases Connection.turns_state (Connection.onTimer_turns ends).1 with same | gone
    · exact Or.inl (same ▸ sends)
    · rw [gone] at sends
      cases sends

/- Over a whole life. -/

/-- The window of the connection lies where what was seen of its life tells. -/
structure Placed (l : Life) (c : Connection) : Prop where
  telling : c.Telling l.said
  closing : c.Closing
  window : ∃ next, c.Window l.said.initial l.acknowledged next
  greeted : c.state.sendsText = true → 0 < l.acknowledged

variable {l : Life}

theorem begins_placed (coherent : c.Coherent) (free : c.Free) (h : Begins now call event c σ ds c') :
    Placed ((Life.begun (l.number + 1) c'.send.initial).goOn event σ ds c'.send.initial c c') c' := by
  obtain ⟨early, closing, unacked, window⟩ := begins_opens coherent free h
  obtain ⟨still, telling, _⟩ := begins_tells coherent free h rfl
  have order := window.order
  have moved : 0 + c'.send.unacked.ahead c'.send.initial = unacked := by
    rw [window.start, SeqNumber.ahead_advance (by omega), Nat.zero_add]
  simp only [Life.goOn, Life.begun, still, moved]
  refine ⟨telling, closing, ⟨1, window⟩, fun sends => ?_⟩
  rw [early] at sends
  cases sends

theorem befalls_placed (coherent : c.Coherent) (busy : ¬ c.Free) (roomy : c'.Roomy)
    (steady : c.Steady event) (h : Placed l c) (befalls : Befalls config now call event c σ ds c') :
    Placed (l.goOn event σ ds c.send.unacked c c') c' := by
  obtain ⟨telling, closing, ⟨next, window⟩, greeted⟩ := h
  obtain ⟨unacked', n, forward, under, _, window'⟩ :=
    befalls_slides coherent busy window roomy steady befalls
  have room := window.room
  simp only [SeqNumber.halfCircle] at room
  have moved : l.acknowledged + c'.send.unacked.ahead c.send.unacked = unacked' := by
    rw [window.start, window'.start, SeqNumber.ahead_advance_of_le forward (by omega)]
    omega
  obtain ⟨grows, telling', _⟩ := befalls_tells coherent busy telling befalls
  simp only [Life.goOn, moved]
  refine ⟨telling', befalls_closing coherent busy window steady closing befalls, ⟨next + n, ?_⟩, ?_⟩
  · rw [grows.initial]
    exact window'
  · intro sends
    change 0 < unacked'
    rcases befalls_greeted coherent busy sends befalls with before | apart
    · exact Nat.lt_of_lt_of_le (greeted before) forward
    · have further : unacked' ≠ l.acknowledged := by
        intro still
        rw [window'.start, window.start, still] at apart
        exact apart rfl
      omega

theorem placed_lasts (here : Endpoint) : Stack.Lasting here
    (fun k place history => k.Fair place history) (fun _ => True) Placed where
  onward := fun fair ends => fair.2.2 _ _ _ ends
  begins := fun _ coherent _ free begins _ => ⟨trivial, begins_placed coherent free begins⟩
  goes := by
    intro k k' place event now rest l c c' σ ds sound fair fair' found found' busy befalls _ placed
    have roomy := fair'.roomy c' (Table.get?_some found').1
    have steady := Stack.steady_of_fair fair.2.1 found
    exact ⟨trivial, fun _ =>
      befalls_placed (sound.proper.found found) busy roomy steady placed befalls⟩

/-- What the state of a connection tells of its other parts, and of what was seen of its life. -/
structure InPhase (l : Life) (c : Connection) : Prop where
  finSent : c.send.fin.isSome = true ↔
    c.state ∈ [.finWait1, .finWait2, .closing, .lastAck, .timeWait]
  finLast : ∀ fin, c.send.fin = some fin → c.send.next = fin.advance 1
  finWaits : ∀ fin, c.send.fin = some fin → c.state ∈ [.finWait1, .closing, .lastAck] →
    c.send.unacked.atOrBefore fin = true
  finDone : c.state ∈ [.finWait2, .timeWait] → c.send.unacked = c.send.next ∧ c.queue = []
  peerDone : ¬ c.Free → (l.finished = true ↔
    c.state ∈ [.closeWait, .closing, .lastAck, .timeWait])
  greeted : c.state ∈ [.established, .closeWait] → c.send.initial = l.said.initial ∧
    c.send.unacked = l.said.initial.advance l.acknowledged ∧ 0 < l.acknowledged
  known : ¬ c.Free → c.foreign.isSome = true
  closed : c.state = .closed → c.queue = [] ∧ c.buffer.toList = [] ∧ c.reception = none ∧
    c.foreign = none ∧ c.send.fin = none
  early : c.state ∈ [.listen, .synSent] → c.buffer.toList = []

namespace State

theorem mem_of_finSent {state : State} : state.finSent = true ↔
    state ∈ [finWait1, finWait2, closing, lastAck, timeWait] := by
  cases state <;> decide

theorem mem_of_peerDone {state : State} : state.peerDone = true ↔
    state ∈ [closeWait, closing, lastAck, timeWait] := by
  cases state <;> decide

theorem finWaits_of_mem {state : State} (member : state ∈ [finWait1, closing, lastAck]) :
    state.finWaits = true := by
  revert member
  cases state <;> decide

end State

theorem inPhase_of_placed (coherent : c.Coherent) (placed : ¬ c.Free → Placed l c)
    (closing : c.Closing) (finished : ¬ c.Free → l.finished = c.state.peerDone) : InPhase l c where
  finSent := by
    rw [closing.sent]
    exact State.mem_of_finSent
  finLast := closing.last
  finWaits := by
    intro fin raised member
    have waits := closing.waits (State.finWaits_of_mem member)
    unfold Connection.finAcked at waits
    rw [raised] at waits
    exact SeqNumber.atOrBefore_iff.mpr waits
  finDone := by
    intro member
    have done : c.state.finDone = true := by
      revert member
      cases c.state <;> decide
    have drained := closing.done done
    have busy : ¬ c.Free := Connection.not_free_of_live (State.live_of_done done)
    obtain ⟨_, window⟩ := (placed busy).window
    exact ⟨drained, window.queue_drained drained⟩
  peerDone := by
    intro busy
    rw [finished busy]
    exact State.mem_of_peerDone
  greeted := by
    intro member
    have sends : c.state.sendsText = true := by
      revert member
      cases c.state <;> decide
    have busy : ¬ c.Free := Connection.not_free_of_live (State.live_of_sends sends)
    obtain ⟨telling, _, ⟨_, window⟩, greeted⟩ := placed busy
    exact ⟨telling.initial, window.start, greeted sends⟩
  known := fun busy => coherent.known (fun gone => busy (Or.inl gone)) fun listen => busy (Or.inr listen)
  closed := by
    intro gone
    obtain ⟨foreign, reception⟩ := coherent.closed gone
    obtain ⟨fin, buffer⟩ := coherent.silent (by rw [gone]; rfl)
    exact ⟨coherent.unsent (Or.inl gone), buffer, reception, foreign, fin⟩
  early := by
    intro member
    have dead : c.state.isSynchronized = false := by
      revert member
      cases c.state <;> decide
    exact (coherent.silent dead).2

namespace Stack

section
variable {place : Nat} {here : Endpoint} {history : List (Event × Instant)} {k k' : Stack}
  {σ : List Signal} {c : Connection}
variable (sound : Sound place k) (missing : k.table.get? here = none)
  (ends : (k.run place history).Ends σ k') (found : k'.table.get? here = some c)
include sound missing ends found

theorem run_placed (fair : k.Fair place history) (busy : ¬ c.Free) :
    Placed (k.lived here .unborn place history) c := by
  have unborn : Lasts (fun _ => True) Placed .unborn (k.table.get? here) := by
    rw [missing]
    exact lasts_none trivial
  rw [← List.append_nil history] at fair
  obtain ⟨_, _, _, placed⟩ := (placed_lasts here).run [] sound fair unborn ends
  exact placed c found busy

/-- Whether the FIN of the peer was counted does not depend on what the peer says. -/
theorem run_finished (busy : ¬ c.Free) :
    (k.lived here .unborn place history).finished = c.state.peerDone := by
  have unborn : Lasts (Listens 0 ⟨⟨0⟩, [], true⟩) (Listening 0 ⟨⟨0⟩, [], true⟩ 0) .unborn
      (k.table.get? here) := by
    rw [missing]
    exact lasts_none (listens_unborn _)
  obtain ⟨_, _, _, listening⟩ := (listens_lasts here 0 0 (by decide)).run [] sound trivial unborn ends
  exact (listening c found busy).finished

/-- The state tells the phase wherever the endpoint was not bound when the history began. -/
theorem run_inPhase (fair : k.Fair place history) :
    InPhase (k.lived here .unborn place history) c := by
  have coherent := (run_sound sound ends).proper.found found
  have placed := run_placed sound missing ends found fair
  have closing : c.Closing := by
    by_cases free : c.Free
    · exact Connection.closing_free coherent free
    · exact (placed free).closing
  exact inPhase_of_placed coherent placed closing (run_finished sound missing ends found)

end

/-- In every history that begins with an empty table, in which less than half the circle is on its way
    and no segment slips, the state of a connection tells its phase. -/
theorem connection_in_phase {config : Config} {generator : SeqGenerator} {here : Endpoint}
    {history : List (Event × Instant)} {k : Stack} {σ : List Signal} {l : Life} {c : Connection}
    (fair : (Stack.empty config generator).Fair 0 history)
    (ends : ((Stack.empty config generator).run 0 history).Ends σ k)
    (life : (Stack.empty config generator).lived here .unborn 0 history = l)
    (found : k.table.get? here = some c) : InPhase l c := by
  have phase := run_inPhase (sound_empty config generator) rfl ends found fair
  rwa [life] at phase

def closed : List (Event × Instant) :=
  asking ++
    [(agreement, .start),
     (.close ⟨⟨10, 0, 0, 1⟩, 49152⟩, .start),
     -- The peer acknowledges our FIN with its own.
     (.ingress [0, 80, 192, 0, 0, 0, 3, 233, 10, 62, 28, 190, 80, 17, 1, 244, 174, 167, 0, 0]
       ⟨10, 0, 0, 2⟩ ⟨10, 0, 0, 1⟩, .start)]

theorem closed_in_phase : ∃ σ k c,
    (Stack.empty { receiveWindow := 8 } (.ofKey 1 2)).Fair 0 closed ∧
    ((Stack.empty { receiveWindow := 8 } (.ofKey 1 2)).run 0 closed).Ends σ k ∧
    k.table.get? ⟨⟨10, 0, 0, 1⟩, 49152⟩ = some c ∧ c.state = .timeWait ∧
    InPhase ((Stack.empty { receiveWindow := 8 } (.ofKey 1 2)).lived ⟨⟨10, 0, 0, 1⟩, 49152⟩
      .unborn 0 closed) c := by
  let k := Stack.empty { receiveWindow := 8 } (.ofKey 1 2)
  let k' := (k.run 0 closed).result k
  let c := (k'.table.get? ⟨⟨10, 0, 0, 1⟩, 49152⟩).getD (.bound ⟨⟨10, 0, 0, 1⟩, 49152⟩ {})
  have fair : k.Fair 0 closed := by decide +kernel
  have ends : (k.run 0 closed).Ends (k.run 0 closed).signals k' :=
    Act.ends_result k (by decide +kernel)
  have found : k'.table.get? ⟨⟨10, 0, 0, 1⟩, 49152⟩ = some c := by decide +kernel
  exact ⟨_, k', c, fair, ends, found, by decide +kernel, connection_in_phase fair ends rfl found⟩

end Stack
end TcpEngine

import TcpEngine.Proofs.Connection.Telling

/-!
What a connection says to its peer. All that waits for an acknowledgment is part of its stream, the
next number to use is the place behind the stream, and no segment that arrives changes what was said.
-/
namespace TcpEngine

namespace Connection

structure Speaking (st : Stream) (unacked : Nat) (c : Connection) : Prop where
  initial : c.send.initial = st.initial
  window : Window st.initial unacked st.length c
  unended : c.state.maySpeak = true → st.ended = false
  carries : ∀ e ∈ c.queue, st.Carries e.flags e.seq e.text
  /-- Before the SYN of the peer has come nothing is acknowledged. -/
  bare : c.state = .synSent → ∀ e ∈ c.queue, e.flags.has .ack = false

variable {st : Stream} {unacked unacked' : Nat} {c c' : Connection} {σ : List Signal}
  {s : Segment} {iss : SeqNumber} {now : Instant} {timer : Option Config}

theorem Speaking.telling (h : Speaking st unacked c) : Telling st c :=
  ⟨h.initial, h.window.stop, h.unended, h.carries⟩

theorem Telling.speaking (h : Telling st c) (window : Window st.initial unacked st.length c)
    (bare : c.state = .synSent → ∀ e ∈ c.queue, e.flags.has .ack = false) : Speaking st unacked c :=
  ⟨h.initial, window, h.unended, h.carries, bare⟩

theorem Speaking.bare_of_content (h : Speaking st unacked c) (state : c.state = .synSent)
    (queue : ∀ e ∈ c'.queue, e.content ∈ c.queue.map Unacked.content) :
    ∀ e ∈ c'.queue, e.flags.has .ack = false := by
  intro e member
  obtain ⟨d, there, same⟩ := List.mem_map.mp (queue e member)
  simp only [Unacked.content, Prod.mk.injEq] at same
  rw [← same.2.1]
  exact h.bare state d there

theorem speaking_turn (h : Speaking st unacked c) (turn : Turn timer now c σ c') :
    Speaking st unacked c' := by
  have slides : Slides st.initial unacked st.length none c σ unacked c' := window_turn h.window turn
  apply (telling_turn h.telling turn).speaking slides.window
  intro asks
  exact h.bare_of_content (turn_asks turn asks) (turn_content turn)

theorem speaking_move (coherent : Coherent c) (away : c.state ≠ .listen) (straight : Straight s c)
    (h : Speaking st unacked c) (move : Move s iss now c σ c') :
    ∃ unacked', Slides st.initial unacked st.length s.header.ack c σ unacked' c' ∧
      Straight s c' ∧ Speaking st unacked' c' := by
  obtain ⟨unacked', slides, straight'⟩ | fresh := window_move coherent straight h.window move
  swap
  · exact absurd fresh.listening away
  refine ⟨unacked', slides, straight', ?_⟩
  apply (telling_move away h.telling move).speaking slides.window
  intro asks
  obtain ⟨asked, content⟩ := move_asks move asks
  exact h.bare_of_content asked content

def Honest (st : Stream) (reach : Nat) (s : Segment) : Prop :=
  ∀ ack, s.header.ack = some ack → ∃ place, place ≤ reach ∧ ack = st.initial.advance place

theorem straight_of_honest {origin : SeqNumber} {next reach : Nat}
    (h : Window origin unacked next c) (small : next < SeqNumber.halfCircle) (within : reach ≤ next)
    (honest : ∀ ack, s.header.ack = some ack → ∃ place, place ≤ reach ∧ ack = origin.advance place) :
    Straight s c := by
  intro _ ack given same half
  obtain ⟨place, known, rfl⟩ := honest ack given
  have order := h.order
  simp only [SeqNumber.halfCircle] at small half
  rw [h.start, h.stop, SeqNumber.advance_eq_iff (by omega) (by omega)] at same
  rw [h.start] at half
  rcases Nat.lt_or_ge place unacked with less | more
  · rw [SeqNumber.ahead_advance_of_lt less (by omega)] at half
    omega
  · rw [SeqNumber.ahead_advance_of_le more (by omega)] at half
    omega

/-- Whatever moves an honest segment makes, nothing of what was said is changed, and nothing is
    acknowledged but what the peer has heard. -/
theorem speaking_moves {reach : Nat} (coherent : Coherent c) (away : c.state ≠ .listen)
    (small : st.length < SeqNumber.halfCircle) (within : reach ≤ st.length)
    (honest : Honest st reach s) (h : Speaking st unacked c) (known : unacked ≤ reach)
    (moves : Chain (Move s iss now) c σ c') :
    ∃ unacked', unacked' ≤ reach ∧ Slides st.initial unacked st.length s.header.ack c σ unacked' c' ∧
      Speaking st unacked' c' ∧ c'.state ≠ .listen := by
  have start : Coherent c ∧ c.state ≠ .listen ∧ Straight s c ∧ ∃ unacked',
      Slides st.initial unacked st.length s.header.ack c [] unacked' c ∧ Speaking st unacked' c :=
    ⟨coherent, away, straight_of_honest h.window small within honest, unacked,
      h.window.stays ⟨rfl, rfl⟩ rfl (by simp), h⟩
  obtain ⟨_, away', _, unacked', slides, speaking⟩ := moves.carries
    (P := fun ρ d => Coherent d ∧ d.state ≠ .listen ∧ Straight s d ∧ ∃ unacked',
      Slides st.initial unacked st.length s.header.ack c ρ unacked' d ∧ Speaking st unacked' d)
    (fun before move => by
      obtain ⟨coherent, away, straight, unacked₁, slides, speaking⟩ := before
      obtain ⟨unacked₂, later, straight', speaking'⟩ :=
        speaking_move coherent away straight speaking move
      exact ⟨coherent_move coherent move, move_away away move, straight', unacked₂,
        slides.trans later, speaking'⟩) start
  refine ⟨unacked', ?_, slides, speaking, away'⟩
  by_cases moved : unacked' = unacked
  · rw [moved]
    exact known
  · obtain ⟨place, heard, same⟩ := honest _ (slides.given moved)
    have order := slides.window.order
    simp only [SeqNumber.halfCircle] at small
    rw [SeqNumber.advance_eq_iff (by omega) (by omega)] at same
    omega

theorem speaking_turns (h : Speaking st unacked c) (turns : Chain (Turn timer now) c σ c') :
    Speaking st unacked c' :=
  turns.keeps (P := Speaking st unacked) speaking_turn h

theorem speaking_takenUp (coherent : Coherent c) (takes : c.takesUp s = true) :
    Speaking ⟨iss, [], false⟩ 0 (c.takenUp s iss now) := by
  apply (telling_takenUp coherent takes).speaking
  · exact window_fresh (.ofList [.syn, .ack]) (by decide) rfl rfl (takenUp_queue coherent takes)
  · intro state
    cases state

variable {call : CallId} {event : Event} {ds : List Datagram}

theorem speaking_asked (coherent : Coherent c) (free : c.state = .closed ∨ c.state = .listen)
    (foreign : Endpoint) (userTimeout : Duration) :
    Speaking ⟨iss, [], false⟩ 0 ((c.starting foreign iss userTimeout).asked iss now call) := by
  have alone : ((c.starting foreign iss userTimeout).asked iss now call).queue = _ :=
    asked_queue coherent free foreign userTimeout
  have bare : (Flags.ofList [.syn]).has .ack = false := by decide
  apply (telling_asked coherent free foreign userTimeout).speaking
  · exact window_fresh (.ofList [.syn]) (by decide) rfl rfl alone
  · intro _ e member
    rw [alone, List.mem_singleton] at member
    subst member
    exact bare

theorem Speaking.extend {st' : Stream} (h : Speaking st unacked c) (telling : Telling st' c')
    {e : Unacked} (initial : st'.initial = st.initial) (more : st'.length = st.length + e.size)
    (small : st'.length < SeqNumber.halfCircle) (filled : 0 < e.size)
    (plain : e.flags.has .syn = false) (seq : e.seq = c.send.next)
    (unacked' : c'.send.unacked = c.send.unacked)
    (next' : c'.send.next = c.send.next.advance e.size) (queue' : c'.queue = c.queue ++ [e])
    (asked : c'.state ≠ .synSent) : Speaking st' unacked c' := by
  apply telling.speaking
  · rw [initial, more]
    refine h.window.extend seq filled (fun syn => ?_) unacked' next' queue' (by omega)
    rw [plain] at syn
    cases syn
  · exact fun state => absurd state asked

theorem speaking_sent {text : Octets} (h : Speaking st unacked c)
    (live : c.state = .established ∨ c.state = .closeWait) (filled : text ≠ [])
    (small : Stream.length { st with text := st.text ++ text } < SeqNumber.halfCircle) :
    Speaking { st with text := st.text ++ text } unacked (c.sent text now call) := by
  have syn : (Flags.ofList [.ack, .psh]).has .syn = false := by decide
  have size := Unacked.size_sent c.send.next text now call
  refine h.extend (telling_sent h.telling live) rfl ?_ small
    (size ▸ List.length_pos_iff.mpr filled) syn rfl rfl (size ▸ rfl) rfl ?_
  · rw [size]
    simp only [Stream.length, Stream.places, List.length_append]
    omega
  · rcases live with state | state <;> simp [sent, state]

theorem speaking_finished {after : State} (h : Speaking st unacked c)
    (states : Finishes c.state after)
    (small : Stream.length { st with ended := true } < SeqNumber.halfCircle) :
    Speaking { st with ended := true } unacked (c.finished after now call) := by
  have syn : (Flags.ofList [.fin, .ack]).has .syn = false := by decide
  have size := Unacked.size_finished c.send.next now call
  refine h.extend (telling_finished h.telling states) rfl ?_ small (size ▸ Nat.one_pos) syn rfl rfl
    (size ▸ rfl) rfl ?_
  · rw [size]
    simp only [Stream.length, Stream.places, unended_of_finishes h.telling states]
    rfl
  · rcases states with ⟨_, rfl⟩ | ⟨_, rfl⟩ <;> (intro asks; cases asks)

theorem speaking_called (h : Speaking st unacked c)
    (live : ¬ (c.state = .closed ∨ c.state = .listen))
    (small : (st.after event ds).length < SeqNumber.halfCircle)
    (called : Called iss now call event c σ ds c') :
    Speaking (st.after event ds) unacked c' ∧ st.Grows (st.after event ds) ∧
      c'.state ≠ .listen := by
  have away : c.state ≠ .listen := fun listen => live (Or.inr listen)
  have shut : Speaking st unacked c.shut ∧ st.Grows st ∧ c.shut.state ≠ .listen := by
    have turn : Turn none now c (c.waiting.map (Signal.fails .connectionReset)) c.shut :=
      .terminate (terminate_ends.mpr ⟨rfl, rfl⟩)
    exact ⟨speaking_turn h turn, .refl st, fun listen => by cases listen⟩
  cases called with
  | told => exact ⟨h, .refl st, away⟩
  | timed =>
    exact ⟨⟨h.initial, ⟨h.window.start, h.window.stop, h.window.order, h.window.room, h.window.laid⟩,
      h.unended, h.carries, h.bare⟩, .refl st, away⟩
  | listen free => exact absurd free live
  | fail free => exact absurd free live
  | ask free => exact absurd free live
  | send open' filled =>
    exact ⟨speaking_sent h open' filled small, grows_text (unended_of_live h.telling open') _, away⟩
  | @receive here capacity _ _ _ _ _ _ ends =>
    have same : st.after (.receive here capacity) ds = st := by
      unfold Stream.after
      split <;> rfl
    have asked : Speaking st unacked { c with reception := some ⟨capacity, call⟩ } :=
      ⟨h.initial, ⟨h.window.start, h.window.stop, h.window.order, h.window.room, h.window.laid⟩,
        h.unended, h.carries, h.bare⟩
    rw [same]
    refine ⟨speaking_turn asked (.deliver ends : Turn none now _ _ _), .refl st, ?_⟩
    rw [deliver_state ends]
    exact away
  | quit _ ends =>
    obtain ⟨_, rfl⟩ := terminate_ends.mp ends
    exact shut
  | finish states =>
    refine ⟨speaking_finished h states small, grows_end (unended_of_finishes h.telling states), ?_⟩
    rcases states with ⟨_, rfl⟩ | ⟨_, rfl⟩ <;> (intro listen; cases listen)
  | idle => exact ⟨h, .refl st, away⟩
  | @abort here _ _ _ _ _ ends =>
    have same : st.after (.abort here) ds = st := by
      unfold Stream.after
      split <;> rfl
    obtain ⟨_, rfl⟩ := terminate_ends.mp ends
    rw [same]
    exact shut

end Connection
end TcpEngine

import TcpEngine.Proofs.Connection.Coherence
import TcpEngine.Proofs.Stream

/-!
What a connection has heard of its peer: the text handed out and the text still in the buffer are
together a beginning of what the peer has said, and RCV.NXT is the place behind it. Every move keeps
that, as long as the segments that arrive say what the peer has said.
-/
namespace TcpEngine

def Signal.octets (s : Signal) : Octets :=
  match s.reply with
  | .received octets => octets
  | _ => []

def handed (σ : List Signal) : Octets := σ.flatMap Signal.octets

theorem handed_append (σ τ : List Signal) : handed (σ ++ τ) = handed σ ++ handed τ :=
  List.flatMap_append

theorem handed_fails (error : CallError) (calls : List CallId) :
    handed (calls.map (Signal.fails error)) = [] := by
  rw [handed, List.flatMap_map]
  exact List.flatMap_eq_nil_iff.mpr fun _ _ => rfl

theorem handed_done (calls : List CallId) : handed (calls.map Signal.tellsDone) = [] := by
  rw [handed, List.flatMap_map]
  exact List.flatMap_eq_nil_iff.mpr fun _ _ => rfl

def State.peerDone : State → Bool
  | .closeWait | .closing | .lastAck | .timeWait => true
  | _ => false

theorem State.open_of_receives {state : State} (receives : state.receivesText = true) :
    state.peerDone = false := by
  cases state <;> first | rfl | cases receives

namespace Connection

def reach (c : Connection) (got : Octets) : Nat :=
  Stream.places (got ++ c.buffer.toList) c.state.peerDone

structure Receiving (st : Stream) (got : Octets) (c : Connection) : Prop where
  initial : c.receive.initial = st.initial
  next : c.receive.next = st.initial.advance (c.reach got)
  heard : st.Heard (got ++ c.buffer.toList) c.state.peerDone

/-- What was handed out is right in all states, and RCV.NXT has not fallen behind `low` once the
    peer is known. -/
structure Hearing (st : Stream) (low : Nat) (got : Octets) (c : Connection) : Prop where
  text : got <+: st.text
  early : c.state = .synSent → got = [] ∧ low = 0
  live : c.state.isSynchronized = true → Receiving st got c ∧ low ≤ c.reach got

variable {st : Stream} {low : Nat} {got got' : Octets} {c c' : Connection} {σ : List Signal}
  {s : Segment} {iss : SeqNumber} {now : Instant} {timer : Option Config}

theorem Receiving.grows {st' : Stream} (h : Receiving st got c) (grows : st.Grows st') :
    Receiving st' got c where
  initial := by rw [grows.initial, h.initial]
  next := by rw [grows.initial, h.next]
  heard := h.heard.grows grows

theorem Receiving.keeps (h : Receiving st got c)
    (receive : c'.receive.initial = c.receive.initial ∧ c'.receive.next = c.receive.next)
    (text : got' ++ c'.buffer.toList = got ++ c.buffer.toList)
    (fin : c'.state.peerDone = c.state.peerDone) :
    Receiving st got' c' ∧ c'.reach got' = c.reach got := by
  have same : c'.reach got' = c.reach got := by
    unfold reach
    rw [text, fin]
  refine ⟨⟨receive.1.trans h.initial, ?_, ?_⟩, same⟩
  · rw [receive.2, h.next, same]
  · rw [text, fin]
    exact h.heard

theorem Hearing.keeps (h : Hearing st low got c) (silent : handed σ = [])
    (receive : c'.receive.initial = c.receive.initial ∧ c'.receive.next = c.receive.next)
    (buffer : c'.buffer = c.buffer) (fin : c'.state.peerDone = c.state.peerDone)
    (early : c'.state = .synSent → c.state = .synSent)
    (live : c'.state.isSynchronized = true → c.state.isSynchronized = true) :
    Hearing st low (got ++ handed σ) c' := by
  rw [silent, List.append_nil]
  refine ⟨h.text, fun state => h.early (early state), fun live' => ?_⟩
  obtain ⟨receiving, above⟩ := h.live (live live')
  obtain ⟨receiving', same⟩ : Receiving st got c' ∧ _ := receiving.keeps receive (by rw [buffer]) fin
  exact ⟨receiving', same ▸ above⟩

theorem Hearing.over (h : Hearing st low got c) (silent : handed σ = [])
    (free : c'.state = .closed ∨ c'.state = .listen) : Hearing st low (got ++ handed σ) c' := by
  rw [silent, List.append_nil]
  refine ⟨h.text, fun state => ?_, fun live => ?_⟩
  · rcases free with free | free <;> cases free.symm.trans state
  · rcases free with free | free <;> rw [free] at live <;> cases live

theorem hearing_deliver (coherent : Coherent c) (h : Hearing st low got c)
    (ends : c.deliver.Ends σ c') : Hearing st low (got ++ handed σ) c' := by
  rcases deliver_ends ends with ⟨rfl, rfl, _⟩ | ⟨reception, _, filled, rfl, rfl⟩
  · exact h.keeps rfl ⟨rfl, rfl⟩ rfl rfl id id
  · have live : c.state.isSynchronized = true := by
      rw [← Bool.not_eq_false]
      intro dead
      rw [Ring.isEmpty_iff.mpr (coherent.silent dead).2] at filled
      cases filled
    have out : handed [⟨reception.call, .received (c.buffer.toList.take reception.capacity)⟩]
        = c.buffer.toList.take reception.capacity := List.append_nil _
    obtain ⟨receiving, above⟩ := h.live live
    have text : got ++ c.buffer.toList.take reception.capacity
        ++ (c.served reception.capacity).buffer.toList = got ++ c.buffer.toList := by
      rw [served, Ring.toList_dequeue, List.append_assoc, List.take_append_drop]
    obtain ⟨receiving', same⟩ : Receiving _ _ (c.served reception.capacity) ∧ _ :=
      receiving.keeps ⟨rfl, rfl⟩ text rfl
    rw [out]
    exact ⟨(List.prefix_append _ _).trans receiving'.heard.text,
      fun state => absurd state (not_asking live), fun _ => ⟨receiving', same ▸ above⟩⟩

theorem hearing_turn (coherent : Coherent c) (h : Hearing st low got c)
    (turn : Turn timer now c σ c') : Hearing st low (got ++ handed σ) c' := by
  cases turn with
  | deliver ends => exact hearing_deliver coherent h ends
  | release ends =>
    obtain ⟨done, _, rfl⟩ := release_ends ends
    exact h.keeps (handed_done _) ⟨rfl, rfl⟩ rfl rfl id id
  | review _ looked =>
    obtain ⟨_, _, rfl⟩ := review_ends looked
    exact h.keeps (handed_fails _ _) ⟨rfl, rfl⟩ rfl rfl id id
  | terminate ends =>
    obtain ⟨rfl, rfl⟩ := terminate_ends.mp ends
    exact h.over (handed_fails _ _) (Or.inl rfl)

theorem hearing_first (buffer : c.buffer.toList = [])
    (state : c.state = .synReceived ∨ c.state = .established)
    (initial : c.receive.initial = st.initial) (next : c.receive.next = st.initial.advance 1) :
    Hearing st 0 [] c := by
  have fin : c.state.peerDone = false := by
    rcases state with state | state <;> rw [state] <;> rfl
  have start : c.reach [] = 1 := by
    rw [reach, buffer, fin]
    rfl
  have live : c.state.isSynchronized = true := by
    rcases state with state | state <;> rw [state] <;> rfl
  refine ⟨List.nil_prefix, fun state => absurd state (not_asking live),
    fun _ => ⟨⟨initial, by rw [start, next], ?_⟩, Nat.zero_le _⟩⟩
  rw [buffer, fin]
  exact ⟨List.nil_prefix, fun raised => by cases raised⟩

theorem Receiving.extended (h : Receiving st got c) {taken : Octets}
    (room : taken.length ≤ c.buffer.window) (open' : c.state.peerDone = false)
    (said : got ++ c.buffer.toList ++ taken <+: st.text) :
    Receiving st got (c.extended taken) ∧
      (c.extended taken).reach got = c.reach got + taken.length := by
  have text : got ++ (c.extended taken).buffer.toList = got ++ c.buffer.toList ++ taken := by
    rw [Connection.extended, Ring.toList_enqueue, List.take_of_length_le room, List.append_assoc]
  have fin : (c.extended taken).state.peerDone = false := open'
  have more : (c.extended taken).reach got = c.reach got + taken.length := by
    rw [reach, reach, text, fin, open', Stream.places, Stream.places, List.length_append]
    omega
  refine ⟨⟨h.initial, ?_, ?_⟩, more⟩
  · rw [more, ← SeqNumber.advance_advance, ← h.next]
    rfl
  · rw [text, fin]
    exact ⟨said, fun raised => by cases raised⟩

theorem hearing_accept (small : st.text.length < SeqNumber.halfCircle) (h : Hearing st low got c)
    (consistent : st.Consistent s.header.flags s.header.seq s.text)
    (open' : c.state.peerDone = false) (live : c.state.isSynchronized = true)
    (ok : c.acceptText (s.header.seq.advance (s.header.flags.has .syn).toNat) s.text = .ok c') :
    Hearing st low got c' := by
  rcases acceptText_ok ok with rfl | ⟨known, taken, here, near, part, room, rfl⟩
  · exact h
  · obtain ⟨receiving, above⟩ := h.live live
    have place : c.reach got = 1 + (got ++ c.buffer.toList).length := by
      rw [reach, open']
      rfl
    have said := consistent.hears small receiving.heard.text
      (by rw [← place, ← receiving.next, here]) near part
    obtain ⟨receiving', more⟩ := receiving.extended room open' said
    exact ⟨h.text, fun state => absurd state (not_asking live), fun _ => ⟨receiving', by omega⟩⟩

theorem peerFinished_done (now : Instant) (live : c.state.pastHandshake = true)
    (open' : c.state.peerDone = false) : (c.peerFinished now).state.peerDone = true := by
  unfold peerFinished
  cases state : c.state <;> rw [state] at live open' <;>
    first
      | rfl
      | (dsimp only; split <;> rfl)
      | exact absurd live (by decide)
      | exact absurd open' (by decide)

theorem hearing_finish (small : st.text.length < SeqNumber.halfCircle) (h : Hearing st low got c)
    (consistent : st.Consistent s.header.flags s.header.seq s.text)
    (long : s.header.textLength = s.text.length) (live : c.state.pastHandshake = true)
    (fin : s.header.flags.has .fin = true) (place : textStop s = c.receive.next)
    (ends : (c.countFin now).Ends σ (c', true)) : Hearing st low (got ++ handed σ) c' := by
  obtain ⟨rfl, _⟩ := countFin_ends ends
  have live' := countFin_state (synchronized_of_past live) ends
  obtain ⟨receiving, above⟩ := h.live (synchronized_of_past live)
  have here : (s.header.seq.advance (s.header.flags.has .syn).toNat).advance s.text.length
      = st.initial.advance (c.reach got) := by
    rw [← receiving.next, ← place, textStop, long, SeqNumber.advance_advance]
  obtain ⟨open', whole⟩ := consistent.finishes small fin receiving.heard here
  have done : c'.state.peerDone = true := by
    obtain ⟨rfl, _⟩ := Prod.mk.inj (countFin_ends ends).2
    exact peerFinished_done (c := c.ended) now live open'
  obtain ⟨receive, buffer⟩ : c'.receive = c.ended.receive ∧ c'.buffer = c.buffer := by
    obtain ⟨_, _, rfl⟩ := countFin_counts ends
    exact ⟨rfl, rfl⟩
  have reached : c'.reach got = c.reach got + 1 := by
    rw [reach, reach, buffer, done, open']
    rfl
  rw [handed_fails, List.append_nil]
  refine ⟨h.text, fun state => absurd state (not_asking live'), fun _ => ⟨⟨?_, ?_, ?_⟩, by omega⟩⟩
  · rw [receive]
    exact receiving.initial
  · rw [receive, reached, ← SeqNumber.advance_advance, ← receiving.next]
    rfl
  · rw [buffer, done]
    exact whole

theorem hearing_takenUp (coherent : Coherent c) (takes : c.takesUp s = true)
    (consistent : st.Consistent s.header.flags s.header.seq s.text) :
    Hearing st 0 [] (c.takenUp s iss now) := by
  obtain ⟨listening, _, _, syn⟩ := takesUp_iff.mp takes
  obtain ⟨start, _⟩ := consistent.opens syn
  refine hearing_first (coherent.silent (by rw [listening]; rfl)).2 (Or.inl rfl) start ?_
  rw [takenUp, start]

/-- Whatever moves a segment of the peer makes, what is heard stays a beginning of what was said. -/
theorem hearing_move (small : st.text.length < SeqNumber.halfCircle) (coherent : Coherent c)
    (away : c.state ≠ .listen) (h : Hearing st low got c)
    (consistent : st.Consistent s.header.flags s.header.seq s.text)
    (long : s.header.textLength = s.text.length) (move : Move s iss now c σ c') :
    Hearing st low (got ++ handed σ) c' := by
  cases move with
  | turn turn => exact hearing_turn coherent h turn
  | note _ _ _ _ _ same =>
    subst same
    exact h.keeps rfl ⟨rfl, rfl⟩ rfl rfl id id
  | takeUp takes => exact absurd (takesUp_iff.mp takes).1 away
  | greet asked syn _ _ _ ends =>
    obtain ⟨start, _⟩ := consistent.opens syn
    obtain ⟨done, _, rfl⟩ := release_ends ends
    obtain ⟨rfl, rfl⟩ := h.early asked
    rw [handed_done, List.append_nil]
    exact hearing_first (coherent.silent (by rw [asked]; rfl)).2 (Or.inr rfl) start (by rw [start])
  | cross asked syn =>
    obtain ⟨start, _⟩ := consistent.opens syn
    obtain ⟨rfl, rfl⟩ := h.early asked
    exact hearing_first (coherent.silent (by rw [asked]; rfl)).2 (Or.inl rfl) start (by rw [start])
  | acceptFirst open' syn ok =>
    rw [show handed [] = [] from rfl, List.append_nil]
    refine hearing_accept small h consistent ?_ ?_ (by rw [syn]; exact ok)
    · rcases open' with state | state <;> rw [state] <;> rfl
    · rcases open' with state | state <;> rw [state] <;> rfl
  | establish state =>
    refine h.keeps rfl ⟨rfl, rfl⟩ rfl (by rw [state]; rfl) ?_ fun _ => by rw [state]; rfl
    intro later
    cases later
  | advance _ _ _ _ ends =>
    obtain ⟨done, _, rfl⟩ := release_ends ends
    exact h.keeps (handed_done _) ⟨rfl, rfl⟩ rfl rfl id id
  | halfClose state =>
    refine h.keeps rfl ⟨rfl, rfl⟩ rfl (by rw [state]; rfl) ?_ fun _ => by rw [state]; rfl
    intro later
    cases later
  | wait state =>
    refine h.keeps rfl ⟨rfl, rfl⟩ rfl (by rw [state]; rfl) ?_ fun _ => by rw [state]; rfl
    intro later
    cases later
  | accept live plain ok =>
    rw [show handed [] = [] from rfl, List.append_nil]
    refine hearing_accept small h consistent (State.open_of_receives live)
      (synchronized_of_past (past_of_receives live)) ?_
    rw [plain, Bool.toNat_false, SeqNumber.advance_zero]
    exact ok
  | finish live fin place ends => exact hearing_finish small h consistent long live fin place ends

theorem hearing_moves (small : st.text.length < SeqNumber.halfCircle) (coherent : Coherent c)
    (away : c.state ≠ .listen) (h : Hearing st low got c)
    (consistent : st.Consistent s.header.flags s.header.seq s.text)
    (long : s.header.textLength = s.text.length) (moves : Chain (Move s iss now) c σ c') :
    Hearing st low (got ++ handed σ) c' := by
  have start : Coherent c ∧ c.state ≠ .listen ∧ Hearing st low (got ++ handed []) c :=
    ⟨coherent, away, (List.append_nil got).symm ▸ h⟩
  have all := moves.carries
    (P := fun ρ d => Coherent d ∧ d.state ≠ .listen ∧ Hearing st low (got ++ handed ρ) d)
    (fun before move => by
      obtain ⟨coherent, away, h⟩ := before
      refine ⟨coherent_move coherent move, move_away away move, ?_⟩
      rw [handed_append, ← List.append_assoc]
      exact hearing_move small coherent away h consistent long move) start
  exact all.2.2

theorem hearing_turns (coherent : Coherent c) (h : Hearing st low got c)
    (turns : Chain (Turn timer now) c σ c') : Hearing st low (got ++ handed σ) c' := by
  have start : Coherent c ∧ Hearing st low (got ++ handed []) c :=
    ⟨coherent, (List.append_nil got).symm ▸ h⟩
  have all := turns.carries (P := fun ρ d => Coherent d ∧ Hearing st low (got ++ handed ρ) d)
    (fun before turn => by
      obtain ⟨coherent, h⟩ := before
      refine ⟨coherent_turn coherent turn, ?_⟩
      rw [handed_append, ← List.append_assoc]
      exact hearing_turn coherent h turn) start
  exact all.2

/-- A call hands out what was heard, and takes in nothing. A new incarnation has heard nothing yet. -/
theorem hearing_called {call : CallId} {event : Event} {ds : List Datagram} (coherent : Coherent c)
    (h : Hearing st low got c)
    (fresh : c.state = .closed ∨ c.state = .listen → c'.state = .synSent → got = [] ∧ low = 0)
    (called : Called iss now call event c σ ds c') : Hearing st low (got ++ handed σ) c' := by
  cases called with
  | told _ reply plain =>
    have none : handed [⟨call, reply⟩] = [] := by
      cases reply with
      | received octets =>
        rw [plain octets rfl]
        rfl
      | _ => rfl
    exact h.keeps none ⟨rfl, rfl⟩ rfl rfl id id
  | timed => exact h.keeps rfl ⟨rfl, rfl⟩ rfl rfl id id
  | listen => exact h.over rfl (Or.inr rfl)
  | fail free => exact h.over rfl free
  | ask free =>
    obtain ⟨rfl, rfl⟩ := fresh free rfl
    exact ⟨List.nil_prefix, fun _ => ⟨rfl, rfl⟩, fun live => by cases live⟩
  | send => exact h.keeps rfl ⟨rfl, rfl⟩ rfl rfl id id
  | @receive _ capacity _ _ _ _ _ live ends =>
    have asked : Hearing st low (got ++ handed []) { c with reception := some ⟨capacity, call⟩ } :=
      h.keeps rfl ⟨rfl, rfl⟩ rfl rfl id id
    rw [show handed [] = [] from rfl, List.append_nil] at asked
    refine hearing_deliver ?_ asked ends
    exact ⟨fun state => absurd state live, coherent.silent, coherent.unsent, coherent.asking,
      coherent.known⟩
  | quit _ ends =>
    obtain ⟨rfl, rfl⟩ := terminate_ends.mp ends
    refine h.over ?_ (Or.inl rfl)
    rw [handed_append, handed_fails]
    rfl
  | finish states =>
    rcases states with ⟨state | state, rfl⟩ | ⟨state, rfl⟩
    all_goals
      refine h.keeps rfl ⟨rfl, rfl⟩ rfl (by rw [state]; rfl) ?_ fun _ => by rw [state]; rfl
      intro later
      cases later
  | idle => exact h.keeps rfl ⟨rfl, rfl⟩ rfl rfl id id
  | abort _ ends =>
    obtain ⟨rfl, rfl⟩ := terminate_ends.mp ends
    exact h.over (handed_fails _ _) (Or.inl rfl)

end Connection
end TcpEngine

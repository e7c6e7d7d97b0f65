import TcpEngine.Proofs.Acknowledgment
import TcpEngine.Proofs.Connection.Hearing
import TcpEngine.Proofs.Connection.Speaking
import TcpEngine.Proofs.Wire

/-!
One side of an exchange. A side has said a stream or nothing yet, and so has the other side; `reach`
is how far a side has heard the other one. All datagrams that were ever sent say true things about
both streams, and a side that hears only such datagrams sends no others.
-/
namespace TcpEngine

def Stream.Follows (before later : Option Stream) : Prop :=
  ∀ st, before = some st → ∃ st', later = some st' ∧ st.Grows st'

def Stream.spoken (said : Option Stream) : Octets :=
  match said with
  | some st => st.text
  | none => []

namespace Connection

def heardTo (c : Connection) (got : Octets) (before : Nat) : Nat :=
  if c.state.isSynchronized then c.reach got else before

structure Standing (peer : Endpoint) (mine theirs : Option Stream) (reach reached : Nat)
    (got : Octets) (c : Connection) : Prop where
  towards : ∀ foreign, c.foreign = some foreign → foreign = peer
  coherent : Coherent c
  unborn : mine = none → c.Free ∧ got = [] ∧ reach = 0
  speaking : ¬ c.Free → ∃ st unacked, mine = some st ∧ unacked ≤ reached ∧ Speaking st unacked c
  /-- As long as the other side has said nothing, it may still say anything. -/
  hearing : ∀ st, theirs = none ∨ theirs = some st → Hearing st reach got c
  exact' : c.state.isSynchronized = true → reach = c.reach got
  bound : ∀ st, theirs = none ∨ theirs = some st → reach ≤ st.length

end Connection

structure Said (sender receiver : Endpoint) (mine theirs : Option Stream) (reach : Nat)
    (s : Segment) : Prop where
  source : s.sender = sender
  target : s.receiver = receiver
  carries : ∃ st, mine = some st ∧ st.Carries s.header.flags s.header.seq s.text
  honest : ∀ ack, s.header.ack = some ack →
    ∃ st place, theirs = some st ∧ place ≤ reach ∧ ack = st.initial.advance place

def Lawful (here peer : Endpoint) (mine theirs : Option Stream) (reach reached : Nat)
    (d : Datagram) : Prop :=
  ∃ s, s.Formed ∧ Stack.datagram s = .ok d ∧ (s.header.flags.has .rst = true ∨
    Said here peer mine theirs reach s ∨ Said peer here theirs mine reached s)

namespace Stream

theorem Follows.refl (said : Option Stream) : Follows said said := fun st there => ⟨st, there, .refl st⟩

theorem follows_none (said : Option Stream) : Follows none said := fun _ there => by cases there

end Stream

theorem Said.follows {sender receiver : Endpoint} {mine theirs mine' theirs' : Option Stream}
    {reach reach' : Nat} {s : Segment} (h : Said sender receiver mine theirs reach s)
    (follows : Stream.Follows mine mine') (follows' : Stream.Follows theirs theirs')
    (forward : reach ≤ reach') : Said sender receiver mine' theirs' reach' s where
  source := h.source
  target := h.target
  carries := by
    obtain ⟨st, said, carries⟩ := h.carries
    obtain ⟨st', said', grows⟩ := follows st said
    exact ⟨st', said', carries.grows grows⟩
  honest := by
    intro ack given
    obtain ⟨st, place, said, known, here⟩ := h.honest ack given
    obtain ⟨st', said', grows⟩ := follows' st said
    exact ⟨st', place, said', Nat.le_trans known forward, by rw [grows.initial, here]⟩

variable {here peer : Endpoint} {mine theirs mine' theirs' : Option Stream}
  {reach reached reach' reached' : Nat} {got : Octets} {d : Datagram}

theorem Lawful.follows (h : Lawful here peer mine theirs reach reached d)
    (follows : Stream.Follows mine mine') (follows' : Stream.Follows theirs theirs')
    (forward : reach ≤ reach') (forward' : reached ≤ reached') :
    Lawful here peer mine' theirs' reach' reached' d := by
  obtain ⟨s, formed, posted, reset | own | other⟩ := h
  · exact ⟨s, formed, posted, Or.inl reset⟩
  · exact ⟨s, formed, posted, Or.inr (Or.inl (own.follows follows follows' forward))⟩
  · exact ⟨s, formed, posted, Or.inr (Or.inr (other.follows follows' follows forward'))⟩

theorem Lawful.swap (h : Lawful here peer mine theirs reach reached d) :
    Lawful peer here theirs mine reached reach d := by
  obtain ⟨s, formed, posted, kind⟩ := h
  refine ⟨s, formed, posted, ?_⟩
  rcases kind with reset | own | other
  · exact Or.inl reset
  · exact Or.inr (Or.inr own)
  · exact Or.inr (Or.inl other)

namespace Connection

variable {st : Stream} {c c' : Connection} {σ : List Signal} {flags : Flags} {seq : SeqNumber}
  {octets : Octets} {s : Segment} {iss : SeqNumber} {now : Instant} {timer : Option Config}

theorem segment_said (towards : ∀ foreign, c.foreign = some foreign → foreign = peer)
    (sent : c.segment flags seq octets = some s)
    (carries : ∃ st, mine = some st ∧ st.Carries flags seq octets)
    (honest : flags.has .ack = true →
      ∃ st place, theirs = some st ∧ place ≤ reach ∧ c.receive.next = st.initial.advance place) :
    Said c.here peer mine theirs reach s := by
  obtain ⟨foreign, known, rfl⟩ := Option.map_eq_some_iff.mp sent
  obtain rfl := towards foreign known
  refine ⟨rfl, rfl, carries, ?_⟩
  intro ack given
  dsimp only at given
  split at given
  · rename_i raised
    cases given
    exact honest raised
  · cases given

theorem Standing.expects (h : Standing peer mine theirs reach reached got c)
    (live : c.state.isSynchronized = true) :
    ∃ st, theirs = some st ∧ Receiving st got c ∧ c.receive.next = st.initial.advance reach := by
  have heard (st : Stream) (there : theirs = none ∨ theirs = some st) : Receiving st got c :=
    ((h.hearing st there).live live).1
  cases said : theirs with
  | none =>
    -- Not every stream begins with the number that was noted.
    have other := (heard ⟨c.receive.initial.advance 1, [], false⟩ (Or.inl said)).initial
    rw [← SeqNumber.advance_zero c.receive.initial, SeqNumber.advance_advance] at other
    cases (SeqNumber.advance_eq_iff (by decide) (by decide)).mp other
  | some st =>
    have receiving := heard st (Or.inr said)
    exact ⟨st, rfl, receiving, by rw [receiving.next, h.exact' live]⟩

theorem Standing.tells (h : Standing peer mine theirs reach reached got c)
    (sent : c.segment flags seq octets = some s)
    (carries : ∃ st, mine = some st ∧ st.Carries flags seq octets)
    (live : flags.has .ack = true → c.state.isSynchronized = true) :
    Said c.here peer mine theirs reach s := by
  refine segment_said h.towards sent carries ?_
  intro raised
  obtain ⟨st, said, _, next⟩ := h.expects (live raised)
  exact ⟨st, reach, said, Nat.le_refl reach, next⟩

def Confirmed (mine : Option Stream) (reached : Nat) (e : Unacked) : Prop :=
  ∃ st stop, mine = some st ∧ st.Carries e.flags e.seq e.text ∧
    e.stop = .ok (st.initial.advance stop) ∧ 0 < stop ∧ stop ≤ reached

/-- What becomes of one side by an event: it stands as before, and has said and heard no less. A call
    other than the one just made is done only if its segment was heard. -/
structure Evolved (peer : Endpoint) (mine theirs : Option Stream) (reach reached : Nat)
    (got : Octets) (c : Connection) (call : CallId) (σ : List Signal) (ds : List Datagram)
    (c' : Connection) (mine' : Option Stream) : Prop where
  standing : Standing peer mine' theirs (c'.heardTo (got ++ handed σ) reach) reached
    (got ++ handed σ) c'
  same : c'.here = c.here
  forward : reach ≤ c'.heardTo (got ++ handed σ) reach
  follows : Stream.Follows mine mine'
  begins : mine' = none ↔ mine = none ∧ c'.Free
  lawful : ∀ d ∈ ds, Lawful c.here peer mine' theirs (c'.heardTo (got ++ handed σ) reach) reached d
  done : ∀ done, Signal.tellsDone done ∈ σ → done = call ∨
    ∃ e ∈ c.queue, e.call = some done ∧ Confirmed mine reached e

theorem Hearing.renew (h : Hearing st reach got c) (bound : reach ≤ st.length) :
    Hearing st (c.heardTo got reach) got c ∧ reach ≤ c.heardTo got reach ∧
      c.heardTo got reach ≤ st.length := by
  unfold heardTo
  split
  · rename_i live
    obtain ⟨receiving, above⟩ := h.live live
    exact ⟨⟨h.text, fun state => absurd state (not_asking live),
      fun _ => ⟨receiving, Nat.le_refl _⟩⟩, above, receiving.heard.le_length⟩
  · exact ⟨h, Nat.le_refl _, bound⟩

theorem Standing.renew {got' : Octets} (h : Standing peer mine theirs reach reached got c)
    (towards : ∀ foreign, c'.foreign = some foreign → foreign = peer) (coherent : Coherent c')
    (unborn : mine' = none → mine = none ∧ c'.Free ∧ got' = [])
    (speaking : ¬ c'.Free →
      ∃ st unacked, mine' = some st ∧ unacked ≤ reached ∧ Speaking st unacked c')
    (hearing : ∀ st, theirs = none ∨ theirs = some st → Hearing st reach got' c') :
    Standing peer mine' theirs (c'.heardTo got' reach) reached got' c' ∧
      reach ≤ c'.heardTo got' reach := by
  have renewed (st : Stream) (there : theirs = none ∨ theirs = some st) :=
    (hearing st there).renew (h.bound st there)
  refine ⟨⟨towards, coherent, ?_, speaking, fun st there => (renewed st there).1, ?_,
    fun st there => (renewed st there).2.2⟩, ?_⟩
  · intro unsaid
    obtain ⟨before, free, empty⟩ := unborn unsaid
    refine ⟨free, empty, ?_⟩
    rw [heardTo, dead_of_free free]
    exact (h.unborn before).2.2
  · intro live
    rw [heardTo, live]
    rfl
  · cases said : theirs with
    | none => exact (renewed ⟨⟨0⟩, [], false⟩ (Or.inl said)).2.1
    | some st => exact (renewed st (Or.inr said)).2.1

theorem Standing.heardTo_same (h : Standing peer mine theirs reach reached got c) :
    c.heardTo got reach = reach := by
  unfold heardTo
  split
  · rename_i live
    exact (h.exact' live).symm
  · rfl

theorem evolved_rest (h : Standing peer mine theirs reach reached got c) {ds : List Datagram}
    (lawful : ∀ d ∈ ds, Lawful c.here peer mine theirs reach reached d) (call : CallId) :
    Evolved peer mine theirs reach reached got c call [] ds c mine := by
  have text : got ++ handed [] = got := List.append_nil got
  refine ⟨?_, rfl, ?_, .refl mine, ?_, ?_, fun _ told => absurd told List.not_mem_nil⟩
  · rw [text, h.heardTo_same]
    exact h
  · rw [text, h.heardTo_same]
  · exact ⟨fun unsaid => ⟨unsaid, (h.unborn unsaid).1⟩, And.left⟩
  · rw [text, h.heardTo_same]
    exact lawful

/- Timers. -/

theorem turn_foreign {c c' : Connection} (turn : Turn timer now c σ c') :
    c'.foreign = c.foreign ∨ c'.foreign = none := by
  cases turn with
  | deliver ends =>
    rcases deliver_ends ends with ⟨_, rfl, _⟩ | ⟨_, _, _, _, rfl⟩ <;> exact Or.inl rfl
  | release => exact Or.inl rfl
  | review => exact Or.inl rfl
  | terminate ends =>
    obtain ⟨_, rfl⟩ := terminate_ends.mp ends
    exact Or.inr rfl

theorem turns_idle (coherent : Coherent c) (free : c.Free) (turns : Chain (Turn timer now) c σ c') :
    handed σ = [] ∧ ∀ done, Signal.tellsDone done ∉ σ := by
  have idle {d d' : Connection} {τ : List Signal} (coherent : Coherent d) (free : d.Free)
      (turn : Turn timer now d τ d') : handed τ = [] ∧ ∀ done, Signal.tellsDone done ∉ τ := by
    cases turn with
    | deliver ends =>
      rcases deliver_ends ends with ⟨rfl, _⟩ | ⟨_, _, filled, _⟩
      · exact ⟨rfl, fun _ => List.not_mem_nil⟩
      · rw [Ring.isEmpty_iff.mpr (coherent.silent (dead_of_free free)).2] at filled
        cases filled
    | release ends =>
      obtain ⟨done, released, rfl⟩ := release_ends ends
      have none := released.split
      rw [coherent.unsent free] at none
      rw [(List.append_eq_nil_iff.mp none.symm).1]
      exact ⟨rfl, fun _ => List.not_mem_nil⟩
    | review _ looked =>
      obtain ⟨_, _, rfl⟩ := review_ends looked
      exact ⟨handed_fails _ _, fails_silent _ _⟩
    | terminate ends =>
      obtain ⟨rfl, _⟩ := terminate_ends.mp ends
      exact ⟨handed_fails _ _, fails_silent _ _⟩
  have all := turns.carries (P := fun ρ d => Coherent d ∧ d.Free ∧ handed ρ = [] ∧
      ∀ done, Signal.tellsDone done ∉ ρ)
    (fun before turn => by
      obtain ⟨coherent, free, silent, undone⟩ := before
      obtain ⟨silent', undone'⟩ := idle coherent free turn
      refine ⟨coherent_turn coherent turn, turn_free free turn, ?_, fun done told => ?_⟩
      · rw [handed_append, silent, silent']
        rfl
      · exact (List.mem_append.mp told).elim (undone done) (undone' done))
    (show Coherent c ∧ c.Free ∧ _ ∧ _ from ⟨coherent, free, rfl, fun _ => List.not_mem_nil⟩)
  exact all.2.2

theorem Standing.resends (h : Standing peer mine theirs reach reached got c) {e : Unacked}
    (member : e ∈ c.queue) (sent : c.segment e.flags e.seq e.text = some s) :
    Said c.here peer mine theirs reach s := by
  have busy : ¬ c.Free := by
    intro free
    rw [h.coherent.unsent free] at member
    cases member
  obtain ⟨st, unacked, said, _, speaking⟩ := h.speaking busy
  refine h.tells sent ⟨st, said, speaking.carries e member⟩ ?_
  intro raised
  cases state : c.state with
  | closed => exact absurd (Or.inl state) busy
  | listen => exact absurd (Or.inr state) busy
  | synSent =>
    rw [speaking.bare state e member] at raised
    cases raised
  | _ => rfl

theorem evolved_timed (h : Standing peer mine theirs reach reached got c) {config : Config}
    {segments : List Segment} {ds : List Datagram}
    (ends : (c.onTimer now config).Ends σ (c', segments))
    (holds : ∀ d ∈ ds, ∃ s ∈ segments, Stack.datagram s = .ok d) (call : CallId) :
    Evolved peer mine theirs reach reached got c call σ ds c' mine := by
  obtain ⟨turns, resent⟩ := onTimer_turns ends
  have coherent := turns.keeps (P := Coherent) coherent_turn h.coherent
  have same := turns_here turns
  have towards : ∀ foreign, c'.foreign = some foreign → foreign = peer :=
    turns.keeps (P := fun d => ∀ foreign, d.foreign = some foreign → foreign = peer)
      (fun towards turn foreign known => by
        rcases turn_foreign turn with same | none
        · exact towards foreign (same ▸ known)
        · cases none.symm.trans known) h.towards
  have stays : c.Free → c'.Free := turns.keeps (P := Free) turn_free
  have unborn (unsaid : mine = none) : mine = none ∧ c'.Free ∧ got ++ handed σ = [] := by
    obtain ⟨free, empty, _⟩ := h.unborn unsaid
    rw [empty, (turns_idle h.coherent free turns).1]
    exact ⟨unsaid, stays free, rfl⟩
  have undone (done : CallId) : Signal.tellsDone done ∉ σ := by
    by_cases free : c.Free
    · exact (turns_idle h.coherent free turns).2 done
    · obtain ⟨_, _, _, _, speaking⟩ := h.speaking free
      exact (turns_slide speaking.window turns).silent done
  have speaking (busy : ¬ c'.Free) :
      ∃ st unacked, mine = some st ∧ unacked ≤ reached ∧ Speaking st unacked c' := by
    obtain ⟨st, unacked, said, known, speaking⟩ := h.speaking fun free => busy (stays free)
    exact ⟨st, unacked, said, known, speaking_turns speaking turns⟩
  obtain ⟨standing, forward⟩ := h.renew towards coherent unborn speaking
    fun st there => hearing_turns h.coherent (h.hearing st there) turns
  refine ⟨standing, same, forward, .refl mine, ⟨fun unsaid => ⟨unsaid, (unborn unsaid).2.1⟩, And.left⟩, ?_,
    fun done told => absurd told (undone done)⟩
  intro d member
  obtain ⟨s, there, posted⟩ := holds d member
  obtain ⟨e, waits, sent⟩ := resent s there
  exact ⟨s, (segment_formed sent).1, posted, Or.inr (Or.inl (same ▸ standing.resends waits sent))⟩

end Connection
end TcpEngine

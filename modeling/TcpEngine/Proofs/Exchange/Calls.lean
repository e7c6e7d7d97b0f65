import TcpEngine.Proofs.Exchange.Standing

/-!
A user calls one side of an exchange. What is sent by the call is said from then on, and a connection
that is free begins a stream only by asking for a connection.
-/
namespace TcpEngine

def Opening.foreign : Opening → Option Endpoint
  | .active foreign => foreign
  | .passive foreign => foreign

def Event.Towards (peer : Endpoint) : Event → Prop
  | .openConnection _ opening _ => ∀ foreign, opening.foreign = some foreign → foreign = peer
  | _ => True

namespace Connection

variable {peer : Endpoint} {mine theirs mine' : Option Stream} {reach reached reach' : Nat}
  {got : Octets} {c c' : Connection} {σ : List Signal} {iss : SeqNumber} {now : Instant}
  {call : CallId} {event : Event} {ds : List Datagram}

theorem called_towards (towards : ∀ foreign, c.foreign = some foreign → foreign = peer)
    (allowed : event.Towards peer) (called : Called iss now call event c σ ds c') :
    ∀ foreign, c'.foreign = some foreign → foreign = peer := by
  cases called with
  | listen => exact allowed
  | ask => exact allowed
  | receive _ _ ends =>
    rcases deliver_ends ends with ⟨_, rfl, _⟩ | ⟨_, _, _, _, rfl⟩ <;> exact towards
  | quit _ ends =>
    obtain ⟨_, rfl⟩ := terminate_ends.mp ends
    intro foreign known
    cases known
  | abort _ ends =>
    obtain ⟨_, rfl⟩ := terminate_ends.mp ends
    intro foreign known
    cases known
  | _ => exact towards

theorem lawful_reset {here : Endpoint} {d : Datagram} (holds : Holds d (c.control [.rst])) :
    Lawful here peer mine theirs reach reached d := by
  obtain ⟨s, sent, posted⟩ := holds
  obtain ⟨formed, flags⟩ := segment_formed sent
  exact ⟨s, formed, posted, Or.inl (flags ▸ by decide)⟩

theorem Standing.sends (h : Standing peer mine theirs reach reached got c)
    (live : c.state.isSynchronized = true) (forward : reach ≤ reach') {flags : Flags}
    {seq : SeqNumber} {octets : Octets} {d : Datagram} (holds : Holds d (c.segment flags seq octets))
    (carries : ∃ st, mine' = some st ∧ st.Carries flags seq octets) :
    Lawful c.here peer mine' theirs reach' reached d := by
  obtain ⟨s, sent, posted⟩ := holds
  refine ⟨s, (segment_formed sent).1, posted, Or.inr (Or.inl ?_)⟩
  refine segment_said h.towards sent carries fun _ => ?_
  obtain ⟨st, there, _, next⟩ := h.expects live
  exact ⟨st, reach, there, forward, next⟩

theorem called_lawful {st : Stream} {unacked : Nat} {got' : Octets}
    (h : Standing peer mine theirs reach reached got c)
    (standing : Standing peer (some st) theirs reach' reached got' c') (forward : reach ≤ reach')
    (busy : ¬ c.Free) (speaking : Speaking st unacked c')
    (called : Called iss now call event c σ ds c') :
    ∀ d ∈ ds, Lawful c.here peer (some st) theirs reach' reached d := by
  intro d member
  have same := called_here called
  cases called with
  | send open' _ _ holds =>
    have live : c.state.isSynchronized = true := by
      rcases open' with state | state <;> rw [state] <;> rfl
    rw [List.mem_singleton] at member
    subst member
    exact h.sends live forward holds
      ⟨st, rfl, speaking.carries _ (List.mem_append_right _ List.mem_cons_self)⟩
  | finish states holds =>
    have live : c.state.isSynchronized = true := by
      rcases states with ⟨state | state, _⟩ | ⟨state, _⟩ <;> rw [state] <;> rfl
    rw [List.mem_singleton] at member
    subst member
    exact h.sends live forward holds
      ⟨st, rfl, speaking.carries _ (List.mem_append_right _ List.mem_cons_self)⟩
  | receive _ _ _ holds =>
    obtain ⟨live, held⟩ := holds d member
    have plain : (Flags.ofList [.ack]).has .syn = false ∧ (Flags.ofList [.ack]).has .fin = false := by
      decide
    exact same ▸ standing.sends live (Nat.le_refl _) held
      ⟨st, rfl, Stream.carries_nothing plain.1 plain.2⟩
  | ask free => exact absurd free busy
  | abort _ _ holds => exact lawful_reset (holds d member)
  | _ => cases member

theorem evolved_free_called (h : Standing peer mine theirs reach reached got c)
    (allowed : event.Towards peer) (free : c.Free) (free' : c'.Free)
    (resets : ∀ d ∈ ds, Holds d (c.control [.rst]))
    (called : Called iss now call event c σ ds c') :
    Evolved peer mine theirs reach reached got c call σ ds c' mine := by
  have asleep {d : Connection} (free : d.Free) (state : d.state = .synSent) : False := by
    rcases free with other | other <;> cases other.symm.trans state
  have unborn (unsaid : mine = none) : mine = none ∧ c'.Free ∧ got ++ handed σ = [] := by
    obtain ⟨_, rfl, _⟩ := h.unborn unsaid
    have nothing : Hearing ⟨⟨0⟩, [], false⟩ 0 [] c :=
      ⟨List.nil_prefix, fun _ => ⟨rfl, rfl⟩, fun live => absurd free (not_free_of_live live)⟩
    have heard := hearing_called h.coherent nothing (fun _ _ => ⟨rfl, rfl⟩) called
    exact ⟨unsaid, free', List.prefix_nil.mp heard.text⟩
  obtain ⟨standing, forward⟩ : Standing peer mine theirs _ reached _ c' ∧ _ :=
    h.renew (called_towards h.towards allowed called) (coherent_called h.coherent called) unborn
      (absurd free')
      fun st case => hearing_called h.coherent (h.hearing st case)
        (fun _ state => (asleep free' state).elim) called
  exact ⟨standing, called_here called, forward, .refl mine,
    ⟨fun unsaid => ⟨unsaid, free'⟩, And.left⟩, fun d member => lawful_reset (resets d member),
    fun done told => Or.inl (called_done called told).1⟩

theorem evolved_asked (h : Standing peer mine theirs reach reached got c)
    (allowed : event.Towards peer) (free : c.Free) (unsaid : mine = none) {foreign : Endpoint}
    {userTimeout : Duration} {d : Datagram}
    (holds : Holds d ((c.starting foreign iss userTimeout).control [.syn]))
    (called : Called iss now call event c [] [d]
      ((c.starting foreign iss userTimeout).asked iss now call)) :
    Evolved peer mine theirs reach reached got c call [] [d]
      ((c.starting foreign iss userTimeout).asked iss now call) (some ⟨iss, [], false⟩) := by
  obtain ⟨_, rfl, rfl⟩ := h.unborn unsaid
  have towards := called_towards h.towards allowed called
  have busy : ¬ ((c.starting foreign iss userTimeout).asked iss now call).Free := by
    rintro (state | state) <;> cases state
  have plain : (Flags.ofList [.syn]).has .ack = false ∧ (Flags.ofList [.syn]).has .fin = false := by
    decide
  obtain ⟨standing, forward⟩ : Standing peer (some ⟨iss, [], false⟩) theirs _ reached _
      ((c.starting foreign iss userTimeout).asked iss now call) ∧ _ :=
    h.renew towards (coherent_called h.coherent called) (fun unsaid => by cases unsaid)
      (fun _ => ⟨_, 0, rfl, Nat.zero_le _, speaking_asked h.coherent free foreign userTimeout⟩)
      fun st case => hearing_called h.coherent (h.hearing st case) (fun _ _ => ⟨rfl, rfl⟩) called
  refine ⟨standing, called_here called, forward, ?_, ?_, fun d' member => ?_,
    fun done told => Or.inl (called_done called told).1⟩
  · rw [unsaid]
    exact Stream.follows_none _
  · exact ⟨fun unsaid => (by cases unsaid), fun both => absurd both.2 busy⟩
  · rw [List.mem_singleton] at member
    subst member
    obtain ⟨s, sent, posted⟩ := holds
    refine ⟨s, (segment_formed sent).1, posted, Or.inr (Or.inl ?_)⟩
    refine segment_said (c := c.starting foreign iss userTimeout) towards sent
      ⟨_, rfl, Stream.carries_syn plain.2⟩ fun raised => ?_
    rw [plain.1] at raised
    cases raised

theorem evolved_open_called {st : Stream} {unacked : Nat}
    (h : Standing peer (some st) theirs reach reached got c) (allowed : event.Towards peer)
    (busy : ¬ c.Free) (known : unacked ≤ reached) (speaking : Speaking st unacked c)
    (small : (st.after event ds).length < SeqNumber.halfCircle)
    (called : Called iss now call event c σ ds c') :
    Evolved peer (some st) theirs reach reached got c call σ ds c' (some (st.after event ds)) := by
  obtain ⟨speaking', grows, _⟩ := speaking_called speaking busy small called
  obtain ⟨standing, forward⟩ : Standing peer (some (st.after event ds)) theirs _ reached _ c' ∧ _ :=
    h.renew (called_towards h.towards allowed called) (coherent_called h.coherent called)
      (fun unsaid => by cases unsaid) (fun _ => ⟨_, unacked, rfl, known, speaking'⟩)
      fun st case => hearing_called h.coherent (h.hearing st case) (fun free => absurd free busy) called
  refine ⟨standing, called_here called, forward, ?_, ?_,
    called_lawful h standing forward busy speaking' called,
    fun done told => Or.inl (called_done called told).1⟩
  · intro st' same
    cases same
    exact ⟨_, rfl, grows⟩
  · exact ⟨fun unsaid => (by cases unsaid), fun both => (by cases both.1)⟩

/-- Whatever call is made at one side, the side evolves, and has said the text of the call if it was
    sent. -/
theorem evolved_called (h : Standing peer mine theirs reach reached got c)
    (allowed : event.Towards peer) (once : c.Free → ¬ c'.Free → mine = none)
    (small : ∀ st, mine = some st → (st.after event ds).length < SeqNumber.halfCircle)
    (called : Called iss now call event c σ ds c') :
    ∃ mine', Evolved peer mine theirs reach reached got c call σ ds c' mine' ∧
      Stream.spoken mine' = Stream.spoken mine ++ if ds = [] then [] else event.text := by
  by_cases free : c.Free
  · rcases called_free free called with ⟨free', resets, silent⟩ |
      ⟨foreign, userTimeout, d, rfl, rfl, rfl, holds, _, _, rfl⟩
    · refine ⟨mine, evolved_free_called h allowed free free' resets called, ?_⟩
      rcases silent with none | none
      · rw [if_pos none, List.append_nil]
      · rw [none, ite_self, List.append_nil]
    · have unsaid : mine = Option.none := by
        refine once free ?_
        rintro (state | state) <;> cases state
      refine ⟨_, evolved_asked h allowed free unsaid holds called, ?_⟩
      rw [unsaid]
      rfl
  · obtain ⟨st, unacked, rfl, known, speaking⟩ := h.speaking free
    exact ⟨_, evolved_open_called h allowed free known speaking (small st rfl) called,
      st.after_text event ds⟩

end Connection
end TcpEngine

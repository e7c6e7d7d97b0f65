import TcpEngine.Proofs.Connection.Equipped
import TcpEngine.Proofs.Faultless
import TcpEngine.Proofs.Emission

/-!
What a connection says with an event, read off the connection that the event has left. All that is no
reset is its SYN, as long as it waits for an answer to that, and after that acknowledges what it has
received by then.
-/
namespace TcpEngine

variable {here : Endpoint} {d : Datagram} {ds : List Datagram} {s t : Segment} {now : Instant}
  {call : CallId} {event : Event} {σ : List Signal} {c c' : Connection} {config : Config}
  {iss : SeqNumber}

inductive Connection.Utters (c : Connection) (s : Segment) : Prop where
  | asks (state : c.state = .synSent) (sent : c.segment (.ofList [.syn]) c.send.initial [] = some s)
  | acks {flags : Flags} {seq : SeqNumber} {text : Octets} (live : c.state.isSynchronized = true)
      (acknowledge : flags.Acknowledge) (short : text.length ≤ 65535)
      (sent : c.segment flags seq text = some s)

theorem Connection.Utters.formed (utters : c.Utters s) : s.Formed := by
  cases utters with
  | asks _ sent | acks _ _ _ sent => exact (segment_formed sent).1

theorem Connection.Utters.sized (utters : c.Utters s) : s.Sized := by
  cases utters with
  | asks _ sent => exact segment_sized (Nat.zero_le _) sent
  | acks _ _ short sent => exact segment_sized short sent

theorem befalls_coherent (coherent : c.Coherent) (h : Befalls config now call event c σ ds c') :
    c'.Coherent := by
  cases h with
  | spared => exact coherent
  | called _ _ called => exact Connection.coherent_called coherent called
  | arrived _ _ _ arrives =>
    exact (Connection.arrives_handled coherent.fresh arrives).1.keeps (P := Connection.Coherent)
      Connection.coherent_move coherent
  | timed ends =>
    exact (Connection.onTimer_turns ends).1.keeps (P := Connection.Coherent)
      Connection.coherent_turn coherent

theorem befalls_equipped (coherent : c.Coherent) (equipped : c.Equipped)
    (h : Befalls config now call event c σ ds c') : c'.Equipped := by
  cases h with
  | spared => exact equipped
  | called _ _ called => exact Connection.equipped_called coherent equipped called
  | arrived _ _ _ arrives =>
    exact Connection.equipped_moves coherent equipped
      (Connection.arrives_handled coherent.fresh arrives).1
  | timed ends => exact Connection.equipped_turns equipped (Connection.onTimer_turns ends).1

/- Whatever is posted is alien, or is said by the connection as the event has left it. -/

theorem alien_of_rst (holds : Holds d (c.control [.rst])) : Alien here d := by
  obtain ⟨s, sent, posted⟩ := holds
  obtain ⟨formed, flags⟩ := Connection.segment_formed sent
  refine ⟨s, formed, posted, Or.inl ⟨?_, by rw [flags]; decide⟩⟩
  have syn : (Flags.ofList [.rst]).has .syn = false := by decide
  have fin : (Flags.ofList [.rst]).has .fin = false := by decide
  obtain ⟨_, _, rfl⟩ := Option.map_eq_some_iff.mp sent
  exact ⟨rfl, syn, fin⟩

theorem called_utters (member : d ∈ ds) (called : Called iss now call event c σ ds c') :
    Alien here d ∨ ∃ s, c'.Utters s ∧ Stack.datagram s = .ok d := by
  cases called with
  | told | timed | listen | fail | quit | idle => exact absurd member List.not_mem_nil
  | ask _ _ holds =>
    obtain ⟨s, sent, posted⟩ := holds
    rw [List.mem_singleton.mp member]
    exact Or.inr ⟨s, .asks rfl sent, posted⟩
  | send live _ fits holds =>
    obtain ⟨s, sent, posted⟩ := holds
    rw [List.mem_singleton.mp member]
    have live : c.state.isSynchronized = true := by
      rcases live with state | state <;> rw [state] <;> rfl
    have acknowledge : (Flags.ofList [.ack, .psh]).Acknowledge := by decide
    have short := Nat.le_trans fits (Nat.le_of_lt_succ c.send.window.toNat_lt)
    exact Or.inr ⟨s, .acks live acknowledge short sent, posted⟩
  | receive _ _ _ holds =>
    obtain ⟨live, s, sent, posted⟩ := holds d member
    have acknowledge : (Flags.ofList [.ack]).Acknowledge := by decide
    exact Or.inr ⟨s, .acks live acknowledge (Nat.zero_le _) sent, posted⟩
  | @finish _ _ after _ states holds =>
    obtain ⟨s, sent, posted⟩ := holds
    rw [List.mem_singleton.mp member]
    have live : after.isSynchronized = true := by
      rcases states with ⟨_, rfl⟩ | ⟨_, rfl⟩ <;> rfl
    have acknowledge : (Flags.ofList [.fin, .ack]).Acknowledge := by decide
    exact Or.inr ⟨s, .acks live acknowledge (Nat.zero_le _) sent, posted⟩
  | abort _ _ holds => exact Or.inl (alien_of_rst (holds d member))

theorem arrived_utters {a : Arrival} (coherent : c.Coherent) (given : s ∈ a.answers)
    (posted : Stack.datagram s = .ok d) (arrives : (c.arrives t iss now).Ends σ a) :
    Alien here d ∨ a.connection.Utters s := by
  rcases (Connection.arrives_handled coherent.fresh arrives).2 s given with kind | rst
  · cases kind with
    | reset reset => exact Or.inl (alien_of_reset reset posted)
    | ack live sent =>
      have acknowledge : (Flags.ofList [.ack]).Acknowledge := by decide
      exact Or.inr (.acks live acknowledge (Nat.zero_le _) sent)
    | syn state sent =>
      have live : a.connection.state.isSynchronized = true := by
        rw [state]
        rfl
      have acknowledge : (Flags.ofList [.syn, .ack]).Acknowledge := by decide
      exact Or.inr (.acks live acknowledge (Nat.zero_le _) sent)
  · exact Or.inl (alien_of_rst ⟨s, rst, posted⟩)

theorem timed_utters {segments : List Segment} (coherent : c'.Coherent) (limited : c'.Limited)
    (equipped : c'.Equipped) (sent : s ∈ segments)
    (ends : (c.onTimer now config).Ends σ (c', segments)) : c'.Utters s := by
  obtain ⟨e, waits, same⟩ := (Connection.onTimer_turns ends).2 s sent
  have busy : ¬ c'.Free := by
    intro free
    rw [coherent.unsent free] at waits
    exact absurd waits List.not_mem_nil
  cases state : c'.state with
  | closed => exact absurd (Or.inl state) busy
  | listen => exact absurd (Or.inr state) busy
  | synSent =>
    obtain ⟨flags, seq, text⟩ := equipped.asks state e waits
    rw [flags, seq, text] at same
    exact .asks state same
  | _ =>
    have live : c'.state.isSynchronized = true := by
      rw [state]
      rfl
    exact .acks live (equipped.acks live e waits) (limited.brief e waits) same

theorem befalls_utters (coherent : c.Coherent) (limited : c.Limited) (equipped : c.Equipped)
    (h : Befalls config now call event c σ ds c') :
    ∀ d ∈ ds, Alien c.here d ∨ ∃ s, c'.Utters s ∧ Stack.datagram s = .ok d := by
  intro d member
  have coherent' := befalls_coherent coherent h
  have limited' := befalls_limited coherent limited h
  have equipped' := befalls_equipped coherent equipped h
  cases h with
  | spared _ alien => exact Or.inl (alien d member)
  | called _ _ called => exact called_utters member called
  | arrived _ _ _ arrives holds =>
    obtain ⟨answer, given, posted⟩ := holds d member
    exact (arrived_utters coherent given posted arrives).imp id fun utters => ⟨answer, utters, posted⟩
  | timed ends holds =>
    rcases holds d member with alien | ⟨again, sent, posted⟩
    · exact Or.inl alien
    · exact Or.inr ⟨again, timed_utters coherent' limited' equipped' sent ends, posted⟩

/-- What is emitted in the name of a connection is said by it, if it is no reset. -/
theorem emitted_utters (coherent : c.Coherent) (limited : c.Limited) (equipped : c.Equipped)
    (emitted : Emitted c.here ds s) (calm : s.header.flags.has .rst = false) (h : Befalls config now call event c σ ds c') :
    c'.Utters s := by
  obtain ⟨formed, mine, d, member, posted⟩ := emitted
  rcases befalls_utters coherent limited equipped h d member with ⟨t, formed', posted', kind⟩ | ⟨t, utters, posted'⟩
  · obtain rfl := datagram_injective formed formed' posted posted'
    rcases kind with ⟨_, rst⟩ | other
    · rw [rst] at calm
      cases calm
    · exact absurd mine other
  · obtain rfl := datagram_injective formed utters.formed posted posted'
    exact utters

namespace Stack

variable {k k' : Stack} {place : Nat} {answer : Answer} {generator : SeqGenerator}
  {history : List (Event × Instant)} {P : Connection → Prop}

/-- A fact about a connection that holds once it is bound, and is kept by whatever befalls it, holds of
    all connections of all stacks with the same settings. -/
theorem run_each (bound : ∀ here, P (.bound here config))
    (kept : ∀ {now call event c σ ds c'}, c.Coherent → P c →
      Befalls config now call event c σ ds c' → P c') (sound : Sound place k)
    (settings : k.table.config = config) (each : ∀ c ∈ k.table.connections, P c)
    (ends : (k.run place history).Ends σ k') : ∀ c ∈ k'.table.connections, P c := by
  induction history generalizing k place σ with
  | nil =>
    obtain ⟨_, rfl⟩ := Act.ends_pure.mp ends
    exact each
  | cons head rest ih =>
    obtain ⟨event, now⟩ := head
    obtain ⟨_, k₁, _, _, first, after, _⟩ := run_cons_ends.mp ends
    have same : k₁.table.config = k.table.config := (handle_alike event).ends first
    have sound₁ := handle_sound sound first
    refine ih sound₁ (same.trans settings) ?_ after
    intro c' member
    rcases handle_origin sound first (get?_of_there sound₁.proper member) with
      ⟨_, fresh⟩ | ⟨c, _, found, _, befalls⟩
    · rw [fresh, settings]
      exact bound _
    · have there := (Table.get?_some found).1
      rw [settings] at befalls
      exact kept (sound.proper.coherent c there) (each c there) befalls

theorem run_equipped (ends : ((Stack.empty config generator).run 0 history).Ends σ k) :
    ∀ c ∈ k.table.connections, c.Equipped :=
  run_each (fun _ => Connection.equipped_of_free (Or.inl rfl)) befalls_equipped
    (sound_empty config generator) rfl (fun _ member => absurd member List.not_mem_nil) ends

end Stack
end TcpEngine

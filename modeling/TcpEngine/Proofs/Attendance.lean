import TcpEngine.Proofs.Connection.Course
import TcpEngine.Proofs.Stack.Life

/-!
Receive calls and the text that they wait for. Wherever text comes to be in the buffer it is handed to
the call that waits, and where the FIN of the peer is counted a call without text is told. The one place
where that is missed is a close before the handshake is done, if text came with the SYN of the peer.
-/
namespace TcpEngine

def Event.closes? : Event → Option Endpoint
  | .close here => some here
  | _ => none

theorem Event.closes?_some {event : Event} {here : Endpoint} :
    event.closes? = some here ↔ event = .close here := by
  cases event <;> simp [closes?]

namespace Connection

variable {s : Segment} {iss : SeqNumber} {now : Instant} {σ : List Signal} {a : Arrival}
  {c c' d : Connection} {call : CallId} {event : Event} {ds : List Datagram} {timer : Option Config}
  {config : Config}

/-- No text is kept from a receive call that waits, and none waits once the peer has finished. Text that
    came with the SYN of the peer stays where it is until the handshake is done. -/
structure Attentive (c : Connection) : Prop where
  text : c.state ≠ .synReceived → c.reception.isSome = true → c.buffer.toList = []
  finished : c.state.peerDone = true → c.reception = none

def Strands (c c' : Connection) : Prop :=
  c.state = .synReceived ∧ c.reception.isSome = true ∧ c.buffer.toList ≠ [] ∧ c'.state = .finWait1

instance (c c' : Connection) : Decidable (Strands c c') := inferInstanceAs (Decidable (_ ∧ _))

theorem attentive_idle (idle : c.reception = none) : Attentive c where
  text := by
    intro _ waits
    rw [idle] at waits
    cases waits
  finished := fun _ => idle

theorem attentive_served (served : c.reception = none ∨ c.buffer.toList = [])
    (going : c.state.peerDone = false) : Attentive c where
  text := by
    intro _ waits
    rcases served with idle | empty
    · rw [idle] at waits
      cases waits
    · exact empty
  finished := by
    intro done
    rw [going] at done
    cases done

theorem Kept.attentive (kept : Kept c d) (past : c.state.pastHandshake = true) (h : Attentive c) :
    Attentive d where
  text := by
    intro _ waits
    rw [kept.reception] at waits
    rw [kept.buffer]
    refine h.text ?_ waits
    intro state
    rw [state] at past
    cases past
  finished := by
    intro done
    rw [kept.done] at done
    rw [kept.reception]
    exact h.finished done

theorem attentive_deliver (h : Attentive c) (ends : c.deliver.Ends σ c') : Attentive c' := by
  rcases deliver_ends ends with ⟨_, rfl, _⟩ | ⟨_, _, _, _, rfl⟩
  · exact h
  · exact attentive_idle rfl

theorem attentive_fin {finished : Bool} (past : c.state.pastHandshake = true) (h : Attentive c)
    (ends : (c.receiveFin s now).Ends σ (c', finished)) : Attentive c' := by
  rcases receiveFin_ends ends with ⟨_, same⟩ | ⟨_, _, counted⟩
  · obtain ⟨rfl, _⟩ := Prod.mk.inj same
    exact h
  · obtain ⟨_, _, rfl⟩ := countFin_counts counted
    apply attentive_idle
    change (if c.buffer.isEmpty then none else c.reception) = none
    split
    · rfl
    · rename_i filled
      rw [Ring.isEmpty_iff] at filled
      rw [← Option.not_isSome_iff_eq_none]
      intro waits
      refine filled (h.text ?_ waits)
      intro state
      rw [state] at past
      cases past

theorem attentive_content (past : c.state.pastHandshake = true) (h : Attentive c)
    (content : Content s now c a) : Attentive a.connection := by
  cases content with
  | quiet => exact ⟨h.text, h.finished⟩
  | fin urgent ends => exact attentive_fin (c := c.noted urgent) past ⟨h.text, h.finished⟩ ends
  | text urgent receives _ taken served ends =>
    have state := (deliver_state served).trans (acceptText_state taken)
    have going := State.open_of_receives receives
    refine attentive_fin ?_ (attentive_served (deliver_served served) ?_) ends
    · rw [state]
      exact past
    · rw [state]
      exact going

theorem attentive_arrives (coherent : Coherent c) (h : Attentive c)
    (ends : (c.arrives s iss now).Ends σ a) : Attentive a.connection := by
  cases arrives_course coherent ends with
  | refused | unsent => exact h
  | shut => exact attentive_idle rfl
  | meets _ _ _ state =>
    constructor
    · intro later
      exact absurd state later
    · simp [Arrival.answered, state, State.peerDone]
  | greets _ _ _ state _ served fin =>
    refine attentive_fin ?_ (attentive_served served ?_) fin
    all_goals
      rw [state]
      rfl
  | unfit => exact ⟨h.text, h.finished⟩
  | acknowledged past kept => exact kept.attentive past h
  | content past _ kept content => exact attentive_content kept.past (kept.attentive past h) content
  | establish _ _ served kept content =>
    have state := deliver_state served
    refine attentive_content kept.past (kept.attentive ?_ (attentive_served (deliver_served served) ?_))
      content
    all_goals
      rw [state]
      rfl

theorem attentive_turn (h : Attentive c) (turn : Turn timer now c σ c') : Attentive c' := by
  cases turn with
  | deliver ends => exact attentive_deliver h ends
  | release | review => exact ⟨h.text, h.finished⟩
  | terminate ends =>
    obtain ⟨_, rfl⟩ := terminate_ends.mp ends
    exact attentive_idle rfl

theorem attentive_finished {after : State} (h : Attentive c) (states : Finishes c.state after)
    (straight : ¬ Strands c (c.finished after now call)) :
    Attentive (c.finished after now call) := by
  rcases states with ⟨_ | opened, rfl⟩ | ⟨waits, rfl⟩
  · rename_i early
    refine attentive_served ?_ rfl
    by_cases waits : c.reception = none
    · exact Or.inl waits
    · refine Or.inr (Decidable.byContradiction fun filled => straight ⟨early, ?_, filled, rfl⟩)
      exact Option.isSome_iff_ne_none.mpr waits
  · refine attentive_served ?_ rfl
    by_cases waits : c.reception = none
    · exact Or.inl waits
    · exact Or.inr (h.text (by simp [opened]) (Option.isSome_iff_ne_none.mpr waits))
  · exact attentive_idle (h.finished (by rw [waits]; rfl))

theorem attentive_called (coherent : Coherent c) (h : Attentive c) (straight : ¬ Strands c c')
    (called : Called iss now call event c σ ds c') : Attentive c' := by
  cases called with
  | told | idle => exact h
  | timed => exact ⟨h.text, h.finished⟩
  | listen free | fail free | ask free =>
    exact attentive_served (Or.inr (coherent.silent (dead_of_free free)).2)
      (by rcases free with state | state <;> simp [state, State.peerDone, asked, starting])
  | send => exact ⟨h.text, h.finished⟩
  | receive idle _ ends _ due =>
    have state := deliver_state ends
    refine ⟨fun _ waits => ?_, fun done => ?_⟩
    · rcases deliver_served ends with none | empty
      · rw [none] at waits
        cases waits
      · exact empty
    · rw [state] at done
      rcases deliver_ends ends with ⟨_, rfl, none | empty⟩ | ⟨_, _, _, _, rfl⟩
      · cases none
      · have empty : c.buffer.length = 0 := by simpa [Ring.isEmpty] using empty
        refine absurd ?_ due
        simp only at done
        cases state : c.state <;> simp_all [State.peerDone]
      · rfl
  | quit _ ends | abort _ ends =>
    obtain ⟨_, rfl⟩ := terminate_ends.mp ends
    exact attentive_idle rfl
  | finish states => exact attentive_finished h states straight

theorem attentive_befalls (coherent : Coherent c) (h : Attentive c)
    (straight : (∃ here, event = .close here) → ¬ Strands c c')
    (befalls : Befalls config now call event c σ ds c') : Attentive c' := by
  cases befalls with
  | spared => exact h
  | called _ _ called =>
    refine attentive_called coherent h ?_ called
    rintro ⟨early, waits, filled, later⟩
    cases called with
    | finish => exact straight ⟨_, rfl⟩ ⟨early, waits, filled, later⟩
    | told | timed | send | idle => cases early.symm.trans later
    | listen | ask => cases later
    | fail => cases early.symm.trans later
    | receive _ _ ends =>
      rw [deliver_state ends] at later
      cases early.symm.trans later
    | quit _ ends | abort _ ends =>
      obtain ⟨_, rfl⟩ := terminate_ends.mp ends
      cases later
  | arrived _ _ _ arrives => exact attentive_arrives coherent h arrives
  | timed ends =>
    exact (onTimer_turns ends).1.keeps (P := Attentive) attentive_turn h

theorem Strands.close_here {here : Endpoint} (strands : Strands c c')
    (befalls : Befalls config now call (.close here) c σ ds c') : here = c.here := by
  cases befalls with
  | spared => cases strands.1.symm.trans strands.2.2.2
  | called _ callee => simpa [Event.callee?] using callee
  | arrived _ brings => cases brings

theorem strands_befalls {here : Endpoint} (strands : Strands c c')
    (befalls : Befalls config now call (.close here) c σ ds c') : ¬ Attentive c' := by
  obtain ⟨early, waits, filled, later⟩ := strands
  intro attentive
  have off : c'.state ≠ .synReceived := by simp [later]
  cases befalls with
  | spared => cases early.symm.trans later
  | arrived _ brings => cases brings
  | called _ _ called =>
    cases called with
    | told => cases early.symm.trans later
    | quit _ ends =>
      obtain ⟨_, rfl⟩ := terminate_ends.mp ends
      cases later
    | finish => exact filled (attentive.text off waits)

end Connection

namespace Stack

variable {k k' : Stack} {now : Instant} {σ τ : List Signal} {event : Event} {answer : Answer}
  {place : Nat} {history : List (Event × Instant)}

def Attentive (k : Stack) : Prop := ∀ c ∈ k.table.connections, c.Attentive

def Strands (k : Stack) (event : Event) (k' : Stack) : Prop :=
  ∃ here ∈ event.closes?, ∃ c ∈ k.table.get? here, ∃ c' ∈ k'.table.get? here, c.Strands c'

instance (k : Stack) (event : Event) (k' : Stack) : Decidable (k.Strands event k') :=
  inferInstanceAs (Decidable (∃ here ∈ event.closes?, ∃ c ∈ k.table.get? here,
    ∃ c' ∈ k'.table.get? here, c.Strands c'))

def Unstranded (k : Stack) (place : Nat) : List (Event × Instant) → Prop
  | [] => True
  | (event, now) :: rest => match (k.handle event now place).outcome with
    | .ok (k', _) => ¬ k.Strands event k' ∧ k'.Unstranded (place + 1) rest
    | .error _ => True

instance decidableUnstranded : (k : Stack) → (place : Nat) → (history : List (Event × Instant)) →
    Decidable (k.Unstranded place history)
  | _, _, [] => inferInstanceAs (Decidable True)
  | k, place, (event, now) :: rest =>
    have : Decidable (match (k.handle event now place).outcome with
        | .ok (k', _) => ¬ k.Strands event k' ∧ k'.Unstranded (place + 1) rest
        | .error _ => True) :=
      match (k.handle event now place).outcome with
      | .ok (k', _) =>
        have := decidableUnstranded k' (place + 1) rest
        inferInstanceAs (Decidable (_ ∧ _))
      | .error _ => inferInstanceAs (Decidable True)
    this

theorem handle_attentive (sound : Sound place k) (attentive : Attentive k)
    (ends : (k.handle event now place).Ends σ (k', answer)) :
    Attentive k' ↔ ¬ k.Strands event k' := by
  constructor
  · rintro attentive' ⟨here, closes, c, found, c', found', strands⟩
    rw [Option.mem_def] at closes found found'
    obtain rfl := Event.closes?_some.mp closes
    rcases handle_origin sound ends found' with ⟨missing, _⟩ | ⟨d, ds, found₁, _, befalls⟩
    · cases missing.symm.trans found
    · rw [found, Option.some.injEq] at found₁
      subst found₁
      exact Connection.strands_befalls strands befalls (attentive' c' (Table.get?_some found').1)
  · intro straight c' member
    have there := get?_of_there (handle_proper sound.proper ends) member
    rcases handle_origin sound ends there with ⟨_, fresh⟩ | ⟨c, ds, found, _, befalls⟩
    · rw [fresh]
      exact Connection.attentive_idle rfl
    · have old := (Table.get?_some found).1
      refine Connection.attentive_befalls (sound.proper.coherent c old) (attentive c old) ?_ befalls
      rintro ⟨here, rfl⟩ strands
      have same := (strands.close_here befalls).trans (Table.get?_some found).2
      subst same
      exact straight ⟨c'.here, rfl, c, found, c', there, strands⟩

theorem run_attentive (sound : Sound place k) (attentive : Attentive k)
    (unstranded : k.Unstranded place history) (ends : (k.run place history).Ends σ k') :
    Attentive k' := by
  induction history generalizing k place σ with
  | nil =>
    obtain ⟨_, rfl⟩ := Act.ends_pure.mp ends
    exact attentive
  | cons head rest ih =>
    obtain ⟨event, now⟩ := head
    obtain ⟨_, _, _, _, first, after, _⟩ := run_cons_ends.mp ends
    rw [Unstranded, first] at unstranded
    obtain ⟨straight, onward⟩ := unstranded
    exact ih (handle_sound sound first) ((handle_attentive sound attentive first).mpr straight) onward
      after

/-- In every history that begins with an empty table and strands no text, no text is kept from a receive
    call that waits, and none waits once the peer has finished. The next event keeps it so exactly if it
    strands no text either. -/
theorem receive_attended_iff_unstranded {config : Config} {generator : SeqGenerator}
    (unstranded : (Stack.empty config generator).Unstranded 0 history)
    (ends : ((Stack.empty config generator).run 0 history).Ends σ k)
    (last : (k.handle event now history.length).Ends τ (k', answer)) :
    (∀ c ∈ k.table.connections, c.Attentive) ∧
      ((∀ c ∈ k'.table.connections, c.Attentive) ↔ ¬ k.Strands event k') := by
  have start := sound_empty config generator
  have sound := run_sound start ends
  have attentive := run_attentive start (fun _ member => absurd member List.not_mem_nil) unstranded ends
  rw [Nat.zero_add] at sound
  exact ⟨attentive, handle_attentive sound attentive last⟩

def greeting : Event :=
  -- A SYN with eight octets of text.
  .ingress [19, 136, 0, 80, 0, 0, 3, 232, 0, 0, 0, 0, 80, 2, 1, 244, 210, 123, 0, 0, 103, 114, 101,
    101, 116, 105, 110, 103] ⟨10, 0, 0, 2⟩ ⟨10, 0, 0, 1⟩

def greeted : List (Event × Instant) := expecting ++ [(greeting, .start)]

def welcome : Event :=
  -- The acknowledgment of our SYN.
  .ingress [19, 136, 0, 80, 0, 0, 3, 241, 198, 236, 74, 6, 80, 16, 1, 244, 113, 34, 0, 0]
    ⟨10, 0, 0, 2⟩ ⟨10, 0, 0, 1⟩

theorem welcome_attended : ∃ σ k τ k' answer,
    (Stack.empty { receiveWindow := 8 } (.ofKey 1 2)).Unstranded 0 greeted ∧
    ((Stack.empty { receiveWindow := 8 } (.ofKey 1 2)).run 0 greeted).Ends σ k ∧
    (k.handle welcome .start greeted.length).Ends τ (k', answer) ∧
    (∃ c ∈ k.table.connections, c.reception.isSome = true ∧ c.buffer.toList ≠ []) ∧
    τ = [⟨2, .received [103, 114, 101, 101, 116]⟩] ∧
    ((∀ c ∈ k'.table.connections, c.Attentive) ↔ ¬ k.Strands welcome k') := by
  let start := Stack.empty { receiveWindow := 8 } (.ofKey 1 2)
  let k := (start.run 0 greeted).result start
  have unstranded : start.Unstranded 0 greeted := by decide +kernel
  have ends : (start.run 0 greeted).Ends _ k := Act.ends_result start (by decide +kernel)
  have held : ∃ c ∈ k.table.connections, c.reception.isSome = true ∧ c.buffer.toList ≠ [] := by
    decide +kernel
  have told : (k.handle welcome .start greeted.length).signals
      = [⟨2, .received [103, 114, 101, 101, 116]⟩] := by decide +kernel
  obtain ⟨⟨k', answer⟩, last⟩ : ∃ result, (k.handle welcome .start greeted.length).Ends
      [⟨2, .received [103, 114, 101, 101, 116]⟩] result :=
    ⟨_, told ▸ Act.ends_result (k, Answer.accepted) (by decide +kernel)⟩
  exact ⟨_, k, _, k', answer, unstranded, ends, last, held, rfl,
    (receive_attended_iff_unstranded unstranded ends last).2⟩

/-- A close that comes first strands the text. -/
theorem greeting_stranded : ∃ σ k c,
    ((Stack.empty { receiveWindow := 8 } (.ofKey 1 2)).run 0
      (greeted ++ [(.close ⟨⟨10, 0, 0, 1⟩, 80⟩, .start)])).Ends σ k ∧
    c ∈ k.table.connections ∧ c.state = .finWait1 ∧ ¬ c.Attentive := by
  let start := Stack.empty { receiveWindow := 8 } (.ofKey 1 2)
  let k := (start.run 0 (greeted ++ [(.close ⟨⟨10, 0, 0, 1⟩, 80⟩, .start)])).result start
  let c := (k.table.get? ⟨⟨10, 0, 0, 1⟩, 80⟩).getD (.bound ⟨⟨10, 0, 0, 1⟩, 80⟩ {})
  have ends : (start.run 0 _).Ends _ k := Act.ends_result start (by decide +kernel)
  have state : c.state = .finWait1 := by decide +kernel
  have waits : c.reception.isSome = true := by decide +kernel
  have filled : c.buffer.toList ≠ [] := by decide +kernel
  refine ⟨_, k, c, ends, by decide +kernel, state, ?_⟩
  intro attentive
  exact filled (attentive.text (by simp [state]) waits)

end Stack
end TcpEngine

import Mathlib.Algebra.GroupWithZero.Nat
import TcpEngine.Proofs.Connection.Course
import TcpEngine.Proofs.Wire

/-!
How much a segment can still stir up. Whatever it is answered with can stir up less than the segment
itself, or leaves the connection less to do. The one exception is a bare acknowledgment that the
connection refuses, as it is answered by another one.
-/
namespace TcpEngine

variable {s t : Segment} {iss : SeqNumber} {now : Instant} {σ : List Signal} {a : Arrival}
  {c c' d : Connection}

namespace Segment

instance : DecidablePred Segment.Bare := fun _ => inferInstanceAs (Decidable (_ ∧ _))

/-- A reset is not answered. A segment that takes a place in the sequence is answered by a reset or an
    acknowledgment, or where a handshake begins by a SYN. -/
def unrest (s : Segment) : Nat :=
  if s.header.flags.has .rst then 1 else if s.Bare then 2 else 3

def Plain (s : Segment) : Prop := s.Bare ∧ s.header.flags.has .rst = false

instance : DecidablePred Segment.Plain := fun _ => inferInstanceAs (Decidable (_ ∧ _))

theorem unrest_pos : 0 < s.unrest := by
  unfold unrest
  split
  · decide
  · split <;> decide

theorem unrest_le : s.unrest ≤ 3 := by
  unfold unrest
  split
  · decide
  · split <;> decide

theorem unrest_calm (calm : s.header.flags.has .rst = false) : 2 ≤ s.unrest := by
  unfold unrest
  rw [calm]
  split
  · contradiction
  · split <;> decide

theorem unrest_full (calm : s.header.flags.has .rst = false) (full : ¬ s.Bare) : s.unrest = 3 := by
  unfold unrest
  rw [calm, if_neg full]
  rfl

theorem unrest_plain (plain : s.Plain) : s.unrest = 2 := by
  rw [unrest, plain.2, if_pos plain.1]
  rfl

theorem unrest_reset (rst : s.header.flags.has .rst = true) : s.unrest = 1 := by
  rw [unrest, rst]
  rfl

theorem not_bare_of_syn (syn : s.header.flags.has .syn = true) : ¬ s.Bare := by
  intro bare
  rw [bare.2.1] at syn
  cases syn

theorem unrest_resetReply (reset : s.resetReply = .ok (some t)) : t.unrest < s.unrest := by
  rw [unrest_reset (resetReply_formed reset).2]
  unfold resetReply at reset
  dsimp only at reset
  split at reset
  · cases reset
  · rename_i calm
    exact unrest_calm (by simpa using calm)

end Segment

namespace Connection

theorem control_ack_plain (sent : c.control [.ack] = some t) : t.Plain := by
  have plain : (Flags.ofList [.ack]).has .syn = false ∧ (Flags.ofList [.ack]).has .fin = false ∧
      (Flags.ofList [.ack]).has .rst = false := by decide
  obtain ⟨_, _, rfl⟩ := Option.map_eq_some_iff.mp sent
  exact ⟨⟨rfl, plain.1, plain.2.1⟩, plain.2.2⟩

def unrest (c : Connection) : Nat := if c.state = .listen ∨ c.state = .synSent then 1 else 0

theorem unrest_le : c.unrest ≤ 1 := by
  unfold unrest
  split <;> decide

theorem unrest_synchronized (live : c.state.isSynchronized = true) : c.unrest = 0 := by
  apply if_neg
  rintro (state | state) <;> rw [state] at live <;> cases live

theorem unrest_waiting (waits : c.state = .listen ∨ c.state = .synSent) : c.unrest = 1 := if_pos waits

theorem unrest_shut : d.shut.unrest = 0 := rfl

def refuses (c : Connection) (s : Segment) : Bool :=
  c.state.isSynchronized &&
    match c.acceptable s.header with
    | .ok fits => !fits || c.state.pastHandshake && s.header.ack.any (·.after c.send.next)
    | .error _ => false

theorem refuses_iff : c.refuses s = true ↔ c.state.isSynchronized = true ∧
    (c.acceptable s.header = .ok false ∨ c.acceptable s.header = .ok true ∧
      c.state.pastHandshake = true ∧ ∃ ack, s.header.ack = some ack ∧ ack.after c.send.next = true) := by
  rw [refuses, Bool.and_eq_true]
  apply and_congr_right
  intro _
  split
  · rename_i fits tested
    cases fits <;> simp [tested, Option.any_eq_true]
  · rename_i tested
    simp [tested]

/-- A plain acknowledgment that is refused is answered by another, and nothing is changed. -/
theorem arrives_refused (plain : s.Plain) (refused : c.refuses s = true) :
    c.arrives s iss now = return .answered c (c.control [.ack]) := by
  obtain ⟨live, refused⟩ := refuses_iff.mp refused
  obtain ⟨⟨_, syn, fin⟩, rst⟩ := plain
  have arrives : c.arrives s iss now = c.arrivesSynchronized s now := by
    unfold arrives
    split <;> first | rfl | (rename_i state; rw [state] at live; cases live)
  rw [arrives]
  rcases refused with outside | ⟨inside, past, ack, given, beyond⟩
  · unfold arrivesSynchronized
    simp only [outside, Act.lift_bind, rst, fin, Bool.false_eq_true, if_false, and_false]
  · have begun : c.state ≠ .synReceived := by
      intro state
      rw [state] at past
      cases past
    rw [arrivesSynchronized_processed ⟨inside, rst, syn⟩ given, arrivesWithAck, if_neg begun,
      acknowledge, if_pos beyond]

end Connection

def Arrival.unrest (a : Arrival) : Nat := a.connection.unrest + (a.answers.map Segment.unrest).sum

namespace Connection

theorem unrest_answered {answer : Option Segment} :
    (Arrival.answered c answer).unrest = c.unrest + answer.elim 0 Segment.unrest := by
  cases answer <;> simp [Arrival.unrest, Arrival.answered]

theorem unrest_silent : (Arrival.silent c).unrest = c.unrest := rfl

theorem unrest_acked (live : c.state.isSynchronized = true) :
    (Arrival.answered c (c.control [.ack])).unrest ≤ 2 := by
  rw [unrest_answered, unrest_synchronized live]
  cases sent : c.control [.ack] with
  | none => simp
  | some t => simp [Segment.unrest_plain (control_ack_plain sent)]

theorem acked_calms (calm : s.header.flags.has .rst = false) (full : ¬ s.Bare)
    (live : c.state.isSynchronized = true) :
    (Arrival.answered c (c.control [.ack])).unrest < s.unrest := by
  have acked := unrest_acked live
  rw [Segment.unrest_full calm full]
  omega

theorem refused_calms {answer : Option Segment} (reset : answer = none ∨ s.resetReply = .ok answer) :
    (Arrival.answered c answer).unrest < c.unrest + s.unrest := by
  rw [unrest_answered]
  apply Nat.add_lt_add_left
  cases answer with
  | none => exact Segment.unrest_pos
  | some t =>
    rcases reset with none | reset
    · cases none
    · exact Segment.unrest_resetReply reset

theorem shut_calms {answer : Option Segment} (told : answer = none ∨
    s.header.flags.has .rst = false ∧ s.header.flags.has .syn = true ∧ answer = c.control [.rst]) :
    (Arrival.answered d.shut answer).unrest < s.unrest := by
  rw [unrest_answered, unrest_shut, Nat.zero_add]
  cases answer with
  | none => exact Segment.unrest_pos
  | some t =>
    rcases told with none | ⟨calm, _, sent⟩
    · cases none
    · have rst : t.unrest = 1 :=
        Segment.unrest_reset (by rw [(segment_formed sent.symm).2]; decide)
      have least := Segment.unrest_calm calm
      simp only [Option.elim, rst]
      omega

theorem meets_calms {flags : Flags} {seq : SeqNumber} {text : Octets}
    (begins : c.state = .listen ∨ c.state = .synSent) (calm : s.header.flags.has .rst = false)
    (syn : s.header.flags.has .syn = true) (state : c'.state = .synReceived) :
    (Arrival.answered c' (c'.segment flags seq text)).unrest < c.unrest + s.unrest := by
  have live : c'.state.isSynchronized = true := by
    rw [state]
    rfl
  rw [unrest_answered, unrest_synchronized live, unrest_waiting begins,
    Segment.unrest_full calm (Segment.not_bare_of_syn syn)]
  cases c'.segment flags seq text with
  | none => decide
  | some t =>
    have most : t.unrest ≤ 3 := Segment.unrest_le
    simp only [Option.elim]
    omega

theorem content_calms (calm : s.header.flags.has .rst = false) (live : c.state.isSynchronized = true)
    (content : Content s now c a) : a.unrest < s.unrest := by
  cases content with
  | quiet urgent =>
    rw [unrest_silent, unrest_synchronized (c := c.noted urgent) live]
    exact Segment.unrest_pos
  | fin urgent ends =>
    have full : ¬ s.Bare := by
      intro bare
      rcases receiveFin_ends ends with ⟨_, same⟩ | ⟨fin, _⟩
      · cases (Prod.mk.inj same).2
      · rw [bare.2.2] at fin
        cases fin
    exact acked_calms calm full (receiveFin_state (c := c.noted urgent) live ends)
  | text urgent _ filled taken served ends =>
    have full : ¬ s.Bare := fun bare => filled bare.1
    have state := (deliver_state served).trans (acceptText_state taken)
    exact acked_calms calm full (receiveFin_state (state ▸ live) ends)

/-- Only a plain acknowledgment that is refused may stir up as much again. -/
theorem arrives_calms (coherent : c.Coherent) (arrives : (c.arrives s iss now).Ends σ a) :
    s.Plain ∧ c.refuses s = true ∨ a.unrest < c.unrest + s.unrest := by
  have part {n : Nat} (less : n < s.unrest) : n < c.unrest + s.unrest := by omega
  have refused {d : Connection} (calm : s.header.flags.has .rst = false)
      (live : d.state.isSynchronized = true) (refuses : c.refuses s = true) :
      s.Plain ∧ c.refuses s = true ∨
        (Arrival.answered d (d.control [.ack])).unrest < c.unrest + s.unrest := by
    by_cases bare : s.Bare
    · exact Or.inl ⟨⟨bare, calm⟩, refuses⟩
    · exact Or.inr (part (acked_calms calm bare live))
  cases arrives_course coherent arrives with
  | refused reset => exact Or.inr (refused_calms reset)
  | shut told => exact Or.inr (part (shut_calms told))
  | meets begins calm syn state => exact Or.inr (meets_calms begins calm syn state)
  | greets _ calm syn state _ _ ends =>
    have live := receiveFin_state (by rw [state]; rfl) ends
    exact Or.inr (part (acked_calms calm (Segment.not_bare_of_syn syn) live))
  | unfit waitingSince live unfit calm =>
    exact refused (d := { c with waitingSince }) calm live (refuses_iff.mpr ⟨live, Or.inl unfit⟩)
  | unsent past processed given beyond =>
    have live := synchronized_of_past past
    exact refused processed.2.1 live
      (refuses_iff.mpr ⟨live, Or.inr ⟨processed.1, past, _, given, beyond⟩⟩)
  | acknowledged past kept =>
    right
    rw [unrest_silent, unrest_synchronized (synchronized_of_past kept.past)]
    exact part Segment.unrest_pos
  | content past processed kept content =>
    exact Or.inr (part (content_calms processed.2.1 (synchronized_of_past kept.past) content))
  | establish state processed served kept content =>
    exact Or.inr (part (content_calms processed.2.1 (synchronized_of_past kept.past) content))

end Connection
end TcpEngine

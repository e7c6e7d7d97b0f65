import TcpEngine.Proofs.Connection.Parts

/-!
The moves of a connection: whatever a segment or the timer does to it is a chain of these. What a
move requires is what the handlers have checked before it. So an invariant is proved by a case for
each move, and the handlers are gone through only once, here.
-/
namespace TcpEngine

inductive Chain (step : α → List Signal → α → Prop) : α → List Signal → α → Prop where
  | nil (a : α) : Chain step a [] a
  | cons {a b c : α} {σ τ : List Signal} (first : step a σ b) (rest : Chain step b τ c) :
      Chain step a (σ ++ τ) c

namespace Chain
variable {step : α → List Signal → α → Prop}

theorem single {a b : α} {σ : List Signal} (h : step a σ b) : Chain step a σ b := by
  simpa using Chain.cons h (Chain.nil b)

theorem append {a b c : α} {σ τ : List Signal} (first : Chain step a σ b)
    (rest : Chain step b τ c) : Chain step a (σ ++ τ) c := by
  induction first with
  | nil => exact rest
  | cons h _ ih =>
    rw [List.append_assoc]
    exact .cons h (ih rest)

theorem carries {P : List Signal → α → Prop}
    (kept : ∀ {ρ a σ b}, P ρ a → step a σ b → P (ρ ++ σ) b)
    {a b : α} {ρ σ : List Signal} (chain : Chain step a σ b) (start : P ρ a) : P (ρ ++ σ) b := by
  induction chain generalizing ρ with
  | nil => simpa using start
  | cons h _ ih =>
    rw [← List.append_assoc]
    exact ih (kept start h)

theorem keeps {P : α → Prop} (kept : ∀ {a σ b}, P a → step a σ b → P b)
    {a b : α} {σ : List Signal} (chain : Chain step a σ b) (start : P a) : P b := by
  induction chain with
  | nil => exact start
  | cons h _ ih => exact ih (kept start h)

end Chain

def State.pastHandshake (state : State) : Bool := state.isSynchronized && state != .synReceived

theorem Connection.takesUp_iff {c : Connection} {s : Segment} : c.takesUp s = true ↔
    c.state = .listen ∧ s.header.flags.has .rst = false ∧ s.header.ack = none ∧
      s.header.flags.has .syn = true := by
  simp only [takesUp, Bool.and_eq_true, beq_iff_eq, Bool.not_eq_true', Option.isNone_iff_eq_none,
    and_assoc]

def Connection.takenUp (c : Connection) (s : Segment) (iss : SeqNumber) (now : Instant) :
    Connection :=
  { c with
    state := .synReceived
    foreign := some s.sender
    receive := { c.receive with initial := s.header.seq, next := s.header.seq.advance 1 }
    send := { c.send with initial := iss, unacked := iss, next := iss.advance 1, urgent := iss }
    queue := c.queue ++ [⟨iss, .ofList [.syn, .ack], [], now, now, 0, none⟩] }

/-- What a connection does without a segment. Only a timer, with the settings that it runs under, looks
    at what waits. -/
inductive Turn (timer : Option Config) (now : Instant) :
    Connection → List Signal → Connection → Prop where
  | deliver {c c' : Connection} {σ : List Signal} (h : c.deliver.Ends σ c') : Turn timer now c σ c'
  | release {c : Connection} {σ : List Signal} {queue : List Unacked} {roundTrip : RoundTrip}
      (h : (Connection.release c.send.unacked now c.queue c.roundTrip).Ends σ (queue, roundTrip)) :
      Turn timer now c σ { c with queue, roundTrip }
  | review {c : Connection} {config : Config} {found : Connection.Review} {σ : List Signal}
      (runs : timer = some config) (h : (c.review now config c.queue).Ends σ found) :
      Turn timer now c σ { c with queue := found.queue }
  | terminate {c c' : Connection} {σ : List Signal} {error : CallError}
      (h : (c.terminate error).Ends σ c') : Turn timer now c σ c'

/-- What a connection does when a segment arrives. A new incarnation would start from `iss`. -/
inductive Move (s : Segment) (iss : SeqNumber) (now : Instant) :
    Connection → List Signal → Connection → Prop where
  | turn {c c' : Connection} {σ : List Signal} (h : Turn none now c σ c') : Move s iss now c σ c'
  /-- The window of the peer, the urgent pointer and the time of waiting are noted. -/
  | note {c c' : Connection} (window : UInt16) (windowSeq windowAck urgent : SeqNumber)
      (waitingSince : Instant)
      (h : c' = { c with
        send := { c.send with window, windowSeq, windowAck }
        receive := { c.receive with urgent }
        waitingSince }) : Move s iss now c [] c'
  | takeUp {c : Connection} (takes : c.takesUp s = true) :
      Move s iss now c [] (c.takenUp s iss now)
  /-- A SYN answers ours. -/
  | greet {c : Connection} {σ : List Signal} {queue : List Unacked} {roundTrip : RoundTrip}
      {ack : SeqNumber} (asked : c.state = .synSent) (syn : s.header.flags.has .syn = true)
      (given : s.header.ack = some ack) (above : ack.after c.send.initial = true)
      (sent : ack.atOrBefore c.send.next = true)
      (h : (Connection.release ack now c.queue c.roundTrip).Ends σ (queue, roundTrip)) :
      Move s iss now c σ { c with
        state := .established
        receive := { c.receive with
          initial := s.header.seq, next := s.header.seq.advance 1 }
        send := { c.send with unacked := ack }
        queue, roundTrip }
  /-- A SYN crosses ours. -/
  | cross {c : Connection} (asked : c.state = .synSent) (syn : s.header.flags.has .syn = true)
      (none : s.header.ack = none) :
      Move s iss now c [] { c with
        state := .synReceived
        receive := { c.receive with
          initial := s.header.seq, next := s.header.seq.advance 1 }
        queue := c.queue.map fun e =>
          if e.flags.has .syn then { e with flags := .ofList [.syn, .ack] } else e }
  /-- The text that came with a SYN is kept. -/
  | acceptFirst {c c' : Connection} (open' : c.state = .synReceived ∨ c.state = .established)
      (syn : s.header.flags.has .syn = true)
      (h : c.acceptText (s.header.seq.advance 1) s.text = .ok c') : Move s iss now c [] c'
  | establish {c : Connection} {ack : SeqNumber} (state : c.state = .synReceived)
      (given : s.header.ack = some ack) (above : c.send.unacked.before ack = true)
      (sent : ack.atOrBefore c.send.next = true) :
      Move s iss now c [] { c with state := .established }
  | advance {c : Connection} {σ : List Signal} {queue : List Unacked} {roundTrip : RoundTrip}
      {ack : SeqNumber} (live : c.state.pastHandshake = true) (given : s.header.ack = some ack)
      (sent : ack.after c.send.next = false) (above : c.send.unacked.before ack = true)
      (h : (Connection.release ack now c.queue c.roundTrip).Ends σ (queue, roundTrip)) :
      Move s iss now c σ { c with send := { c.send with unacked := ack }, queue, roundTrip }
  /-- Our FIN is acknowledged, and the peer may still send. -/
  | halfClose {c : Connection} (state : c.state = .finWait1) (acked : c.finAcked = true) :
      Move s iss now c [] { c with state := .finWait2 }
  /-- Our FIN is acknowledged, and the peer has finished. -/
  | wait {c : Connection} (state : c.state = .closing) (acked : c.finAcked = true) :
      Move s iss now c [] (c.enterTimeWait now)
  | accept {c c' : Connection} (live : c.state.receivesText = true)
      (plain : s.header.flags.has .syn = false)
      (h : c.acceptText s.header.seq s.text = .ok c') : Move s iss now c [] c'
  /-- The FIN of the peer is in its place. -/
  | finish {c c' : Connection} {σ : List Signal} (live : c.state.pastHandshake = true)
      (fin : s.header.flags.has .fin = true) (place : Connection.textStop s = c.receive.next)
      (h : (c.countFin now).Ends σ (c', true)) : Move s iss now c σ c'

/-- What a connection that goes on may answer to a segment, from its state after it. -/
inductive Answers (s : Segment) (after : Connection) : Segment → Prop where
  | reset {answer : Segment} (h : s.resetReply = .ok (some answer)) : Answers s after answer
  | ack {answer : Segment} (live : after.state.isSynchronized = true)
      (h : after.control [.ack] = some answer) : Answers s after answer
  | syn {answer : Segment} (state : after.state = .synReceived)
      (h : after.segment (.ofList [.syn, .ack]) after.send.initial [] = some answer) :
      Answers s after answer

end TcpEngine

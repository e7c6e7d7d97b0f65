import TcpEngine.Proofs.Connection.Coherence
import TcpEngine.Proofs.Connection.Parts

/-!
Twins: two connections that differ only in what the engine never looks at. Whatever happens to both
does the same to both, and leaves twins.
-/
namespace TcpEngine

inductive Fares (R : α → β → Prop) : Except Fault α → Except Fault β → Prop
  | ok {a : α} {b : β} (related : R a b) : Fares R (.ok a) (.ok b)
  | error (fault : Fault) : Fares R (.error fault) (.error fault)

section
variable {R : α → β → Prop} {S : γ → δ → Prop}

theorem fares_bind {outcome : Except Fault α} {outcome' : Except Fault β} {next : α → Except Fault γ}
    {next' : β → Except Fault δ} (first : Fares R outcome outcome')
    (later : ∀ a b, R a b → Fares S (next a) (next' b)) :
    Fares S (outcome >>= next) (outcome' >>= next') := by
  cases first with
  | ok related => exact later _ _ related
  | error fault => exact .error fault

theorem fares_after {outcome : Except Fault α} {next : α → Except Fault γ} {next' : α → Except Fault δ}
    (later : ∀ a, Fares S (next a) (next' a)) : Fares S (outcome >>= next) (outcome >>= next') := by
  cases outcome with
  | ok a => exact later a
  | error fault => exact .error fault

theorem Fares.mono {R' : α → β → Prop} {outcome : Except Fault α} {outcome' : Except Fault β}
    (h : Fares R outcome outcome') (weaker : ∀ a b, R a b → R' a b) : Fares R' outcome outcome' := by
  cases h with
  | ok related => exact .ok (weaker _ _ related)
  | error fault => exact .error fault

namespace Act

structure Like (R : α → β → Prop) (act : Act α) (act' : Act β) : Prop where
  signals : act.signals = act'.signals
  outcome : Fares R act.outcome act'.outcome

theorem like_pure {a : α} {b : β} (related : R a b) : Like R (pure a) (pure b) := ⟨rfl, .ok related⟩

theorem like_lift {outcome : Except Fault α} {outcome' : Except Fault β} (h : Fares R outcome outcome') :
    Like R (liftM outcome : Act α) (liftM outcome') :=
  ⟨rfl, h⟩

theorem Like.mono {R' : α → β → Prop} {act : Act α} {act' : Act β} (h : Like R act act')
    (weaker : ∀ a b, R a b → R' a b) : Like R' act act' :=
  ⟨h.signals, h.outcome.mono weaker⟩

theorem like_bind {act : Act α} {act' : Act β} {next : α → Act γ} {next' : β → Act δ}
    (first : Like R act act') (later : ∀ a b, R a b → Like S (next a) (next' b)) :
    Like S (act >>= next) (act' >>= next') := by
  obtain ⟨σ, outcome⟩ := act
  obtain ⟨σ', outcome'⟩ := act'
  obtain ⟨rfl, fares⟩ : σ = σ' ∧ Fares R outcome outcome' := ⟨first.signals, first.outcome⟩
  cases fares with
  | ok related =>
    rw [bind_of_ok rfl, bind_of_ok rfl]
    have later := later _ _ related
    exact ⟨congrArg (σ ++ ·) later.signals, later.outcome⟩
  | error fault =>
    rw [bind_of_fault rfl, bind_of_fault rfl]
    exact ⟨rfl, .error fault⟩

theorem like_after {act : Act α} {next : α → Act γ} {next' : α → Act δ}
    (later : ∀ a, Like S (next a) (next' a)) : Like S (act >>= next) (act >>= next') := by
  obtain ⟨σ, outcome⟩ := act
  cases outcome with
  | ok a =>
    rw [bind_of_ok rfl, bind_of_ok rfl]
    exact ⟨congrArg (σ ++ ·) (later a).signals, (later a).outcome⟩
  | error fault =>
    rw [bind_of_fault rfl, bind_of_fault rfl]
    exact ⟨rfl, .error fault⟩

theorem like_ite {p q : Prop} [Decidable p] [Decidable q] {act other : Act α} {act' other' : Act β}
    (same : q ↔ p) (first : p → Like R act act') (second : ¬ p → Like R other other') :
    Like R (if p then act else other) (if q then act' else other') := by
  by_cases h : p
  · rw [if_pos h, if_pos (same.mpr h)]
    exact first h
  · rw [if_neg h, if_neg (mt same.mp h)]
    exact second h

end Act
end

namespace Ring

structure Alike (r r' : Ring) : Prop where
  room : r.capacity = r'.capacity
  text : r.toList = r'.toList

variable {r r' : Ring}

theorem Alike.refl (r : Ring) : r.Alike r := ⟨rfl, rfl⟩

theorem Alike.length (alike : r.Alike r') : r.length = r'.length := by
  rw [← length_toList, alike.text, length_toList]

theorem Alike.window (alike : r.Alike r') : r.window = r'.window := by
  rw [Ring.window, alike.room, alike.length, Ring.window]

theorem Alike.isEmpty (alike : r.Alike r') : r.isEmpty = r'.isEmpty := by
  rw [Ring.isEmpty, alike.length, Ring.isEmpty]

theorem Alike.clear (alike : r.Alike r') : r.clear.Alike r'.clear :=
  ⟨alike.room, by rw [toList_clear, toList_clear]⟩

theorem Alike.enqueue (alike : r.Alike r') (text : Octets) :
    (r.enqueue text).1.Alike (r'.enqueue text).1 ∧ (r.enqueue text).2 = (r'.enqueue text).2 := by
  refine ⟨⟨?_, ?_⟩, ?_⟩
  · rw [enqueue_capacity, enqueue_capacity, alike.room]
  · rw [toList_enqueue, toList_enqueue, alike.text, alike.window]
  · rw [enqueue_snd, enqueue_snd, alike.window]

theorem Alike.dequeue (alike : r.Alike r') (count : Nat) :
    (r.dequeue count).1.Alike (r'.dequeue count).1 ∧ (r.dequeue count).2 = (r'.dequeue count).2 := by
  refine ⟨⟨?_, ?_⟩, ?_⟩
  · rw [dequeue_capacity, dequeue_capacity, alike.room]
  · rw [toList_dequeue, toList_dequeue, alike.text]
  · rw [dequeue_octets, dequeue_octets, alike.text]

end Ring

namespace Connection

/-- A connection like this one. They may differ in where the text is stored, in the urgent pointer and
    the initial number of the peer, which are noted only, and outside TIME-WAIT in when that was entered. -/
inductive Twin (c : Connection) : Connection → Prop
  | mk (receive : ReceiveVars) (waitingSince : Instant) (buffer : Ring)
      (number : receive.next = c.receive.next) (waits : c.state = .timeWait → waitingSince = c.waitingSince)
      (held : c.buffer.Alike buffer) : Twin c { c with receive, waitingSince, buffer }

def Twins (a b : Connection × β) : Prop := Twin a.1 b.1 ∧ a.2 = b.2

def Mirrored (a b : Arrival) : Prop := Twin a.connection b.connection ∧ a.answers = b.answers

variable {c d : Connection} {s : Segment} {now : Instant}

theorem Twin.refl (c : Connection) : Twin c c := ⟨_, _, _, rfl, fun _ => rfl, .refl _⟩

theorem Twin.segment (twin : Twin c d) (flags : Flags) (seq : SeqNumber) (text : Octets) :
    c.segment flags seq text = d.segment flags seq text := by
  obtain ⟨receive, waitingSince, buffer, number, waits, held⟩ := twin
  simp only [Connection.segment, window, number, held.window]

theorem Twin.control (twin : Twin c d) (flags : List Flag) : c.control flags = d.control flags := by
  have same : c.send.next = d.send.next := by
    cases twin
    rfl
  rw [Connection.control, twin.segment, same, Connection.control]

theorem Twin.mirrored (twin : Twin c d) (flags : List Flag) :
    Mirrored (.answered c (c.control flags)) (.answered d (d.control flags)) :=
  ⟨twin, congrArg Option.toList (twin.control flags)⟩

theorem Twin.ask (twin : Twin c d) (reception : Option Reception) :
    Twin { c with reception } { d with reception } := by
  obtain ⟨receive, waitingSince, buffer, number, waits, held⟩ := twin
  exact ⟨_, _, _, number, waits, held⟩

theorem Twin.timed (twin : Twin c d) (userTimeout : Duration) :
    Twin { c with userTimeout } { d with userTimeout } := by
  obtain ⟨receive, waitingSince, buffer, number, waits, held⟩ := twin
  exact ⟨_, _, _, number, waits, held⟩

theorem Twin.listen (twin : Twin c d) (foreign : Option Endpoint) :
    Twin { c with foreign, state := .listen } { d with foreign, state := .listen } := by
  obtain ⟨receive, waitingSince, buffer, number, waits, held⟩ := twin
  exact ⟨_, _, _, number, State.noConfusion, held⟩

theorem Twin.shut (twin : Twin c d) : Twin c.shut d.shut := by
  obtain ⟨receive, waitingSince, buffer, number, waits, held⟩ := twin
  exact ⟨_, _, _, number, State.noConfusion, held.clear⟩

theorem Twin.terminate (twin : Twin c d) (error : CallError) :
    Act.Like Twin (c.terminate error) (d.terminate error) := by
  have shut := twin.shut
  cases twin
  exact ⟨rfl, .ok shut⟩

theorem Twin.deliver (twin : Twin c d) : Act.Like Twin c.deliver d.deliver := by
  obtain ⟨receive, waitingSince, buffer, number, waits, held⟩ := twin
  unfold Connection.deliver
  dsimp only
  rw [← held.isEmpty]
  split
  · exact Act.like_pure ⟨_, _, _, number, waits, held⟩
  · split
    · exact Act.like_pure ⟨_, _, _, number, waits, held⟩
    · next reception _ _ =>
      obtain ⟨left, octets⟩ := held.dequeue reception.capacity
      rw [octets]
      exact Act.like_after fun _ => Act.like_pure ⟨_, _, _, number, waits, left⟩

theorem Twin.releaseAcked (twin : Twin c d) : Act.Like Twin (c.releaseAcked now) (d.releaseAcked now) := by
  obtain ⟨receive, waitingSince, buffer, number, waits, held⟩ := twin
  exact Act.like_after fun _ => Act.like_pure ⟨_, _, _, number, waits, held⟩

theorem Twin.acceptText (twin : Twin c d) (seq : SeqNumber) (text : Octets) :
    Fares Twin (c.acceptText seq text) (d.acceptText seq text) := by
  obtain ⟨receive, waitingSince, buffer, number, waits, held⟩ := twin
  unfold Connection.acceptText
  dsimp only
  rw [number]
  split
  · exact .ok ⟨_, _, _, number, waits, held⟩
  · split
    · refine fares_after fun known => ?_
      obtain ⟨filled, taken⟩ := held.enqueue (text.drop known)
      rw [taken]
      exact fares_after fun _ => .ok (.mk _ _ _ rfl waits filled)
    · exact .ok ⟨_, _, _, number, waits, held⟩

theorem Twin.ended (twin : Twin c d) : Twin c.ended d.ended := by
  obtain ⟨receive, waitingSince, buffer, number, waits, held⟩ := twin
  unfold Connection.ended
  dsimp only
  rw [number, ← held.isEmpty]
  exact .mk _ _ _ rfl waits held

theorem Twin.enterTimeWait (twin : Twin c d) : Twin (c.enterTimeWait now) (d.enterTimeWait now) := by
  obtain ⟨receive, waitingSince, buffer, number, waits, held⟩ := twin
  exact ⟨_, _, _, number, fun _ => rfl, held⟩

theorem Twin.become (twin : Twin c d) {state : State} (other : state ≠ .timeWait) :
    Twin { c with state } { d with state } := by
  obtain ⟨receive, waitingSince, buffer, number, waits, held⟩ := twin
  exact ⟨_, _, _, number, fun waits => absurd waits other, held⟩

theorem Twin.state (twin : Twin c d) : d.state = c.state := by
  cases twin
  rfl

theorem Twin.send (twin : Twin c d) : d.send = c.send := by
  cases twin
  rfl

theorem Twin.here (twin : Twin c d) : d.here = c.here := by
  cases twin
  rfl

theorem Twin.foreign (twin : Twin c d) : d.foreign = c.foreign := by
  cases twin
  rfl

theorem Twin.queue (twin : Twin c d) : d.queue = c.queue := by
  cases twin
  rfl

theorem Twin.reception (twin : Twin c d) : d.reception = c.reception := by
  cases twin
  rfl

theorem Twin.held (twin : Twin c d) : c.buffer.Alike d.buffer := by
  cases twin
  assumption

theorem Twin.finAcked (twin : Twin c d) : d.finAcked = c.finAcked := by
  cases twin
  rfl

theorem Twin.peerFinished (twin : Twin c d) : Twin (c.peerFinished now) (d.peerFinished now) := by
  unfold Connection.peerFinished
  rw [twin.state, twin.finAcked]
  split
  · exact twin.become State.noConfusion
  · exact twin.become State.noConfusion
  · split
    · exact twin.enterTimeWait
    · exact twin.become State.noConfusion
  · exact twin.enterTimeWait
  · obtain ⟨receive, waitingSince, buffer, number, waits, held⟩ := twin
    exact ⟨_, _, _, number, fun _ => rfl, held⟩
  · exact twin

theorem Twin.receiveFin (twin : Twin c d) : Act.Like Twins (c.receiveFin s now) (d.receiveFin s now) := by
  have next : d.receive.next = c.receive.next := by
    cases twin
    assumption
  have counted : Act.Like Twins (c.countFin now) (d.countFin now) := by
    unfold countFin
    rw [← twin.held.isEmpty, twin.reception]
    split
    · exact Act.like_after fun _ => Act.like_pure ⟨twin.ended.peerFinished, rfl⟩
    · exact Act.like_pure ⟨twin.ended.peerFinished, rfl⟩
  rw [receiveFin_eq, receiveFin_eq, next]
  split
  · refine Act.like_after fun _ => Act.like_after fun _ => ?_
    split
    · exact counted
    · exact Act.like_pure ⟨twin, rfl⟩
  · exact Act.like_pure ⟨twin, rfl⟩

theorem Twin.noteUrgent (twin : Twin c d) (h : Header) : Fares Twin (c.noteUrgent h) (d.noteUrgent h) := by
  obtain ⟨receive, waitingSince, buffer, number, waits, held⟩ := twin
  unfold Connection.noteUrgent
  dsimp only
  split
  · refine fares_after fun urgent => ?_
    -- Whether the pointer moves depends on where it was, and nothing depends on the pointer.
    split <;> split <;> exact .ok ⟨_, _, _, number, waits, held⟩
  · exact .ok ⟨_, _, _, number, waits, held⟩

theorem Twin.receiveContent (twin : Twin c d) :
    Act.Like Mirrored (c.receiveContent s now) (d.receiveContent s now) := by
  have finish {c d : Connection} (takesText : Bool) (twin : Twin c d) : Act.Like Mirrored
      (c.receiveFin s now >>= fun r => if takesText || r.2 then return .answered r.1 (r.1.control [.ack])
        else return .silent r.1)
      (d.receiveFin s now >>= fun r => if takesText || r.2 then return .answered r.1 (r.1.control [.ack])
        else return .silent r.1) := by
    refine Act.like_bind twin.receiveFin fun a b twins => ?_
    obtain ⟨c, finished⟩ := a
    obtain ⟨d, finished'⟩ := b
    obtain ⟨twin, rfl⟩ := twins
    dsimp only at twin ⊢
    split
    · exact Act.like_pure (twin.mirrored _)
    · exact Act.like_pure ⟨twin, rfl⟩
  unfold Connection.receiveContent
  refine Act.like_bind (Act.like_lift (twin.noteUrgent s.header)) fun c d twin => ?_
  dsimp only
  rw [twin.state]
  split
  · refine Act.like_bind (Act.like_lift (twin.acceptText _ _)) fun _ _ twin => ?_
    exact Act.like_bind twin.deliver fun _ _ twin => finish _ twin
  · exact Act.like_bind (Act.like_pure twin) fun _ _ twin => finish _ twin

theorem Twin.refreshWindow (twin : Twin c d) (h : Header) (ack : SeqNumber) :
    Twin (c.refreshWindow h ack) (d.refreshWindow h ack) := by
  obtain ⟨receive, waitingSince, buffer, number, waits, held⟩ := twin
  unfold Connection.refreshWindow
  dsimp only
  split <;> exact ⟨_, _, _, number, waits, held⟩

theorem Twin.progress (twin : Twin c d) : Act.Like Mirrored (c.progress s now) (d.progress s now) := by
  unfold Connection.progress
  rw [twin.state, twin.finAcked]
  split
  · split
    · exact (twin.become State.noConfusion).receiveContent
    · exact twin.receiveContent
  · split
    · exact twin.enterTimeWait.receiveContent
    · exact Act.like_pure ⟨twin, rfl⟩
  · split
    · exact Act.like_bind (twin.terminate _) fun _ _ twin => Act.like_pure ⟨twin, rfl⟩
    · exact Act.like_pure ⟨twin, rfl⟩
  · exact twin.receiveContent

theorem Twin.acknowledge (twin : Twin c d) (ack : SeqNumber) :
    Act.Like Mirrored (c.acknowledge s ack now) (d.acknowledge s ack now) := by
  have finish {c d : Connection} (twin : Twin c d) :
      Act.Like Mirrored ((c.refreshWindow s.header ack).progress s now)
        ((d.refreshWindow s.header ack).progress s now) :=
    (twin.refreshWindow _ _).progress
  obtain ⟨receive, waitingSince, buffer, number, waits, held⟩ := twin
  rw [acknowledge_eq, acknowledge_eq]
  dsimp only
  split
  · exact Act.like_pure (Twin.mirrored ⟨_, _, _, number, waits, held⟩ _)
  · split
    · refine Act.like_bind (Twin.releaseAcked ?_) fun _ _ twin => finish twin
      exact ⟨_, _, _, number, waits, held⟩
    · exact Act.like_bind (R := Twin) (Act.like_pure ⟨_, _, _, number, waits, held⟩) fun _ _ => finish

theorem Twin.arrivesWithAck (twin : Twin c d) (ack : SeqNumber) :
    Act.Like Mirrored (c.arrivesWithAck s ack now) (d.arrivesWithAck s ack now) := by
  have agreed : Twin { c with state := .established } { d with state := .established } :=
    twin.become State.noConfusion
  unfold Connection.arrivesWithAck
  rw [twin.state, show d.send.unacked = c.send.unacked from congrArg _ twin.send,
    show d.send.next = c.send.next from congrArg _ twin.send]
  split
  · split
    · exact Act.like_bind agreed.deliver fun _ _ twin => twin.acknowledge ack
    · exact Act.like_after fun _ => Act.like_pure ⟨twin, rfl⟩
  · exact twin.acknowledge ack

theorem Twin.acceptable (twin : Twin c d) (h : Header) : d.acceptable h = c.acceptable h := by
  obtain ⟨receive, waitingSince, buffer, number, waits, held⟩ := twin
  simp only [Connection.acceptable, window, number, held.window]

theorem Twin.arrivesSynchronized (twin : Twin c d) :
    Act.Like Mirrored (c.arrivesSynchronized s now) (d.arrivesSynchronized s now) := by
  unfold Connection.arrivesSynchronized
  dsimp only
  rw [twin.state, twin.acceptable]
  refine Act.like_after fun taken => ?_
  split
  · split
    · exact Act.like_bind (twin.terminate _) fun _ _ twin => Act.like_pure ⟨twin, rfl⟩
    · split
      · refine Act.like_bind (twin.terminate _) fun _ _ after => Act.like_pure ⟨after, ?_⟩
        exact congrArg Option.toList (twin.control _)
      · split
        · exact Act.like_pure ⟨twin, rfl⟩
        · exact twin.arrivesWithAck _
  · split
    · exact Act.like_pure ⟨twin, rfl⟩
    · refine Act.like_pure (Twin.mirrored ?_ _)
      split
      · obtain ⟨receive, waitingSince, buffer, number, waits, held⟩ := twin
        exact ⟨_, _, _, number, fun _ => rfl, held⟩
      · exact twin

theorem Twin.setWindow (twin : Twin c d) (h : Header) (ack : SeqNumber) :
    Twin (c.setWindow h ack) (d.setWindow h ack) := by
  obtain ⟨receive, waitingSince, buffer, number, waits, held⟩ := twin
  exact ⟨_, _, _, number, waits, held⟩

theorem Twin.enqueue (twin : Twin c d) (sent : Segment) (call : Option CallId) :
    Twin (c.enqueue sent call now) (d.enqueue sent call now) := by
  obtain ⟨receive, waitingSince, buffer, number, waits, held⟩ := twin
  exact ⟨_, _, _, number, waits, held⟩

/-- A SYN is answered in the same way, whatever the sequence variables were before it. -/
theorem Twin.takeUp {send : SendVars} {receive : ReceiveVars} {iss : SeqNumber}
    (twin : Twin { c with send, receive } d) (fin : send.fin = c.send.fin) :
    Fares Mirrored (c.takeUp s iss now) (d.takeUp s iss now) := by
  obtain ⟨receive, waitingSince, buffer, number, waits, held⟩ := twin
  unfold Connection.takeUp
  refine fares_after fun first => fares_after fun next => ?_
  dsimp only
  rw [fin]
  refine fares_bind (R := Twin) (Twin.acceptText ?_ _ _) fun c d twin => ?_
  · exact ⟨_, _, _, rfl, State.noConfusion, held⟩
  · rw [← twin.segment]
    split
    · exact .ok ⟨twin, rfl⟩
    · exact .ok ⟨twin.enqueue _ _, rfl⟩

theorem Twin.takesUp (same : d.state = c.state) : d.takesUp s = c.takesUp s := by
  rw [Connection.takesUp, same, Connection.takesUp]

/-- The end of `meet`: the text and the window of a SYN, once it was seen whether it acknowledges ours. -/
def greet (c : Connection) (s : Segment) (first : SeqNumber) (now : Instant) : Act Arrival := do
  let c ← c.acceptText first s.text
  if c.send.unacked.after c.send.initial then
    let c ← ({ c with state := .established }.setWindow s.header c.send.unacked).deliver
    let (c, _) ← c.receiveFin s now
    return .answered c (c.control [.ack])
  else
    let both : Flags := .ofList [.syn, .ack]
    let c := { c with state := .synReceived }.setWindow s.header c.send.initial
    let c :=
      { c with queue := c.queue.map fun e => if e.flags.has .syn then { e with flags := both } else e }
    return .answered c (c.segment both c.send.initial [])

theorem meet_eq (c : Connection) (s : Segment) (now : Instant) : c.meet s now = (do
    let first ← s.header.seq.add 1
    let c := { c with receive := { c.receive with initial := s.header.seq, next := first } }
    let c ← match s.header.ack with
      | some ack =>
        if ack.after c.send.unacked then
          releaseAcked { c with send := { c.send with unacked := ack } } now
        else pure c
      | none => pure c
    c.greet s first now) := rfl

theorem Twin.greet (twin : Twin c d) (first : SeqNumber) :
    Act.Like Mirrored (c.greet s first now) (d.greet s first now) := by
  unfold Connection.greet
  refine Act.like_bind (Act.like_lift (twin.acceptText _ _)) fun c d twin => ?_
  obtain ⟨receive, waitingSince, buffer, number, waits, held⟩ := twin
  dsimp only
  split
  · refine Act.like_bind (Twin.deliver ?_) fun c d twin => ?_
    · exact ⟨_, _, _, number, State.noConfusion, held⟩
    · refine Act.like_bind twin.receiveFin fun a b twins => ?_
      exact Act.like_pure (twins.1.mirrored _)
  · have twin : Twin { c with
        state := .synReceived
        send := { c.send with
          window := s.header.window
          windowSeq := s.header.seq
          windowAck := c.send.initial }
        queue := c.queue.map fun e =>
          if e.flags.has .syn then { e with flags := .ofList [.syn, .ack] } else e }
        _ := ⟨receive, waitingSince, buffer, number, State.noConfusion, held⟩
    exact Act.like_pure ⟨twin, congrArg Option.toList (twin.segment _ _ _)⟩

theorem Twin.meet (twin : Twin c d) : Act.Like Mirrored (c.meet s now) (d.meet s now) := by
  obtain ⟨receive, waitingSince, buffer, number, waits, held⟩ := twin
  rw [meet_eq, meet_eq]
  refine Act.like_after fun first => ?_
  have met : Twin { c with receive := { c.receive with initial := s.header.seq, next := first } }
      { c with receive := { receive with initial := s.header.seq, next := first }, waitingSince, buffer } :=
    ⟨_, _, _, rfl, waits, held⟩
  dsimp only
  split
  · split
    · refine Act.like_bind (Twin.releaseAcked ?_) fun _ _ twin => twin.greet first
      exact ⟨_, _, _, rfl, waits, held⟩
    · exact Act.like_bind (Act.like_pure met) fun _ _ twin => twin.greet first
  · exact Act.like_bind (Act.like_pure met) fun _ _ twin => twin.greet first

theorem Twin.arrivesSynSent (twin : Twin c d) :
    Act.Like Mirrored (c.arrivesSynSent s now) (d.arrivesSynSent s now) := by
  unfold Connection.arrivesSynSent
  dsimp only
  rw [twin.send]
  split
  · exact Act.like_after fun _ => Act.like_pure ⟨twin, rfl⟩
  · split
    · split
      · exact Act.like_bind (twin.terminate _) fun _ _ twin => Act.like_pure ⟨twin, rfl⟩
      · exact Act.like_pure ⟨twin, rfl⟩
    · split
      · exact twin.meet
      · exact Act.like_pure ⟨twin, rfl⟩

theorem Twin.arrivesListen (twin : Twin c d) (iss : SeqNumber) :
    Fares Mirrored (c.arrivesListen s iss now) (d.arrivesListen s iss now) := by
  unfold Connection.arrivesListen
  rw [Twin.takesUp twin.state]
  split
  · exact .ok ⟨twin, rfl⟩
  · split
    · exact fares_after fun _ => .ok ⟨twin, rfl⟩
    · split
      · have same : Twin { c with send := c.send, receive := c.receive } d := twin
        exact same.takeUp rfl
      · exact .ok ⟨twin, rfl⟩

theorem Twin.arrives (twin : Twin c d) (iss : SeqNumber) :
    Act.Like Mirrored (c.arrives s iss now) (d.arrives s iss now) := by
  unfold Connection.arrives
  rw [twin.state]
  split
  · exact Act.like_after fun _ => Act.like_pure ⟨twin, rfl⟩
  · exact Act.like_lift (twin.arrivesListen iss)
  · exact twin.arrivesSynSent
  · exact twin.arrivesSynchronized

theorem review_same {config : Config} (timeout : d.userTimeout = c.userTimeout)
    (roundTrip : d.roundTrip = c.roundTrip) (queue : List Unacked) :
    d.review now config queue = c.review now config queue := by
  induction queue with
  | nil => rfl
  | cons e rest ih => rw [review, review, timeout, roundTrip, ih]

theorem Twin.onTimer (twin : Twin c d) (config : Config) :
    Act.Like Twins (c.onTimer now config) (d.onTimer now config) := by
  unfold Connection.onTimer
  rw [twin.state]
  split
  next waiting =>
    have since : d.waitingSince = c.waitingSince := by
      obtain ⟨receive, waitingSince, buffer, number, waits, held⟩ := twin
      exact waits waiting
    rw [since]
    refine Act.like_after fun period => ?_
    split
    · exact Act.like_bind (twin.terminate _) fun _ _ twin => Act.like_pure ⟨twin, rfl⟩
    · exact Act.like_pure ⟨twin, rfl⟩
  next =>
    refine Act.like_bind twin.releaseAcked fun c d twin => ?_
    have same : d.review now config d.queue = c.review now config c.queue := by
      obtain ⟨timeout, roundTrip⟩ : d.userTimeout = c.userTimeout ∧ d.roundTrip = c.roundTrip := by
        cases twin
        exact ⟨rfl, rfl⟩
      rw [twin.queue, review_same timeout roundTrip]
    rw [same]
    refine Act.like_after fun found => ?_
    have left : Twin { c with queue := found.queue } { d with queue := found.queue } := by
      obtain ⟨receive, waitingSince, buffer, number, waits, held⟩ := twin
      exact ⟨_, _, _, number, waits, held⟩
    dsimp only
    split
    · exact Act.like_bind (left.terminate _) fun _ _ twin => Act.like_pure ⟨twin, rfl⟩
    · exact Act.like_pure ⟨left, congrArg (List.filterMap · found.resend) (funext fun e => left.segment ..)⟩

end Connection
end TcpEngine

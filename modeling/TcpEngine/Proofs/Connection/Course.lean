import TcpEngine.Proofs.Connection.Outcome

/-!
The course of an arrival: what becomes of the connection, and just what it answers. The handlers are
gone through here once more, as the moves of a connection do not say when it is silent.
-/
namespace TcpEngine
namespace Connection

variable {s : Segment} {iss : SeqNumber} {now : Instant} {σ τ : List Signal} {a : Arrival}
  {c c' d e : Connection}

def noted (c : Connection) (urgent : SeqNumber) : Connection :=
  { c with receive := { c.receive with urgent } }

/-- What becomes of the text and the FIN of a segment. Whatever is looked at is acknowledged. -/
inductive Content (s : Segment) (now : Instant) (c : Connection) : Arrival → Prop where
  | quiet (urgent : SeqNumber) : Content s now c (.silent (c.noted urgent))
  | fin {c' : Connection} {τ : List Signal} (urgent : SeqNumber)
      (ends : ((c.noted urgent).receiveFin s now).Ends τ (c', true)) :
      Content s now c (.answered c' (c'.control [.ack]))
  | text {kept c₁ c' : Connection} {ρ τ : List Signal} {finished : Bool} (urgent : SeqNumber)
      (receives : c.state.receivesText = true) (filled : s.text ≠ [])
      (taken : (c.noted urgent).acceptText s.header.seq s.text = .ok kept)
      (served : kept.deliver.Ends ρ c₁) (ends : (c₁.receiveFin s now).Ends τ (c', finished)) :
      Content s now c (.answered c' (c'.control [.ack]))

structure Kept (c d : Connection) : Prop where
  here : d.here = c.here
  foreign : d.foreign = c.foreign
  receive : d.receive = c.receive
  buffer : d.buffer = c.buffer
  reception : d.reception = c.reception
  done : d.state.peerDone = c.state.peerDone
  past : d.state.pastHandshake = true

theorem kept_self (past : c.state.pastHandshake = true) : Kept c c := ⟨rfl, rfl, rfl, rfl, rfl, rfl, past⟩

/-- What becomes of a connection when a segment arrives, and what it answers. -/
inductive Course (s : Segment) (now : Instant) (c : Connection) : Arrival → Prop where
  /-- Nothing is changed. At most the segment is answered by a reset. -/
  | refused {answer : Option Segment} (reset : answer = none ∨ s.resetReply = .ok answer) :
      Course s now c (.answered c answer)
  /-- The connection is over. A SYN that ended it is answered by a reset. -/
  | shut {d : Connection} {answer : Option Segment}
      (told : answer = none ∨ s.header.flags.has .rst = false ∧ s.header.flags.has .syn = true ∧
        answer = c.control [.rst]) : Course s now c (.answered d.shut answer)
  /-- A SYN is answered by our own. -/
  | meets {c' : Connection} (begins : c.state = .listen ∨ c.state = .synSent)
      (calm : s.header.flags.has .rst = false) (syn : s.header.flags.has .syn = true)
      (state : c'.state = .synReceived) (known : c'.foreign.isSome = true) :
      Course s now c (.answered c' (c'.segment (.ofList [.syn, .ack]) c'.send.initial []))
  /-- A SYN answers ours. Its text and its FIN are looked at. -/
  | greets {c₁ c' : Connection} {τ : List Signal} {finished : Bool} (asked : c.state = .synSent)
      (calm : s.header.flags.has .rst = false) (syn : s.header.flags.has .syn = true)
      (state : c₁.state = .established) (known : c₁.foreign = c.foreign)
      (served : c₁.reception = none ∨ c₁.buffer.toList = [])
      (ends : (c₁.receiveFin s now).Ends τ (c', finished)) :
      Course s now c (.answered c' (c'.control [.ack]))
  /-- The segment is outside the window. -/
  | unfit (waitingSince : Instant) (live : c.state.isSynchronized = true)
      (unfit : c.acceptable s.header = .ok false) (calm : s.header.flags.has .rst = false)
      (still : s.header.flags.has .fin = true ∨ waitingSince = c.waitingSince) :
      Course s now c (.answered { c with waitingSince } (c.control [.ack]))
  /-- The segment acknowledges what was not sent. -/
  | unsent {ack : SeqNumber} (past : c.state.pastHandshake = true) (processed : c.Processes s)
      (given : s.header.ack = some ack) (beyond : ack.after c.send.next = true) :
      Course s now c (.answered c (c.control [.ack]))
  /-- The segment has acknowledged something, and is not looked at any more. -/
  | acknowledged {d : Connection} (past : c.state.pastHandshake = true) (kept : Kept c d) :
      Course s now c (.silent d)
  | content {d : Connection} {a : Arrival} (past : c.state.pastHandshake = true)
      (processed : c.Processes s) (kept : Kept c d) (content : Content s now d a) : Course s now c a
  /-- The segment completes the handshake. Text that came with the SYN of the peer is delivered. -/
  | establish {c₁ d : Connection} {ρ : List Signal} {a : Arrival} (state : c.state = .synReceived)
      (processed : c.Processes s) (served : (deliver { c with state := .established }).Ends ρ c₁)
      (kept : Kept c₁ d) (content : Content s now d a) : Course s now c a

/- The handlers once more. -/

theorem receiveFin_unfinished {finished : Bool} (h : (c.receiveFin s now).Ends σ (c', finished)) :
    finished = true ∨ c' = c := by
  rcases receiveFin_ends h with ⟨_, same⟩ | ⟨_, _, ends⟩
  · exact Or.inr (Prod.mk.inj same).1
  · exact Or.inl (Prod.mk.inj (countFin_ends ends).2).2

theorem receiveContent_content (h : (c.receiveContent s now).Ends σ a) : Content s now c a := by
  unfold receiveContent at h
  rw [Act.ends_bind] at h
  obtain ⟨_, _, _, lifted, h, _⟩ := h
  obtain ⟨urgent, rfl⟩ := noteUrgent_eq (Act.ends_lift.mp lifted).2
  dsimp only at h
  split at h
  · rename_i takes
    obtain ⟨filled, receives⟩ := Bool.and_eq_true_iff.mp takes
    simp only [Act.ends_bind, Act.ends_lift] at h
    obtain ⟨_, kept, _, ⟨_, taken⟩, ⟨ρ, c₁, _, served, ⟨τ, ⟨c', finished⟩, _, ends, h, _⟩, _⟩, _⟩ := h
    rw [takes, Bool.true_or, if_pos rfl] at h
    obtain ⟨_, rfl⟩ := Act.ends_pure.mp h
    exact .text urgent receives (by simpa using filled) taken served ends
  · rename_i none
    rw [pure_bind, Act.ends_bind] at h
    obtain ⟨τ, ⟨c', finished⟩, _, ends, h, _⟩ := h
    rw [Bool.not_eq_true] at none
    rw [none, Bool.false_or] at h
    split at h
    · rename_i counted
      obtain ⟨_, rfl⟩ := Act.ends_pure.mp h
      dsimp only at counted
      subst counted
      exact .fin urgent ends
    · rename_i uncounted
      obtain ⟨_, rfl⟩ := Act.ends_pure.mp h
      rcases receiveFin_unfinished ends with counted | rfl
      · exact absurd counted uncounted
      · exact .quiet urgent

inductive Furthered (s : Segment) (now : Instant) (c : Connection) : Arrival → Prop where
  | ended {d : Connection} : Furthered s now c (.silent d.shut)
  | unsent {ack : SeqNumber} (given : s.header.ack = some ack)
      (beyond : ack.after c.send.next = true) : Furthered s now c (.answered c (c.control [.ack]))
  | acknowledged {d : Connection} (kept : Kept c d) : Furthered s now c (.silent d)
  | content {d : Connection} {a : Arrival} (kept : Kept c d) (content : Content s now d a) :
      Furthered s now c a

theorem progress_furthered (kept : Kept c d) (h : (d.progress s now).Ends σ a) :
    Furthered s now c a := by
  have done := kept.done
  unfold progress at h
  split at h
  · rename_i state
    rw [state] at done
    split at h
    · have closed : Kept c { d with state := .finWait2 } :=
        ⟨kept.here, kept.foreign, kept.receive, kept.buffer, kept.reception, done, rfl⟩
      exact .content closed (receiveContent_content h)
    · exact .content kept (receiveContent_content h)
  · rename_i state
    rw [state] at done
    split at h
    · have waits : Kept c (d.enterTimeWait now) :=
        ⟨kept.here, kept.foreign, kept.receive, kept.buffer, kept.reception, done, rfl⟩
      exact .content waits (receiveContent_content h)
    · obtain ⟨_, rfl⟩ := Act.ends_pure.mp h
      exact .acknowledged kept
  · split at h
    · rw [Act.ends_bind] at h
      obtain ⟨_, d', _, ends, h, _⟩ := h
      obtain ⟨_, rfl⟩ := Act.ends_pure.mp h
      obtain ⟨_, rfl⟩ := terminate_ends.mp ends
      exact .ended
    · obtain ⟨_, rfl⟩ := Act.ends_pure.mp h
      exact .acknowledged kept
  · exact .content kept (receiveContent_content h)

theorem acknowledge_furthered {ack : SeqNumber} (past : c.state.pastHandshake = true)
    (given : s.header.ack = some ack) (h : (c.acknowledge s ack now).Ends σ a) :
    Furthered s now c a := by
  have refreshed {d : Connection} (kept : Kept c d) : Kept c (d.refreshWindow s.header ack) := by
    obtain ⟨_, _, _, same⟩ := refreshWindow_eq d s.header ack
    rw [same]
    exact ⟨kept.here, kept.foreign, kept.receive, kept.buffer, kept.reception, kept.done, kept.past⟩
  rw [acknowledge_eq] at h
  split at h
  · rename_i beyond
    obtain ⟨_, rfl⟩ := Act.ends_pure.mp h
    exact .unsent given beyond
  · split at h
    · rw [Act.ends_bind] at h
      obtain ⟨_, _, _, ends, h, _⟩ := h
      obtain ⟨queue, roundTrip, _, rfl⟩ := releaseAcked_ends ends
      have acked : Kept c { c with send := { c.send with unacked := ack }, queue, roundTrip } :=
        ⟨rfl, rfl, rfl, rfl, rfl, rfl, past⟩
      exact progress_furthered (refreshed acked) h
    · rw [pure_bind] at h
      exact progress_furthered (refreshed (kept_self past)) h

theorem deliver_served (h : c.deliver.Ends σ c') :
    c'.reception = none ∨ c'.buffer.toList = [] := by
  rcases deliver_ends h with ⟨_, rfl, unserved⟩ | ⟨_, _, _, _, rfl⟩
  · exact unserved.imp id Ring.isEmpty_iff.mp
  · exact Or.inl rfl

theorem arrivesWithAck_course {ack : SeqNumber} (live : c.state.isSynchronized = true)
    (processed : c.Processes s) (given : s.header.ack = some ack)
    (h : (c.arrivesWithAck s ack now).Ends σ a) : Course s now c a := by
  unfold arrivesWithAck at h
  split at h
  · rename_i state
    split at h
    · rename_i valid
      obtain ⟨_, sent⟩ := Bool.and_eq_true_iff.mp valid
      rw [Act.ends_bind] at h
      obtain ⟨_, c₁, _, served, h, _⟩ := h
      have opened : c₁.state = .established := deliver_state served
      have next : c₁.send.next = c.send.next := by rw [deliver_send served]
      have past : c₁.state.pastHandshake = true := by
        rw [opened]
        rfl
      cases acknowledge_furthered past given h with
      | ended => exact .shut (Or.inl rfl)
      | unsent given' beyond =>
        cases given.symm.trans given'
        rw [next, SeqNumber.atOrBefore_iff.mp sent] at beyond
        cases beyond
      | acknowledged kept => exact .establish state processed served kept (.quiet _)
      | content kept content => exact .establish state processed served kept content
    · simp only [Act.ends_bind, Act.ends_lift, Act.ends_pure] at h
      obtain ⟨_, _, _, ⟨_, reset⟩, ⟨_, rfl⟩, _⟩ := h
      exact .refused (Or.inr reset)
  · rename_i state
    have past : c.state.pastHandshake = true := by simp [State.pastHandshake, live, state]
    cases acknowledge_furthered past given h with
    | ended => exact .shut (Or.inl rfl)
    | unsent given beyond => exact .unsent past processed given beyond
    | acknowledged kept => exact .acknowledged past kept
    | content kept content => exact .content past processed kept content

theorem arrivesSynchronized_course (live : c.state.isSynchronized = true)
    (h : (c.arrivesSynchronized s now).Ends σ a) : Course s now c a := by
  by_cases handled : c.Processes s ∧ s.header.ack.isSome = true
  · obtain ⟨processed, some⟩ := handled
    obtain ⟨ack, given⟩ := Option.isSome_iff_exists.mp some
    rw [arrivesSynchronized_processed processed given] at h
    exact arrivesWithAck_course live processed given h
  unfold arrivesSynchronized at h
  dsimp only at h
  rw [Act.ends_bind] at h
  obtain ⟨_, acceptable, τ, tested, h, _⟩ := h
  obtain ⟨_, fits⟩ := Act.ends_lift.mp tested
  split at h
  · rename_i fit
    rw [fit] at fits
    split at h
    · rw [Act.ends_bind] at h
      obtain ⟨_, c', _, ends, h, _⟩ := h
      obtain ⟨_, rfl⟩ := Act.ends_pure.mp h
      obtain ⟨_, rfl⟩ := terminate_ends.mp ends
      exact .shut (Or.inl rfl)
    · rename_i calm
      split at h
      · rename_i syn
        rw [Act.ends_bind] at h
        obtain ⟨_, c', _, ends, h, _⟩ := h
        obtain ⟨_, rfl⟩ := Act.ends_pure.mp h
        obtain ⟨_, rfl⟩ := terminate_ends.mp ends
        exact .shut (Or.inr ⟨by simpa using calm, syn, rfl⟩)
      · rename_i plain
        split at h
        · obtain ⟨_, rfl⟩ := Act.ends_pure.mp h
          exact .refused (Or.inl rfl)
        · rename_i ack given
          have processed : c.Processes s := ⟨fits, by simpa using calm, by simpa using plain⟩
          exact absurd ⟨processed, by rw [given]; rfl⟩ handled
  · rename_i outside
    rw [Bool.not_eq_true] at outside
    rw [outside] at fits
    split at h
    · obtain ⟨_, rfl⟩ := Act.ends_pure.mp h
      exact .refused (Or.inl rfl)
    · rename_i calm
      obtain ⟨_, rfl⟩ := Act.ends_pure.mp h
      have calm : s.header.flags.has .rst = false := by simpa using calm
      split
      · rename_i waits
        exact .unfit now live fits calm (Or.inl waits.2)
      · exact .unfit c.waitingSince live fits calm (Or.inr rfl)

theorem takeUp_course (takes : c.takesUp s = true) (h : c.takeUp s iss now = .ok a) :
    Course s now c a := by
  obtain ⟨listens, calm, _, syn⟩ := takesUp_iff.mp takes
  simp only [takeUp, except_bind_ok, SeqNumber.add_ok] at h
  obtain ⟨first, ⟨_, rfl⟩, next, ⟨_, rfl⟩, kept, ok, h⟩ := h
  have stays : kept.state = .synReceived ∧ kept.foreign = some s.sender ∧ kept.send.initial = iss := by
    rcases acceptText_ok ok with rfl | ⟨_, _, _, _, _, _, rfl⟩ <;> exact ⟨rfl, rfl, rfl⟩
  obtain ⟨state, known, initial⟩ := stays
  split at h
  · rename_i none
    rw [segment, known] at none
    cases none
  · rename_i answer sent
    obtain rfl := except_pure_ok.mp h
    have same : (kept.enqueue answer none now).segment (.ofList [.syn, .ack])
        (kept.enqueue answer none now).send.initial [] = some answer := by
      rw [← sent, ← initial]
      rfl
    have met : Course s now c (.answered (kept.enqueue answer none now) _) :=
      .meets (Or.inl listens) calm syn state (by simp [enqueue, known])
    rw [same] at met
    exact met

theorem arrivesListen_course (h : c.arrivesListen s iss now = .ok a) : Course s now c a := by
  unfold arrivesListen at h
  split at h
  · cases h
    exact .refused (Or.inl rfl)
  · split at h
    · simp only [except_bind_ok, except_pure_ok] at h
      obtain ⟨_, reset, rfl⟩ := h
      exact .refused (Or.inr reset)
    · split at h
      · rename_i takes
        exact takeUp_course takes h
      · cases h
        exact .refused (Or.inl rfl)

theorem met_course {kept : Connection} (asked : c.state = .synSent)
    (calm : s.header.flags.has .rst = false) (syn : s.header.flags.has .syn = true)
    (known : c.foreign.isSome = true) (same : kept.foreign = c.foreign)
    (h : Act.Ends (if kept.send.unacked.after kept.send.initial then do
        let c ← (setWindow { kept with state := .established } s.header kept.send.unacked).deliver
        let (c, _) ← c.receiveFin s now
        return .answered c (c.control [.ack])
      else
        let crossed : Connection :=
          { setWindow { kept with state := .synReceived } s.header kept.send.initial with
            queue := kept.queue.map fun e =>
              if e.flags.has .syn then { e with flags := .ofList [.syn, .ack] } else e }
        return .answered crossed (crossed.segment (.ofList [.syn, .ack]) crossed.send.initial []))
      σ a) : Course s now c a := by
  split at h
  · rw [Act.ends_bind] at h
    obtain ⟨_, c₁, _, served, h, _⟩ := h
    rw [Act.ends_bind] at h
    obtain ⟨_, ⟨c', finished⟩, _, ends, h, _⟩ := h
    obtain ⟨_, rfl⟩ := Act.ends_pure.mp h
    have peer : c₁.foreign = c.foreign := by
      rw [← same]
      rcases deliver_ends served with ⟨_, rfl, _⟩ | ⟨_, _, _, _, rfl⟩ <;> rfl
    exact .greets asked calm syn (deliver_state served) peer (deliver_served served) ends
  · obtain ⟨_, rfl⟩ := Act.ends_pure.mp h
    refine .meets (Or.inr asked) calm syn rfl ?_
    rw [← same] at known
    exact known

theorem acceptText_foreign {seq : SeqNumber} {text : Octets} (h : c.acceptText seq text = .ok c') :
    c'.foreign = c.foreign := by
  rcases acceptText_ok h with rfl | ⟨_, _, _, _, _, _, rfl⟩ <;> rfl

theorem meet_course (asked : c.state = .synSent) (calm : s.header.flags.has .rst = false)
    (syn : s.header.flags.has .syn = true) (known : c.foreign.isSome = true)
    (h : (c.meet s now).Ends σ a) : Course s now c a := by
  unfold meet at h
  rw [Act.ends_bind] at h
  obtain ⟨_, first, _, _, h, _⟩ := h
  dsimp only at h
  split at h
  · split at h
    · rw [Act.ends_bind] at h
      obtain ⟨_, _, _, ends, h, _⟩ := h
      obtain ⟨queue, roundTrip, _, rfl⟩ := releaseAcked_ends ends
      rw [Act.ends_bind] at h
      obtain ⟨_, kept, _, lifted, h, _⟩ := h
      have same := acceptText_foreign (Act.ends_lift.mp lifted).2
      exact met_course asked calm syn known same h
    · rw [pure_bind, Act.ends_bind] at h
      obtain ⟨_, kept, _, lifted, h, _⟩ := h
      have same := acceptText_foreign (Act.ends_lift.mp lifted).2
      exact met_course asked calm syn known same h
  · rw [pure_bind, Act.ends_bind] at h
    obtain ⟨_, kept, _, lifted, h, _⟩ := h
    have same := acceptText_foreign (Act.ends_lift.mp lifted).2
    exact met_course asked calm syn known same h

theorem arrivesSynSent_course (asked : c.state = .synSent) (known : c.foreign.isSome = true)
    (h : (c.arrivesSynSent s now).Ends σ a) : Course s now c a := by
  unfold arrivesSynSent at h
  dsimp only at h
  split at h
  · simp only [Act.ends_bind, Act.ends_lift, Act.ends_pure] at h
    obtain ⟨_, _, _, ⟨_, reset⟩, ⟨_, rfl⟩, _⟩ := h
    exact .refused (Or.inr reset)
  · split at h
    · split at h
      · rw [Act.ends_bind] at h
        obtain ⟨_, _, _, ends, h, _⟩ := h
        obtain ⟨_, rfl⟩ := Act.ends_pure.mp h
        obtain ⟨_, rfl⟩ := terminate_ends.mp ends
        exact .shut (Or.inl rfl)
      · obtain ⟨_, rfl⟩ := Act.ends_pure.mp h
        exact .refused (Or.inl rfl)
    · rename_i calm
      split at h
      · rename_i syn
        exact meet_course asked (by simpa using calm) syn known h
      · obtain ⟨_, rfl⟩ := Act.ends_pure.mp h
        exact .refused (Or.inl rfl)

/-- Every arrival takes one of these courses. -/
theorem arrives_course (coherent : c.Coherent) (h : (c.arrives s iss now).Ends σ a) :
    Course s now c a := by
  unfold arrives at h
  split at h
  · simp only [Act.ends_bind, Act.ends_lift, Act.ends_pure] at h
    obtain ⟨_, _, _, ⟨_, reset⟩, ⟨_, rfl⟩, _⟩ := h
    exact .refused (Or.inr reset)
  · exact arrivesListen_course (Act.ends_lift.mp h).2
  · rename_i asked
    exact arrivesSynSent_course asked (coherent.known (by simp [asked]) (by simp [asked])) h
  · rename_i closed listen asked
    refine arrivesSynchronized_course ?_ h
    cases state : c.state <;> first | rfl | contradiction

end Connection
end TcpEngine

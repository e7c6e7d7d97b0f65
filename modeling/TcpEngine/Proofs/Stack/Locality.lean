import TcpEngine.Proofs.Admission
import TcpEngine.Proofs.Connection.Twins

/-!
Two stacks that agree at an endpoint. An event that is addressed to this endpoint does the same to both,
whatever else they hold: it reads the connection there, the settings and the outlet, and where it draws an
initial sequence number, that number.
-/
namespace TcpEngine

def Event.target? : Event → Option Endpoint
  | .bind here | .remove here | .openConnection here .. | .send here _ | .receive here _ | .close here
  | .abort here => some here
  | event => event.segment?.map Segment.receiver

theorem Event.target?_segment {event : Event} {s : Segment} (brings : event.segment? = some s) :
    event.target? = some s.receiver := by
  obtain ⟨octets, src, dst, rfl, _⟩ := reads_of_segment? brings
  exact congrArg (Option.map Segment.receiver) brings

namespace Connection

/-- Only a segment that is taken up makes a difference between initial sequence numbers. -/
theorem arrives_undrawn {c : Connection} {s : Segment} (spurned : c.takesUp s = false)
    (iss iss' : SeqNumber) (now : Instant) : c.arrives s iss now = c.arrives s iss' now := by
  unfold Connection.arrives
  split
  · rfl
  · have same : c.arrivesListen s iss now = c.arrivesListen s iss' now := by
      unfold arrivesListen
      rw [spurned]
      rfl
    rw [same]
  · rfl
  · rfl

end Connection

namespace Stack

inductive Draws (k : Stack) : Event → Endpoint → Prop where
  | opening {here peer : Endpoint} {timeout : Option Duration} :
      Draws k (.openConnection here (.active (some peer)) timeout) peer
  | answering {event : Event} {s : Segment} {c : Connection} (brings : event.segment? = some s)
      (found : k.table.get? s.receiver = some c) (claims : c.claims s = true)
      (takes : c.takesUp s = true) : Draws k event s.sender

/-- Two stacks that nobody who looks at this endpoint can tell apart. -/
structure AgreeAt (here : Endpoint) (k k' : Stack) : Prop where
  entry : k'.table.get? here = k.table.get? here
  config : k'.table.config = k.table.config
  outlet : k'.outlet = k.outlet

def AgreeWith (here : Endpoint) (a b : Stack × α) : Prop := AgreeAt here a.1 b.1 ∧ a.2 = b.2

variable {k k' : Stack} {here : Endpoint} {now : Instant} {call : CallId}

section
variable (agree : AgreeAt here k k')
include agree

theorem AgreeAt.put (c : Connection) : AgreeAt here (k.put c) (k'.put c) where
  entry := by
    change (k'.table.put c).get? here = (k.table.put c).get? here
    rw [Table.get?_replace, Table.get?_replace, agree.entry]
  config := agree.config
  outlet := agree.outlet

theorem AgreeAt.answer (reply : Reply) :
    Act.Like (AgreeAt here) (k.answer call reply) (k'.answer call reply) :=
  Act.like_after fun _ => Act.like_pure agree

theorem AgreeAt.refuse (error : CallError) :
    Act.Like (AgreeAt here) (k.refuse call error) (k'.refuse call error) :=
  agree.answer _

theorem AgreeAt.transmit {s : Segment} {next next' : Stack × Except DeliveryError Unit → Act Stack}
    (later : ∀ tried tried' result, AgreeAt here tried tried' →
      Act.Like (AgreeAt here) (next (tried, result)) (next' (tried', result))) :
    Act.Like (AgreeAt here) (liftM (k.transmit s) >>= next) (liftM (k'.transmit s) >>= next') := by
  have sent : Fares (AgreeWith here) (k.transmit s) (k'.transmit s) := by
    unfold Stack.transmit
    refine fares_after fun d => ?_
    rw [agree.outlet, agree.config]
    exact .ok ⟨⟨agree.entry, agree.config, rfl⟩, rfl⟩
  refine Act.like_bind (Act.like_lift sent) fun a b told => ?_
  obtain ⟨tried, result⟩ := a
  obtain ⟨tried', result'⟩ := b
  obtain ⟨agree, rfl⟩ := told
  exact later _ _ _ agree

theorem AgreeAt.emitAll (segments : List Segment) :
    Fares (AgreeAt here) (k.emitAll segments) (k'.emitAll segments) := by
  rw [emitAll_eq, emitAll_eq]
  cases segments.mapM datagram with
  | error fault => exact .error fault
  | ok ds => exact .ok ⟨agree.entry, agree.config, congrArg (Outlet.transmitEach · ds) agree.outlet⟩

theorem AgreeAt.openActive (c : Connection) (peer : Endpoint) (iss : SeqNumber) :
    Act.Like (AgreeAt here) (k.openActive c peer iss now call) (k'.openActive c peer iss now call) := by
  unfold Stack.openActive
  dsimp only
  split
  · exact (agree.put _).refuse _
  · refine agree.transmit fun tried tried' result agree => ?_
    cases result with
    | ok => exact Act.like_after fun _ => Act.like_pure (agree.put _)
    | error => exact (agree.put _).refuse _

theorem AgreeAt.openConnection (opening : Opening) (timeout : Option Duration)
    (same : ∀ peer, opening = .active (some peer) →
      k'.table.nextSeq here peer now = k.table.nextSeq here peer now) :
    Act.Like (AgreeAt here) (k.openConnection here opening timeout now call)
      (k'.openConnection here opening timeout now call) := by
  have drawn (draws : Bool) : AgreeAt here (if draws then { k with table := k.table.draw } else k)
      (if draws then { k' with table := k'.table.draw } else k') := by
    cases draws with
    | true => exact ⟨agree.entry, agree.config, agree.outlet⟩
    | false => exact agree
  unfold Stack.openConnection
  dsimp only
  rw [agree.entry, agree.config]
  split
  · exact (drawn _).refuse _
  · split
    · split
      · exact ((drawn _).put _).answer _
      · exact ((drawn _).put _).refuse _
      · rw [same _ rfl]
        exact (drawn _).openActive _ _ _
    · exact (drawn _).refuse _

theorem AgreeAt.send (text : Octets) :
    Act.Like (AgreeAt here) (k.send here text now call) (k'.send here text now call) := by
  cases found : k.table.get? here with
  | none =>
    unfold Stack.send
    rw [agree.entry, found]
    exact agree.refuse _
  | some c =>
    by_cases live : c.state = .established ∨ c.state = .closeWait
    · rw [send_live found live, send_live (agree.entry.trans found) live]
      split
      · exact agree.refuse _
      · split
        · exact agree.answer _
        · split
          · exact agree.refuse _
          · refine agree.transmit fun tried tried' result agree => ?_
            cases result with
            | ok => exact Act.like_after fun _ => Act.like_pure (agree.put _)
            | error => exact agree.refuse _
    · unfold Stack.send
      rw [agree.entry, found]
      dsimp only
      split
      · exact absurd (.inl ‹_›) live
      · exact absurd (.inr ‹_›) live
      · split <;> exact agree.refuse _
      · exact agree.refuse _
      · exact agree.refuse _

theorem AgreeAt.receive (capacity : Nat) :
    Act.Like (AgreeAt here) (k.receive here capacity call) (k'.receive here capacity call) := by
  unfold Stack.receive
  rw [agree.entry]
  split
  · exact agree.refuse _
  · split
    · exact agree.refuse _
    · split
      · exact agree.refuse _
      · split
        · exact agree.refuse _
        · split
          · exact agree.answer _
          · refine Act.like_after fun served => ?_
            dsimp only
            split
            · exact Act.like_lift ((agree.put served).emitAll _)
            · exact Act.like_pure (agree.put served)

theorem AgreeAt.finish (c : Connection) (after : State) :
    Act.Like (AgreeAt here) (k.finish c after now call) (k'.finish c after now call) := by
  unfold Stack.finish
  split
  · exact agree.refuse _
  · refine agree.transmit fun tried tried' result agree => ?_
    cases result with
    | ok => exact Act.like_after fun _ => Act.like_pure (agree.put _)
    | error => exact agree.refuse _

theorem AgreeAt.close : Act.Like (AgreeAt here) (k.close here now call) (k'.close here now call) := by
  unfold Stack.close
  rw [agree.entry]
  split
  · exact agree.refuse _
  · split
    · exact agree.refuse _
    · exact Act.like_after fun shut => (agree.put shut).answer _
    · exact Act.like_after fun shut => (agree.put shut).answer _
    · exact agree.finish _ _
    · exact agree.finish _ _
    · exact agree.finish _ _
    all_goals exact agree.refuse _

theorem AgreeAt.abort : Act.Like (AgreeWith here) (k.abort here) (k'.abort here) := by
  unfold Stack.abort
  rw [agree.entry]
  split
  · exact Act.like_pure ⟨agree, rfl⟩
  · split
    · exact Act.like_pure ⟨agree, rfl⟩
    · refine Act.like_after fun shut => ?_
      refine Act.like_bind (Act.like_lift ((agree.put shut).emitAll _)) fun _ _ agree => ?_
      exact Act.like_pure ⟨agree, rfl⟩

theorem AgreeAt.arrives {s : Segment} (addressed : s.receiver = here)
    (same : ∀ c, k.table.get? s.receiver = some c → c.claims s = true → c.takesUp s = true →
      k'.table.nextSeq here s.sender now = k.table.nextSeq here s.sender now) :
    Act.Like (fun a b => AgreeAt here ⟨a.1, k.outlet⟩ ⟨b.1, k'.outlet⟩ ∧ a.2 = b.2)
      (k.table.arrives s now) (k'.table.arrives s now) := by
  unfold Table.arrives
  subst addressed
  rw [agree.entry]
  split
  · exact Act.like_after fun _ => Act.like_pure ⟨agree, rfl⟩
  · rename_i c found
    split
    · rename_i peer
      have claims : c.claims s = true := by
        rw [Connection.claims, (Table.get?_some found).2, peer]
        simp
      cases takes : c.takesUp s with
      | true =>
        rw [same c found claims takes]
        simp only [if_true]
        refine Act.like_after fun arrival => Act.like_pure ⟨?_, rfl⟩
        have drawn : AgreeAt s.receiver ⟨k.table.draw, k.outlet⟩ ⟨k'.table.draw, k'.outlet⟩ :=
          ⟨agree.entry, agree.config, agree.outlet⟩
        exact drawn.put arrival.connection
      | false =>
        -- The generators may have come to different numbers, but this segment does not ask for one.
        rw [Connection.arrives_undrawn takes (k'.table.nextSeq _ _ _) (k.table.nextSeq _ s.sender now)]
        simp only [Bool.false_eq_true, if_false]
        exact Act.like_after fun arrival => Act.like_pure ⟨agree.put arrival.connection, rfl⟩
    · exact Act.like_after fun _ => Act.like_pure ⟨agree, rfl⟩

theorem AgreeAt.ingress {octets : Octets} {src dst : Address}
    (target : (Event.ingress octets src dst).target? = some here)
    (same : ∀ peer, k.Draws (.ingress octets src dst) peer →
      k'.table.nextSeq here peer now = k.table.nextSeq here peer now) :
    Act.Like (AgreeWith here) (k.ingress octets src dst now) (k'.ingress octets src dst now) := by
  unfold Stack.ingress
  split
  · exact Act.like_pure ⟨agree, rfl⟩
  · rename_i p whole
    cases read : Header.read p (.verify src dst) with
    | error fault => exact ⟨rfl, .error fault⟩
    | ok result =>
      rw [Act.lift_bind, Act.lift_bind]
      cases result with
      | error => exact Act.like_pure ⟨agree, rfl⟩
      | ok header =>
        have brings := Event.segment?_ingress ⟨p, header, whole, read, rfl⟩
        have addressed := Option.some.inj ((Event.target?_segment brings).symm.trans target)
        refine Act.like_bind (agree.arrives addressed fun c found claims takes =>
          same _ (.answering brings found claims takes)) fun a b told => ?_
        obtain ⟨t, answers⟩ := a
        obtain ⟨t', answers'⟩ := b
        obtain ⟨agree, rfl⟩ := told
        refine Act.like_bind (Act.like_lift (agree.emitAll answers)) fun _ _ agree => ?_
        exact Act.like_pure ⟨agree, rfl⟩

/-- An event does the same to both stacks at the endpoint that it is addressed to, and is answered the
    same. -/
theorem AgreeAt.handle {event : Event} (target : event.target? = some here)
    (same : ∀ peer, k.Draws event peer →
      k'.table.nextSeq here peer now = k.table.nextSeq here peer now) :
    Act.Like (AgreeWith here) (k.handle event now call) (k'.handle event now call) := by
  have accepted {act act' : Act Stack} (like : Act.Like (AgreeAt here) act act') :
      Act.Like (AgreeWith here) (do return (← act, Answer.accepted))
        (do return (← act', Answer.accepted)) :=
    Act.like_bind like fun _ _ agree => Act.like_pure ⟨agree, rfl⟩
  cases event with
  | bind =>
    cases target
    refine Act.like_pure ?_
    unfold Stack.bind Table.bind
    rw [agree.entry, agree.config]
    split
    · exact ⟨agree, rfl⟩
    · rename_i missing
      refine ⟨⟨?_, rfl, agree.outlet⟩, rfl⟩
      have entered {t : Table} {generator : SeqGenerator} (missing : t.get? here = none) :
          Table.get? ⟨Table.insert (.bound here k.table.config) t.connections, generator,
            k.table.config⟩ here = some (.bound here k.table.config) :=
        (Table.get?_insert missing rfl here).trans (if_pos rfl)
      exact (entered (agree.entry.trans missing)).trans (entered missing).symm
  | remove =>
    cases target
    refine Act.like_pure ?_
    unfold Stack.remove Table.remove
    rw [agree.entry]
    split
    · exact ⟨agree, rfl⟩
    · split
      · refine ⟨⟨?_, agree.config, agree.outlet⟩, rfl⟩
        refine (Table.get?_filter rfl here).trans (.trans ?_ (Table.get?_filter rfl here).symm)
        rw [agree.entry]
      · exact ⟨agree, rfl⟩
  | openConnection _ opening =>
    cases target
    exact accepted (agree.openConnection opening _ fun peer active => same peer (active ▸ .opening))
  | send =>
    cases target
    exact accepted (agree.send _)
  | receive =>
    cases target
    exact accepted (agree.receive _)
  | close =>
    cases target
    exact accepted agree.close
  | abort =>
    cases target
    refine Act.like_bind agree.abort fun a b told => ?_
    exact Act.like_pure ⟨told.1, congrArg Answer.ofCall told.2⟩
  | ingress =>
    refine Act.like_bind (agree.ingress target same) fun a b told => ?_
    exact Act.like_pure ⟨told.1, congrArg Answer.ofWire told.2⟩
  | sweep => cases target
  | verdicts => cases target

end

end Stack
end TcpEngine

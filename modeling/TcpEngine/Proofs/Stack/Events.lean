import TcpEngine.Proofs.Stack.Calls

/-!
What each event does to a stack. This is the only place where the operations of a stack are taken
apart; all that is known of every history is proved from it, by a case for each thing that an event
may do.
-/
namespace TcpEngine

def Reads (octets : Octets) (src dst : Address) (s : Segment) : Prop :=
  ∃ p header, Packet.ofOctets octets = .ok p ∧
    Header.read p (.verify src dst) = .ok (.ok header) ∧ s = ⟨header, p.text, src, dst⟩

namespace Stack

inductive Takes (k : Stack) (now : Instant) (s : Segment) : List Signal → Stack → Prop where
  | unclaimed {k' : Stack} {ds : List Datagram}
      (table : k'.table.connections = k.table.connections) (log : k'.log = k.log ++ ds)
      (holds : ∀ d ∈ ds, ∃ answer, s.resetReply = .ok answer ∧ Holds d answer) :
      Takes k now s [] k'
  | claimed {k' : Stack} {c : Connection} {arrival : Arrival} {σ : List Signal}
      {ds : List Datagram} (iss : SeqNumber) (found : k.table.get? s.receiver = some c)
      (peer : (c.foreign.all fun peer => peer = s.sender) = true)
      (arrives : (c.arrives s iss now).Ends σ arrival)
      (table : k'.table.connections = (k.table.put arrival.connection).connections)
      (log : k'.log = k.log ++ ds)
      (holds : ∀ d ∈ ds, ∃ answer ∈ arrival.answers, datagram answer = .ok d) :
      Takes k now s σ k'

end Stack

inductive Swept (now : Instant) (config : Config) :
    List Connection → List Signal → List Connection → List Segment → Prop where
  | nil : Swept now config [] [] [] []
  | cons {c c' : Connection} {rest rest' : List Connection} {σ τ : List Signal}
      {segments others : List Segment} (first : (c.onTimer now config).Ends σ (c', segments))
      (later : Swept now config rest τ rest' others) :
      Swept now config (c :: rest) (σ ++ τ) (c' :: rest') (segments ++ others)

namespace Stack

/-- What an event does to a stack, and what it signals. -/
inductive Happens (k : Stack) (now : Instant) (call : CallId) :
    Event → List Signal → Stack → Prop where
  | kept {event : Event} {k' : Stack} (silent : event.callee? = none)
      (table : k'.table.connections = k.table.connections) (log : k'.log = k.log)
      (awake : event ≠ .sweep) : Happens k now call event [] k'
  | bound {here : Endpoint} {k' : Stack} (missing : k.table.get? here = none)
      (table : k'.table.connections
        = Table.insert (.bound here k.table.config) k.table.connections)
      (log : k'.log = k.log) : Happens k now call (.bind here) [] k'
  | removed {here : Endpoint} {c : Connection} {k' : Stack} (found : k.table.get? here = some c)
      (closed : c.state = .closed)
      (table : k'.table.connections = k.table.connections.filter fun d => d.here ≠ here)
      (log : k'.log = k.log) : Happens k now call (.remove here) [] k'
  | called {event : Event} {here : Endpoint} {σ : List Signal} {k' : Stack}
      (callee : event.callee? = some here) (h : Calls k now call event here σ k') :
      Happens k now call event σ k'
  | taken {octets : Octets} {src dst : Address} {s : Segment} {σ : List Signal} {k' : Stack}
      (reads : Reads octets src dst s) (h : Takes k now s σ k') :
      Happens k now call (.ingress octets src dst) σ k'
  | swept {σ : List Signal} {k' : Stack} {segments : List Segment} {ds : List Datagram}
      (h : Swept now k.table.config k.table.connections σ k'.table.connections segments)
      (log : k'.log = k.log ++ ds) (holds : ∀ d ∈ ds, ∃ s ∈ segments, datagram s = .ok d) :
      Happens k now call .sweep σ k'

variable {k k' : Stack} {now : Instant} {call : CallId} {σ : List Signal}

theorem bind_happens {here : Endpoint} {answer : Answer}
    (h : (k.handle (.bind here) now call).Ends σ (k', answer)) :
    Happens k now call (.bind here) σ k' := by
  unfold handle at h
  obtain ⟨rfl, same⟩ := Act.ends_pure.mp h
  unfold Stack.bind Table.bind at same
  split at same
  · obtain ⟨rfl, _⟩ := Prod.mk.inj same
    exact .kept rfl rfl rfl nofun
  · rename_i missing
    obtain ⟨rfl, _⟩ := Prod.mk.inj same
    exact .bound missing rfl rfl

theorem remove_happens {here : Endpoint} {answer : Answer}
    (h : (k.handle (.remove here) now call).Ends σ (k', answer)) :
    Happens k now call (.remove here) σ k' := by
  unfold handle at h
  obtain ⟨rfl, same⟩ := Act.ends_pure.mp h
  unfold Stack.remove Table.remove at same
  split at same
  · obtain ⟨rfl, _⟩ := Prod.mk.inj same
    exact .kept rfl rfl rfl nofun
  · rename_i c found
    split at same
    · rename_i closed
      obtain ⟨rfl, _⟩ := Prod.mk.inj same
      exact .removed found closed rfl rfl
    · obtain ⟨rfl, _⟩ := Prod.mk.inj same
      exact .kept rfl rfl rfl nofun

theorem unclaimed_takes {s : Segment} {answer : Option Segment}
    (reset : s.resetReply = .ok answer) (emitted : k.emitAll answer.toList = .ok k') :
    Takes k now s [] k' := by
  obtain ⟨table, ds, log, held⟩ := emitAll_optional emitted
  exact .unclaimed (congrArg _ table) log fun d member => ⟨answer, reset, held d member⟩

theorem arrives_takes {s : Segment} {table : Table} {answers : List Segment}
    (arrives : (k.table.arrives s now).Ends σ (table, answers))
    (emitted : emitAll { k with table } answers = .ok k') : Takes k now s σ k' := by
  unfold Table.arrives at arrives
  split at arrives
  · simp only [Act.ends_bind, Act.ends_lift, Act.ends_pure, Prod.mk.injEq] at arrives
    obtain ⟨_, answer, _, ⟨rfl, reset⟩, ⟨rfl, rfl, rfl⟩, rfl⟩ := arrives
    exact unclaimed_takes reset emitted
  · rename_i c found
    split at arrives
    · rename_i peer
      simp only [Act.ends_bind, Act.ends_pure, Prod.mk.injEq] at arrives
      obtain ⟨σ₁, arrival, _, ends, ⟨rfl, rfl, rfl⟩, rfl⟩ := arrives
      obtain ⟨same, ds, log, held⟩ := emitAll_ok emitted
      rw [List.append_nil]
      refine .claimed _ found peer ends ?_ log held
      rw [same]
      dsimp only
      split <;> rfl
    · simp only [Act.ends_bind, Act.ends_lift, Act.ends_pure, Prod.mk.injEq] at arrives
      obtain ⟨_, answer, _, ⟨rfl, reset⟩, ⟨rfl, rfl, rfl⟩, rfl⟩ := arrives
      exact unclaimed_takes reset emitted

theorem ingress_happens {octets : Octets} {src dst : Address} {answer : Answer}
    (h : (k.handle (.ingress octets src dst) now call).Ends σ (k', answer)) :
    Happens k now call (.ingress octets src dst) σ k' := by
  simp only [handle, Act.ends_bind, Act.ends_pure, Prod.mk.injEq] at h
  obtain ⟨σ₁, ⟨_, result⟩, _, h, ⟨rfl, rfl, _⟩, rfl⟩ := h
  rw [List.append_nil]
  unfold ingress at h
  split at h
  · obtain ⟨rfl, same⟩ := Act.ends_pure.mp h
    obtain ⟨rfl, _⟩ := Prod.mk.inj same
    exact .kept rfl rfl rfl nofun
  · rename_i p whole
    rw [Act.ends_bind] at h
    obtain ⟨_, read, τ, lifted, h, rfl⟩ := h
    obtain ⟨rfl, read⟩ := Act.ends_lift.mp lifted
    rw [List.nil_append]
    split at h
    · obtain ⟨rfl, same⟩ := Act.ends_pure.mp h
      obtain ⟨rfl, _⟩ := Prod.mk.inj same
      exact .kept rfl rfl rfl nofun
    · rename_i header
      simp only [Act.ends_bind, Act.ends_lift, Act.ends_pure, Prod.mk.injEq] at h
      obtain ⟨τ₁, ⟨table, answers⟩, _, arrives, ⟨_, after, _, ⟨rfl, emitted⟩, ⟨rfl, rfl, _⟩, rfl⟩,
        rfl⟩ := h
      rw [List.append_nil, List.append_nil]
      exact .taken ⟨p, header, whole, read, rfl⟩ (arrives_takes arrives emitted)

theorem sweepAll_ends {config : Config} {connections connections' : List Connection}
    {segments : List Segment}
    (h : (Table.sweepAll now config connections).Ends σ (connections', segments)) :
    Swept now config connections σ connections' segments := by
  induction connections generalizing σ connections' segments with
  | nil =>
    obtain ⟨rfl, same⟩ := Act.ends_pure.mp h
    obtain ⟨rfl, rfl⟩ := Prod.mk.inj same
    exact .nil
  | cons c rest ih =>
    simp only [Table.sweepAll, Act.ends_bind, Act.ends_pure, Prod.mk.injEq] at h
    obtain ⟨σ₁, ⟨c', first⟩, _, ends, ⟨σ₂, ⟨rest', others⟩, _, later, ⟨rfl, rfl, rfl⟩, rfl⟩, rfl⟩ := h
    rw [List.append_nil]
    exact .cons ends (ih later)

theorem sweep_happens {answer : Answer} (h : (k.handle .sweep now call).Ends σ (k', answer)) :
    Happens k now call .sweep σ k' := by
  simp only [handle, sweep, Table.sweep, Act.ends_bind, Act.ends_lift, Act.ends_pure,
    Prod.mk.injEq] at h
  obtain ⟨σ₁, after, _, ⟨σ₂, ⟨table, segments⟩, _, ⟨σ₃, ⟨connections, found⟩, _, swept,
    ⟨rfl, rfl, rfl⟩, rfl⟩, ⟨rfl, emitted⟩, rfl⟩, ⟨rfl, rfl, _⟩, rfl⟩ := h
  obtain ⟨same, ds, log, held⟩ := emitAll_ok emitted
  have table : k'.table.connections = connections := congrArg _ same
  rw [List.append_nil, List.append_nil, List.append_nil]
  refine .swept ?_ log held
  rw [table]
  exact sweepAll_ends swept

/-- Whatever event happens to a stack, it does one of the things described. -/
theorem handle_happens {event : Event} {answer : Answer} (distinct : k.table.Distinct)
    (h : (k.handle event now call).Ends σ (k', answer)) : Happens k now call event σ k' := by
  cases event with
  | bind here => exact bind_happens h
  | remove here => exact remove_happens h
  | ingress octets src dst => exact ingress_happens h
  | sweep => exact sweep_happens h
  | verdicts verdicts =>
    obtain ⟨rfl, same⟩ := Act.ends_pure.mp h
    obtain ⟨rfl, _⟩ := Prod.mk.inj same
    exact .kept rfl rfl rfl nofun
  | openConnection here opening timeout => exact .called rfl (handle_calls distinct rfl h)
  | send here text => exact .called rfl (handle_calls distinct rfl h)
  | receive here capacity => exact .called rfl (handle_calls distinct rfl h)
  | close here => exact .called rfl (handle_calls distinct rfl h)
  | abort here => exact .called rfl (handle_calls distinct rfl h)

end Stack
end TcpEngine

import TcpEngine.Proofs.Acknowledgment
import TcpEngine.Proofs.Stack.Locality

/-!
Connections that share a table, a generator and an outlet, and are kept apart all the same. The table is a
map from endpoints; an event changes nothing but the entry it is addressed to, and what it does there does
not depend on the others; a sweep is the timers of all connections, one after the other.
-/
namespace TcpEngine

namespace Endpoint

theorem rank_injective {left right : Endpoint} (same : left.rank = right.rank) : left = right := by
  obtain ⟨address, port⟩ := left
  obtain ⟨address', port'⟩ := right
  unfold rank at same
  dsimp only at same
  have small := port.toNat_lt
  have small' := port'.toNat_lt
  have ports : port = port' := UInt16.toNat_inj.mp (by omega)
  have addresses : address = address' := Address.number_injective (UInt32.toNat_inj.mp (by omega))
  rw [addresses, ports]

def Before (left right : Endpoint) : Prop := left.order right = .lt

theorem before_iff {left right : Endpoint} : left.Before right ↔ left.rank < right.rank :=
  Nat.compare_eq_lt

end Endpoint

namespace Table

def endpoints (t : Table) : List Endpoint := t.connections.map Connection.here

/-- A table that is a map: its connections are in the order of their endpoints, and each is found under
    its own endpoint and no other. -/
structure Keyed (t : Table) : Prop where
  ascending : t.endpoints.Pairwise Endpoint.Before
  own : ∀ here c, t.get? here = some c ↔ c ∈ t.connections ∧ c.here = here

variable {c : Connection}

theorem insert_ascending {connections : List Connection}
    (ascending : (connections.map Connection.here).Pairwise Endpoint.Before)
    (free : c.here ∉ connections.map Connection.here) :
    ((insert c connections).map Connection.here).Pairwise Endpoint.Before := by
  induction connections with
  | nil => exact List.pairwise_singleton _ _
  | cons d rest ih =>
    rw [List.map_cons, List.pairwise_cons] at ascending
    obtain ⟨least, ascending⟩ := ascending
    rw [List.map_cons, List.mem_cons, not_or] at free
    unfold insert
    split
    · rename_i first
      refine List.pairwise_cons.mpr ⟨?_, List.pairwise_cons.mpr ⟨least, ascending⟩⟩
      intro here member
      rcases List.mem_cons.mp member with rfl | member
      · exact Endpoint.before_iff.mpr first
      · exact Endpoint.before_iff.mpr (first.trans (Endpoint.before_iff.mp (least here member)))
    · rename_i later
      refine List.pairwise_cons.mpr ⟨?_, ih ascending free.2⟩
      intro here member
      obtain ⟨e, there, rfl⟩ := List.mem_map.mp member
      rcases mem_insert.mp there with rfl | old
      · have other : d.here.rank ≠ e.here.rank := fun same => free.1 (Endpoint.rank_injective same).symm
        exact Endpoint.before_iff.mpr (by omega)
      · exact least _ (List.mem_map_of_mem old)

end Table

namespace Stack

variable {k k' : Stack} {event : Event} {here other : Endpoint} {now : Instant} {call : CallId}
  {answer : Answer} {σ : List Signal}

/- What is changed. -/

theorem target?_of_callee (callee : event.callee? = some here) : event.target? = some here := by
  cases event <;> first | exact callee | cases callee

theorem happens_elsewhere (proper : Proper k) (happens : Happens k now call event σ k')
    (elsewhere : event.target? ≠ some other) (single : event ≠ .sweep) :
    k'.table.get? other = k.table.get? other := by
  have put {target : Endpoint} {c c' : Connection} (found : k.table.get? target = some c)
      (same : c'.here = c.here) (table : k'.table.connections = (k.table.put c').connections)
      (addressed : event.target? = some target) : k'.table.get? other = k.table.get? other := by
    have apart : other ≠ target := fun is => elsewhere (is ▸ addressed)
    rw [Table.get?_put found same table, if_neg apart]
  cases happens with
  | kept _ table => exact Table.get?_same table other
  | bound missing table =>
    rw [Table.get?_insert missing table]
    exact if_neg fun is => elsewhere (congrArg some is).symm
  | removed _ _ table => rw [Table.get?_filter table, if_neg fun is => elsewhere (congrArg some is).symm]
  | called callee calls =>
    cases calls with
    | absent _ table => exact Table.get?_same table other
    | present _ found called table =>
      exact put found (Connection.called_here called) table (target?_of_callee callee)
  | taken reads takes =>
    cases takes with
    | unclaimed table => exact Table.get?_same table other
    | claimed _ found _ arrives table =>
      have same := Connection.moves_here (proper.moves found arrives).1
      exact put found same table (Event.target?_segment (Event.segment?_ingress reads))
  | swept => exact absurd rfl single

/-- An endpoint is bound if it was free, and removed if its connection was closed. No other event changes
    which endpoints are bound. -/
theorem happens_endpoints (proper : Proper k) (happens : Happens k now call event σ k') :
    k'.table.endpoints = k.table.endpoints ∨
    (∃ here, event = .bind here ∧ here ∉ k.table.endpoints ∧
      k'.table.connections = Table.insert (.bound here k.table.config) k.table.connections) ∨
    ∃ here, event = .remove here ∧
      k'.table.connections = k.table.connections.filter fun d => d.here ≠ here := by
  have kept (table : k'.table.connections = k.table.connections) :
      k'.table.endpoints = k.table.endpoints := congrArg (List.map Connection.here) table
  have put {c : Connection} (table : k'.table.connections = (k.table.put c).connections) :
      k'.table.endpoints = k.table.endpoints := by
    rw [Table.endpoints, table]
    exact Table.put_here _ _
  cases happens with
  | kept _ table => exact .inl (kept table)
  | bound missing table => exact .inr (.inl ⟨_, rfl, Table.get?_none missing, table⟩)
  | removed _ _ table => exact .inr (.inr ⟨_, rfl, table⟩)
  | called _ calls =>
    cases calls with
    | absent _ table => exact .inl (kept table)
    | present _ _ _ table => exact .inl (put table)
  | taken _ takes =>
    cases takes with
    | unclaimed table => exact .inl (kept table)
    | claimed _ _ _ _ table => exact .inl (put table)
  | swept swept => exact .inl (swept_proper swept proper.coherent).1

theorem handle_ascending (proper : Proper k) (ascending : k.table.endpoints.Pairwise Endpoint.Before)
    (h : (k.handle event now call).Ends σ (k', answer)) :
    k'.table.endpoints.Pairwise Endpoint.Before := by
  rcases happens_endpoints proper (handle_happens proper.distinct h) with
    same | ⟨here, _, free, table⟩ | ⟨here, _, table⟩
  · rw [same]
    exact ascending
  · rw [Table.endpoints, table]
    exact Table.insert_ascending ascending free
  · rw [Table.endpoints, table]
    exact ascending.sublist (List.filter_sublist.map _)

theorem run_ascending {place : Nat} {history : List (Event × Instant)} (proper : Proper k)
    (ascending : k.table.endpoints.Pairwise Endpoint.Before) (ends : (k.run place history).Ends σ k') :
    k'.table.endpoints.Pairwise Endpoint.Before := by
  induction history generalizing k place σ with
  | nil =>
    obtain ⟨_, rfl⟩ := Act.ends_pure.mp ends
    exact ascending
  | cons head rest ih =>
    obtain ⟨event, now⟩ := head
    obtain ⟨_, _, _, _, first, later, _⟩ := run_cons_ends.mp ends
    exact ih (handle_proper proper first) (handle_ascending proper ascending first) later

theorem run_keyed {config : Config} {generator : SeqGenerator} {history : List (Event × Instant)}
    (ends : ((Stack.empty config generator).run 0 history).Ends σ k) : k.table.Keyed where
  ascending := run_ascending (proper_empty config generator) .nil ends
  own := by
    intro here c
    constructor
    · exact Table.get?_some
    · rintro ⟨member, rfl⟩
      exact Table.get?_of_mem (run_proper (proper_empty config generator) ends).distinct member

theorem bind_answered (h : (k.handle (.bind here) now call).Ends σ (k', answer)) :
    (∃ e, answer = .refused e) ∧ here ∈ k.table.endpoints ∧ k' = k ∨
    answer = .accepted ∧
      k'.table.connections = Table.insert (.bound here k.table.config) k.table.connections := by
  obtain ⟨-, same⟩ := Act.ends_pure.mp h
  unfold Stack.bind Table.bind at same
  split at same
  · rename_i c found
    obtain ⟨rfl, rfl⟩ := Prod.mk.inj same
    obtain ⟨member, rfl⟩ := Table.get?_some found
    exact .inl ⟨⟨_, rfl⟩, List.mem_map_of_mem member, rfl⟩
  · obtain ⟨rfl, rfl⟩ := Prod.mk.inj same
    exact .inr ⟨rfl, rfl⟩

theorem remove_answered (h : (k.handle (.remove here) now call).Ends σ (k', answer)) :
    (∃ e, answer = .refused e) ∧ k' = k ∨
    answer = .accepted ∧
      k'.table.connections = k.table.connections.filter fun d => d.here ≠ here := by
  obtain ⟨-, same⟩ := Act.ends_pure.mp h
  unfold Stack.remove Table.remove at same
  split at same
  · obtain ⟨rfl, rfl⟩ := Prod.mk.inj same
    exact .inl ⟨⟨_, rfl⟩, rfl⟩
  · split at same
    · obtain ⟨rfl, rfl⟩ := Prod.mk.inj same
      exact .inr ⟨rfl, rfl⟩
    · obtain ⟨rfl, rfl⟩ := Prod.mk.inj same
      exact .inl ⟨⟨_, rfl⟩, rfl⟩

theorem handle_endpoints (proper : Proper k) (h : (k.handle event now call).Ends σ (k', answer))
    (here : Endpoint) : here ∈ k'.table.endpoints ↔
      event = .bind here ∧ answer = .accepted ∨
      here ∈ k.table.endpoints ∧ ¬ (event = .remove here ∧ answer = .accepted) := by
  have endpoints := happens_endpoints proper (handle_happens proper.distinct h)
  cases event with
  | bind target =>
    rcases bind_answered h with ⟨⟨e, rfl⟩, _, rfl⟩ | ⟨rfl, table⟩
    · simp
    · have grown : here ∈ k'.table.endpoints ↔ here = target ∨ here ∈ k.table.endpoints := by
        rw [Table.endpoints, table, ((Table.insert_perm _ _).map _).mem_iff]
        exact List.mem_cons
      simp [grown, eq_comm]
  | remove target =>
    rcases remove_answered h with ⟨⟨e, rfl⟩, rfl⟩ | ⟨rfl, table⟩
    · simp
    · have shrunk : here ∈ k'.table.endpoints ↔ here ∈ k.table.endpoints ∧ here ≠ target := by
        simp only [Table.endpoints, table, List.mem_map, List.mem_filter, decide_eq_true_eq]
        constructor
        · rintro ⟨c, ⟨old, other⟩, rfl⟩
          exact ⟨⟨c, old, rfl⟩, other⟩
        · rintro ⟨⟨c, old, rfl⟩, other⟩
          exact ⟨c, ⟨old, other⟩, rfl⟩
      simp [shrunk, eq_comm]
  | _ =>
    rcases endpoints with same | ⟨_, bound, _⟩ | ⟨_, removed, _⟩
    · simp [same]
    · cases bound
    · cases removed

end Stack

/- The sweep. -/

def Connection.timed (c : Connection) (now : Instant) (config : Config) : Connection × List Segment :=
  (c.onTimer now config).result (c, [])

theorem Table.sweepAll_apart {connections connections' : List Connection} {segments : List Segment}
    {config : Config} {now : Instant} {σ : List Signal} :
    (sweepAll now config connections).Ends σ (connections', segments) ↔
      (∀ c ∈ connections, (c.onTimer now config).Succeeds) ∧
      σ = connections.flatMap (fun c => (c.onTimer now config).signals) ∧
      connections' = connections.map (fun c => (c.timed now config).1) ∧
      segments = connections.flatMap fun c => (c.timed now config).2 := by
  induction connections generalizing σ connections' segments with
  | nil => simp [sweepAll, Act.ends_pure]
  | cons c rest ih =>
    simp only [sweepAll, Act.ends_bind, Act.ends_pure, Prod.mk.injEq, List.forall_mem_cons,
      List.flatMap_cons, List.map_cons]
    constructor
    · rintro ⟨_, ⟨c', first⟩, _, ends, ⟨_, ⟨rest', others⟩, _, later, ⟨rfl, rfl, rfl⟩, rfl⟩, rfl⟩
      obtain ⟨each, rfl, rfl, rfl⟩ := ih.mp later
      have mine : (c', first) = c.timed now config := ends.eq_result _
      rw [List.append_nil, ends.eq_signals, ← mine]
      exact ⟨⟨⟨_, _, ends⟩, each⟩, rfl, rfl, rfl⟩
    · rintro ⟨⟨first, each⟩, rfl, rfl, rfl⟩
      exact ⟨_, _, _, first.ends (c, []), ⟨_, _, [], ih.mpr ⟨each, rfl, rfl, rfl⟩, ⟨rfl, rfl, rfl⟩, rfl⟩,
        by rw [List.append_nil]⟩

theorem Table.sweep_apart {t t' : Table} {segments : List Segment} {now : Instant} {σ : List Signal} :
    (t.sweep now).Ends σ (t', segments) ↔
      (∀ c ∈ t.connections, (c.onTimer now t.config).Succeeds) ∧
      σ = t.connections.flatMap (fun c => (c.onTimer now t.config).signals) ∧
      t' = { t with connections := t.connections.map fun c => (c.timed now t.config).1 } ∧
      segments = t.connections.flatMap fun c => (c.timed now t.config).2 := by
  simp only [sweep, Act.ends_bind, Act.ends_pure, Prod.mk.injEq]
  constructor
  · rintro ⟨_, ⟨connections, sent⟩, _, swept, ⟨rfl, rfl, rfl⟩, rfl⟩
    obtain ⟨each, rfl, rfl, rfl⟩ := sweepAll_apart.mp swept
    exact ⟨each, List.append_nil _, rfl, rfl⟩
  · rintro ⟨each, rfl, rfl, rfl⟩
    exact ⟨_, _, [], sweepAll_apart.mpr ⟨each, rfl, rfl, rfl⟩, ⟨rfl, rfl, rfl⟩, (List.append_nil _).symm⟩

namespace Stack

variable {k k' : Stack} {event : Event} {now : Instant} {call : CallId} {σ : List Signal}

/-- A sweep that has done to each connection what its timer does, and has then handed over what they send
    again, in the order of the table. -/
structure SweptApart (k : Stack) (now : Instant) (σ : List Signal) (k' : Stack) : Prop where
  each : ∀ c ∈ k.table.connections, (c.onTimer now k.table.config).Ends
    (c.onTimer now k.table.config).signals (c.timed now k.table.config)
  signals : σ = k.table.connections.flatMap fun c => (c.onTimer now k.table.config).signals
  entry : ∀ here, k'.table.get? here
    = (k.table.get? here).map fun c => (c.timed now k.table.config).1
  rest : k'.table.endpoints = k.table.endpoints ∧ k'.table.generator = k.table.generator
  outlet : ∃ ds, (k.table.connections.flatMap fun c => (c.timed now k.table.config).2).mapM datagram
    = .ok ds ∧ k'.outlet = k.outlet.transmitEach ds

theorem sweep_apart (ends : (k.sweep now).Ends σ k') : k.SweptApart now σ k' := by
  obtain ⟨_, ⟨table, segments⟩, _, swept, handed, rfl⟩ := Act.ends_bind.mp ends
  obtain ⟨each, rfl, rfl, rfl⟩ := Table.sweep_apart.mp swept
  obtain ⟨rfl, emitted⟩ := Act.ends_lift.mp handed
  rw [emitAll_eq, except_map_ok] at emitted
  obtain ⟨ds, written, rfl⟩ := emitted
  have heres : ∀ c ∈ k.table.connections, (c.timed now k.table.config).1.here = c.here :=
    fun c member => Connection.turns_here (Connection.onTimer_turns ((each c member).ends (c, []))).1
  exact
    { each := fun c member => (each c member).ends _
      signals := List.append_nil _
      entry := Table.get?_map heres rfl
      rest := ⟨(List.map_map).trans (List.map_congr_left heres), rfl⟩
      outlet := ⟨ds, written, rfl⟩ }

/-- Nothing but a timer can stop a sweep. -/
theorem sweep_succeeds_iff (limited : ∀ c ∈ k.table.connections, c.Limited) :
    (k.sweep now).Succeeds ↔ ∀ c ∈ k.table.connections, (c.onTimer now k.table.config).Succeeds := by
  constructor
  · rintro ⟨σ, k', ends⟩
    obtain ⟨_, ⟨table, segments⟩, _, swept, _⟩ := Act.ends_bind.mp ends
    exact (Table.sweep_apart.mp swept).1
  · intro each
    have swept := Table.sweep_apart.mpr ⟨each, rfl, rfl, rfl⟩
    have sized : ∀ s ∈ k.table.connections.flatMap fun c => (c.timed now k.table.config).2, s.Sized := by
      intro s member
      obtain ⟨c, there, sent⟩ := List.mem_flatMap.mp member
      exact Connection.onTimer_sized (limited c there) ((each c there).ends (c, [])) s sent
    obtain ⟨k', emitted⟩ := emitAll_succeeds { k with table := _ } sized
    exact ⟨_, k', Act.ends_bind.mpr ⟨_, _, _, swept, Act.ends_lift.mpr ⟨rfl, emitted⟩, rfl⟩⟩

/- Strangers. -/

/-- A segment that is not from the peer of its connection meets the same as if no endpoint were bound. -/
theorem handle_stranger {s : Segment} {c : Connection} {peer : Endpoint}
    (brings : event.segment? = some s) (found : k.table.get? s.receiver = some c)
    (knows : c.foreign = some peer) (stranger : peer ≠ s.sender) :
    k.handle event now call = (do
      let (bare, answer) ←
        handle ⟨.empty k.table.config k.table.generator, k.outlet⟩ event now call
      return ({ bare with table := k.table }, answer)) := by
  obtain ⟨octets, src, dst, rfl, p, header, whole, read, rfl⟩ := Event.reads_of_segment? brings
  have spurned : ¬ (c.foreign.all fun peer =>
      peer = (⟨header, p.text, src, dst⟩ : Segment).sender) = true := by
    rw [knows]
    simpa using stranger
  have none : (Table.empty k.table.config k.table.generator).get?
    (⟨header, p.text, src, dst⟩ : Segment).receiver = none := rfl
  simp only [handle, ingress, whole]
  rw [read, Act.lift_bind, Act.lift_bind]
  dsimp only
  rw [Table.arrives, Table.arrives, found, none]
  dsimp only
  rw [if_neg spurned]
  simp only [bind_assoc, pure_bind]
  refine congrArg _ (funext fun reset => ?_)
  rw [emitAll_eq, emitAll_eq]
  cases reset.toList.mapM datagram <;> rfl

/-- Connections that share a table do not feel it. The table is a map. Whatever happens, no entry changes
    but the one that the event is addressed to, and no endpoint is bound or removed but by the call that
    says so. What the event does there, and what it sends, is the same on any stack with the same
    connection, settings and outlet, and with the same initial sequence number if one is drawn. A segment
    from a stranger leaves the table alone and meets what it would meet at an empty one. A sweep is the
    timers of all connections, each as if it were alone, in the order of the endpoints. -/
theorem connections_isolated {config : Config} {generator : SeqGenerator}
    {history : List (Event × Instant)}
    (ends : ((Stack.empty config generator).run 0 history).Ends σ k) :
    k.table.Keyed ∧
    (∀ (event : Event) (now : Instant) (call : CallId),
      (∀ τ k' answer, (k.handle event now call).Ends τ (k', answer) →
        (event ≠ .sweep → ∀ other, event.target? ≠ some other →
          k'.table.get? other = k.table.get? other) ∧
        ∀ here, here ∈ k'.table.endpoints ↔
          event = .bind here ∧ answer = .accepted ∨
          here ∈ k.table.endpoints ∧ ¬ (event = .remove here ∧ answer = .accepted)) ∧
      (∀ here k₁, event.target? = some here → AgreeAt here k k₁ →
        (∀ peer, k.Draws event peer →
          k₁.table.nextSeq here peer now = k.table.nextSeq here peer now) →
        Act.Like (AgreeWith here) (k.handle event now call) (k₁.handle event now call)) ∧
      ∀ s c peer, event.segment? = some s → k.table.get? s.receiver = some c →
        c.foreign = some peer → peer ≠ s.sender →
        k.handle event now call = (do
          let (bare, answer) ←
            handle ⟨.empty k.table.config k.table.generator, k.outlet⟩ event now call
          return ({ bare with table := k.table }, answer))) ∧
    ∀ now, ((k.sweep now).Succeeds ↔
        ∀ c ∈ k.table.connections, (c.onTimer now k.table.config).Succeeds) ∧
      (config.Sane → (k.sweep now).Succeeds) ∧
      ∀ τ k', (k.sweep now).Ends τ k' → k.SweptApart now τ k' := by
  have sound := run_sound (sound_empty config generator) ends
  refine ⟨run_keyed ends, fun event now call => ⟨?_, ?_, ?_⟩, fun now => ⟨?_, ?_, ?_⟩⟩
  · intro τ k' answer handled
    have happens := handle_happens sound.proper.distinct handled
    exact ⟨fun single other elsewhere => happens_elsewhere sound.proper happens elsewhere single,
      handle_endpoints sound.proper handled⟩
  · exact fun here k₁ target agree same => agree.handle target same
  · exact fun s c peer brings found knows stranger => handle_stranger brings found knows stranger
  · exact sweep_succeeds_iff sound.limited
  · exact fun sane => sweep_succeeds (run_going (going_empty sane generator) ends).able
  · exact fun τ k' swept => sweep_apart swept

def sharing : List (Event × Instant) :=
  asking ++ [(.bind ⟨⟨10, 0, 0, 1⟩, 49153⟩, .start),
    (.openConnection ⟨⟨10, 0, 0, 1⟩, 49153⟩ (.active (some ⟨⟨10, 0, 0, 3⟩, 80⟩)) none, .start)]

def strange : Event :=
  -- The answer to the first opening, but from the peer of the second.
  .ingress [0, 80, 192, 0, 0, 0, 3, 232, 10, 62, 28, 189, 80, 18, 1, 244, 174, 167, 0, 0]
    ⟨10, 0, 0, 3⟩ ⟨10, 0, 0, 1⟩

theorem sharing_isolated :
    let here : Endpoint := ⟨⟨10, 0, 0, 1⟩, 49152⟩
    let other : Endpoint := ⟨⟨10, 0, 0, 1⟩, 49153⟩
    ∃ σ k, ((Stack.empty { receiveWindow := 8 } (.ofKey 1 2)).run 0 sharing).Ends σ k ∧
      (∃ τ k' answer, (k.handle agreement .start 4).Ends τ (k', answer) ∧
        k'.table.get? here ≠ k.table.get? here ∧ k'.table.get? other = k.table.get? other) ∧
      Act.Like (AgreeWith here) (k.handle agreement .start 4)
        (handle ⟨asked.table, k.outlet⟩ agreement .start 4) ∧
      k.handle strange .start 4 = (do
        let (bare, answer) ←
          handle ⟨.empty k.table.config k.table.generator, k.outlet⟩ strange .start 4
        return ({ bare with table := k.table }, answer)) ∧
      ∃ τ k', (k.sweep ⟨10000⟩).Ends τ k' ∧ k.SweptApart ⟨10000⟩ τ k' := by
  intro here other
  let start : Stack := .empty { receiveWindow := 8 } (.ofKey 1 2)
  let k := (start.run 0 sharing).result start
  have ends : (start.run 0 sharing).Ends (start.run 0 sharing).signals k :=
    Act.ends_result _ (by decide +kernel)
  obtain ⟨_, events, sweeps⟩ := connections_isolated ends
  obtain ⟨⟨k', answer⟩, handled, changed⟩ : ∃ after, (k.handle agreement .start 4).Ends
      (k.handle agreement .start 4).signals after ∧ after.1.table.get? here ≠ k.table.get? here :=
    ⟨_, Act.ends_result (k, .accepted) (by decide +kernel), by decide +kernel⟩
  -- The second opening has drawn a number that the stack to compare with has not; nobody listens, and
  -- so no segment draws another.
  have busy : ∀ c ∈ k.table.connections, c.state ≠ .listen := by decide +kernel
  have target : agreement.target? = some here := by decide +kernel
  have agree : AgreeAt here k ⟨asked.table, k.outlet⟩ :=
    ⟨by decide +kernel, by decide +kernel, by decide +kernel⟩
  obtain ⟨framed, alike, _⟩ := events agreement .start 4
  obtain ⟨_, _, estranged⟩ := events strange .start 4
  obtain ⟨_, succeeds, apart⟩ := sweeps ⟨10000⟩
  obtain ⟨τ, swept, sweep⟩ := succeeds ⟨by decide, by decide, by decide, by decide⟩
  refine ⟨_, k, ends, ⟨_, k', answer, handled, changed, ?_⟩, ?_, ?_, τ, swept, sweep, apart τ swept sweep⟩
  · exact (framed _ k' answer handled).1 nofun other (by rw [target]; decide)
  · refine alike here _ target agree fun peer draws => ?_
    cases draws with
    | answering _ found _ takes =>
      exact absurd (Connection.takesUp_iff.mp takes).1 (busy _ (Table.get?_some found).1)
  · let s := strange.segment?.getD ⟨⟨0, 0, ⟨0⟩, ⟨0⟩, none, 0, 0, 0⟩, [], ⟨0, 0, 0, 0⟩, ⟨0, 0, 0, 0⟩⟩
    let c := (k.table.get? here).getD (.bound here {})
    exact estranged s c ⟨⟨10, 0, 0, 2⟩, 80⟩ (by decide +kernel) (by decide +kernel) (by decide +kernel)
      (by decide +kernel)

end Stack
end TcpEngine

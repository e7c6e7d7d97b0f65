import TcpEngine.Proofs.Refusal

/-!
Connections that fail to open. What an opening has written before it fails is taken back, so that a
connection that listens goes on to listen for the same peer; its timeout is not.
-/
namespace TcpEngine

/-- The two connections agree in what an opening that fails must not change. -/
structure Connection.Undone (c c' : Connection) : Prop where
  state : c'.state = c.state
  foreign : c'.foreign = c.foreign
  userTimeout : c'.userTimeout = c.userTimeout
  queue : c'.queue = c.queue
  buffer : c'.buffer = c.buffer
  reception : c'.reception = c.reception

namespace Stack

inductive OpenFails (k : Stack) (here : Endpoint) (timeout : Option Duration) :
    Opening → CallError → Stack → Prop where
  | unbound {opening : Opening} {k' : Stack} (missing : k.table.get? here = none)
      (table : k'.table.connections = k.table.connections) :
      OpenFails k here timeout opening .connectionDoesNotExist k'
  | busy {opening : Opening} {k' : Stack} {c : Connection} (found : k.table.get? here = some c)
      (busy : ¬ c.Free) (table : k'.table.connections = k.table.connections) :
      OpenFails k here timeout opening .connectionExists k'
  | unnamed {k' : Stack} {c : Connection} (found : k.table.get? here = some c) (free : c.Free)
      (table : k'.table.connections = (k.table.put
        { c with userTimeout := timeout.getD k.table.config.userTimeout }).connections) :
      OpenFails k here timeout (.active none) .foreignUnspecified k'
  | undelivered {foreign : Endpoint} {k' : Stack} {c : Connection} {d : Datagram}
      {last : DeliveryError} (iss : SeqNumber) (found : k.table.get? here = some c) (free : c.Free)
      (tries : k.outlet.Tries d (max 1 k.table.config.transmitAttempts) k'.outlet (.error last))
      (table : k'.table.connections = (k.table.put
        { c.starting foreign iss (timeout.getD k.table.config.userTimeout) with
          foreign := c.foreign }).connections) :
      OpenFails k here timeout (.active (some foreign)) (.transmit last) k'

variable {k k' : Stack} {here : Endpoint} {opening : Opening} {timeout : Option Duration}
  {now : Instant} {call : CallId} {σ τ : List Signal} {c : Connection} {e : CallError}

theorem openActive_fails {foreign : Endpoint} {iss : SeqNumber}
    (h : (k.openActive c foreign iss now call).Ends τ k') (failed : .fails e call ∈ τ) :
    ∃ d last, e = .transmit last ∧
      k.outlet.Tries d (max 1 k.table.config.transmitAttempts) k'.outlet (.error last) ∧
      k'.table = k.table.put { c.starting foreign iss c.userTimeout with foreign := c.foreign } := by
  unfold openActive at h
  dsimp only at h
  split at h
  · rename_i missing
    cases missing
  · rw [Act.ends_bind] at h
    obtain ⟨_, ⟨tried, result⟩, _, lifted, h, rfl⟩ := h
    obtain ⟨rfl, sent⟩ := Act.ends_lift.mp lifted
    obtain ⟨table, d, _, tries⟩ := transmit_tries sent
    rw [List.nil_append] at failed
    cases result with
    | ok =>
      dsimp only at h
      rw [Act.ends_bind] at h
      obtain ⟨_, _, _, added, h, rfl⟩ := h
      obtain ⟨rfl, _⟩ := Act.ends_lift.mp added
      obtain ⟨rfl, _⟩ := Act.ends_pure.mp h
      cases failed
    | error last =>
      obtain ⟨rfl, rfl⟩ := refuse_ends.mp h
      cases List.mem_singleton.mp failed
      exact ⟨d, last, rfl, tries, congrArg (Table.put · _) table⟩

theorem openConnection_fails (h : (k.openConnection here opening timeout now call).Ends τ k')
    (failed : .fails e call ∈ τ) : OpenFails k here timeout opening e k' := by
  unfold openConnection at h
  dsimp only at h
  split at h
  · rename_i missing
    obtain ⟨rfl, rfl⟩ := refuse_ends.mp h
    cases List.mem_singleton.mp failed
    exact .unbound missing (by split <;> rfl)
  · rename_i c found
    split at h
    · rename_i free
      split at h
      · obtain ⟨rfl, _⟩ := answer_ends.mp h
        cases List.mem_singleton.mp failed
      · obtain ⟨rfl, rfl⟩ := refuse_ends.mp h
        cases List.mem_singleton.mp failed
        exact .unnamed found free rfl
      · rename_i foreign
        obtain ⟨d, last, rfl, tries, table⟩ := openActive_fails h failed
        refine .undelivered (k.table.nextSeq here foreign now) found free tries ?_
        rw [table]
        rfl
    · rename_i busy
      obtain ⟨rfl, rfl⟩ := refuse_ends.mp h
      cases List.mem_singleton.mp failed
      exact .busy found busy (by split <;> rfl)

/-- Of a connection that fails to open, all but the timeout is as it was. -/
theorem OpenFails.leaves (distinct : k.table.Distinct) (fails : OpenFails k here timeout opening e k')
    (found : k.table.get? here = some c) :
    ∃ c', c'.here = c.here ∧ k'.table.connections = (k.table.put c').connections ∧
      (c'.state = c.state ∧ c'.foreign = c.foreign ∧ c'.queue = c.queue ∧ c'.buffer = c.buffer ∧
        c'.reception = c.reception) ∧
      (¬ c.Free ∧ c' = c ∨ c.Free ∧ c'.userTimeout = timeout.getD k.table.config.userTimeout) := by
  cases fails with
  | unbound missing =>
    rw [missing] at found
    cases found
  | busy found' busy table =>
    cases found'.symm.trans found
    exact ⟨c, rfl, table.trans (Table.put_same distinct found).symm, ⟨rfl, rfl, rfl, rfl, rfl⟩,
      .inl ⟨busy, rfl⟩⟩
  | unnamed found' free table | undelivered _ found' free _ table =>
    cases found'.symm.trans found
    refine ⟨_, ?_, table, ⟨rfl, rfl, rfl, rfl, rfl⟩, .inr ⟨free, rfl⟩⟩
    rfl

theorem OpenFails.missing (fails : OpenFails k here timeout opening e k')
    (missing : k.table.get? here = none) : k'.table.connections = k.table.connections := by
  cases fails with
  | unbound _ table => exact table
  | busy found | unnamed found | undelivered _ found =>
    rw [missing] at found
    cases found

/-- An opening comes to its end. Where it fails at once, no other connection is changed, and its own is
    what it was before exactly if the opening did not get as far as to set the timeout, or set the one that
    the connection had. -/
theorem failed_open_undone_iff {config : Config} {generator : SeqGenerator}
    {history : List (Event × Instant)}
    (ends : ((Stack.empty config generator).run 0 history).Ends σ k) :
    (∀ here opening timeout now,
      (k.handle (.openConnection here opening timeout) now history.length).Succeeds) ∧
    ∀ {here opening timeout now τ k' answer e},
      (k.handle (.openConnection here opening timeout) now history.length).Ends τ (k', answer) →
      ⟨history.length, .failed e⟩ ∈ τ →
      OpenFails k here timeout opening e k' ∧
      (∀ other, other ≠ here → k'.table.get? other = k.table.get? other) ∧
      (k.table.get? here = none → k'.table.get? here = none) ∧
      ∀ c, k.table.get? here = some c → ∃ c', k'.table.get? here = some c' ∧
        (c'.state = c.state ∧ c'.foreign = c.foreign ∧ c'.queue = c.queue ∧ c'.buffer = c.buffer ∧
          c'.reception = c.reception) ∧
        (c.Undone c' ↔ ¬ c.Free ∨ timeout.getD k.table.config.userTimeout = c.userTimeout) := by
  have distinct : k.table.Distinct := (run_sound (sound_empty config generator) ends).proper.distinct
  refine ⟨fun here opening timeout now => ?_, ?_⟩
  · exact Act.succeeds_bind (k.openConnection_succeeds opening timeout) fun _ _ _ => Act.succeeds_pure _
  intro here opening timeout now τ k' answer e handled failed
  have fails : OpenFails k here timeout opening e k' := by
    simp only [handle, Act.ends_bind, Act.ends_pure, Prod.mk.injEq] at handled
    obtain ⟨_, _, _, opened, ⟨rfl, rfl, rfl⟩, rfl⟩ := handled
    rw [List.append_nil] at failed
    exact openConnection_fails opened failed
  refine ⟨fails, ?_, ?_, ?_⟩
  · intro other apart
    cases found : k.table.get? here with
    | none => exact Table.get?_same (fails.missing found) other
    | some c =>
      obtain ⟨c', same, table, _⟩ := fails.leaves distinct found
      rw [Table.get?_put found same table, if_neg apart]
  · intro missing
    rw [← missing]
    exact Table.get?_same (fails.missing missing) here
  · intro c found
    obtain ⟨c', same, table, parts, timeout⟩ := fails.leaves distinct found
    refine ⟨c', by rw [Table.get?_put found same table, if_pos rfl], parts, ?_⟩
    obtain ⟨state, foreign, queue, buffer, reception⟩ := parts
    constructor
    · intro undone
      rcases timeout with ⟨busy, _⟩ | ⟨_, set⟩
      · exact .inl busy
      · exact .inr (set.symm.trans undone.userTimeout)
    · intro kept
      refine ⟨state, foreign, ?_, queue, buffer, reception⟩
      rcases timeout with ⟨_, rfl⟩ | ⟨free, set⟩
      · rfl
      · exact set.trans (kept.resolve_left (not_not_intro free))

def listening : List (Event × Instant) :=
  [(.bind ⟨⟨10, 0, 0, 1⟩, 49152⟩, .start),
   (.openConnection ⟨⟨10, 0, 0, 1⟩, 49152⟩ (.passive none) none, .start),
   (.verdicts [some .unresolved, some .exhausted, some .unresolved], .start)]

theorem listening_undone :
    let here : Endpoint := ⟨⟨10, 0, 0, 1⟩, 49152⟩
    let opening : Opening := .active (some ⟨⟨10, 0, 0, 2⟩, 80⟩)
    ∃ σ k, ((Stack.empty { receiveWindow := 8 } (.ofKey 1 2)).run 0 listening).Ends σ k ∧
      ∃ τ k' answer c c', (k.handle (.openConnection here opening none) .start 3).Ends τ (k', answer) ∧
        ⟨3, .failed (.transmit .unresolved)⟩ ∈ τ ∧ k.table.get? here = some c ∧ c.state = .listen ∧
        k'.table.get? here = some c' ∧ c.Undone c' := by
  intro here opening
  let start : Stack := .empty { receiveWindow := 8 } (.ofKey 1 2)
  let k := (start.run 0 listening).result start
  let c := (k.table.get? here).getD (.bound here {})
  let act := k.handle (.openConnection here opening none) .start 3
  have ends : (start.run 0 listening).Ends (start.run 0 listening).signals k :=
    Act.ends_result _ (by decide +kernel)
  obtain ⟨⟨k', answer⟩, handled⟩ : ∃ after, act.Ends act.signals after :=
    ⟨_, Act.ends_result (k, .accepted) (by decide +kernel)⟩
  have failed : ⟨3, .failed (.transmit .unresolved)⟩ ∈ act.signals := by decide +kernel
  have found : k.table.get? here = some c := by decide +kernel
  have listens : c.state = .listen := by decide +kernel
  have kept : Option.getD none k.table.config.userTimeout = c.userTimeout := by decide +kernel
  obtain ⟨_, _, _, undone⟩ := (failed_open_undone_iff ends).2 handled failed
  obtain ⟨c', found', _, undone⟩ := undone c found
  exact ⟨_, k, ends, _, k', answer, c, c', handled, failed, found, listens, found',
    undone.mpr (.inr kept)⟩

/-- An opening with a timeout of its own leaves it behind. -/
theorem listening_hurried :
    let here : Endpoint := ⟨⟨10, 0, 0, 1⟩, 49152⟩
    let opening : Opening := .active (some ⟨⟨10, 0, 0, 2⟩, 80⟩)
    ∃ σ k, ((Stack.empty { receiveWindow := 8 } (.ofKey 1 2)).run 0 listening).Ends σ k ∧
      ∃ τ k' answer c c',
        (k.handle (.openConnection here opening (some (.ofSeconds 1))) .start 3).Ends τ (k', answer) ∧
        ⟨3, .failed (.transmit .unresolved)⟩ ∈ τ ∧ k.table.get? here = some c ∧
        k'.table.get? here = some c' ∧ ¬ c.Undone c' := by
  intro here opening
  let start : Stack := .empty { receiveWindow := 8 } (.ofKey 1 2)
  let k := (start.run 0 listening).result start
  let c := (k.table.get? here).getD (.bound here {})
  let act := k.handle (.openConnection here opening (some (.ofSeconds 1))) .start 3
  have ends : (start.run 0 listening).Ends (start.run 0 listening).signals k :=
    Act.ends_result _ (by decide +kernel)
  obtain ⟨⟨k', answer⟩, handled, c', found', changed⟩ : ∃ after, act.Ends act.signals after ∧
      ∃ c', after.1.table.get? here = some c' ∧ c'.userTimeout ≠ c.userTimeout :=
    ⟨_, Act.ends_result (k, .accepted) (by decide +kernel),
      ((act.result (k, .accepted)).1.table.get? here).getD c, by decide +kernel, by decide +kernel⟩
  exact ⟨_, k, ends, _, k', answer, c, c', handled, by decide +kernel, by decide +kernel, found',
    fun undone => changed undone.userTimeout⟩

end Stack
end TcpEngine

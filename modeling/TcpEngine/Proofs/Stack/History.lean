import TcpEngine.Proofs.Connection.Coherence
import TcpEngine.Proofs.Stack.Events

/-!
Histories of a stack: events of all kinds, each at a time of its own. Whatever happens, the
connections of a table keep different endpoints, and each of them stays coherent.
-/
namespace TcpEngine
namespace Stack

/-- Lets the events of a history happen one after the other. A call is named by its place in the
    history. -/
def run (k : Stack) (place : Nat) : List (Event × Instant) → Act Stack
  | [] => return k
  | (event, now) :: rest => do
    let (k, _) ← k.handle event now place
    k.run (place + 1) rest

theorem run_cons_ends {k k' : Stack} {place : Nat} {event : Event} {now : Instant}
    {rest : List (Event × Instant)} {σ : List Signal} :
    (k.run place ((event, now) :: rest)).Ends σ k' ↔ ∃ σ₁ k₁ answer σ₂,
      (k.handle event now place).Ends σ₁ (k₁, answer) ∧ (k₁.run (place + 1) rest).Ends σ₂ k' ∧
        σ = σ₁ ++ σ₂ := by
  rw [run, Act.ends_bind]
  constructor
  · rintro ⟨σ₁, ⟨k₁, answer⟩, σ₂, first, later, rfl⟩
    exact ⟨σ₁, k₁, answer, σ₂, first, later, rfl⟩
  · rintro ⟨σ₁, k₁, answer, σ₂, first, later, rfl⟩
    exact ⟨σ₁, (k₁, answer), σ₂, first, later, rfl⟩

theorem run_append_ends {k k₁ k₂ : Stack} {place : Nat} {σ₁ σ₂ : List Signal}
    {first later : List (Event × Instant)} (before : (k.run place first).Ends σ₁ k₁)
    (after : (k₁.run (place + first.length) later).Ends σ₂ k₂) :
    (k.run place (first ++ later)).Ends (σ₁ ++ σ₂) k₂ := by
  induction first generalizing k place σ₁ with
  | nil =>
    obtain ⟨rfl, rfl⟩ := Act.ends_pure.mp before
    exact after
  | cons step rest ih =>
    obtain ⟨τ, k', answer, τ', handled, ends, rfl⟩ := run_cons_ends.mp before
    rw [List.length_cons, Nat.add_comm rest.length, ← Nat.add_assoc] at after
    exact run_cons_ends.mpr ⟨τ, k', answer, τ' ++ σ₂, handled, ih ends after, List.append_assoc _ _ _⟩

structure Proper (k : Stack) : Prop where
  distinct : k.table.Distinct
  coherent : ∀ c ∈ k.table.connections, c.Coherent

theorem proper_empty (config : Config) (generator : SeqGenerator) :
    Proper (.empty config generator) where
  distinct := List.nodup_nil
  coherent := fun _ member => absurd member List.not_mem_nil

variable {k k' : Stack} {now : Instant} {call : CallId} {σ : List Signal}

theorem Proper.kept (h : Proper k) (table : k'.table.connections = k.table.connections) :
    Proper k' where
  distinct := by
    unfold Table.Distinct
    rw [table]
    exact h.distinct
  coherent := by
    rw [table]
    exact h.coherent

theorem Proper.put (h : Proper k) {c : Connection} (coherent : c.Coherent)
    (table : k'.table.connections = (k.table.put c).connections) : Proper k' where
  distinct := by
    unfold Table.Distinct
    rw [table]
    exact Table.put_distinct h.distinct c
  coherent := by
    intro d member
    rw [table] at member
    rcases Table.mem_put member with rfl | member
    · exact coherent
    · exact h.coherent d member

theorem mem_of_put {here : Endpoint} {c c' : Connection} (distinct : k.table.Distinct)
    (found : k.table.get? here = some c) (same : c'.here = c.here)
    (table : k'.table.connections = (k.table.put c').connections) :
    c' ∈ k'.table.connections := by
  obtain ⟨before, behind, _, replaced⟩ := Table.split_at distinct found
  rw [table, replaced c' same]
  exact List.mem_append_right _ List.mem_cons_self

theorem found_of_put {here : Endpoint} {c c' : Connection} (distinct : k.table.Distinct)
    (found : k.table.get? here = some c) (same : c'.here = c.here)
    (table : k'.table.connections = (k.table.put c').connections) :
    k'.table.get? here = some c' := by
  have there := mem_of_put distinct found same table
  have distinct' : k'.table.Distinct := by
    unfold Table.Distinct
    rw [table]
    exact Table.put_distinct distinct c'
  rw [← (Table.get?_some found).2, ← same]
  exact Table.get?_of_mem distinct' there

theorem Proper.found (h : Proper k) {here : Endpoint} {c : Connection}
    (found : k.table.get? here = some c) : c.Coherent :=
  h.coherent c (Table.get?_some found).1

theorem Proper.moves (h : Proper k) {s : Segment} {c : Connection} {arrival : Arrival}
    {iss : SeqNumber} {here : Endpoint} (found : k.table.get? here = some c)
    (arrives : (c.arrives s iss now).Ends σ arrival) :
    Chain (Move s iss now) c σ arrival.connection ∧ ∀ answer ∈ arrival.answers,
      Answers s arrival.connection answer ∨ c.control [.rst] = some answer :=
  Connection.arrives_handled (h.found found).fresh arrives

theorem swept_proper {config : Config} {connections connections' : List Connection}
    {segments : List Segment} (swept : Swept now config connections σ connections' segments)
    (coherent : ∀ c ∈ connections, c.Coherent) :
    connections'.map Connection.here = connections.map Connection.here ∧
      ∀ c ∈ connections', c.Coherent := by
  induction swept with
  | nil => exact ⟨rfl, coherent⟩
  | @cons c c' rest rest' _ _ _ _ first _ ih =>
    obtain ⟨turns, _⟩ := Connection.onTimer_turns first
    have first := turns.keeps (P := Connection.Coherent) Connection.coherent_turn
      (coherent c List.mem_cons_self)
    have here := Connection.turns_here turns
    obtain ⟨heres, later⟩ := ih fun d member => coherent d (List.mem_cons_of_mem _ member)
    refine ⟨by rw [List.map_cons, List.map_cons, here, heres], ?_⟩
    intro d member
    rcases List.mem_cons.mp member with rfl | member
    · exact first
    · exact later d member

theorem happens_proper {event : Event} (h : Proper k) (happens : Happens k now call event σ k') :
    Proper k' := by
  cases happens with
  | kept _ table => exact h.kept table
  | bound missing table =>
    constructor
    · unfold Table.Distinct
      rw [table, ((Table.insert_perm _ _).map _).nodup_iff, List.map_cons, List.nodup_cons]
      exact ⟨Table.get?_none missing, h.distinct⟩
    · intro c member
      rw [table] at member
      rcases Table.mem_insert.mp member with rfl | member
      · exact Connection.coherent_bound _ _
      · exact h.coherent c member
  | removed _ _ table =>
    constructor
    · unfold Table.Distinct
      rw [table]
      exact List.Nodup.sublist (List.filter_sublist.map _) h.distinct
    · intro c member
      rw [table] at member
      exact h.coherent c (List.mem_filter.mp member).1
  | called _ calls =>
    cases calls with
    | absent _ table => exact h.kept table
    | present _ found called table =>
      exact h.put (Connection.coherent_called (h.found found) called) table
  | taken _ takes =>
    cases takes with
    | unclaimed table => exact h.kept table
    | claimed _ found _ arrives table =>
      refine h.put ?_ table
      have moves := (h.moves found arrives).1
      exact moves.keeps (P := Connection.Coherent) Connection.coherent_move (h.found found)
  | swept swept =>
    obtain ⟨heres, coherent⟩ := swept_proper swept h.coherent
    refine ⟨?_, coherent⟩
    unfold Table.Distinct
    rw [heres]
    exact h.distinct

theorem handle_proper {event : Event} {answer : Answer} (h : Proper k)
    (ends : (k.handle event now call).Ends σ (k', answer)) : Proper k' :=
  happens_proper h (handle_happens h.distinct ends)

theorem run_proper {place : Nat} {history : List (Event × Instant)} (h : Proper k)
    (ends : (k.run place history).Ends σ k') : Proper k' := by
  induction history generalizing k place σ with
  | nil =>
    obtain ⟨_, rfl⟩ := Act.ends_pure.mp ends
    exact h
  | cons head rest ih =>
    obtain ⟨event, now⟩ := head
    obtain ⟨_, _, _, _, first, later, _⟩ := run_cons_ends.mp ends
    exact ih (handle_proper h first) later

end Stack
end TcpEngine

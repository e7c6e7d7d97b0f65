import TcpEngine.Proofs.Stack.History

/-!
A stack with a single connection. Whatever event happens to the stack happens to that connection, or
is answered without it.
-/
namespace TcpEngine

inductive Undergoes (now : Instant) (call : CallId) :
    Event → Connection → List Signal → List Datagram → Connection → Prop where
  | kept {event : Event} {c : Connection} (silent : event.callee? = none) :
      Undergoes now call event c [] [] c
  | unclaimed {octets : Octets} {src dst : Address} {s : Segment} {c : Connection}
      {ds : List Datagram} (holds : ∀ d ∈ ds, ∃ answer, s.resetReply = .ok answer ∧ Holds d answer) :
      Undergoes now call (.ingress octets src dst) c [] ds c
  | called {event : Event} {c c' : Connection} {σ : List Signal} {ds : List Datagram}
      (iss : SeqNumber) (h : Called iss now call event c σ ds c') :
      Undergoes now call event c σ ds c'
  | arrived {octets : Octets} {src dst : Address} {s : Segment} {c : Connection} {σ : List Signal}
      {arrival : Arrival} {ds : List Datagram} (iss : SeqNumber) (reads : Reads octets src dst s)
      (target : s.receiver = c.here) (arrives : (c.arrives s iss now).Ends σ arrival)
      (holds : ∀ d ∈ ds, ∃ answer ∈ arrival.answers, Stack.datagram answer = .ok d) :
      Undergoes now call (.ingress octets src dst) c σ ds arrival.connection
  | timed {c c' : Connection} {σ : List Signal} {config : Config} {segments : List Segment}
      {ds : List Datagram} (ends : (c.onTimer now config).Ends σ (c', segments))
      (holds : ∀ d ∈ ds, ∃ s ∈ segments, Stack.datagram s = .ok d) :
      Undergoes now call .sweep c σ ds c'

def Event.lasting : Event → Bool
  | .bind _ | .remove _ => false
  | _ => true

namespace Stack

variable {k k' : Stack} {now : Instant} {call : CallId} {σ : List Signal} {c c' : Connection}

theorem get?_single (one : k.table.connections = [c]) : k.table.get? c.here = some c := by
  unfold Table.get?
  rw [one]
  exact List.find?_cons_of_pos (by simp)

theorem found_single (one : k.table.connections = [c]) {here : Endpoint} {d : Connection}
    (found : k.table.get? here = some d) : d = c ∧ c.here = here := by
  obtain ⟨member, same⟩ := Table.get?_some found
  rw [one, List.mem_singleton] at member
  exact ⟨member, member ▸ same⟩

theorem put_single (one : k.table.connections = [c]) (same : c'.here = c.here) :
    (k.table.put c').connections = [c'] := by
  simp only [Table.put, one, List.map_cons, List.map_nil, same, if_true]

theorem handle_undergoes {event : Event} {answer : Answer} (one : k.table.connections = [c])
    (coherent : c.Coherent) (lasting : event.lasting = true)
    (inside : ∀ here, event.callee? = some here → here = c.here)
    (ends : (k.handle event now call).Ends σ (k', answer)) :
    ∃ c' ds, k'.table.connections = [c'] ∧ c'.here = c.here ∧ k'.log = k.log ++ ds ∧
      Undergoes now call event c σ ds c' := by
  have distinct : k.table.Distinct := by
    unfold Table.Distinct
    rw [one]
    exact List.nodup_cons.mpr ⟨List.not_mem_nil, List.nodup_nil⟩
  cases handle_happens distinct ends with
  | kept silent table log =>
    exact ⟨c, [], table.trans one, rfl, by rw [log, List.append_nil], .kept silent⟩
  | bound => cases lasting
  | removed => cases lasting
  | called callee calls =>
    obtain rfl := inside _ callee
    cases calls with
    | absent missing =>
      rw [get?_single one] at missing
      cases missing
    | @present _ _ c' _ ds iss found called table log =>
      obtain ⟨rfl, _⟩ := found_single one found
      have same := Connection.called_here called
      exact ⟨c', ds, table.trans (put_single one same), same, log, .called iss called⟩
  | taken reads takes =>
    cases takes with
    | unclaimed table log holds => exact ⟨c, _, table.trans one, rfl, log, .unclaimed holds⟩
    | @claimed _ d arrival _ ds iss found _ arrives table log holds =>
      obtain ⟨rfl, target⟩ := found_single one found
      have moves := (Connection.arrives_handled coherent.fresh arrives).1
      have same := Connection.moves_here moves
      exact ⟨_, ds, table.trans (put_single one same), same, log,
        .arrived iss reads target.symm arrives holds⟩
  | @swept _ _ segments ds swept log holds =>
    rw [one] at swept
    generalize table : k'.table.connections = connections at swept
    cases swept with
    | cons first later =>
      cases later with
      | nil =>
        rw [List.append_nil] at holds ⊢
        have same := Connection.turns_here (Connection.onTimer_turns first).1
        exact ⟨_, ds, rfl, same, log, .timed first holds⟩

end Stack
end TcpEngine

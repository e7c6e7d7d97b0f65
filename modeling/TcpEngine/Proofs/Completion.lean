import TcpEngine.Host
import TcpEngine.Proofs.Stack.History

/-!
Calls are answered exactly once. No step creates, copies or loses a call: the calls that a step
answers and those that wait after it are the calls that waited before, and the call just made.
-/
namespace TcpEngine

def answered (σ : List Signal) : List CallId := σ.map Signal.call

theorem answered_append (σ τ : List Signal) : answered (σ ++ τ) = answered σ ++ answered τ :=
  List.map_append

theorem answered_fails (error : CallError) (calls : List CallId) :
    answered (calls.map (Signal.fails error)) = calls := by
  rw [answered, List.map_map]
  exact List.map_id calls

theorem answered_done (calls : List CallId) : answered (calls.map Signal.tellsDone) = calls := by
  rw [answered, List.map_map]
  exact List.map_id calls

namespace Connection

theorem waiting_eq (c : Connection) : c.waiting
    = c.queue.filterMap Unacked.call ++ c.reception.toList.map Reception.call := rfl

theorem terminate_balances {c c' : Connection} {error : CallError} {σ : List Signal}
    (ends : (c.terminate error).Ends σ c') : (answered σ ++ c'.waiting).Perm c.waiting := by
  obtain ⟨rfl, rfl⟩ := terminate_ends.mp ends
  rw [answered_fails]
  exact List.Perm.of_eq (List.append_nil c.waiting)

theorem deliver_balances {c c' : Connection} {σ : List Signal} (ends : c.deliver.Ends σ c') :
    (answered σ ++ c'.waiting).Perm c.waiting := by
  rcases deliver_ends ends with ⟨rfl, rfl, _⟩ | ⟨reception, asked, _, rfl, rfl⟩
  · exact List.Perm.refl _
  · rw [waiting_eq c, asked, waiting_eq, served, Option.toList_none, List.map_nil, List.append_nil]
    exact List.perm_append_comm

theorem release_balances {c : Connection} {unacked : SeqNumber} {now : Instant} {σ : List Signal}
    {queue : List Unacked} {roundTrip : RoundTrip}
    (ends : (release unacked now c.queue c.roundTrip).Ends σ (queue, roundTrip)) :
    answered σ ++ queue.filterMap Unacked.call = c.queue.filterMap Unacked.call := by
  obtain ⟨done, released, rfl⟩ := release_ends ends
  rw [answered_done, released.split, List.filterMap_append]

theorem turn_balances {c c' : Connection} {timer : Option Config} {now : Instant} {σ : List Signal}
    (turn : Turn timer now c σ c') : (answered σ ++ c'.waiting).Perm c.waiting := by
  cases turn with
  | deliver ends => exact deliver_balances ends
  | release ends =>
    rw [waiting_eq, waiting_eq, ← List.append_assoc, ← release_balances ends]
  | review _ looked =>
    obtain ⟨givenUp, reviewed, rfl⟩ := review_ends looked
    rw [answered_fails, waiting_eq, waiting_eq, ← List.append_assoc]
    exact reviewed.calls.append_right _
  | terminate ends => exact terminate_balances ends

theorem acceptText_waiting {c c' : Connection} {seq : SeqNumber} {text : Octets}
    (ok : c.acceptText seq text = .ok c') : c'.waiting = c.waiting := by
  rcases acceptText_ok ok with rfl | ⟨_, _, _, _, _, _, rfl⟩ <;> rfl

theorem countFin_balances {c c' : Connection} {now : Instant} {σ : List Signal}
    (ends : (c.countFin now).Ends σ (c', true)) : (answered σ ++ c'.waiting).Perm c.waiting := by
  obtain ⟨rfl, _⟩ := countFin_ends ends
  obtain ⟨_, _, rfl⟩ := countFin_counts ends
  rw [answered_fails, waiting_eq, waiting_eq, ended]
  dsimp only
  split
  · rw [Option.toList_map, Option.toList_none, List.map_nil, List.append_nil]
    exact List.perm_append_comm
  · exact List.Perm.refl _

theorem both_calls (queue : List Unacked) (flags : Flags) :
    (queue.map fun e => if e.flags.has .syn then { e with flags } else e).filterMap Unacked.call
      = queue.filterMap Unacked.call := by
  rw [List.filterMap_map]
  congr 1
  funext e
  simp only [Function.comp_apply]
  split <;> rfl

theorem move_balances {s : Segment} {iss : SeqNumber} {now : Instant} {c c' : Connection}
    {σ : List Signal} (move : Move s iss now c σ c') :
    (answered σ ++ c'.waiting).Perm c.waiting := by
  cases move with
  | turn turn => exact turn_balances turn
  | note _ _ _ _ _ same => exact same ▸ List.Perm.refl _
  | takeUp =>
    rw [waiting_eq, waiting_eq, Connection.takenUp, List.filterMap_append]
    exact List.Perm.of_eq (congrArg (· ++ _) (List.append_nil _))
  | greet _ _ _ _ _ ends =>
    rw [waiting_eq, waiting_eq, ← List.append_assoc, ← release_balances ends]
  | cross =>
    rw [waiting_eq, waiting_eq, both_calls]
    exact List.Perm.refl _
  | acceptFirst _ _ ok => exact acceptText_waiting ok ▸ List.Perm.refl _
  | advance _ _ _ _ ends =>
    rw [waiting_eq, waiting_eq, ← List.append_assoc, ← release_balances ends]
  | accept _ _ ok => exact acceptText_waiting ok ▸ List.Perm.refl _
  | finish _ _ _ ends => exact countFin_balances ends
  | _ => exact List.Perm.refl _

theorem chain_balances {step : Connection → List Signal → Connection → Prop}
    (balances : ∀ {c σ c'}, step c σ c' → (answered σ ++ c'.waiting).Perm c.waiting)
    {c c' : Connection} {σ : List Signal} (chain : Chain step c σ c') :
    (answered σ ++ c'.waiting).Perm c.waiting := by
  induction chain with
  | nil => exact List.Perm.refl _
  | cons first _ ih =>
    rw [answered_append, List.append_assoc]
    exact (ih.append_left _).trans (balances first)

end Connection

def Event.made (event : Event) (call : CallId) : List CallId :=
  if event.isCall then [call] else []

theorem waiting_after_new (queue reception : List CallId) (call : CallId) :
    (queue ++ [call] ++ reception).Perm (queue ++ reception ++ [call]) := by
  rw [List.append_assoc, List.append_assoc]
  exact List.perm_append_comm.append_left queue

theorem called_balances {iss : SeqNumber} {now : Instant} {call : CallId} {event : Event}
    {c c' : Connection} {σ : List Signal} {ds : List Datagram}
    (called : Called iss now call event c σ ds c') :
    (answered σ ++ c'.waiting).Perm (c.waiting ++ event.made call) := by
  cases called with
  | told asks =>
    rw [Event.made, if_pos asks]
    exact List.perm_append_comm
  | timed => exact (List.perm_append_singleton call c.waiting).symm
  | listen => exact (List.perm_append_singleton call c.waiting).symm
  | fail => exact (List.perm_append_singleton call c.waiting).symm
  | ask | send | finish =>
    rw [Connection.waiting_eq, Connection.waiting_eq]
    simp only [Connection.asked, Connection.starting, Connection.sent, Connection.finished,
      List.filterMap_append]
    exact waiting_after_new _ _ call
  | receive idle _ ends =>
    have balanced := Connection.deliver_balances ends
    rw [Connection.waiting_eq c, idle]
    rw [Connection.waiting_eq { c with reception := some _ }] at balanced
    exact balanced.trans (List.Perm.of_eq (congrArg (· ++ _) (List.append_nil _).symm))
  | quit _ ends =>
    rw [answered_append, List.append_assoc]
    exact (List.perm_append_comm.append_left _).trans
      (List.append_assoc .. ▸ (Connection.terminate_balances ends).append_right _)
  | idle => exact List.Perm.of_eq (List.append_nil c.waiting).symm
  | abort _ ends => exact (List.append_nil c.waiting).symm ▸ Connection.terminate_balances ends

namespace Stack

def waiting (k : Stack) : List CallId := k.table.waiting

variable {k k' : Stack} {now : Instant} {call : CallId} {σ : List Signal}

theorem waiting_of_table (table : k'.table.connections = k.table.connections) :
    k'.waiting = k.waiting := by
  rw [waiting, waiting, Table.waiting, Table.waiting, table]

theorem put_balances {here : Endpoint} {c c' : Connection} {made : List CallId}
    (distinct : k.table.Distinct) (found : k.table.get? here = some c) (same : c'.here = c.here)
    (table : k'.table.connections = (k.table.put c').connections)
    (balanced : (answered σ ++ c'.waiting).Perm (c.waiting ++ made)) :
    (answered σ ++ k'.waiting).Perm (k.waiting ++ made) := by
  obtain ⟨before, behind, parts, replaced⟩ := Table.split_at distinct found
  simp only [waiting, Table.waiting, table, replaced c' same, parts, List.flatMap_append,
    List.flatMap_cons]
  generalize before.flatMap Connection.waiting = front
  generalize behind.flatMap Connection.waiting = back
  calc
    (answered σ ++ (front ++ (c'.waiting ++ back))).Perm
        (front ++ (answered σ ++ (c'.waiting ++ back))) := List.perm_append_comm_assoc ..
    _ = front ++ ((answered σ ++ c'.waiting) ++ back) := by rw [List.append_assoc]
    (front ++ ((answered σ ++ c'.waiting) ++ back)).Perm
        (front ++ ((c.waiting ++ made) ++ back)) := (balanced.append_right _).append_left _
    (front ++ ((c.waiting ++ made) ++ back)).Perm (front ++ (c.waiting ++ (back ++ made))) := by
      rw [List.append_assoc]
      exact (List.perm_append_comm.append_left _).append_left _
    _ = front ++ (c.waiting ++ back) ++ made := by simp only [List.append_assoc]

theorem swept_balances {config : Config} {connections connections' : List Connection}
    {segments : List Segment} (swept : Swept now config connections σ connections' segments) :
    (answered σ ++ connections'.flatMap Connection.waiting).Perm
      (connections.flatMap Connection.waiting) := by
  induction swept with
  | nil => exact List.Perm.refl _
  | @cons c c' rest rest' σ τ _ _ first _ ih =>
    have turned := Connection.chain_balances Connection.turn_balances
      (Connection.onTimer_turns first).1
    rw [answered_append, List.flatMap_cons, List.flatMap_cons, List.append_assoc]
    calc
      (answered σ ++ (answered τ ++ (c'.waiting ++ rest'.flatMap Connection.waiting))).Perm
          (answered σ ++ (c'.waiting ++ (answered τ ++ rest'.flatMap Connection.waiting))) :=
        (List.perm_append_comm_assoc ..).append_left _
      _ = answered σ ++ c'.waiting ++ (answered τ ++ rest'.flatMap Connection.waiting) :=
        (List.append_assoc ..).symm
      (answered σ ++ c'.waiting ++ (answered τ ++ rest'.flatMap Connection.waiting)).Perm
          (c.waiting ++ rest.flatMap Connection.waiting) := turned.append ih

theorem removed_balances {here : Endpoint} {c : Connection} (h : Proper k)
    (found : k.table.get? here = some c) (closed : c.state = .closed) :
    (k.table.connections.filter fun d => d.here ≠ here).flatMap Connection.waiting
      = k.table.connections.flatMap Connection.waiting := by
  have none (d : Connection) (member : d ∈ k.table.connections) (same : d.here = here) :
      d.waiting = [] := by
    have other := Table.get?_of_mem h.distinct member
    rw [same, found] at other
    cases other
    have coherent := h.coherent c member
    rw [Connection.waiting_eq, coherent.unsent (Or.inl closed), (coherent.closed closed).2]
    rfl
  generalize k.table.connections = connections at none
  induction connections with
  | nil => rfl
  | cons d rest ih =>
    have later := ih fun e member => none e (List.mem_cons_of_mem _ member)
    by_cases same : d.here = here
    · rw [List.filter_cons_of_neg (by simpa using same), later, List.flatMap_cons,
        none d List.mem_cons_self same]
      rfl
    · rw [List.filter_cons_of_pos (by simpa using same), List.flatMap_cons, List.flatMap_cons, later]

theorem handle_balances {event : Event} {answer : Answer} (h : Proper k)
    (ends : (k.handle event now call).Ends σ (k', answer)) :
    (answered σ ++ k'.waiting).Perm (k.waiting ++ event.made call) := by
  have uncalled {event : Event} (silent : event.callee? = none) : event.made call = [] := by
    cases event <;> first | rfl | cases silent
  cases handle_happens h.distinct ends with
  | kept silent table =>
    rw [uncalled silent, List.append_nil, waiting_of_table table]
    exact List.Perm.refl _
  | bound _ table =>
    rw [uncalled rfl, List.append_nil, waiting, waiting, Table.waiting, Table.waiting, table]
    exact (Table.insert_perm _ _).flatMap_right _
  | removed found closed table =>
    rw [uncalled rfl, List.append_nil, waiting, waiting, Table.waiting, Table.waiting, table,
      removed_balances h found closed]
    exact List.Perm.refl _
  | called callee calls =>
    cases calls with
    | absent _ table =>
      rw [waiting_of_table table, Event.made]
      split
      · exact List.perm_append_comm
      · exact List.Perm.of_eq (List.append_nil k.waiting).symm
    | present _ found called table =>
      exact put_balances h.distinct found (Connection.called_here called) table
        (called_balances called)
  | taken _ takes =>
    rw [uncalled rfl]
    cases takes with
    | unclaimed table =>
      rw [List.append_nil, waiting_of_table table]
      exact List.Perm.refl _
    | @claimed _ c arrival _ _ _ found _ arrives table =>
      have moves := (h.moves found arrives).1
      refine put_balances h.distinct found (Connection.moves_here moves) table ?_
      rw [List.append_nil]
      exact Connection.chain_balances Connection.move_balances moves
  | swept swept =>
    rw [uncalled rfl, List.append_nil]
    exact swept_balances swept

def madeFrom (place : Nat) : List (Event × Instant) → List CallId
  | [] => []
  | (event, _) :: rest => event.made place ++ madeFrom (place + 1) rest

theorem mem_madeFrom {place : Nat} {history : List (Event × Instant)}
    (member : call ∈ madeFrom place history) : place ≤ call := by
  induction history generalizing place with
  | nil => exact absurd member List.not_mem_nil
  | cons head rest ih =>
    rcases List.mem_append.mp member with first | later
    · unfold Event.made at first
      split at first
      · exact Nat.le_of_eq (List.mem_singleton.mp first).symm
      · exact absurd first List.not_mem_nil
    · exact Nat.le_of_succ_le (ih later)

theorem count_madeFrom {place i : Nat} {history : List (Event × Instant)} {event : Event}
    (there : history[i]? = some (event, now)) :
    (madeFrom place history).count (place + i) = if event.isCall then 1 else 0 := by
  induction history generalizing place i with
  | nil => cases there
  | cons head rest ih =>
    rw [madeFrom, List.count_append]
    cases i with
    | zero =>
      cases there
      have behind : (madeFrom (place + 1) rest).count (place + 0) = 0 := by
        rw [List.count_eq_zero]
        intro member
        have later := mem_madeFrom member
        omega
      rw [behind, Event.made]
      split <;> simp
    | succ i =>
      have first : (head.1.made place).count (place + (i + 1)) = 0 := by
        rw [List.count_eq_zero, Event.made]
        split <;> simp
      rw [first, Nat.zero_add, show place + (i + 1) = place + 1 + i by omega]
      exact ih there

/-- Over a whole history, the calls answered and the calls that still wait are those that waited at
    its begin and those that were made in it. -/
theorem run_balances {place : Nat} {history : List (Event × Instant)} (h : Proper k)
    (ends : (k.run place history).Ends σ k') :
    (answered σ ++ k'.waiting).Perm (k.waiting ++ madeFrom place history) := by
  induction history generalizing k place σ with
  | nil =>
    obtain ⟨rfl, rfl⟩ := Act.ends_pure.mp ends
    exact List.Perm.of_eq (List.append_nil k'.waiting).symm
  | cons head rest ih =>
    obtain ⟨event, now⟩ := head
    obtain ⟨σ₁, k₁, answer, σ₂, first, later, rfl⟩ := run_cons_ends.mp ends
    have balanced := handle_balances h first
    have others := ih (handle_proper h first) later
    rw [answered_append, List.append_assoc]
    calc
      (answered σ₁ ++ (answered σ₂ ++ k'.waiting)).Perm
          (answered σ₁ ++ (k₁.waiting ++ madeFrom (place + 1) rest)) := others.append_left _
      _ = answered σ₁ ++ k₁.waiting ++ madeFrom (place + 1) rest := (List.append_assoc ..).symm
      (answered σ₁ ++ k₁.waiting ++ madeFrom (place + 1) rest).Perm
          (k.waiting ++ event.made place ++ madeFrom (place + 1) rest) := balanced.append_right _
      _ = k.waiting ++ madeFrom place ((event, now) :: rest) := List.append_assoc ..

theorem run_settles {place made : Nat} {history : List (Event × Instant)} {event : Event} (h : Proper k)
    (idle : k.waiting = []) (ends : (k.run place history).Ends σ k')
    (there : history[made]? = some (event, now)) (asks : event.isCall = true) :
    (answered σ).count (place + made) = 1 ∧ place + made ∉ k'.waiting ∨
      place + made ∉ answered σ ∧ k'.waiting.count (place + made) = 1 := by
  have balanced := (run_balances h ends).count_eq (place + made)
  have once : (madeFrom place history).count (place + made) = _ := count_madeFrom there
  rw [if_pos asks] at once
  rw [List.count_append, List.count_append, once, idle, List.count_nil] at balanced
  rw [← List.count_eq_zero, ← List.count_eq_zero]
  omega

/-- In every history that begins with an empty table, a call was answered once and waits nowhere, or
    was not answered yet and waits in one place. -/
theorem call_answered_or_waiting {config : Config} {generator : SeqGenerator}
    {history : List (Event × Instant)} {place : Nat} {event : Event}
    (ends : ((Stack.empty config generator).run 0 history).Ends σ k)
    (there : history[place]? = some (event, now)) (asks : event.isCall = true) :
    (answered σ).count place = 1 ∧ place ∉ k.waiting ∨
      place ∉ answered σ ∧ k.waiting.count place = 1 := by
  have settled := run_settles (proper_empty config generator) rfl ends there asks
  rwa [Nat.zero_add] at settled

def expecting : List (Event × Instant) :=
  [(.bind ⟨⟨10, 0, 0, 1⟩, 80⟩, .start),
   (.openConnection ⟨⟨10, 0, 0, 1⟩, 80⟩ (.passive none) none, .start),
   (.receive ⟨⟨10, 0, 0, 1⟩, 80⟩ 5, .start)]

theorem expecting_waits : ∃ σ k,
    ((Stack.empty { receiveWindow := 8 } (.ofKey 1 2)).run 0 expecting).Ends σ k ∧
      (answered σ).count 1 = 1 ∧ 2 ∉ answered σ ∧ k.waiting.count 2 = 1 := by
  have ends : ((Stack.empty { receiveWindow := 8 } (.ofKey 1 2)).run 0 expecting).Ends _ _ :=
    Act.ends_result (.empty {} (.ofKey 1 2)) (by decide +kernel)
  have opened := call_answered_or_waiting ends (show expecting[1]? = some _ from rfl) rfl
  have received := call_answered_or_waiting ends (show expecting[2]? = some _ from rfl) rfl
  exact ⟨_, _, ends, (opened.resolve_right fun h => absurd h.2 (by decide +kernel)).1,
    received.resolve_left fun h => absurd h.1 (by decide +kernel)⟩

end Stack
end TcpEngine

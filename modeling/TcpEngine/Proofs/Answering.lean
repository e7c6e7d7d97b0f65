import TcpEngine.Proofs.Announcement
import TcpEngine.Proofs.Faultless

/-!
What an arriving segment is answered with: nothing or one segment, and that goes back to where the other
came from. A reset is never answered, and whatever moves the next number expected is acknowledged.
-/
namespace TcpEngine

def Segment.Returns (s answer : Segment) : Prop :=
  answer.sender = s.receiver ∧ answer.receiver = s.sender

structure Segment.Confirms (answer : Segment) (c : Connection) : Prop where
  ack : answer.header.flags.has .ack = true
  calm : answer.header.flags.has .rst = false
  number : answer.header.ack = some c.receive.next

namespace Connection

variable {s answer : Segment} {iss : SeqNumber} {now : Instant} {σ : List Signal} {a : Arrival}
  {c c' : Connection} {timer : Option Config}

/- A connection that claims a segment does so as long as this is handled. -/

theorem claims_same (here : c'.here = c.here) (foreign : c'.foreign = c.foreign) :
    c'.claims s = c.claims s := by
  rw [claims, here, foreign]
  rfl

theorem claims_turn (claims : c.claims s = true) (turn : Turn timer now c σ c') : c'.claims s = true := by
  cases turn with
  | deliver ends =>
    rcases deliver_ends ends with ⟨_, rfl, _⟩ | ⟨_, _, _, _, rfl⟩
    · exact claims
    · exact claims
  | release | review => exact claims
  | terminate ends =>
    obtain ⟨_, rfl⟩ := terminate_ends.mp ends
    obtain ⟨here, _⟩ := claims_iff.mp claims
    exact claims_iff.mpr ⟨here, rfl⟩

theorem claims_move (claims : c.claims s = true) (move : Move s iss now c σ c') : c'.claims s = true := by
  cases move with
  | turn turn => exact claims_turn claims turn
  | note _ _ _ _ _ same =>
    subst same
    exact claims
  | takeUp =>
    obtain ⟨here, _⟩ := claims_iff.mp claims
    exact claims_iff.mpr ⟨here, by simp [takenUp]⟩
  | acceptFirst _ _ ok | accept _ _ ok =>
    rw [claims_same (acceptText_here ok) (acceptText_foreign ok)]
    exact claims
  | finish _ _ _ ends =>
    obtain ⟨_, _, rfl⟩ := countFin_counts ends
    exact claims
  | greet | cross | establish | advance | halfClose | wait => exact claims

theorem claims_moves (claims : c.claims s = true) (moves : Chain (Move s iss now) c σ c') :
    c'.claims s = true :=
  moves.keeps (P := fun d => d.claims s = true) claims_move claims

theorem segment_returns {flags : Flags} {seq : SeqNumber} {text : Octets} (claims : c.claims s = true)
    (sent : c.segment flags seq text = some answer) : s.Returns answer := by
  obtain ⟨here, peer⟩ := claims_iff.mp claims
  obtain ⟨foreign, known, rfl⟩ := Option.map_eq_some_iff.mp sent
  rw [known, Option.all_some, decide_eq_true_iff] at peer
  exact ⟨here.symm, peer⟩

end Connection

theorem resetReply_returns {s answer : Segment} (reset : s.resetReply = .ok (some answer)) :
    s.Returns answer := by
  unfold Segment.resetReply at reset
  dsimp only at reset
  split at reset
  · cases reset
  · split at reset
    · cases reset
      exact ⟨rfl, rfl⟩
    · simp only [except_bind_ok, except_pure_ok] at reset
      obtain ⟨_, _, same⟩ := reset
      cases same
      exact ⟨rfl, rfl⟩

theorem resetReply_reset {s : Segment} {answer : Option Segment} (rst : s.header.flags.has .rst = true)
    (reset : s.resetReply = .ok answer) : answer = none := by
  unfold Segment.resetReply at reset
  rw [if_pos rst] at reset
  exact except_pure_ok.mp reset

namespace Connection

variable {s answer : Segment} {iss : SeqNumber} {now : Instant} {σ : List Signal} {a : Arrival}
  {c c' : Connection}

theorem arrives_returns (coherent : Coherent c) (claims : c.claims s = true)
    (h : (c.arrives s iss now).Ends σ a) : ∀ answer ∈ a.answers, s.Returns answer := by
  intro answer given
  obtain ⟨moves, answers⟩ := arrives_handled coherent.fresh h
  rcases answers answer given with kind | rst
  · cases kind with
    | reset reset => exact resetReply_returns reset
    | ack _ sent | syn _ sent => exact segment_returns (claims_moves claims moves) sent
  · exact segment_returns claims rst

/- How many answers there are. -/

theorem content_single (content : Content s now c a) : ∃ answer : Option Segment, a.answers = answer.toList := by
  cases content with
  | quiet => exact ⟨none, rfl⟩
  | fin | text => exact ⟨_, rfl⟩

theorem arrives_single (coherent : Coherent c) (h : (c.arrives s iss now).Ends σ a) :
    ∃ answer : Option Segment, a.answers = answer.toList := by
  cases arrives_course coherent h with
  | acknowledged => exact ⟨none, rfl⟩
  | content _ _ _ content | establish _ _ _ _ content => exact content_single content
  | refused | shut | meets | greets | unfit | unsent => exact ⟨_, rfl⟩

theorem arrives_unanswered (coherent : Coherent c) (rst : s.header.flags.has .rst = true)
    (h : (c.arrives s iss now).Ends σ a) : a.answers = [] := by
  have never {P : Prop} (calm : s.header.flags.has .rst = false) : P := by
    rw [rst] at calm
    cases calm
  cases arrives_course coherent h with
  | @refused answer reset =>
    rcases reset with rfl | reset
    · rfl
    · rw [resetReply_reset rst reset]
      rfl
  | shut told =>
    rcases told with rfl | ⟨calm, _⟩
    · rfl
    · exact never calm
  | acknowledged => rfl
  | meets _ calm | greets _ calm | unfit _ _ _ calm => exact never calm
  | unsent _ processed | content _ processed | establish _ processed => exact never processed.2.1

/- What is acknowledged. -/

/-- An arrival that moves the next number expected is acknowledged, unless it ends the connection. -/
theorem arrives_moved (coherent : Coherent c) (open' : a.connection.state ≠ .closed)
    (moved : a.connection.receive.next ≠ c.receive.next) (h : (c.arrives s iss now).Ends σ a) :
    Acks a := by
  have looked {d : Connection} (known : d.foreign.isSome = true) (same : d.receive = c.receive)
      (content : Content s now d a) : Acks a := by
    rcases content_acks known content with acks | ⟨urgent, rfl⟩
    · exact acks
    · exact absurd (congrArg ReceiveVars.next same) moved
  cases arrives_course coherent h with
  | refused | unfit | unsent => exact absurd rfl moved
  | shut => exact absurd rfl open'
  | acknowledged past kept => exact absurd (congrArg ReceiveVars.next kept.receive) moved
  | meets _ _ _ _ known => exact acks_segment known (by decide) (by decide)
  | greets asked _ _ _ known _ ends =>
    refine acks_control ?_
    rw [receiveFin_foreign ends, known]
    exact coherent.known (by simp [asked]) (by simp [asked])
  | content past _ kept content =>
    exact looked (kept.foreign ▸ coherent.peer (synchronized_of_past past)) kept.receive content
  | establish state _ served kept content =>
    have live : c.state.isSynchronized = true := by
      rw [state]
      rfl
    refine looked ?_ ?_ content
    · rw [kept.foreign, deliver_foreign served]
      exact coherent.peer live
    · rw [kept.receive]
      rcases deliver_ends served with ⟨_, rfl, _⟩ | ⟨_, _, _, _, rfl⟩ <;> rfl

end Connection

namespace Table

variable {t t' : Table} {s answer : Segment} {now : Instant} {σ : List Signal} {answers : List Segment}
  {here : Endpoint} {c c' : Connection}

theorem arrives_answers (coherent : ∀ c ∈ t.connections, c.Coherent)
    (h : (t.arrives s now).Ends σ (t', answers)) :
    (∃ answer : Option Segment, answers = answer.toList) ∧ (∀ answer ∈ answers, s.Returns answer) ∧
      (s.header.flags.has .rst = true → answers = []) := by
  cases arrives_passes h with
  | @unclaimed answer _ reset =>
    refine ⟨⟨answer, rfl⟩, ?_, ?_⟩
    · intro sent given
      rw [Option.mem_toList] at given
      exact resetReply_returns (given ▸ reset)
    · intro rst
      rw [resetReply_reset rst reset]
      rfl
  | claimed iss found claims arrives =>
    have coherent := coherent _ (get?_some found).1
    exact ⟨Connection.arrives_single coherent arrives, Connection.arrives_returns coherent claims arrives,
      fun rst => Connection.arrives_unanswered coherent rst arrives⟩

theorem arrives_confirms (coherent : ∀ c ∈ t.connections, c.Coherent)
    (found : t.get? here = some c) (found' : t'.get? here = some c') (open' : c'.state ≠ .closed)
    (moved : c'.receive.next ≠ c.receive.next) (h : (t.arrives s now).Ends σ (t', answers)) :
    ∃ answer, answers = [answer] ∧ answer.Confirms c' := by
  cases arrives_passes h with
  | unclaimed =>
    rw [found, Option.some.injEq] at found'
    exact absurd (congrArg (·.receive.next) found'.symm) moved
  | @claimed _ d a _ iss target claims arrives table =>
    have coherent := coherent d (get?_some target).1
    have same := Connection.moves_here (Connection.arrives_handled coherent.fresh arrives).1
    rw [get?_put target same table] at found'
    split at found'
    · rename_i mine
      rw [← mine, found, Option.some.injEq] at target
      rw [Option.some.injEq] at found'
      subst target found'
      obtain ⟨flags, seq, answer, sent, only, ack, calm⟩ :=
        Connection.arrives_moved coherent open' moved arrives
      obtain ⟨foreign, _, rfl⟩ := Option.map_eq_some_iff.mp sent
      exact ⟨_, only, ack, calm, if_pos ack⟩
    · rw [found, Option.some.injEq] at found'
      exact absurd (congrArg (·.receive.next) found'.symm) moved

end Table

namespace Stack

variable {s : Segment} {now : Instant} {config : Config} {generator : SeqGenerator}
  {history : List (Event × Instant)} {k : Stack} {σ : List Signal}

/-- On every stack that a history leads to, an arriving segment has at most one answer, which goes back
    to its sender, and a reset has none. If the arrival moves the next number that a connection expects
    and does not close it, the answer is there and acknowledges everything up to that number. Under
    settings in range there always is a result, for every segment that fits into a datagram. -/
theorem segment_answered_at_most_once (ends : ((Stack.empty config generator).run 0 history).Ends σ k) :
    (∀ {τ : List Signal} {table' : Table} {answers : List Segment},
      (k.table.arrives s now).Ends τ (table', answers) →
        answers.length ≤ 1 ∧ (∀ answer ∈ answers, s.Returns answer) ∧
        (s.header.flags.has .rst = true → answers = []) ∧
        ∀ {here : Endpoint} {c c' : Connection}, k.table.get? here = some c →
          table'.get? here = some c' → c'.state ≠ .closed → c'.receive.next ≠ c.receive.next →
            ∃ answer, answers = [answer] ∧ answer.Confirms c') ∧
    (config.Sane → s.Sized → ∃ τ table' answers,
      (k.table.arrives s now).Ends τ (table', answers)) := by
  have sound := run_sound (sound_empty config generator) ends
  have coherent := sound.proper.coherent
  constructor
  · intro τ table' answers arrives
    obtain ⟨⟨answer, single⟩, returns, reset⟩ := Table.arrives_answers coherent arrives
    refine ⟨?_, returns, reset, ?_⟩
    · rw [single]
      cases answer with
      | none => exact Nat.zero_le 1
      | some answer => exact Nat.le_refl 1
    · intro here c c' found found' open' moved
      exact Table.arrives_confirms coherent found found' open' moved arrives
  · intro sane sized
    have able := (run_going (going_empty sane generator) ends).able
    have succeeds : (k.table.arrives s now).Succeeds := Table.arrives_succeeds able.each sized
    obtain ⟨τ, result, arrives⟩ := succeeds
    exact ⟨τ, result.1, result.2, arrives.pair⟩

theorem greeting_answered : ∃ σ k s τ table' answers c c' answer,
    ((Stack.empty { receiveWindow := 8 } (.ofKey 1 2)).run 0 expecting).Ends σ k ∧
    greeting.segment? = some s ∧ (k.table.arrives s .start).Ends τ (table', answers) ∧
    k.table.get? ⟨⟨10, 0, 0, 1⟩, 80⟩ = some c ∧ table'.get? ⟨⟨10, 0, 0, 1⟩, 80⟩ = some c' ∧
    c'.state ≠ .closed ∧ c'.receive.next ≠ c.receive.next ∧ answers = [answer] ∧ s.Returns answer ∧
    answer.Confirms c' := by
  let start := Stack.empty { receiveWindow := 8 } (.ofKey 1 2)
  let k := (start.run 0 expecting).result start
  let here : Endpoint := ⟨⟨10, 0, 0, 1⟩, 80⟩
  let s := greeting.segment?.get (by decide +kernel)
  let r := (k.table.arrives s .start).result (k.table, [])
  let c := (k.table.get? here).getD (.bound here {})
  let c' := (r.1.get? here).getD (.bound here {})
  have ends : (start.run 0 expecting).Ends _ k := Act.ends_result start (by decide +kernel)
  obtain ⟨τ, table', answers, arrives⟩ := (@segment_answered_at_most_once s .start _ _ _ _ _ ends).2
    ⟨by decide, by decide, by decide, by decide⟩ (by decide +kernel)
  have result : (table', answers) = (r.1, r.2) := arrives.eq_result (k.table, [])
  obtain ⟨rfl, rfl⟩ := Prod.mk.inj result
  have found : k.table.get? here = some c := by decide +kernel
  have found' : r.1.get? here = some c' := by decide +kernel
  have open' : c'.state ≠ .closed := by decide +kernel
  have moved : c'.receive.next ≠ c.receive.next := by decide +kernel
  obtain ⟨_, returns, _, acknowledged⟩ := (segment_answered_at_most_once ends).1 arrives
  obtain ⟨answer, only, acknowledges⟩ := acknowledged found found' open' moved
  exact ⟨_, k, s, _, r.1, r.2, c, c', answer, ends, Option.some_get _ |>.symm, arrives, found, found',
    open', moved, only, returns answer (only ▸ List.mem_singleton_self answer), acknowledges⟩

end Stack
end TcpEngine

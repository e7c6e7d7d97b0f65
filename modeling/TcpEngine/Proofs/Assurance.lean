import TcpEngine.Proofs.CallOrder
import TcpEngine.Proofs.Faultless
import TcpEngine.Proofs.Phases

/-!
Under settings in range no history stops short, if what comes from the network in it fits into datagrams.
So what holds where a history has come to its end holds without that condition.
-/
namespace TcpEngine
namespace Stack

variable {config : Config} {generator : SeqGenerator} {history : List (Event × Instant)}

section
variable (sane : config.Sane) (brief : ∀ happening ∈ history, happening.1.Brief)
include sane brief

theorem every_call_answered_or_waiting :
    ∃ σ k, ((Stack.empty config generator).run 0 history).Ends σ k ∧
      ∀ {place : Nat} {event : Event} {now : Instant}, history[place]? = some (event, now) →
        event.isCall = true →
        (answered σ).count place = 1 ∧ place ∉ k.waiting ∨
          place ∉ answered σ ∧ k.waiting.count place = 1 := by
  obtain ⟨σ, k, ends⟩ := run_succeeds (going_empty sane generator) brief
  refine ⟨σ, k, ends, ?_⟩
  intro place event now there asks
  have settled := run_settles (proper_empty config generator) rfl ends there asks
  rwa [Nat.zero_add] at settled

theorem every_call_told_in_order (runs : ClockRuns history) :
    ∃ σ k, ((Stack.empty config generator).run 0 history).Ends σ k ∧
      ∀ here, ToldInOrder ((Stack.empty config generator).enqueued here 0 history) σ
        (k.queuedAt here) := by
  obtain ⟨σ, k, ends⟩ := run_succeeds (going_empty sane generator) brief
  exact ⟨σ, k, ends, fun here =>
    run_tells_in_order here (sound_empty config generator) rfl rfl runs ends⟩

theorem every_connection_in_phase (fair : (Stack.empty config generator).Fair 0 history) :
    ∃ σ k, ((Stack.empty config generator).run 0 history).Ends σ k ∧
      ∀ {here : Endpoint} {c : Connection}, k.table.get? here = some c →
        InPhase ((Stack.empty config generator).lived here .unborn 0 history) c := by
  obtain ⟨σ, k, ends⟩ := run_succeeds (going_empty sane generator) brief
  exact ⟨σ, k, ends, fun found => run_inPhase (sound_empty config generator) rfl ends found fair⟩

/-- Not only the history comes to its end. The queue can be freed of what any number on its way covers,
    and every event that may follow is handled. -/
theorem every_order_kept (fair : (Stack.empty config generator).Fair 0 history) :
    ∃ σ k, ((Stack.empty config generator).run 0 history).Ends σ k ∧
      ∀ {here : Endpoint} {c : Connection}, k.table.get? here = some c →
        c.InOrder ∧
        (∀ (number : SeqNumber) (now : Instant),
          number.ahead c.send.unacked ≤ c.send.next.ahead c.send.unacked →
          ∃ τ c', (Connection.releaseAcked { c with send := { c.send with unacked := number } } now).Ends
              τ c' ∧
            c'.queue = c.queue.filter fun e => !e.coveredBy number) ∧
        ∀ {event : Event} (now : Instant), event.Brief → k.Fair history.length [(event, now)] →
          ∃ τ k' answer, (k.handle event now history.length).Ends τ (k', answer) ∧
            ∀ {c' : Connection}, k'.table.get? here = some c' → ¬ c.Free → ¬ c'.Free →
              c.Onward c' := by
  obtain ⟨σ, k, ends⟩ := run_succeeds (going_empty sane generator) brief
  have going := run_going (going_empty sane generator) ends
  rw [Nat.zero_add] at going
  have ordered := ordered_of_fair fair ends
  refine ⟨σ, k, ends, ?_⟩
  intro here c found
  have there := (Table.get?_some found).1
  have able := going.able.each c there
  obtain ⟨origin, unacked, next, window⟩ := ordered c there
  refine ⟨window.inOrder able.limited, ?_, ?_⟩
  · intro number now under
    have succeeds : (Connection.releaseAcked { c with send := { c.send with unacked := number } }
        now).Succeeds := Connection.releaseAcked_succeeds able.limited.brief able.measurable
    obtain ⟨τ, c', released⟩ := succeeds
    refine ⟨τ, c', released, ?_⟩
    rw [window.releaseAcked_eq able.limited under, Act.ends_bind] at released
    obtain ⟨_, _, _, _, rest, _⟩ := released
    obtain ⟨_, rfl⟩ := Act.ends_pure.mp rest
    rfl
  · intro event now small onward
    have succeeds : (k.handle event now history.length).Succeeds := handle_succeeds going.able small
    obtain ⟨τ, ⟨k', answer⟩, handled⟩ := succeeds
    exact ⟨τ, k', answer, handled, handle_onward going.sound ordered onward handled found⟩

end

end Stack
end TcpEngine

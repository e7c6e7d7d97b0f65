import TcpEngine.Proofs.Connection.Outcome
import TcpEngine.Proofs.Connection.Telling

/-!
Our FIN. A call sends it, and from then on the state tells that it was sent, and whether it is
acknowledged. It is the last that a connection says, so nothing waits once it is acknowledged.
-/
namespace TcpEngine

namespace State

def finSent : State → Bool
  | .finWait1 | .finWait2 | .closing | .lastAck | .timeWait => true
  | _ => false

def finDone : State → Bool
  | .finWait2 | .timeWait => true
  | _ => false

theorem live_of_done {state : State} (done : state.finDone = true) : state.isSynchronized = true := by
  cases state <;> first | rfl | cases done

theorem sent_of_done {state : State} (done : state.finDone = true) : state.finSent = true := by
  cases state <;> first | rfl | cases done

theorem sent_of_waits {state : State} (waits : state.finWaits = true) : state.finSent = true := by
  cases state <;> first | rfl | cases waits

end State

theorem SeqNumber.after_last_iff {unacked last : SeqNumber}
    (room : (last.advance 1).ahead unacked < halfCircle) :
    unacked.after last = true ↔ unacked = last.advance 1 := by
  obtain ⟨m, bound, rfl⟩ : ∃ m, m < 0x100000000 ∧ unacked = last.advance m :=
    ⟨unacked.ahead last, ahead_lt unacked last, (advance_ahead unacked last).symm⟩
  rw [after_iff, ahead_advance bound, advance_eq_iff (by omega) (by omega)]
  simp only [halfCircle] at room ⊢
  rcases Nat.lt_or_ge 1 m with beyond | within
  · rw [ahead_advance_of_lt beyond (by omega)] at room
    omega
  · omega

namespace Connection

variable {c c' : Connection} {s : Segment} {iss : SeqNumber} {now : Instant} {σ : List Signal}
  {a : Arrival} {origin : SeqNumber} {unacked next : Nat} {timer : Option Config}

theorem finSent_of_busy (busy : ¬ c.Free) : c.state.finSent = !c.state.maySpeak := by
  unfold Free at busy
  cases state : c.state <;> first | rfl | (rw [state] at busy; simp at busy)

/- Where nothing waits. -/

theorem Window.drained_iff (h : Window origin unacked next c) :
    c.send.unacked = c.send.next ↔ unacked = next := by
  have order := h.order
  have room := h.room
  simp only [SeqNumber.halfCircle] at room
  rw [h.start, h.stop]
  exact SeqNumber.advance_eq_iff (by omega) (by omega)

theorem Window.queue_drained (h : Window origin unacked next c)
    (drained : c.send.unacked = c.send.next) : c.queue = [] := by
  rw [h.drained_iff] at drained
  apply List.eq_nil_iff_forall_not_mem.mpr
  intro e member
  obtain ⟨_, _, there⟩ := h.laid.mem member
  have waits := there.waits
  have sent := there.sent
  omega

theorem Window.stays_drained {unacked' : Nat} (h : Window origin unacked next c)
    (h' : Window origin unacked' next c') (forward : unacked ≤ unacked')
    (drained : c.send.unacked = c.send.next) : c'.send.unacked = c'.send.next := by
  have order := h'.order
  rw [h.drained_iff] at drained
  exact h'.drained_iff.mpr (by omega)

def FinLast (c : Connection) : Prop := ∀ fin, c.send.fin = some fin → c.send.next = fin.advance 1

theorem FinLast.drained (last : c.FinLast) (h : Window origin unacked next c)
    (acked : c.finAcked = true) : c.send.unacked = c.send.next := by
  unfold finAcked at acked
  cases raised : c.send.fin with
  | none =>
    rw [raised] at acked
    cases acked
  | some fin =>
    rw [raised] at acked
    have stop := last fin raised
    have order := h.order
    have room := h.room
    rw [stop]
    refine (SeqNumber.after_last_iff ?_).mp acked
    rw [← stop, h.ahead]
    omega

theorem FinLast.quiet (last : c.FinLast) (coherent' : c'.Coherent) (quiet : Quiet c c') :
    c'.FinLast := by
  intro fin raised
  rcases quiet.goes with gone | ⟨_, same, _⟩
  · rw [(coherent'.silent (by rw [gone]; rfl)).1] at raised
    cases raised
  · rw [quiet.next]
    exact last fin (same ▸ raised)

theorem peerFinished_finDone (now : Instant) (h : (c.peerFinished now).state.finDone = true) :
    c.state.finDone = true ∨ c.finAcked = true := by
  unfold peerFinished at h
  split at h
  · cases h
  · cases h
  · split at h
    · rename_i acked
      exact Or.inr acked
    · cases h
  · rename_i state
    rw [state]
    exact Or.inl rfl
  · rename_i state
    rw [state]
    exact Or.inl rfl
  · exact Or.inl h

theorem move_finDone (move : Move s iss now c σ c') (done : c'.state.finDone = true) :
    c.state.finDone = true ∨ c.finAcked = true ∧ c'.send = c.send := by
  cases move with
  | turn turn =>
    cases turn with
    | deliver ends => exact Or.inl (deliver_state ends ▸ done)
    | release | review => exact Or.inl done
    | terminate ends =>
      obtain ⟨_, rfl⟩ := terminate_ends.mp ends
      cases done
  | note _ _ _ _ _ same =>
    subst same
    exact Or.inl done
  | takeUp | greet | cross | establish => cases done
  | acceptFirst _ _ ok | accept _ _ ok => exact Or.inl (acceptText_state ok ▸ done)
  | advance => exact Or.inl done
  | halfClose _ acked | wait _ acked => exact Or.inr ⟨acked, rfl⟩
  | finish _ _ _ ends =>
    have before : c.ended.state.finDone = true ∨ c.ended.finAcked = true := by
      obtain ⟨rfl, _⟩ := Prod.mk.inj (countFin_ends ends).2
      exact peerFinished_finDone now done
    obtain ⟨_, _, rfl⟩ := countFin_counts ends
    exact before.imp id fun acked => ⟨acked, rfl⟩

structure Closing (c : Connection) : Prop where
  sent : c.send.fin.isSome = c.state.finSent
  last : c.FinLast
  waits : c.state.finWaits = true → c.finAcked = false
  done : c.state.finDone = true → c.send.unacked = c.send.next

theorem closing_early (unsent : c.state.finSent = false) (none : c.send.fin = none) :
    Closing c where
  sent := by rw [none, unsent, Option.isSome_none]
  last := by
    intro fin raised
    cases none.symm.trans raised
  waits := by
    intro waits
    rw [State.sent_of_waits waits] at unsent
    cases unsent
  done := by
    intro done
    rw [State.sent_of_done done] at unsent
    cases unsent

theorem closing_free (coherent : c.Coherent) (free : c.Free) : Closing c := by
  refine closing_early ?_ (coherent.silent (dead_of_free free)).1
  rcases free with state | state <;> rw [state] <;> rfl

theorem Closing.quiet (h : Closing c) (busy : ¬ c.Free) (coherent' : c'.Coherent)
    (quiet : Quiet c c') (waits : c'.state.finWaits = true → c'.finAcked = false)
    (done : c'.state.finDone = true → c'.send.unacked = c'.send.next) : Closing c' := by
  by_cases free' : c'.Free
  · exact closing_free coherent' free'
  · refine ⟨?_, h.last.quiet coherent' quiet, waits, done⟩
    rcases quiet.goes with gone | ⟨speaks, fin, _⟩
    · exact absurd (Or.inl gone) free'
    · rw [fin, h.sent, finSent_of_busy busy, finSent_of_busy free', speaks]

/- What happens to a connection that is not free. -/

theorem closing_turns (h : Closing c) (busy : ¬ c.Free) (coherent : c.Coherent)
    (window : Window origin unacked next c) (turns : Chain (Turn timer now) c σ c') : Closing c' := by
  have coherent' := turns.keeps (P := Coherent) coherent_turn coherent
  have quiet := quiet_turns turns
  have slides := turns_slide window turns
  have still : c'.send.unacked = c.send.unacked := by rw [slides.window.start, window.start]
  rcases turns_state turns with same | gone
  · refine h.quiet busy coherent' quiet ?_ ?_
    · intro waits
      rw [same] at waits
      have acked := h.waits waits
      rcases quiet.goes with gone | ⟨_, fin, _⟩
      · rw [← same, gone] at waits
        cases waits
      · unfold finAcked at acked ⊢
        rwa [fin, still]
    · intro done
      rw [still, quiet.next]
      exact h.done (same ▸ done)
  · exact closing_free coherent' (Or.inl gone)

theorem moves_drain (coherent : c.Coherent) (away : c.state ≠ .listen) (straight : Straight s c)
    (window : Window origin unacked next c) (h : Closing c)
    (moves : Chain (Move s iss now) c σ c') (done : c'.state.finDone = true) :
    c'.send.unacked = c'.send.next := by
  have kept {d : Connection} {τ : List Signal} {d' : Connection}
      (before : (Coherent d ∧ d.state ≠ .listen ∧ Straight s d ∧ d.FinLast) ∧
        ∃ unacked', Window origin unacked' next d ∧
          (d.state.finDone = true → d.send.unacked = d.send.next))
      (move : Move s iss now d τ d') :
      (Coherent d' ∧ d'.state ≠ .listen ∧ Straight s d' ∧ d'.FinLast) ∧
        ∃ unacked', Window origin unacked' next d' ∧
          (d'.state.finDone = true → d'.send.unacked = d'.send.next) := by
    obtain ⟨⟨coherent, away, straight, last⟩, unacked₁, window, drained⟩ := before
    have coherent' := coherent_move coherent move
    have last' := last.quiet coherent' (quiet_move away move)
    rcases window_move coherent straight window move with ⟨unacked₂, slides, straight'⟩ | fresh
    · refine ⟨⟨coherent', move_away away move, straight', last'⟩, unacked₂, slides.window, ?_⟩
      intro done
      rcases move_finDone move done with before | ⟨acked, same⟩
      · exact window.stays_drained slides.window slides.forward (drained before)
      · rw [same]
        exact last.drained window acked
    · exact absurd fresh.listening away
  have all := moves.keeps (P := fun d => (Coherent d ∧ d.state ≠ .listen ∧ Straight s d ∧ d.FinLast) ∧
    ∃ unacked', Window origin unacked' next d ∧
      (d.state.finDone = true → d.send.unacked = d.send.next)) kept
    ⟨⟨coherent, away, straight, h.last⟩, unacked, window, h.done⟩
  obtain ⟨_, _, _, drained⟩ := all
  exact drained done

theorem closing_arrived (h : Closing c) (busy : ¬ c.Free) (coherent : c.Coherent)
    (window : Window origin unacked next c)
    (straight : c.state.isSynchronized = true → ¬ c.Slips s)
    (arrives : (c.arrives s iss now).Ends σ a) : Closing a.connection := by
  have away : c.state ≠ .listen := fun listen => busy (Or.inr listen)
  have moves := (arrives_handled coherent.fresh arrives).1
  have coherent' := moves.keeps (P := Coherent) coherent_move coherent
  have quiet := quiet_moves away moves
  refine h.quiet busy coherent' quiet ?_ ?_
  · intro waits
    cases live : c.state.isSynchronized with
    | true =>
      rw [arrives_synchronized live] at arrives
      exact (arrivesSynchronized_outcome live arrives).waits h.waits waits
    | false =>
      rcases quiet.goes with gone | ⟨_, fin, _⟩
      · rw [gone] at waits
        cases waits
      · unfold finAcked
        rw [fin, (coherent.silent live).1]
  · intro done
    rcases arrives_straight straight arrives with straight | ⟨_, shut⟩ | ⟨_, _, same⟩
    · exact moves_drain coherent away straight window h moves done
    · obtain ⟨_, gone⟩ := terminate_ends.mp shut
      rw [gone] at done
      cases done
    · rw [same] at done ⊢
      exact h.done done

theorem closing_called {call : CallId} {event : Event} {ds : List Datagram} (h : Closing c)
    (busy : ¬ c.Free) (window : Window origin unacked next c)
    (called : Called iss now call event c σ ds c') : Closing c' := by
  cases called with
  | told | idle => exact h
  | timed => exact ⟨h.sent, h.last, h.waits, h.done⟩
  | listen free | fail free | ask free => exact absurd free busy
  | send live =>
    have unsent : c.state.finSent = false := by
      rcases live with state | state <;> rw [state] <;> rfl
    have none : c.send.fin = none := by
      rw [← Option.not_isSome_iff_eq_none, h.sent, unsent]
      exact Bool.false_ne_true
    exact closing_early unsent none
  | receive _ _ ends =>
    rcases deliver_ends ends with ⟨_, rfl, _⟩ | ⟨_, _, _, _, rfl⟩
    · exact ⟨h.sent, h.last, h.waits, h.done⟩
    · exact ⟨h.sent, h.last, h.waits, h.done⟩
  | quit _ ends | abort _ ends =>
    obtain ⟨_, rfl⟩ := terminate_ends.mp ends
    exact closing_early rfl rfl
  | finish states =>
    refine ⟨?_, ?_, ?_, ?_⟩
    · rcases states with ⟨_, rfl⟩ | ⟨_, rfl⟩ <;> rfl
    · rintro fin raised
      obtain rfl := Option.some.inj raised
      rfl
    · intro _
      have order := window.order
      have room := window.room
      change c.send.unacked.after c.send.next = false
      rw [← SeqNumber.atOrBefore_iff, window.start, window.stop]
      exact (SeqNumber.atOrBefore_advance ⟨by omega, by omega⟩).mpr order
    · intro done
      rcases states with ⟨_, rfl⟩ | ⟨_, rfl⟩ <;> cases done

end Connection
end TcpEngine

import TcpEngine.Proofs.Connection.Diagram

/-!
Why a segment takes a connection from one state to another. It is closed by a RST or a SYN in the window,
or by the acknowledgment of our FIN once the peer has finished too. Which of the states after our FIN it is
in tells whether our FIN was acknowledged, and whether that of the peer was counted.
-/
namespace TcpEngine

theorem State.live_of_sent {state : State} (sent : state.finSent = true) : state.isSynchronized = true := by
  cases state <;> first | rfl | cases sent

namespace Connection

variable {s : Segment} {iss ack fin : SeqNumber} {now : Instant} {σ : List Signal} {a : Arrival}
  {c c' : Connection} {origin : SeqNumber} {unacked next : Nat}

def FinAnswered (c : Connection) (s : Segment) : Prop :=
  c.Processes s ∧ ∃ fin ∈ c.send.fin, s.header.ack = some (fin.advance 1)

/-- A segment in the window that ends the connection, whatever it acknowledges. -/
def Breaks (c : Connection) (s : Segment) : Prop :=
  c.acceptable s.header = .ok true ∧ (s.header.flags.has .rst = true ∨ s.header.flags.has .syn = true)

theorem Closing.acked_iff (closing : c.Closing) (window : Window origin unacked next c)
    (waits : c.state.finWaits = true) (raised : c.send.fin = some fin) :
    (c.acked ack).finAcked = true ↔ ack = fin.advance 1 := by
  have last := closing.last fin raised
  have order := window.order
  have room := window.room
  simp only [SeqNumber.halfCircle] at room
  have under : c.send.unacked.after fin = false := by
    have waits := closing.waits waits
    rwa [finAcked, raised] at waits
  have near : c.send.next.ahead c.send.unacked < SeqNumber.halfCircle := by
    simp only [SeqNumber.halfCircle]
    rw [window.ahead]
    omega
  have apart : c.send.unacked ≠ c.send.next := by
    intro same
    rw [last] at same near
    rw [(SeqNumber.after_last_iff near).mpr same] at under
    cases under
  have looked : _ ∧ ack.after c.send.next = false ↔ _ := SeqNumber.acknowledges_iff near
  have after : (c.acked ack).finAcked = (c.unackedAfter ack).after fin := by
    simp only [finAcked, acked, raised]
  rw [after, unackedAfter]
  split
  · rename_i valid
    obtain ⟨above, within⟩ := (looked.mp valid).resolve_right fun slip => apart slip.1
    obtain ⟨place, rfl, forward, sent⟩ := window.place above within
    refine SeqNumber.after_last_iff ?_
    rw [← last, window.stop, SeqNumber.ahead_advance_of_le sent (by omega)]
    simp only [SeqNumber.halfCircle]
    omega
  · rename_i invalid
    rw [under]
    refine ⟨fun acked => (Bool.false_ne_true acked).elim, ?_⟩
    rintro rfl
    rw [← last] at invalid looked
    have ahead : c.send.next.ahead c.send.unacked ≠ 0 := fun none => apart (SeqNumber.eq_iff_ahead.mpr none)
    exact absurd (looked.mpr (.inl ⟨by omega, Nat.le_refl _⟩)) invalid

/- What closes a connection. -/

theorem receiveContent_lives (live : c.state.isSynchronized = true)
    (h : (c.receiveContent s now).Ends σ a) : a.connection.state ≠ .closed := by
  obtain ⟨urgent, c₁, _, _, taken, fin⟩ := receiveContent_ends h
  have same : c₁.state = c.state := by
    rcases taken with rfl | ⟨_, _, taken, served⟩
    · rfl
    · rw [deliver_state served, acceptText_state taken]
  have live' := receiveFin_state (same ▸ live) fin
  intro closed
  rw [closed] at live'
  cases live'

theorem progress_closed_iff (live : c.state.isSynchronized = true)
    (h : (c.progress s now).Ends σ a) :
    a.connection.state = .closed ↔ c.state = .lastAck ∧ c.finAcked = true := by
  have goesOn {d : Connection} (live : d.state.isSynchronized = true) (other : c.state ≠ .lastAck)
      (h : (d.receiveContent s now).Ends σ a) :
      a.connection.state = .closed ↔ c.state = .lastAck ∧ c.finAcked = true :=
    ⟨fun closed => absurd closed (receiveContent_lives live h), fun last => absurd last.1 other⟩
  unfold progress at h
  cases state : c.state with
  | finWait1 =>
    rw [state] at h
    refine state ▸ goesOn ?_ (by simp [state]) h
    split
    · rfl
    · exact live
  | closing =>
    rw [state] at h
    dsimp only at h
    split at h
    · exact state ▸ goesOn rfl (by simp [state]) h
    · obtain ⟨_, rfl⟩ := Act.ends_pure.mp h
      simp [Arrival.silent, state]
  | lastAck =>
    rw [state] at h
    dsimp only at h
    split at h
    · rename_i acked
      rw [Act.ends_bind] at h
      obtain ⟨_, d, _, ends, h, _⟩ := h
      obtain ⟨_, rfl⟩ := Act.ends_pure.mp h
      obtain ⟨_, rfl⟩ := terminate_ends.mp ends
      exact ⟨fun _ => ⟨rfl, acked⟩, fun _ => rfl⟩
    · rename_i unacked
      obtain ⟨_, rfl⟩ := Act.ends_pure.mp h
      simp [Arrival.silent, state, unacked]
  | _ =>
    rw [state] at h
    exact state ▸ goesOn live (by simp [state]) h

theorem acknowledge_closed_iff (live : c.state.isSynchronized = true)
    (h : (c.acknowledge s ack now).Ends σ a) :
    a.connection.state = .closed ↔
      c.state = .lastAck ∧ ack.after c.send.next = false ∧ (c.acked ack).finAcked = true := by
  have refreshed (d : Connection) :
      (d.refreshWindow s.header ack).state = d.state ∧
        (d.refreshWindow s.header ack).finAcked = d.finAcked := by
    obtain ⟨_, _, _, same⟩ := refreshWindow_eq d s.header ack
    rw [same]
    exact ⟨rfl, rfl⟩
  rw [acknowledge_eq] at h
  split at h
  · rename_i unsent
    obtain ⟨_, rfl⟩ := Act.ends_pure.mp h
    constructor
    · intro closed
      rw [show c.state = .closed from closed] at live
      cases live
    · rintro ⟨_, sent, _⟩
      rw [unsent] at sent
      cases sent
  · rename_i sent
    rw [Bool.not_eq_true] at sent
    simp only [sent, true_and]
    split at h
    · rename_i above
      rw [Act.ends_bind] at h
      obtain ⟨_, _, _, ends, h, _⟩ := h
      obtain ⟨queue, roundTrip, _, rfl⟩ := releaseAcked_ends ends
      obtain ⟨state, acked⟩ :=
        refreshed { c with send := { c.send with unacked := ack }, queue, roundTrip }
      have closes := progress_closed_iff (by rw [state]; exact live) h
      rw [closes, state, acked, Connection.acked, unackedAfter, if_pos ⟨above, sent⟩]
      rfl
    · rename_i under
      rw [pure_bind] at h
      obtain ⟨state, acked⟩ := refreshed c
      rw [progress_closed_iff (state ▸ live) h, state, acked, Connection.acked, unackedAfter,
        if_neg (fun valid => under valid.1)]

theorem arrivesWithAck_closed_iff (live : c.state.isSynchronized = true)
    (h : (c.arrivesWithAck s ack now).Ends σ a) :
    a.connection.state = .closed ↔
      c.state = .lastAck ∧ ack.after c.send.next = false ∧ (c.acked ack).finAcked = true := by
  unfold arrivesWithAck at h
  split at h
  · rename_i state
    have open' : a.connection.state ≠ .closed := by
      split at h
      · rw [Act.ends_bind] at h
        obtain ⟨_, c₁, _, served, h, _⟩ := h
        have established : c₁.state = .established := deliver_state served
        intro closed
        have last := ((acknowledge_closed_iff (by rw [established]; rfl) h).mp closed).1
        cases established.symm.trans last
      · simp only [Act.ends_bind, Act.ends_lift, Act.ends_pure] at h
        obtain ⟨_, _, _, _, ⟨_, rfl⟩, _⟩ := h
        intro closed
        cases state.symm.trans closed
    refine ⟨fun closed => absurd closed open', fun last => ?_⟩
    cases state.symm.trans last.1
  · exact acknowledge_closed_iff live h

/-- What closes a synchronized connection is a RST or a SYN in the window, or the end of LAST-ACK. -/
theorem arrivesSynchronized_closed_iff (live : c.state.isSynchronized = true)
    (h : (c.arrivesSynchronized s now).Ends σ a) :
    a.connection.state = .closed ↔ c.Breaks s ∨ c.state = .lastAck ∧ c.Processes s ∧
      ∃ ack ∈ s.header.ack, ack.after c.send.next = false ∧ (c.acked ack).finAcked = true := by
  have opened : c.state ≠ .closed := by
    intro closed
    rw [closed] at live
    cases live
  unfold arrivesSynchronized at h
  dsimp only at h
  rw [Act.ends_bind] at h
  obtain ⟨_, acceptable, τ, tested, h, _⟩ := h
  obtain ⟨_, fits⟩ := Act.ends_lift.mp tested
  split at h
  · rename_i fit
    rw [fit] at fits
    split at h
    · rename_i reset
      rw [Act.ends_bind] at h
      obtain ⟨_, _, _, ends, h, _⟩ := h
      obtain ⟨_, rfl⟩ := Act.ends_pure.mp h
      obtain ⟨_, rfl⟩ := terminate_ends.mp ends
      exact ⟨fun _ => .inl ⟨fits, .inl reset⟩, fun _ => rfl⟩
    · rename_i calm
      split at h
      · rename_i syn
        rw [Act.ends_bind] at h
        obtain ⟨_, _, _, ends, h, _⟩ := h
        obtain ⟨_, rfl⟩ := Act.ends_pure.mp h
        obtain ⟨_, rfl⟩ := terminate_ends.mp ends
        exact ⟨fun _ => .inl ⟨fits, .inr syn⟩, fun _ => rfl⟩
      · rename_i plain
        have whole : ¬ c.Breaks s := fun breaks => breaks.2.elim calm plain
        have processed : c.Processes s := ⟨fits, by simpa using calm, by simpa using plain⟩
        split at h
        · rename_i none
          obtain ⟨_, rfl⟩ := Act.ends_pure.mp h
          refine ⟨fun closed => absurd closed opened, ?_⟩
          rintro (breaks | ⟨_, _, ack, given, _⟩)
          · exact absurd breaks whole
          · cases none.symm.trans given
        · rename_i ack given
          rw [arrivesWithAck_closed_iff live h]
          constructor
          · rintro ⟨last, sent, acked⟩
            exact .inr ⟨last, processed, ack, given, sent, acked⟩
          · rintro (breaks | ⟨last, _, _, given', sent, acked⟩)
            · exact absurd breaks whole
            · cases given.symm.trans given'
              exact ⟨last, sent, acked⟩
  · rename_i beyond
    have refused : c.acceptable s.header ≠ .ok true := by
      intro accepted
      cases fits.symm.trans accepted
      exact beyond rfl
    have still : ∃ waitingSince, a.connection = { c with waitingSince } := by
      split at h
      · obtain ⟨_, rfl⟩ := Act.ends_pure.mp h
        exact ⟨c.waitingSince, rfl⟩
      · obtain ⟨_, rfl⟩ := Act.ends_pure.mp h
        simp only [Arrival.answered]
        split
        · exact ⟨now, rfl⟩
        · exact ⟨c.waitingSince, rfl⟩
    obtain ⟨_, same⟩ := still
    rw [same]
    refine ⟨fun closed => absurd closed opened, ?_⟩
    rintro (breaks | ⟨_, processed, _⟩)
    · exact absurd breaks.1 refused
    · exact absurd processed.1 refused

/- Our FIN waits. -/

theorem Closing.raises (closing : c.Closing) (waits : c.state.finWaits = true) :
    ∃ fin, c.send.fin = some fin := by
  refine Option.isSome_iff_exists.mp ?_
  rw [closing.sent]
  exact State.sent_of_waits waits

theorem Closing.finAnswered_iff (closing : c.Closing) (window : Window origin unacked next c)
    (waits : c.state.finWaits = true) :
    c.FinAnswered s ↔ c.Processes s ∧
      ∃ ack ∈ s.header.ack, ack.after c.send.next = false ∧ (c.acked ack).finAcked = true := by
  obtain ⟨fin, raised⟩ := closing.raises waits
  have last := closing.last fin raised
  refine and_congr_right fun _ => ?_
  constructor
  · rintro ⟨_, raised', given⟩
    cases raised.symm.trans raised'
    refine ⟨_, given, ?_, (closing.acked_iff window waits raised).mpr rfl⟩
    rw [last, ← SeqNumber.atOrBefore_iff, ← SeqNumber.advance_zero (fin.advance 1)]
    exact (SeqNumber.atOrBefore_advance ⟨by decide, by decide⟩).mpr (Nat.le_refl _)
  · rintro ⟨ack, given, _, acked⟩
    rw [(closing.acked_iff window waits raised).mp acked] at given
    exact ⟨fin, raised, given⟩

theorem arrives_closed_iff (live : c.state.isSynchronized = true) (closing : c.Closing)
    (window : Window origin unacked next c) (h : (c.arrives s iss now).Ends σ a) :
    a.connection.state = .closed ↔ c.Breaks s ∨ c.state = .lastAck ∧ c.FinAnswered s := by
  rw [arrives_synchronized live] at h
  rw [arrivesSynchronized_closed_iff live h]
  refine or_congr_right (and_congr_right fun last => ?_)
  exact (closing.finAnswered_iff window (by rw [last]; rfl)).symm

theorem Closing.finDone_iff (closing : c.Closing) (raised : c.send.fin = some fin) :
    c.state.finDone = true ↔ c.finAcked = true := by
  constructor
  · intro done
    rw [finAcked, raised]
    dsimp only
    rw [closing.done done, closing.last fin raised]
    refine (SeqNumber.after_last_iff ?_).mpr rfl
    rw [SeqNumber.ahead_self]
    decide
  · intro acked
    have sent : c.state.finSent = true := by rw [← closing.sent, raised, Option.isSome_some]
    by_contra undone
    have waits : c.state.finWaits = true := by
      cases state : c.state <;> rw [state] at sent undone <;>
        first | rfl | exact absurd rfl undone | cases sent
    rw [closing.waits waits] at acked
    cases acked

theorem Closing.straight (closing : c.Closing) (waits : c.state.finWaits = true) : ¬ c.Slips s := by
  rintro ⟨_, drained, _⟩
  obtain ⟨fin, raised⟩ := closing.raises waits
  have unfinished := closing.waits waits
  rw [finAcked, raised] at unfinished
  dsimp only at unfinished
  have passed : (fin.advance 1).after fin = true :=
    (SeqNumber.after_last_iff (by rw [SeqNumber.ahead_self]; decide)).mpr rfl
  rw [drained, closing.last fin raised, passed] at unfinished
  cases unfinished

/-- Where a segment goes on, our FIN is acknowledged exactly if the segment does it. -/
theorem arrives_finDone_iff (coherent : c.Coherent) (closing : c.Closing)
    (window : Window origin unacked next c) (waits : c.state.finWaits = true)
    (h : (c.arrives s iss now).Ends σ a) (goes : a.connection.state ≠ .closed) :
    a.connection.state.finDone = true ↔ c.FinAnswered s := by
  have live : c.state.isSynchronized = true := State.live_of_sent (State.sent_of_waits waits)
  have busy : ¬ c.Free := not_free_of_live live
  obtain ⟨fin, raised⟩ := closing.raises waits
  have same : a.connection.send.fin = some fin := by
    have quiet := quiet_moves (fun listen => busy (.inr listen)) (arrives_handled coherent.fresh h).1
    rw [(quiet.goes.resolve_left goes).2.1, raised]
  have closing' := closing_arrived closing busy coherent window (fun _ => closing.straight waits) h
  rw [closing'.finDone_iff same]
  rw [arrives_synchronized live] at h
  have idle (idle : ¬ c.Processes s ∨ s.header.ack = none) : a.connection.finAcked = false := by
    rcases arrivesSynchronized_idle h idle with ⟨_, ends⟩ | ⟨_, _, still⟩
    · obtain ⟨_, shut⟩ := terminate_ends.mp ends
      exact absurd (by rw [shut]; rfl) goes
    · rw [still]
      exact closing.waits waits
  by_cases processed : c.Processes s
  · cases given : s.header.ack with
    | none =>
      rw [idle (.inr given)]
      refine ⟨fun acked => (Bool.false_ne_true acked).elim, ?_⟩
      rintro ⟨_, _, _, given'⟩
      cases given.symm.trans given'
    | some ack =>
      rw [arrivesSynchronized_processed processed given] at h
      have acked : a.connection.finAcked = (c.acked ack).finAcked := by
        simp only [finAcked, same, Connection.acked, raised, arrivesWithAck_unacked h]
      rw [acked, closing.acked_iff window waits raised]
      constructor
      · rintro rfl
        exact ⟨processed, fin, raised, given⟩
      · rintro ⟨_, _, raised', given'⟩
        cases raised.symm.trans raised'
        exact Option.some.inj (given.symm.trans given')
  · rw [idle (.inl processed)]
    exact ⟨fun acked => (Bool.false_ne_true acked).elim, fun answered => absurd answered.1 processed⟩

/-- Where a segment goes on, the FIN of the peer is counted exactly if it was, or the segment brings it. -/
theorem arrives_peerDone (limited : c.Limited) (long : s.header.textLength = s.text.length)
    (live : c.state.isSynchronized = true) (h : (c.arrives s iss now).Ends σ a)
    (goes : a.connection.state ≠ .closed) :
    a.connection.state.peerDone = (c.state.peerDone || s.finCounted c a.connection) := by
  rw [arrives_synchronized live] at h
  exact (arrivesSynchronized_outcome live h).counts limited long live goes

end Connection

namespace Stack

variable {k : Stack} {here : Endpoint} {σ : List Signal} {c : Connection} {config : Config}
  {generator : SeqGenerator} {history : List (Event × Instant)}

/-- The states of a connection follow the diagram in every history. Where less than half the circle is on
    its way and no segment slips, a segment closes a synchronized connection only by a RST or a SYN in the
    window or, in LAST-ACK, as it acknowledges our FIN. Where it does not, it leaves FIN-WAIT-1 and CLOSING
    for the states in which our FIN is acknowledged exactly if it does that, and it leaves the states in
    which the peer may still send exactly if it brings the FIN that RCV.NXT counts. -/
theorem states_follow_diagram (ends : ((Stack.empty config generator).run 0 history).Ends σ k)
    (found : k.table.get? here = some c) :
    (∀ {event now τ k' answer c'}, (k.handle event now history.length).Ends τ (k', answer) →
      k'.table.get? here = some c' →
      c'.state = c.state ∨ event.Concerns c ∧ c'.state ∈ c.state.after event) ∧
    ((Stack.empty config generator).Fair 0 history → c.state.isSynchronized = true →
      ∀ {event s now τ k' answer c'}, s ∈ event.bringsTo c →
        (k.handle event now history.length).Ends τ (k', answer) → k'.table.get? here = some c' →
        (c'.state = .closed ↔ c.Breaks s ∨ c.state = .lastAck ∧ c.FinAnswered s) ∧
        (c'.state ≠ .closed →
          (c.state ∈ [.finWait1, .closing] →
            (c'.state ∈ [.finWait2, .timeWait] ↔ c.FinAnswered s)) ∧
          (c.state ∈ [.synReceived, .established, .finWait1, .finWait2] →
            (c'.state ∈ [.closeWait, .closing, .timeWait] ↔ s.finCounted c c' = true)))) := by
  have sound : Sound history.length k := by
    have sound := run_sound (sound_empty config generator) ends
    rwa [Nat.zero_add] at sound
  have coherent := sound.proper.found found
  have limited := sound.limited c (Table.get?_some found).1
  constructor
  · intro event now τ k' answer c' handled found'
    rcases handle_befalls sound found handled with ⟨_, gone⟩ | ⟨c'', _, found'', _, befalls⟩
    · rw [gone] at found'
      cases found'
    · obtain rfl := Option.some.inj (found''.symm.trans found')
      exact befalls_after coherent befalls
  · intro fair live event s now τ k' answer c' brought handled found'
    obtain ⟨segment, claims⟩ := List.mem_filter.mp brought
    have brings : event.segment? = some s := Option.mem_toList.mp segment
    obtain ⟨iss, _, a, arrives, found''⟩ := handle_arrives sound found brings claims handled
    obtain rfl := Option.some.inj (found''.symm.trans found')
    have placed := run_placed (sound_empty config generator) rfl ends found fair
      (Connection.not_free_of_live live)
    obtain ⟨_, window⟩ := placed.window
    refine ⟨Connection.arrives_closed_iff live placed.closing window arrives, fun goes => ⟨?_, ?_⟩⟩
    · intro state
      have waits : c.state.finWaits = true :=
        State.finWaits_of_mem (by revert state; cases c.state <;> decide)
      rw [← Connection.arrives_finDone_iff coherent placed.closing window waits arrives goes]
      cases a.connection.state <;> decide
    · intro state
      have early : c.state.peerDone = false := by
        revert state
        cases c.state <;> decide
      have counts := Connection.arrives_peerDone limited (Event.long_of_segment? brings) live arrives goes
      rw [early, Bool.false_or] at counts
      rw [← counts]
      -- No segment leads from these states to LAST-ACK, where the peer has finished too.
      have leads := Connection.arrives_arrivals coherent arrives
      revert state leads
      cases c.state <;> cases a.connection.state <;> decide

theorem finishing_follows :
    let here : Endpoint := ⟨⟨10, 0, 0, 1⟩, 49152⟩
    let last : Event := .ingress
      [0, 80, 192, 0, 0, 0, 3, 233, 10, 62, 28, 190, 80, 17, 1, 244, 174, 167, 0, 0] ⟨10, 0, 0, 2⟩ ⟨10, 0, 0, 1⟩
    ∃ σ k c, ((Stack.empty { receiveWindow := 8 } (.ofKey 1 2)).run 0 closed.dropLast).Ends σ k ∧
      (Stack.empty { receiveWindow := 8 } (.ofKey 1 2)).Fair 0 closed.dropLast ∧
      k.table.get? here = some c ∧ c.state = .finWait1 ∧
      ∃ s τ k' answer c', s ∈ last.bringsTo c ∧ (k.handle last .start 4).Ends τ (k', answer) ∧
        k'.table.get? here = some c' ∧ c'.state = .timeWait ∧ last.Concerns c ∧ c.FinAnswered s ∧
        s.finCounted c c' = true := by
  intro here last
  let start : Stack := .empty { receiveWindow := 8 } (.ofKey 1 2)
  let k := (start.run 0 closed.dropLast).result start
  let c := (k.table.get? here).getD (.bound here {})
  have ends : (start.run 0 closed.dropLast).Ends (start.run 0 closed.dropLast).signals k :=
    Act.ends_result _ (by decide +kernel)
  have fair : start.Fair 0 closed.dropLast := by decide +kernel
  have found : k.table.get? here = some c := by decide +kernel
  have state : c.state = .finWait1 := by decide +kernel
  obtain ⟨s, brought⟩ : ∃ s, s ∈ last.bringsTo c :=
    List.exists_mem_of_ne_nil _ (by decide +kernel)
  obtain ⟨⟨k', answer⟩, handled, c', found', waits⟩ : ∃ after,
      (k.handle last .start 4).Ends (k.handle last .start 4).signals after ∧
        ∃ c', after.1.table.get? here = some c' ∧ c'.state = .timeWait :=
    ⟨_, Act.ends_result (k, .accepted) (by decide +kernel),
      (((k.handle last .start 4).result (k, .accepted)).1.table.get? here).getD c, by decide +kernel,
      by decide +kernel⟩
  obtain ⟨follows, fairly⟩ := states_follow_diagram ends found
  obtain ⟨_, onward⟩ := fairly fair (by rw [state]; rfl) brought handled found'
  obtain ⟨ours, theirs⟩ := onward (by rw [waits]; decide)
  have leads := follows handled found'
  rw [waits, state] at leads
  refine ⟨_, k, c, ends, fair, found, state, s, _, k', answer, c', brought, handled, found', waits, ?_, ?_, ?_⟩
  · exact (leads.resolve_left (by decide)).1
  · exact (ours (by rw [state]; decide)).mp (by rw [waits]; decide)
  · exact (theirs (by rw [state]; decide)).mp (by rw [waits]; decide)

end Stack
end TcpEngine

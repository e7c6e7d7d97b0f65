import TcpEngine.Proofs.Connection.Success
import TcpEngine.Proofs.Retransmission
import TcpEngine.Proofs.Stack.Offering

/-!
No event makes a stack fault. Whatever comes from the network in a datagram, whatever users call and
whatever the clocks show, the operations are only applied within their domains.
-/
namespace TcpEngine

variable {s answer : Segment} {c c' : Connection} {now : Instant} {σ : List Signal} {iss : SeqNumber}
  {config : Config} {segments : List Segment}

/-- Settings in range: the bounds of the timeout are in order, no duration is longer than the clock can
    count, and expiries of a timer are counted in 32 bits. -/
structure Config.Sane (config : Config) : Prop where
  ordered : config.minTimeout.nanos ≤ config.maxTimeout.nanos
  initial : config.initialTimeout.nanos ≤ Duration.span
  lifetime : config.maxSegmentLifetime.nanos ≤ Duration.span
  few : config.maxRetransmits < UInt32.size

theorem Config.Sane.waits (sane : config.Sane) : ∃ period, config.timeWait = .ok period := by
  have short := sane.lifetime
  have inside : config.maxSegmentLifetime.nanos * 2 < Duration.limit := by
    simp only [Duration.span] at short
    simp only [Duration.limit, Duration.second, UInt64.size]
    omega
  exact ⟨_, if_pos inside⟩

def Event.Brief : Event → Prop
  | .ingress octets _ _ => octets.length ≤ 65535
  | _ => True

instance : DecidablePred Event.Brief
  | .ingress octets _ _ => inferInstanceAs (Decidable (octets.length ≤ 65535))
  | .bind _ | .remove _ | .openConnection .. | .send .. | .receive .. | .close _ | .abort _ | .sweep
  | .verdicts _ => inferInstanceAs (Decidable True)

/- The segments that a stack sends have the right size. -/

theorem Connection.segment_sized {flags : Flags} {seq : SeqNumber} {text : Octets}
    (short : text.length ≤ 65535) (sent : c.segment flags seq text = some s) : s.Sized := by
  obtain ⟨_, _, rfl⟩ := Option.map_eq_some_iff.mp sent
  exact ⟨rfl, short⟩

theorem resetReply_sized (reset : s.resetReply = .ok (some answer)) : answer.Sized := by
  unfold Segment.resetReply at reset
  dsimp only at reset
  split at reset
  · cases reset
  · split at reset
    · cases reset
      exact ⟨rfl, Nat.zero_le _⟩
    · simp only [except_bind_ok, except_pure_ok] at reset
      obtain ⟨_, _, same⟩ := reset
      cases same
      exact ⟨rfl, Nat.zero_le _⟩

theorem Connection.arrives_sized {a : Arrival} (coherent : c.Coherent)
    (arrives : (c.arrives s iss now).Ends σ a) : ∀ answer ∈ a.answers, answer.Sized := by
  intro answer given
  rcases (Connection.arrives_handled coherent.fresh arrives).2 answer given with kind | rst
  · cases kind with
    | reset reset => exact resetReply_sized reset
    | ack _ sent | syn _ sent => exact segment_sized (Nat.zero_le _) sent
  · exact segment_sized (Nat.zero_le _) rst

theorem Connection.onTimer_sized (limited : c.Limited)
    (ends : (c.onTimer now config).Ends σ (c', segments)) : ∀ s ∈ segments, s.Sized := by
  obtain ⟨turns, resent⟩ := Connection.onTimer_turns ends
  have limited' := Connection.limited_turns limited turns
  intro s member
  obtain ⟨e, waits, sent⟩ := resent s member
  exact segment_sized (limited'.brief e waits) sent

/- Connections and tables that can go on. -/

structure Connection.Able (config : Config) (c : Connection) : Prop where
  coherent : c.Coherent
  limited : c.Limited
  measurable : c.roundTrip.Measurable
  spared : ∀ e ∈ c.queue, e.Spared config

namespace Table

variable {t : Table} {connections : List Connection}

theorem arrives_succeeds (able : ∀ c ∈ t.connections, c.Able t.config) (sized : s.Sized) :
    (t.arrives s now).Succeeds := by
  have reset : Act.Succeeds (do return (t, (← s.resetReply).toList)) :=
    Act.succeeds_lift_bind (Connection.resetReply_succeeds sized) fun _ _ => Act.succeeds_pure _
  unfold arrives
  split
  · exact reset
  · rename_i c found
    have able := able c (get?_some found).1
    split
    · exact Act.succeeds_bind (Connection.arrives_succeeds sized able.limited able.measurable)
        fun _ _ _ => Act.succeeds_pure _
    · exact reset

theorem arrives_sized {t' : Table} {answers : List Segment} (able : ∀ c ∈ t.connections, c.Able t.config)
    (ends : (t.arrives s now).Ends σ (t', answers)) : ∀ answer ∈ answers, answer.Sized := by
  cases arrives_passes ends with
  | unclaimed alone reset =>
    intro answer given
    rw [Option.mem_toList] at given
    exact resetReply_sized (given ▸ reset)
  | claimed iss found _ arrives =>
    exact Connection.arrives_sized (able _ (get?_some found).1).coherent arrives

theorem sweepAll_succeeds (sane : config.Sane) (able : ∀ c ∈ connections, c.Able config) :
    (sweepAll now config connections).Succeeds := by
  induction connections with
  | nil => exact Act.succeeds_pure _
  | cons c rest ih =>
    have first := able c List.mem_cons_self
    refine Act.succeeds_bind (Connection.onTimer_succeeds sane.few sane.waits first.limited
      first.measurable first.spared) fun _ _ _ => ?_
    exact Act.succeeds_bind (ih fun d member => able d (List.mem_cons_of_mem _ member))
      fun _ _ _ => Act.succeeds_pure _

theorem swept_sized {connections' : List Connection}
    (swept : Swept now config connections σ connections' segments)
    (able : ∀ c ∈ connections, c.Able config) : ∀ s ∈ segments, s.Sized := by
  induction swept with
  | nil => simp
  | cons first _ ih =>
    intro s member
    rcases List.mem_append.mp member with mine | later
    · exact Connection.onTimer_sized (able _ List.mem_cons_self).limited first s mine
    · exact ih (fun d member => able d (List.mem_cons_of_mem _ member)) s later

end Table

namespace Stack

variable {k k' : Stack} {here : Endpoint} {call : CallId} {place : Nat} {event : Event}

structure Able (k : Stack) : Prop where
  sane : k.table.config.Sane
  each : ∀ c ∈ k.table.connections, c.Able k.table.config

/- Handing over. -/

theorem transmit_succeeds (k : Stack) (sized : s.Sized) : ∃ result, k.transmit s = .ok result :=
  except_bind_succeeds (datagram_succeeds sized) fun _ _ => ⟨_, rfl⟩

theorem emitAll_succeeds (k : Stack) (sized : ∀ s ∈ segments, s.Sized) :
    ∃ k', k.emitAll segments = .ok k' := by
  induction segments generalizing k with
  | nil => exact ⟨k, rfl⟩
  | cons s rest ih =>
    have first : ∃ k', k.emit s = .ok k' :=
      except_bind_succeeds (datagram_succeeds (sized s List.mem_cons_self)) fun _ _ => ⟨_, rfl⟩
    exact except_bind_succeeds first fun k' _ => ih k' fun s member => sized s (List.mem_cons_of_mem _ member)

theorem control_succeeds (k : Stack) (c : Connection) (flags : List Flag) :
    ∃ k', k.emitAll (c.control flags).toList = .ok k' := by
  refine k.emitAll_succeeds fun s member => ?_
  exact Connection.segment_sized (Nat.zero_le _) (Option.mem_toList.mp member)

theorem answer_succeeds (k : Stack) (call : CallId) (reply : Reply) : (k.answer call reply).Succeeds :=
  ⟨_, k, answer_ends.mpr ⟨rfl, rfl⟩⟩

theorem refuse_succeeds (k : Stack) (call : CallId) (error : CallError) : (k.refuse call error).Succeeds :=
  k.answer_succeeds call _

/- The calls. -/

theorem openActive_succeeds (k : Stack) (c : Connection) (foreign : Endpoint) (iss : SeqNumber)
    (now : Instant) (call : CallId) : (k.openActive c foreign iss now call).Succeeds := by
  unfold openActive
  dsimp only
  split
  · exact refuse_succeeds _ _ _
  · rename_i syn sent
    have sized := Connection.segment_sized (Nat.zero_le _) sent
    refine Act.succeeds_lift_bind (k.transmit_succeeds sized) fun tried _ => ?_
    split
    · exact Act.succeeds_lift_bind ⟨_, Connection.add_one iss⟩ fun _ _ => Act.succeeds_pure _
    · exact refuse_succeeds _ _ _

theorem openConnection_succeeds (k : Stack) (opening : Opening) (timeout : Option Duration) :
    (k.openConnection here opening timeout now call).Succeeds := by
  unfold openConnection
  dsimp only
  split
  · exact refuse_succeeds _ _ _
  · split
    · split
      · exact answer_succeeds _ _ _
      · exact refuse_succeeds _ _ _
      · exact openActive_succeeds _ _ _ _ _ _
    · exact refuse_succeeds _ _ _

theorem send_succeeds (k : Stack) (text : Octets) : (k.send here text now call).Succeeds := by
  cases found : k.table.get? here with
  | none =>
    unfold send
    rw [found]
    exact refuse_succeeds _ _ _
  | some c =>
    by_cases live : c.state = .established ∨ c.state = .closeWait
    · rw [send_live found live]
      split
      · exact refuse_succeeds _ _ _
      · rename_i fits
        split
        · exact answer_succeeds _ _ _
        · split
          · exact refuse_succeeds _ _ _
          · rename_i s sent
            -- The peer cannot announce a window for more than a datagram has room for.
            have short : text.length ≤ 65535 :=
              Nat.le_trans (Nat.not_lt.mp fits) (Nat.le_of_lt_succ c.send.window.toNat_lt)
            have sized := Connection.segment_sized short sent
            refine Act.succeeds_lift_bind (k.transmit_succeeds sized) fun tried _ => ?_
            split
            · have near : text.length < SeqNumber.halfCircle := Nat.lt_of_le_of_lt short (by decide)
              exact Act.succeeds_lift_bind ⟨_, SeqNumber.add_ok.mpr ⟨near, rfl⟩⟩
                fun _ _ => Act.succeeds_pure _
            · exact refuse_succeeds _ _ _
    · unfold send
      rw [found]
      dsimp only
      split
      · exact absurd (Or.inl ‹_›) live
      · exact absurd (Or.inr ‹_›) live
      · split
        · exact refuse_succeeds _ _ _
        · exact refuse_succeeds _ _ _
      · exact refuse_succeeds _ _ _
      · exact refuse_succeeds _ _ _

theorem receive_succeeds (k : Stack) (capacity : Nat) : (k.receive here capacity call).Succeeds := by
  unfold receive
  split
  · exact refuse_succeeds _ _ _
  · split
    · exact refuse_succeeds _ _ _
    · split
      · exact refuse_succeeds _ _ _
      · split
        · exact refuse_succeeds _ _ _
        · split
          · exact answer_succeeds _ _ _
          · refine Act.succeeds_bind (Connection.deliver_succeeds _) fun _ served _ => ?_
            dsimp only
            split
            · exact Act.succeeds_lift (control_succeeds _ served _)
            · exact Act.succeeds_pure _

theorem finish_succeeds (k : Stack) (c : Connection) (after : State) :
    (k.finish c after now call).Succeeds := by
  unfold finish
  split
  · exact refuse_succeeds _ _ _
  · rename_i fin sent
    have sized := Connection.segment_sized (Nat.zero_le _) sent
    refine Act.succeeds_lift_bind (k.transmit_succeeds sized) fun tried _ => ?_
    split
    · exact Act.succeeds_lift_bind ⟨_, Connection.add_one c.send.next⟩ fun _ _ => Act.succeeds_pure _
    · exact refuse_succeeds _ _ _

theorem close_succeeds (k : Stack) : (k.close here now call).Succeeds := by
  unfold close
  split
  · exact refuse_succeeds _ _ _
  · rename_i c _
    split
    · exact refuse_succeeds _ _ _
    · exact Act.succeeds_bind (c.terminate_succeeds _) fun _ _ _ => answer_succeeds _ _ _
    · exact Act.succeeds_bind (c.terminate_succeeds _) fun _ _ _ => answer_succeeds _ _ _
    · exact finish_succeeds _ _ _
    · exact finish_succeeds _ _ _
    · exact finish_succeeds _ _ _
    all_goals exact refuse_succeeds _ _ _

theorem abort_succeeds (k : Stack) : (k.abort here).Succeeds := by
  unfold abort
  split
  · exact Act.succeeds_pure _
  · rename_i c _
    split
    · exact Act.succeeds_pure _
    · refine Act.succeeds_bind (c.terminate_succeeds _) fun _ _ _ => ?_
      exact Act.succeeds_lift_bind (control_succeeds _ c _) fun _ _ => Act.succeeds_pure _

/- The network and the timer. -/

theorem ingress_succeeds {octets : Octets} {src dst : Address} (able : k.Able)
    (brief : octets.length ≤ 65535) : (k.ingress octets src dst now).Succeeds := by
  unfold ingress
  split
  · exact Act.succeeds_pure _
  · rename_i p whole
    have same := Packet.ofOctets_octets whole
    refine Act.succeeds_lift_bind (Header.read_succeeds (by rw [same]; exact brief)) fun read ok => ?_
    split
    · exact Act.succeeds_pure _
    · rename_i header
      have sized : (⟨header, p.text, src, dst⟩ : Segment).Sized :=
        Reads.sized ⟨p, header, whole, ok, rfl⟩ brief
      refine Act.succeeds_bind (Table.arrives_succeeds able.each sized) fun _ result arrives => ?_
      exact Act.succeeds_lift_bind (emitAll_succeeds _ (Table.arrives_sized able.each arrives.pair))
        fun _ _ => Act.succeeds_pure _

theorem sweep_succeeds (able : k.Able) : (k.sweep now).Succeeds := by
  have swept : (k.table.sweep now).Succeeds :=
    Act.succeeds_bind (Table.sweepAll_succeeds able.sane able.each) fun _ _ _ => Act.succeeds_pure _
  refine Act.succeeds_bind swept fun _ result ends => ?_
  exact Act.succeeds_lift (emitAll_succeeds _ (Table.swept_sized (sweep_swept ends.pair) able.each))

theorem handle_succeeds (able : k.Able) (brief : event.Brief) : (k.handle event now call).Succeeds := by
  have accepted {act : Act Stack} (h : act.Succeeds) :
      Act.Succeeds (do return (← act, Answer.accepted)) :=
    Act.succeeds_bind h fun _ _ _ => Act.succeeds_pure _
  cases event with
  | bind here | remove here | verdicts verdicts => exact Act.succeeds_pure _
  | openConnection here opening timeout => exact accepted (k.openConnection_succeeds opening timeout)
  | send here text => exact accepted (k.send_succeeds text)
  | receive here capacity => exact accepted (k.receive_succeeds capacity)
  | close here => exact accepted k.close_succeeds
  | abort here => exact Act.succeeds_bind k.abort_succeeds fun _ _ _ => Act.succeeds_pure _
  | ingress octets src dst =>
    exact Act.succeeds_bind (ingress_succeeds able brief) fun _ _ _ => Act.succeeds_pure _
  | sweep => exact accepted (sweep_succeeds able)

/- Stacks that were reached. -/

structure Going (place : Nat) (k : Stack) : Prop where
  sound : Sound place k
  sane : k.table.config.Sane
  traced : ∀ here, ∃ seen, k.TracedAt here seen
  measurable : ∀ c ∈ k.table.connections, c.roundTrip.Measurable

theorem Going.able (h : Going place k) : k.Able where
  sane := h.sane
  each := by
    intro c member
    obtain ⟨seen, traced⟩ := h.traced c.here
    exact ⟨h.sound.proper.coherent c member, h.sound.limited c member, h.measurable c member,
      (traced c (get?_of_there h.sound.proper member)).1.spared⟩

theorem going_empty (sane : config.Sane) (generator : SeqGenerator) :
    Going 0 (.empty config generator) where
  sound := sound_empty config generator
  sane := sane
  traced := fun _ => ⟨[], fun _ found => by cases found⟩
  measurable := fun _ member => absurd member List.not_mem_nil

theorem handle_going {result : Answer} (h : Going place k)
    (ends : (k.handle event now place).Ends σ (k', result)) : Going (place + 1) k' := by
  have same : k'.table.config = k.table.config := (handle_alike event).ends ends
  have sound := handle_sound h.sound ends
  refine ⟨sound, same ▸ h.sane, ?_, ?_⟩
  · intro here
    obtain ⟨seen, traced⟩ := h.traced here
    exact ⟨_, handle_traced h.sound traced ends⟩
  · intro c' member
    rcases handle_origin h.sound ends (get?_of_there sound.proper member) with
      ⟨_, fresh⟩ | ⟨c, _, found, _, befalls⟩
    · rw [fresh]
      exact ⟨h.sane.ordered, h.sane.initial⟩
    · have old := (Table.get?_some found).1
      exact befalls_keeps RoundTrip.measurable_keeps (h.sound.proper.coherent c old)
        (h.measurable c old) befalls

theorem run_going {history : List (Event × Instant)} (h : Going place k)
    (ends : (k.run place history).Ends σ k') : Going (place + history.length) k' := by
  induction history generalizing k place σ with
  | nil =>
    obtain ⟨_, rfl⟩ := Act.ends_pure.mp ends
    exact h
  | cons head rest ih =>
    obtain ⟨event, now⟩ := head
    obtain ⟨_, _, _, _, first, after, _⟩ := run_cons_ends.mp ends
    rw [List.length_cons, show place + (rest.length + 1) = place + 1 + rest.length by omega]
    exact ih (handle_going h first) after

theorem run_succeeds {history : List (Event × Instant)} (h : Going place k)
    (brief : ∀ happening ∈ history, happening.1.Brief) : (k.run place history).Succeeds := by
  induction history generalizing k place with
  | nil => exact Act.succeeds_pure k
  | cons head rest ih =>
    refine Act.succeeds_bind (handle_succeeds h.able (brief head List.mem_cons_self)) fun _ _ ends => ?_
    exact ih (handle_going h ends.pair) fun happening member =>
      brief happening (List.mem_cons_of_mem _ member)

/-- Under settings in range nothing is ever refused: every history comes to its end if what comes from
    the network in it fits into datagrams, and on every stack that a history leads to, any such event is
    handled, whatever the time and the name of the call. -/
theorem event_handled_without_fault {generator : SeqGenerator} (sane : config.Sane) :
    (∀ history : List (Event × Instant), (∀ happening ∈ history, happening.1.Brief) →
      ∃ σ k, ((Stack.empty config generator).run 0 history).Ends σ k) ∧
    ∀ {history : List (Event × Instant)} {σ : List Signal} {k : Stack},
      ((Stack.empty config generator).run 0 history).Ends σ k →
      ∀ (event : Event) (now : Instant) (call : CallId), event.Brief →
        ∃ τ k' answer, (k.handle event now call).Ends τ (k', answer) := by
  have start := going_empty sane generator
  refine ⟨fun history brief => run_succeeds start brief, ?_⟩
  intro history σ k ends event now call brief
  have succeeds : (k.handle event now call).Succeeds :=
    handle_succeeds (run_going start ends).able brief
  obtain ⟨τ, result, handled⟩ := succeeds
  exact ⟨τ, result.1, result.2, handled.pair⟩

theorem opening_without_fault : ∃ σ k τ k' answer,
    ((Stack.empty { receiveWindow := 8 } (.ofKey 1 2)).run 0 asking).Ends σ k ∧
    (k.handle (.ingress (List.replicate 65535 255) ⟨10, 0, 0, 2⟩ ⟨10, 0, 0, 1⟩) ⟨-5⟩ 0).Ends τ
      (k', answer) := by
  have sane : Config.Sane { receiveWindow := 8 } :=
    ⟨by decide, by decide, by decide, by decide⟩
  have brief : ∀ happening ∈ asking, happening.1.Brief := by decide
  obtain ⟨histories, events⟩ := @event_handled_without_fault _ (.ofKey 1 2) sane
  obtain ⟨σ, k, ends⟩ := histories asking brief
  obtain ⟨τ, k', answer, handled⟩ := events ends
    (.ingress (List.replicate 65535 255) ⟨10, 0, 0, 2⟩ ⟨10, 0, 0, 1⟩) ⟨-5⟩ 0
    (Nat.le_of_eq List.length_replicate)
  exact ⟨σ, k, τ, k', answer, ends, handled⟩

end Stack
end TcpEngine

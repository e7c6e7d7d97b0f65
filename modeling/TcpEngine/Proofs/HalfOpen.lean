import TcpEngine.Proofs.Answering
import TcpEngine.Proofs.Stack.Utterance

/-!
Half-open connections. A peer that has lost its connection answers whatever it gets by a reset. Resets
are made and looked at in different places, which have to agree: the reset that answers a segment is
believed by the connection that sent it, in every state that sends, and also while the window is closed.
-/
namespace TcpEngine

variable {s r : Segment} {iss : SeqNumber} {now : Instant} {call : CallId} {c : Connection}
  {d d' : Datagram}

/- The reset that answers a segment. -/

theorem resetReply_acked {ack : SeqNumber} (calm : s.header.flags.has .rst = false)
    (given : s.header.ack = some ack) : ∃ r, s.resetReply = .ok (some r) ∧ r.header.seq = ack := by
  unfold Segment.resetReply
  simp only [calm, given]
  exact ⟨_, rfl, rfl⟩

theorem resetReply_unacked (sized : s.Sized) (calm : s.header.flags.has .rst = false)
    (none : s.header.ack = none) : ∃ r, s.resetReply = .ok (some r) ∧
      r.header.ack = some (s.header.seq.advance s.header.sequenceLength) := by
  have brief := sized.brief
  have sum : s.header.seq.add s.header.sequenceLength
      = .ok (s.header.seq.advance s.header.sequenceLength) :=
    SeqNumber.add_ok.mpr ⟨by simp only [SeqNumber.halfCircle]; omega, rfl⟩
  unfold Segment.resetReply
  simp only [calm, none, sum]
  exact ⟨_, rfl, rfl⟩

namespace Connection

def downfall (c : Connection) : CallError :=
  if c.state = .synReceived then .connectionRefused else .connectionReset

structure FelledBy (c : Connection) (r : Segment) : Prop where
  claims : c.claims r = true
  ends : ∀ iss now, (c.arrives r iss now).Ends (c.waiting.map (Signal.fails c.downfall)) (.silent c.shut)

theorem terminate_silent (c : Connection) (error : CallError) :
    Act.Ends (do return Arrival.silent (← c.terminate error)) (c.waiting.map (Signal.fails error))
      (Arrival.silent c.shut) :=
  Act.Ends.silently (terminate_ends.mpr ⟨rfl, rfl⟩) rfl

theorem felled_asking (coherent : Coherent c) (asked : c.state = .synSent) (claims : c.claims r = true)
    (rst : r.header.flags.has .rst = true)
    (ack : r.header.ack = some (c.send.initial.advance 1)) : c.FelledBy r := by
  refine ⟨claims, fun iss now => ?_⟩
  have forward : (c.send.initial.advance 1).after c.send.initial = true := by
    rw [SeqNumber.after_iff, SeqNumber.ahead_advance (by decide)]
    decide
  have sent : (c.send.initial.advance 1).atOrBefore c.send.next = true := by
    rw [(coherent.asking asked).2, SeqNumber.atOrBefore_iff, ← Bool.not_eq_true, SeqNumber.after_iff,
      SeqNumber.ahead_self]
    exact fun later => Nat.lt_irrefl 0 later.1
  have error : c.downfall = .connectionReset := by
    rw [downfall, asked]
    rfl
  have handled : c.arrives r iss now = do return .silent (← c.terminate .connectionReset) := by
    simp only [arrives, asked, arrivesSynSent, ack, rst, Option.all_some, forward, sent, Bool.and_self,
      Bool.not_true, Option.isSome_some, if_true, Bool.false_eq_true, if_false]
  rw [handled, error]
  exact terminate_silent c _

/-- In a synchronized state a reset is believed that stands at the next number expected. It takes no
    number itself, so this holds for a closed window, too. -/
theorem felled_synchronized (limited : Limited c) (live : c.state.isSynchronized = true)
    (claims : c.claims r = true) (rst : r.header.flags.has .rst = true) (bare : r.Bare)
    (long : r.text.length = r.header.textLength) (seq : r.header.seq = c.receive.next) :
    c.FelledBy r := by
  refine ⟨claims, fun iss now => ?_⟩
  have none : r.header.sequenceLength = 0 := by
    obtain ⟨empty, syn, fin⟩ := bare
    rw [Header.sequenceLength, ← long, empty, Flags.sequenceLength, syn, fin]
    rfl
  have fits : c.Fits r.header := by
    by_cases shut : c.window = 0
    · exact Or.inr (Or.inr ⟨none, shut, seq⟩)
    · refine Or.inl ?_
      rw [InWindow, seq, SeqNumber.ahead_self]
      exact Nat.pos_of_ne_zero shut
  have acceptable : c.acceptable r.header = .ok true := by
    rw [acceptable_eq limited (none ▸ Nat.zero_le _), decide_eq_true fits]
  have handled : c.arrivesSynchronized r now = do return .silent (← c.terminate c.downfall) := by
    rw [arrivesSynchronized]
    simp only [acceptable, Act.lift_bind, if_true, rst, downfall]
  rw [arrives_synchronized live, handled]
  exact terminate_silent c _

theorem claims_reply {flags : Flags} {seq : SeqNumber} {text : Octets}
    (sent : c.segment flags seq text = some s) (reset : s.resetReply = .ok (some r)) :
    c.claims r = true := by
  obtain ⟨from', to'⟩ := resetReply_returns reset
  obtain ⟨foreign, peer, rfl⟩ := Option.map_eq_some_iff.mp sent
  rw [claims_iff, from', to', peer]
  exact ⟨rfl, decide_eq_true rfl⟩

/-- Whatever a connection says, it is felled by the reset that answers it. -/
theorem Utters.felled (coherent : Coherent c) (limited : Limited c) (utters : c.Utters s) :
    ∃ r, s.resetReply = .ok (some r) ∧ c.FelledBy r := by
  have sized := utters.sized
  cases utters with
  | asks asked sent =>
    have plain : (Flags.ofList [.syn]).has .rst = false ∧ (Flags.ofList [.syn]).has .ack = false ∧
        (Flags.ofList [.syn]).sequenceLength = 1 := by decide
    have spoken : s.header.flags = .ofList [.syn] ∧ s.header.ack = none ∧
        s.header.seq.advance s.header.sequenceLength = c.send.initial.advance 1 := by
      obtain ⟨_, _, rfl⟩ := Option.map_eq_some_iff.mp sent
      refine ⟨rfl, ?_, ?_⟩
      · simp only [plain.2.1, Bool.false_eq_true, if_false]
      · simp only [Header.sequenceLength, plain.2.2, List.length_nil, Nat.zero_add]
    obtain ⟨flags, none, stop⟩ := spoken
    obtain ⟨r, reset, ack⟩ := resetReply_unacked sized (flags ▸ plain.1) none
    exact ⟨r, reset, felled_asking coherent asked (claims_reply sent reset) (resetReply_formed reset).2
      (stop ▸ ack)⟩
  | acks live acknowledge _ sent =>
    have spoken : s.header.flags.Acknowledge ∧ s.header.ack = some c.receive.next := by
      obtain ⟨_, _, rfl⟩ := Option.map_eq_some_iff.mp sent
      exact ⟨acknowledge, if_pos acknowledge.1⟩
    obtain ⟨r, reset, seq⟩ := resetReply_acked spoken.1.2 spoken.2
    exact ⟨r, reset, felled_synchronized limited live (claims_reply sent reset) (resetReply_formed reset).2
      (resetReply_bare reset) (resetReply_sized reset).long seq⟩

end Connection

namespace Stack

variable {k k' p q : Stack} {here : Endpoint} {segments : List Segment} {σ : List Signal}

theorem vacant_answers (willing : p.Willing)
    (vacant : ∀ e, p.table.get? s.receiver = some e → e.state = .closed)
    (reads : Reads d.octets d.src d.dst s) (reset : s.resetReply = .ok (some r))
    (posted : datagram r = .ok d') (now : Instant) (call : CallId) :
    ∃ p', (p.handle (.ingress d.octets d.src d.dst) now call).Ends [] (p', .accepted) ∧
      p'.log = p.log ++ [d'] := by
  have replied : ∃ table, (p.table.arrives s now).Ends [] (table, [r]) := by
    unfold Table.arrives
    rw [reset]
    cases found : p.table.get? s.receiver with
    | none => exact ⟨_, rfl⟩
    | some e =>
      have answered : e.arrives s (p.table.nextSeq s.receiver s.sender now) now
          = return .answered e (some r) := by
        simp only [Connection.arrives, vacant e found, reset, Act.lift_bind]
      dsimp only
      rw [answered]
      split <;> exact ⟨_, rfl⟩
  obtain ⟨table, arrives⟩ := replied
  have emitted : emitAll { p with table } [r]
      = .ok { p with table, outlet := (p.outlet.transmit d').1 } := by
    rw [emitAll, emit, posted]
    rfl
  exact ⟨_, ingress_ends reads arrives emitted, (Outlet.transmit_willing willing d').2⟩

theorem felled_ingress (found : q.table.get? here = some c) (felled : c.FelledBy r)
    (reads : Reads d'.octets d'.src d'.dst r) (now : Instant) (call : CallId) :
    ∃ q', (q.handle (.ingress d'.octets d'.src d'.dst) now call).Ends
        (c.waiting.map (Signal.fails c.downfall)) (q', .accepted) ∧ q'.outlet = q.outlet ∧
      ∀ there, q'.table.get? there = if there = here then some c.shut else q.table.get? there := by
  have target : q.table.get? r.receiver = some c := by
    rw [(Connection.claims_iff.mp felled.claims).1, (Table.get?_some found).2]
    exact found
  obtain ⟨table, arrives, put⟩ := Table.arrives_claimed target felled.claims (felled.ends _ now)
  refine ⟨{ q with table }, ingress_ends reads arrives rfl, rfl, ?_⟩
  exact Table.get?_put found rfl put

/-- On every stack that a history leads to, let an event make a connection send a segment that is no
    reset, and leave it in a state other than CLOSED. A stack where nobody is connected to it answers this
    segment by a reset. When that arrives, while the connection is as the event has left it, the
    connection is closed, all its calls fail, nothing is sent, and no other connection is touched. -/
theorem half_open_connection_felled {config : Config} {generator : SeqGenerator}
    {history : List (Event × Instant)} {event : Event} {τ : List Signal} {answer : Answer}
    (ends : ((Stack.empty config generator).run 0 history).Ends σ k)
    (happens : (k.handle event now history.length).Ends τ (k', answer))
    (found : k'.table.get? here = some c) (open' : c.state ≠ .closed)
    (emitted : Emitted here (k'.log.drop k.log.length) s) (calm : s.header.flags.has .rst = false)
    (near : s.header.srcPort ≠ 0) (far : s.header.dstPort ≠ 0) :
    ∃ r d d', s.resetReply = .ok (some r) ∧ datagram s = .ok d ∧ datagram r = .ok d' ∧
      (∀ {p : Stack}, p.Willing → (∀ e, p.table.get? s.receiver = some e → e.state = .closed) →
        ∀ then' other, ∃ p', (p.handle (.ingress d.octets d.src d.dst) then' other).Ends [] (p', .accepted)
          ∧ p'.log = p.log ++ [d']) ∧
      ∀ {q : Stack}, q.table.get? here = some c →
        ∀ then' other, ∃ q' c', (q.handle (.ingress d'.octets d'.src d'.dst) then' other).Ends
            (c.waiting.map (Signal.fails
              (if c.state = .synReceived then .connectionRefused else .connectionReset))) (q', .accepted) ∧
          q'.table.get? here = some c' ∧ c'.state = .closed ∧ c'.waiting = [] ∧ q'.outlet = q.outlet ∧
          ∀ there, there ≠ here → q'.table.get? there = q.table.get? there := by
  have sound := run_sound (sound_empty config generator) ends
  rw [Nat.zero_add] at sound
  have utters : c.Utters s := by
    rcases handle_origin sound happens found with ⟨_, rfl⟩ | ⟨c₀, ds, found₀, log, befalls⟩
    · exact absurd rfl open'
    · obtain ⟨there, same⟩ := Table.get?_some found₀
      rw [log, List.drop_left, ← same] at emitted
      exact emitted_utters (sound.proper.coherent c₀ there) (sound.limited c₀ there)
        (run_equipped ends c₀ there) emitted calm befalls
  have sound' := handle_sound sound happens
  have there' := (Table.get?_some found).1
  obtain ⟨r, reset, felled⟩ :=
    utters.felled (sound'.proper.coherent c there') (sound'.limited c there')
  obtain ⟨d, posted⟩ := datagram_succeeds utters.sized
  obtain ⟨d', posted'⟩ := datagram_succeeds (resetReply_sized reset)
  obtain ⟨from', to'⟩ := resetReply_returns reset
  have reads := reads_posted utters.formed utters.sized near far posted
  have reads' : Reads d'.octets d'.src d'.dst r := by
    refine reads_posted (resetReply_formed reset).1 (resetReply_sized reset) ?_ ?_ posted'
    · exact fun zero => far ((congrArg Endpoint.port from').symm.trans zero)
    · exact fun zero => near ((congrArg Endpoint.port to').symm.trans zero)
  refine ⟨r, d, d', reset, posted, posted', ?_, ?_⟩
  · exact fun willing vacant then' other => vacant_answers willing vacant reads reset posted' then' other
  · intro q again then' other
    obtain ⟨q', fells, silent, put⟩ := felled_ingress again felled reads' then' other
    exact ⟨q', c.shut, fells, (put here).trans (if_pos rfl), rfl, rfl, silent,
      fun there away => (put there).trans (if_neg away)⟩

theorem filled_felled : ∃ σ k τ k' answer c s r d d' υ q c',
    ((Stack.empty { receiveWindow := 8 } (.ofKey 1 2)).run 0 filled).Ends σ k ∧
    (k.handle (.send ⟨⟨10, 0, 0, 1⟩, 80⟩ [104, 105]) .start 4).Ends τ (k', answer) ∧
    k'.table.get? ⟨⟨10, 0, 0, 1⟩, 80⟩ = some c ∧ c.state = .established ∧ c.window = 0 ∧
    Emitted ⟨⟨10, 0, 0, 1⟩, 80⟩ (k'.log.drop k.log.length) s ∧ s.text = [104, 105] ∧
    s.resetReply = .ok (some r) ∧ datagram s = .ok d ∧ datagram r = .ok d' ∧
    (∃ p', ((Stack.empty {} (.ofKey 3 4)).handle (.ingress d.octets d.src d.dst) .start 0).Ends []
      (p', .accepted) ∧ p'.log = [d']) ∧
    (k'.handle (.ingress d'.octets d'.src d'.dst) .start 5).Ends υ (q, .accepted) ∧
    υ = [⟨4, .failed .connectionReset⟩] ∧ q.table.get? ⟨⟨10, 0, 0, 1⟩, 80⟩ = some c' ∧
    c'.state = .closed := by
  let here : Endpoint := ⟨⟨10, 0, 0, 1⟩, 80⟩
  let start := Stack.empty { receiveWindow := 8 } (.ofKey 1 2)
  let k := (start.run 0 filled).result start
  let r := (k.handle (.send here [104, 105]) .start 4).result (k, .accepted)
  let c := (r.1.table.get? here).getD (.bound here {})
  let s := (c.segment (.ofList [.ack, .psh]) c.send.unacked [104, 105]).get (by decide +kernel)
  have ends : (start.run 0 filled).Ends _ k := Act.ends_result start (by decide +kernel)
  have succeeds : (k.handle (.send here [104, 105]) .start 4).outcome.isOk = true := by decide +kernel
  have whole := Act.ends_result (k, Answer.accepted) succeeds
  have happens : (k.handle (.send here [104, 105]) .start 4).Ends _ (r.1, r.2) := whole.pair
  have found : r.1.table.get? here = some c := by decide +kernel
  have state : c.state = .established := by decide +kernel
  have sent : c.segment (.ofList [.ack, .psh]) c.send.unacked [104, 105] = some s := by
    decide +kernel
  have logged : ∃ d ∈ r.1.log.drop k.log.length, datagram s = .ok d := by decide +kernel
  have emitted : Emitted here (r.1.log.drop k.log.length) s :=
    ⟨(Connection.segment_formed sent).1, by decide +kernel, logged⟩
  obtain ⟨reply, d, d', reset, posted, posted', answers, fells⟩ := half_open_connection_felled ends happens
    found (by decide +kernel) emitted (by decide +kernel) (by decide +kernel) (by decide +kernel)
  have absent : ∀ e, (Stack.empty {} (.ofKey 3 4)).table.get? s.receiver = some e → e.state = .closed :=
    fun _ none => by cases none
  obtain ⟨p', answered, log⟩ := answers (p := .empty {} (.ofKey 3 4)) (by decide) absent .start 0
  obtain ⟨q, c', felled, there, closed, _⟩ := fells found .start 5
  exact ⟨_, k, _, r.1, r.2, c, s, reply, d, d', _, q, c', ends, happens, found, state,
    by decide +kernel, emitted, by decide +kernel, reset, posted, posted', ⟨p', answered, log⟩, felled,
    by decide +kernel, there, closed⟩

end Stack
end TcpEngine

import TcpEngine.Proofs.Connection.Telling
import TcpEngine.Proofs.Stack.Life

/-!
The order of what waits for an acknowledgment. The segments lie one behind the other between SND.UNA
and SND.NXT, so the front that an acknowledgment takes off the queue is all that it covers. And no
event moves a number of an incarnation backwards.
-/
namespace TcpEngine

def Unacked.coveredBy (unacked : SeqNumber) (e : Unacked) : Bool :=
  match e.stop with
  | .ok stop => stop.atOrBefore unacked
  | .error _ => false

theorem Unacked.At.stop {origin : SeqNumber} {unacked next start : Nat} {e : Unacked}
    (h : e.At origin unacked next start) (brief : e.text.length ≤ 65535) :
    e.stop = .ok (origin.advance (start + e.size)) := by
  refine Unacked.stop_ok.mpr ⟨?_, ?_⟩
  · simp only [SeqNumber.halfCircle]
    omega
  · rw [h.seq, SeqNumber.advance_advance]
    rfl

theorem Unacked.size_le {e : Unacked} (brief : e.text.length ≤ 65535) : e.size ≤ 65537 := by
  have syn := Bool.toNat_le (e.flags.has .syn)
  have fin := Bool.toNat_le (e.flags.has .fin)
  simp only [size, Flags.sequenceLength]
  omega

theorem Unacked.At.covered {origin : SeqNumber} {unacked next start acked : Nat} {e : Unacked}
    (h : e.At origin unacked next start) (brief : e.text.length ≤ 65535)
    (room : next < unacked + SeqNumber.halfCircle) (above : unacked ≤ acked) (sent : acked ≤ next) :
    e.coveredBy (origin.advance acked) = true ↔ start + e.size ≤ acked := by
  have waits := h.waits
  have within := h.sent
  unfold coveredBy
  rw [h.stop brief]
  exact SeqNumber.atOrBefore_advance ⟨by omega, by omega⟩

namespace Connection

def settle (now : Instant) : List Unacked → RoundTrip → Act RoundTrip
  | [], roundTrip => return roundTrip
  | e :: rest, roundTrip => do
    let roundTrip ← roundTrip.sample (now.since e.lastSent)
    Act.signal? e.call .done
    settle now rest roundTrip

/-- The segments that wait are not empty, lie between SND.UNA and SND.NXT, and each ends before the
    next one begins. -/
structure InOrder (c : Connection) : Prop where
  order : c.send.unacked.atOrBefore c.send.next = true
  within : ∀ e ∈ c.queue, ∃ stop, e.stop = .ok stop ∧ stop.after e.seq = true ∧
    stop.after c.send.unacked = true ∧ stop.atOrBefore c.send.next = true
  apart : c.queue.Pairwise fun e e' => ∃ stop, e.stop = .ok stop ∧ stop.atOrBefore e'.seq = true

/-- No number of an incarnation moves backwards, and those of the handshake stay. -/
structure Onward (c c' : Connection) : Prop where
  initial : c'.send.initial = c.send.initial
  unacked : c'.send.unacked.ahead c.send.unacked ≤ c.send.next.ahead c.send.unacked
  next : c'.send.next.ahead c.send.next ≤ 65535
  receive : c.state.isSynchronized = true → c'.state.isSynchronized = true ∧
    c'.receive.initial = c.receive.initial ∧ c'.receive.next.ahead c.receive.next ≤ 65536

variable {origin : SeqNumber} {unacked next : Nat} {c c' : Connection} {now : Instant}
  {σ : List Signal} {s : Segment} {iss : SeqNumber} {timer : Option Config}

theorem Window.inOrder (h : Window origin unacked next c) (limited : c.Limited) : c.InOrder := by
  have order := h.order
  have room := h.room
  constructor
  · rw [h.start, h.stop]
    exact (SeqNumber.atOrBefore_advance ⟨by omega, room⟩).mpr order
  · intro e member
    obtain ⟨start, _, there⟩ := h.laid.mem member
    have brief := limited.brief e member
    have size := Unacked.size_le brief
    have filled := there.filled
    have waits := there.waits
    have sent := there.sent
    refine ⟨_, there.stop brief, ?_, ?_, ?_⟩
    · rw [there.seq]
      refine (SeqNumber.after_advance ?_).mpr (by omega)
      simp only [SeqNumber.Near, SeqNumber.halfCircle]
      omega
    · rw [h.start]
      exact (SeqNumber.after_advance ⟨by omega, by omega⟩).mpr waits
    · rw [h.stop]
      exact (SeqNumber.atOrBefore_advance ⟨by omega, by omega⟩).mpr sent
  · refine h.laid.apart.imp_of_mem ?_
    rintro e e' member _ ⟨start, start', there, there', behind⟩
    have waits := there.waits
    have sent' := there'.sent
    refine ⟨_, there.stop (limited.brief e member), ?_⟩
    rw [there'.seq]
    exact (SeqNumber.atOrBefore_advance ⟨by omega, by omega⟩).mpr behind

/- The front that is taken off the queue. -/

/-- Where what is covered comes first, the front up to the first segment that is not covered is all
    that is. -/
theorem release_eq {acked : SeqNumber} {queue : List Unacked}
    (stops : ∀ e ∈ queue, ∃ stop, e.stop = .ok stop)
    (first : queue.Pairwise fun e e' =>
      e'.coveredBy acked = true → e.coveredBy acked = true) (roundTrip : RoundTrip) :
    release acked now queue roundTrip = (do
      let roundTrip ← settle now (queue.filter fun e => e.coveredBy acked) roundTrip
      return (queue.filter fun e => !e.coveredBy acked, roundTrip)) := by
  induction queue generalizing roundTrip with
  | nil => rfl
  | cons e rest ih =>
    obtain ⟨early, later⟩ := List.pairwise_cons.mp first
    obtain ⟨stop, stops'⟩ := stops e List.mem_cons_self
    have ih := ih (fun d member => stops d (List.mem_cons_of_mem e member)) later
    have covered : e.coveredBy acked = stop.atOrBefore acked := by
      unfold Unacked.coveredBy
      rw [stops']
    simp only [release, stops', Act.lift_bind]
    cases behind : stop.after acked with
    | true =>
      have outside : e.coveredBy acked = false := by
        rw [covered, ← Bool.not_eq_true, SeqNumber.atOrBefore_iff, behind]
        decide
      have none : ∀ d ∈ e :: rest, d.coveredBy acked = false := by
        intro d member
        rcases List.mem_cons.mp member with rfl | member
        · exact outside
        · rw [← Bool.not_eq_true]
          intro inside
          rw [early d member inside] at outside
          cases outside
      rw [List.filter_eq_nil_iff.mpr (by simpa using none), List.filter_eq_self.mpr (by simpa using none)]
      rfl
    | false =>
      have inside : e.coveredBy acked = true := covered.trans (SeqNumber.atOrBefore_iff.mpr behind)
      simp only [Bool.false_eq_true, if_false, List.filter_cons, inside, if_true, Bool.not_true,
        settle, bind_assoc, ih]

theorem Window.releaseAcked_eq (h : Window origin unacked next c) (limited : c.Limited)
    {number : SeqNumber} (under : number.ahead c.send.unacked ≤ c.send.next.ahead c.send.unacked) :
    releaseAcked { c with send := { c.send with unacked := number } } now = (do
      let roundTrip ← settle now (c.queue.filter fun e => e.coveredBy number) c.roundTrip
      return { c with
        send := { c.send with unacked := number }
        queue := c.queue.filter fun e => !e.coveredBy number
        roundTrip }) := by
  have order := h.order
  have room := h.room
  obtain ⟨acked, rfl, above, sent⟩ : ∃ acked, number = origin.advance acked ∧ unacked ≤ acked ∧
      acked ≤ next := by
    rw [h.ahead] at under
    refine ⟨unacked + number.ahead c.send.unacked, ?_, by omega, by omega⟩
    rw [← SeqNumber.advance_advance, ← h.start, SeqNumber.advance_ahead]
  have stops : ∀ e ∈ c.queue, ∃ stop, e.stop = .ok stop := by
    intro e member
    obtain ⟨_, _, there⟩ := h.laid.mem member
    exact ⟨_, there.stop (limited.brief e member)⟩
  have first : c.queue.Pairwise fun e e' =>
      e'.coveredBy (origin.advance acked) = true → e.coveredBy (origin.advance acked) = true := by
    refine h.laid.apart.imp_of_mem ?_
    rintro e e' member member' ⟨start, start', there, there', behind⟩ inside
    rw [there'.covered (limited.brief e' member') room above sent] at inside
    exact (there.covered (limited.brief e member) room above sent).mpr (by omega)
  simp only [releaseAcked, release_eq stops first, bind_assoc, pure_bind]

/- What no event turns back. -/

theorem live_of_busy (busy : ¬ c.Free) (asks : c.state ≠ .synSent) : c.state.isSynchronized = true := by
  unfold Free at busy
  cases state : c.state <;> first | rfl | (rw [state] at busy asks; simp at busy asks)

theorem moves_live (live : c.state.isSynchronized = true) (busy : ¬ c'.Free)
    (moves : Chain (Move s iss now) c σ c') : c'.state.isSynchronized = true := by
  refine live_of_busy busy ?_
  exact moves.keeps (P := fun d => d.state ≠ .synSent)
    (fun before move asks => before (move_asks move asks).1) (not_asking live)

theorem turns_receive (turns : Chain (Turn timer now) c σ c') : c'.receive = c.receive := by
  refine turns.keeps (P := fun d => d.receive = c.receive) ?_ rfl
  intro d τ d' before turn
  refine Eq.trans ?_ before
  cases turn with
  | deliver ends => rcases deliver_ends ends with ⟨_, rfl, _⟩ | ⟨_, _, _, _, rfl⟩ <;> rfl
  | release | review => rfl
  | terminate ends =>
    obtain ⟨_, rfl⟩ := terminate_ends.mp ends
    rfl

end Connection

variable {origin : SeqNumber} {unacked next : Nat} {now : Instant} {call : CallId} {event : Event}
  {c c' : Connection} {σ : List Signal} {ds : List Datagram} {config : Config}

def Connection.Steady (c : Connection) (event : Event) : Prop :=
  ∀ s, event.segment? = some s → c.claims s = true → c.state.isSynchronized = true → ¬ c.Slips s

/-- Whatever befalls a connection that is not free, its window slides on, unless a segment slips. -/
theorem befalls_slides (coherent : c.Coherent) (busy : ¬ c.Free)
    (window : c.Window origin unacked next) (roomy : c'.Roomy)
    (steady : c.Steady event) (h : Befalls config now call event c σ ds c') :
    ∃ unacked' n, unacked ≤ unacked' ∧ unacked' ≤ next ∧ n ≤ 65535 ∧
      c'.Window origin unacked' (next + n) := by
  have order := window.order
  cases h with
  | spared => exact ⟨unacked, 0, Nat.le_refl _, order, Nat.zero_le _, window⟩
  | called _ _ called =>
    rcases Connection.called_window coherent window called roomy with ⟨n, short, window'⟩ | ⟨free, _⟩
    · exact ⟨unacked, n, Nat.le_refl _, order, short, window'⟩
    · exact absurd free busy
  | arrived _ brings claims arrives =>
    obtain ⟨unacked', slides⟩ := Connection.arrives_slides coherent
      (fun listen => busy (Or.inr listen)) window (steady _ brings claims) arrives
    exact ⟨unacked', 0, slides.forward, slides.window.order, Nat.zero_le _, slides.window⟩
  | timed ends =>
    have slides := Connection.turns_slide window (Connection.onTimer_turns ends).1
    exact ⟨unacked, 0, Nat.le_refl _, order, Nat.zero_le _, slides.window⟩

/-- Whatever befalls a synchronized connection, it stays so or is over, and RCV.NXT moves forward. -/
theorem befalls_receives (coherent : c.Coherent) (limited : c.Limited)
    (live : c.state.isSynchronized = true) (busy : ¬ c'.Free)
    (h : Befalls config now call event c σ ds c') :
    c'.state.isSynchronized = true ∧ c'.receive.initial = c.receive.initial ∧
      c'.receive.next.ahead c.receive.next ≤ 65536 := by
  have still (same : c'.receive = c.receive) : c'.receive.initial = c.receive.initial ∧
      c'.receive.next.ahead c.receive.next ≤ 65536 := by
    rw [same, SeqNumber.ahead_self]
    exact ⟨rfl, Nat.zero_le _⟩
  cases h with
  | spared => exact ⟨live, still rfl⟩
  | called _ _ called =>
    obtain ⟨_, receive, asks⟩ := Connection.called_fixed (Connection.not_free_of_live live) called
    refine ⟨Connection.live_of_busy busy ?_, still receive⟩
    exact fun asking => Connection.not_asking live (asks asking)
  | arrived _ _ _ arrives =>
    refine ⟨Connection.moves_live live busy (Connection.arrives_handled coherent.fresh arrives).1, ?_⟩
    rw [Connection.arrives_synchronized live] at arrives
    rcases (Connection.arrivesSynchronized_outcome live arrives).onward limited with
      closed | ⟨initial, n, short, forward⟩
    · exact absurd (Or.inl closed) busy
    · refine ⟨initial, ?_⟩
      rw [forward, SeqNumber.ahead_advance (by omega)]
      exact short
  | timed ends =>
    have turns := (Connection.onTimer_turns ends).1
    rcases Connection.turns_state turns with same | closed
    · exact ⟨same ▸ live, still (Connection.turns_receive turns)⟩
    · exact absurd (Or.inl closed) busy

theorem befalls_initial (coherent : c.Coherent) (busy : ¬ c.Free)
    (h : Befalls config now call event c σ ds c') : c'.send.initial = c.send.initial := by
  cases h with
  | spared => rfl
  | called _ _ called => exact (Connection.called_fixed busy called).1
  | arrived _ _ _ arrives =>
    exact Connection.moves_initial (fun listen => busy (Or.inr listen))
      (Connection.arrives_handled coherent.fresh arrives).1
  | timed ends => exact Connection.turns_initial (Connection.onTimer_turns ends).1

theorem befalls_onward (coherent : c.Coherent) (limited : c.Limited) (busy : ¬ c.Free)
    (busy' : ¬ c'.Free) (window : c.Window origin unacked next) (roomy : c'.Roomy)
    (steady : c.Steady event) (h : Befalls config now call event c σ ds c') : c.Onward c' := by
  obtain ⟨unacked', n, forward, under, short, window'⟩ :=
    befalls_slides coherent busy window roomy steady h
  have room := window.room
  simp only [SeqNumber.halfCircle] at room
  refine ⟨befalls_initial coherent busy h, ?_, ?_, fun live => befalls_receives coherent limited live busy' h⟩
  · rw [window.ahead, window'.start, window.start,
      SeqNumber.ahead_advance_of_le forward (by omega)]
    omega
  · rw [window'.stop, window.stop, SeqNumber.ahead_advance_of_le (by omega) (by omega)]
    omega

namespace Stack

variable {k k' : Stack} {here : Endpoint}

theorem steady_of_fair (straight : ¬ k.Slips event) (found : k.table.get? here = some c) :
    c.Steady event := by
  intro s brings claims live slips
  obtain ⟨octets, src, dst, same, reads⟩ := Event.reads_of_segment? brings
  have target : s.receiver = here := by
    simp only [Connection.claims, Bool.and_eq_true, decide_eq_true_eq] at claims
    rw [claims.1, (Table.get?_some found).2]
  exact straight ⟨octets, src, dst, s, c, same, reads, target ▸ found, live, slips⟩

theorem handle_onward {place : Nat} {answer : Answer} (sound : Sound place k) (ordered : Ordered k)
    (fair : k.Fair place [(event, now)]) (ends : (k.handle event now place).Ends σ (k', answer))
    (found : k.table.get? here = some c) (found' : k'.table.get? here = some c') (busy : ¬ c.Free)
    (busy' : ¬ c'.Free) : c.Onward c' := by
  obtain ⟨_, straight, onward⟩ := fair
  have there := (Table.get?_some found).1
  obtain ⟨origin, unacked, next, window⟩ := ordered c there
  have roomy : c'.Roomy := onward _ _ _ ends c' (Table.get?_some found').1
  rcases handle_befalls sound found ends with ⟨_, missing⟩ | ⟨d, ds, found'', _, befalls⟩
  · cases missing.symm.trans found'
  · obtain rfl := Option.some.inj (found''.symm.trans found')
    exact befalls_onward (sound.proper.coherent c there) (sound.limited c there) busy busy' window roomy
      (steady_of_fair straight found) befalls

/- Whether a history is fair can be computed. -/

instance (c : Connection) (s : Segment) : Decidable (c.Slips s) :=
  decidable_of_iff (c.acceptable s.header = .ok true ∧ s.header.flags.has .rst = false ∧
      s.header.flags.has .syn = false ∧ c.send.unacked = c.send.next ∧
      s.header.ack.any fun ack => ack.ahead c.send.unacked == SeqNumber.halfCircle) <| by
    simp only [Connection.Slips, Connection.Processes, Option.any_eq_true, beq_iff_eq, and_assoc]

def bringsSlip (k : Stack) (event : Event) : Bool :=
  event.segment?.any fun s => (k.table.get? s.receiver).any fun c =>
    c.state.isSynchronized && decide (c.Slips s)

theorem slips_iff : k.Slips event ↔ k.bringsSlip event = true := by
  simp only [bringsSlip, Option.any_eq_true, Bool.and_eq_true, decide_eq_true_eq]
  constructor
  · rintro ⟨octets, src, dst, s, c, rfl, reads, found, live, slips⟩
    exact ⟨s, Event.segment?_ingress reads, c, found, live, slips⟩
  · rintro ⟨s, brings, c, found, live, slips⟩
    obtain ⟨octets, src, dst, same, reads⟩ := Event.reads_of_segment? brings
    exact ⟨octets, src, dst, s, c, same, reads, found, live, slips⟩

instance (k : Stack) (event : Event) : Decidable (k.Slips event) := decidable_of_iff' _ slips_iff

def fairly (k : Stack) (place : Nat) : List (Event × Instant) → Bool
  | [] => decide k.Roomy
  | (event, now) :: rest => decide k.Roomy && !decide (k.Slips event) &&
    match (k.handle event now place).outcome with
    | .ok (k', _) => k'.fairly (place + 1) rest
    | .error _ => true

theorem fair_iff {place : Nat} {history : List (Event × Instant)} :
    k.Fair place history ↔ k.fairly place history = true := by
  induction history generalizing k place with
  | nil => exact (decide_eq_true_iff (p := k.Roomy)).symm
  | cons head rest ih =>
    obtain ⟨event, now⟩ := head
    simp only [Fair, fairly, Bool.and_eq_true, Bool.not_eq_true', decide_eq_true_eq,
      decide_eq_false_iff_not, and_assoc]
    refine and_congr_right fun _ => and_congr_right fun _ => ?_
    cases outcome : (k.handle event now place).outcome with
    | error =>
      refine iff_of_true ?_ rfl
      intro σ k' answer ends
      rw [ends] at outcome
      cases outcome
    | ok result =>
      obtain ⟨k', answer⟩ := result
      constructor
      · intro onward
        refine ih.mp (onward (k.handle event now place).signals k' answer ?_)
        rw [Act.Ends, ← outcome]
      · intro later σ k'' answer' ends
        rw [ends] at outcome
        cases outcome
        exact ih.mpr later

instance (k : Stack) (place : Nat) (history : List (Event × Instant)) :
    Decidable (k.Fair place history) :=
  decidable_of_iff' _ fair_iff

/-- In every history that begins with an empty table, in which less than half the circle is on its way
    and no segment slips, the segments that wait lie in order between SND.UNA and SND.NXT. So an
    acknowledgment takes all segments off the queue that it covers, and no others. And whatever happens
    next, no number of an incarnation moves backwards. -/
theorem send_order_kept {config : Config} {generator : SeqGenerator} {here : Endpoint}
    {history : List (Event × Instant)} {k : Stack} {σ : List Signal} {c : Connection}
    (fair : (Stack.empty config generator).Fair 0 history)
    (ends : ((Stack.empty config generator).run 0 history).Ends σ k)
    (found : k.table.get? here = some c) :
    c.InOrder ∧
    (∀ (number : SeqNumber) (now : Instant),
      number.ahead c.send.unacked ≤ c.send.next.ahead c.send.unacked →
      Connection.releaseAcked { c with send := { c.send with unacked := number } } now = (do
        let covered := c.queue.filter fun e => e.coveredBy number
        let roundTrip ← Connection.settle now covered c.roundTrip
        return { c with
          send := { c.send with unacked := number }
          queue := c.queue.filter fun e => !e.coveredBy number
          roundTrip })) ∧
    ∀ {event : Event} {now : Instant} {k' : Stack} {answer : Answer} {τ : List Signal}
      {c' : Connection}, k.Fair history.length [(event, now)] →
      (k.handle event now history.length).Ends τ (k', answer) →
      k'.table.get? here = some c' → ¬ c.Free → ¬ c'.Free → c.Onward c' := by
  have sound := run_sound (sound_empty config generator) ends
  rw [Nat.zero_add] at sound
  have ordered := ordered_of_fair fair ends
  have there := (Table.get?_some found).1
  have limited := sound.limited c there
  obtain ⟨origin, unacked, next, window⟩ := ordered c there
  refine ⟨window.inOrder limited, fun number now under => window.releaseAcked_eq limited under, ?_⟩
  intro event now k' answer τ c' onward last found' busy busy'
  exact handle_onward sound ordered onward last found found' busy busy'

theorem asking_order_kept : ∃ σ c c',
    (Stack.empty { receiveWindow := 8 } (.ofKey 1 2)).Fair 0 asking ∧
    ((Stack.empty { receiveWindow := 8 } (.ofKey 1 2)).run 0 asking).Ends σ asked ∧
    asked.table.get? ⟨⟨10, 0, 0, 1⟩, 49152⟩ = some c ∧ c.queue.length = 1 ∧ c.InOrder ∧
    agreed.table.get? ⟨⟨10, 0, 0, 1⟩, 49152⟩ = some c' ∧ c'.queue = [] ∧ c.Onward c' ∧
    (Connection.releaseAcked { c with send := { c.send with
      unacked := c.send.next } } .start).outcome.toOption.map Connection.queue = some [] := by
  let k := Stack.empty { receiveWindow := 8 } (.ofKey 1 2)
  let here : Endpoint := ⟨⟨10, 0, 0, 1⟩, 49152⟩
  let c := (asked.table.get? here).getD (.bound here {})
  let c' := (agreed.table.get? here).getD (.bound here {})
  have fair : k.Fair 0 asking := by decide +kernel
  have ends : (k.run 0 asking).Ends (k.run 0 asking).signals asked :=
    Act.ends_result _ (by decide +kernel)
  have onward : asked.Fair 2 [(agreement, .start)] := by decide +kernel
  obtain ⟨⟨k', answer⟩, rfl, last⟩ : ∃ result : Stack × Answer, agreed = result.1 ∧
      (asked.handle agreement .start 2).Ends (asked.handle agreement .start 2).signals result :=
    ⟨_, rfl, Act.ends_result (asked, Answer.accepted) (by decide +kernel)⟩
  have found : asked.table.get? here = some c := by decide +kernel
  have found' : agreed.table.get? here = some c' := by decide +kernel
  obtain ⟨order, releases, forward⟩ := send_order_kept fair ends found
  refine ⟨_, c, c', fair, ends, found, by decide +kernel, order, found', by decide +kernel, ?_, ?_⟩
  · exact forward onward last found' (by decide +kernel) (by decide +kernel)
  · rw [releases c.send.next .start (Nat.le_refl _)]
    decide +kernel

end Stack
end TcpEngine

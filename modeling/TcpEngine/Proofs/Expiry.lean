import TcpEngine.Proofs.Admission
import TcpEngine.Proofs.Connection.Overtaking
import TcpEngine.Proofs.Faultless
import TcpEngine.Proofs.SendOrder

/-!
The timer of a connection, told for its queue as a whole. The timer walks along the queue, takes segments
out of it on its way, and may give up everything in the middle. What comes out is a description of the queue
as it was: a front part is acknowledged, and of the rest each segment is kept, sent again or given up for
itself, unless one of them has waited for longer than the user allows.
-/
namespace TcpEngine

theorem map_some_filterMap {f : α → Option β} {as : List α} (each : ∀ a ∈ as, (f a).isSome = true) :
    (as.filterMap f).map some = as.map f := by
  induction as with
  | nil => rfl
  | cons a as ih =>
    obtain ⟨b, made⟩ := Option.isSome_iff_exists.mp (each a List.mem_cons_self)
    rw [List.filterMap_cons_some made, List.map_cons, List.map_cons, made,
      ih fun a member => each a (List.mem_cons_of_mem _ member)]

def RoundTrip.measure (r : RoundTrip) (now : Instant) (done : List Unacked) : Except Fault RoundTrip :=
  done.foldlM (fun r e => r.sample (now.since e.lastSent)) r

namespace Connection

variable {c d : Connection} {now : Instant} {config : Config} {queue front back : List Unacked}
  {acked : SeqNumber} {r r' : RoundTrip} {σ : List Signal} {fault : Fault}

def covered (c : Connection) : List Unacked := c.queue.takeWhile (Unacked.coveredBy c.send.unacked)

def uncovered (c : Connection) : List Unacked := c.queue.dropWhile (Unacked.coveredBy c.send.unacked)

def relieved (c : Connection) (roundTrip : RoundTrip) : Connection :=
  { c with queue := c.uncovered, roundTrip }

/- The acknowledged segments. -/

theorem settle_outcome (now : Instant) (done : List Unacked) (r : RoundTrip) :
    (settle now done r).outcome = r.measure now done := by
  induction done generalizing r with
  | nil => rfl
  | cons e rest ih =>
    rw [settle, RoundTrip.measure, List.foldlM_cons]
    cases sampled : r.sample (now.since e.lastSent) with
    | error fault => rfl
    | ok r' =>
      have told : (Act.signal? e.call .done).outcome = .ok () := by
        cases e.call <;> rfl
      rw [Act.lift_bind, Act.bind_of_ok told]
      exact ih r'

theorem measure_succeeds (measurable : r.Measurable) (done : List Unacked) :
    ∃ r', r.measure now done = .ok r' := by
  induction done generalizing r with
  | nil => exact ⟨r, rfl⟩
  | cons e rest ih =>
    obtain ⟨r', sampled, measurable'⟩ := measurable.sample (now.since_short e.lastSent)
    obtain ⟨r'', later⟩ := ih measurable'
    refine ⟨r'', ?_⟩
    rw [RoundTrip.measure, List.foldlM_cons, sampled]
    exact later

theorem settle_ends {done : List Unacked} (ends : (settle now done r).Ends σ r') :
    σ = (done.filterMap Unacked.call).map Signal.tellsDone := by
  induction done generalizing r σ with
  | nil => exact (Act.ends_pure.mp ends).1
  | cons e rest ih =>
    simp only [settle, Act.ends_bind, Act.ends_lift, Act.ends_signal?] at ends
    obtain ⟨_, _, _, ⟨rfl, _⟩, ⟨_, _, τ, rfl, later, rfl⟩, rfl⟩ := ends
    rw [filterMap_call_cons, List.map_append, ih later]
    rfl

theorem release_settles (brief : ∀ e ∈ queue, e.text.length ≤ 65535) (r : RoundTrip) :
    release acked now queue r = (do
      let r ← settle now (queue.takeWhile (Unacked.coveredBy acked)) r
      return (queue.dropWhile (Unacked.coveredBy acked), r)) := by
  induction queue generalizing r with
  | nil => rfl
  | cons e rest ih =>
    have stops := Unacked.stop_limit (brief e List.mem_cons_self)
    have ih := ih fun e member => brief e (List.mem_cons_of_mem _ member)
    have covered : e.coveredBy acked = e.limit.atOrBefore acked := by
      rw [Unacked.coveredBy, stops]
    rw [release, stops, Act.lift_bind]
    cases later : e.limit.after acked with
    | true =>
      have out : e.coveredBy acked = false := by
        rw [covered, ← Bool.not_eq_true, SeqNumber.atOrBefore_iff, later]
        decide
      rw [List.takeWhile_cons_of_neg (by simp [out]), List.dropWhile_cons_of_neg (by simp [out])]
      rfl
    | false =>
      have within : e.coveredBy acked = true := covered.trans (SeqNumber.atOrBefore_iff.mpr later)
      rw [List.takeWhile_cons_of_pos within, List.dropWhile_cons_of_pos within]
      simp only [Bool.false_eq_true, if_false, settle, bind_assoc, ih]

theorem releaseAcked_settles (brief : ∀ e ∈ c.queue, e.text.length ≤ 65535) :
    c.releaseAcked now = (do
      let roundTrip ← settle now c.covered c.roundTrip
      return c.relieved roundTrip) := by
  simp only [releaseAcked, release_settles brief, bind_assoc, pure_bind]
  rfl

theorem releaseAcked_fails (brief : ∀ e ∈ c.queue, e.text.length ≤ 65535)
    (refused : c.roundTrip.measure now c.covered = .error fault) :
    (c.releaseAcked now).outcome = .error fault := by
  rw [← settle_outcome] at refused
  rw [releaseAcked_settles brief, Act.bind_of_fault refused]

theorem releaseAcked_measures (brief : ∀ e ∈ c.queue, e.text.length ≤ 65535)
    (measured : c.roundTrip.measure now c.covered = .ok r) :
    (c.releaseAcked now).Ends ((c.covered.filterMap Unacked.call).map Signal.tellsDone) (c.relieved r) := by
  rw [← settle_outcome] at measured
  have settled : (settle now c.covered c.roundTrip).Ends (settle now c.covered c.roundTrip).signals r := by
    rw [Act.Ends, ← measured]
  rw [releaseAcked_settles brief]
  rw [← settle_ends settled]
  exact settled.silently rfl

/- The walk along the rest. -/

/-- The segments in front of the first that has lapsed are those that the timer looks at. -/
theorem Lapses.split (lapses : Lapses c now front back) :
    front = (front ++ back).takeWhile (fun e => !e.lapsed c now) ∧
      back = (front ++ back).dropWhile (fun e => !e.lapsed c now) := by
  have fresh : ∀ e ∈ front, (!e.lapsed c now) = true := by
    intro e member
    rw [lapses.fresh e member]
    rfl
  rw [List.takeWhile_append_of_pos fresh, List.dropWhile_append_of_pos fresh]
  cases back with
  | nil => simp
  | cons e rest =>
    have stale := lapses.stale e rfl
    simp [stale]

def inspected (c : Connection) (now : Instant) : List Unacked := c.queue.takeWhile fun e => !e.lapsed c now

def skipped (c : Connection) (now : Instant) : List Unacked := c.queue.dropWhile fun e => !e.lapsed c now

def relinquished (c : Connection) (now : Instant) (config : Config) : Connection :=
  { c with queue := ((c.inspected now).filter fun e => !e.givenUp c now config) ++ c.skipped now }

theorem review_parts (counts : ∀ e ∈ c.queue, e.retries + 1 < UInt32.size) :
    Lapses c now (c.inspected now) (c.skipped now) ∧
      (c.review now config c.queue).Ends
        ((c.abandoned now config (c.inspected now)).map (Signal.fails .retransmissionTimeout))
        (c.looksAt now config (c.inspected now) (c.skipped now)) := by
  have succeeds : (c.review now config c.queue).Succeeds := review_counts counts
  obtain ⟨σ, found, reviewed⟩ := succeeds
  obtain ⟨front, back, split, lapses, rfl, rfl⟩ := review_looks reviewed
  have parts := lapses.split
  rw [← split] at parts
  have front' : c.inspected now = front := parts.1.symm
  have back' : c.skipped now = back := parts.2.symm
  rw [front', back']
  exact ⟨lapses, reviewed⟩

theorem lapsed_iff (c : Connection) (now : Instant) :
    c.queue.any (Unacked.lapsed c now) = !(c.skipped now).isEmpty := by
  unfold skipped
  induction c.queue with
  | nil => rfl
  | cons e rest ih =>
    cases lapsed : e.lapsed c now with
    | true => simp [lapsed]
    | false => simpa [lapsed] using ih

theorem skipped_fresh (fresh : c.queue.any (Unacked.lapsed c now) = false) : c.skipped now = [] := by
  rw [lapsed_iff] at fresh
  simpa using fresh

theorem inspected_fresh (fresh : c.queue.any (Unacked.lapsed c now) = false) :
    c.inspected now = c.queue := by
  have split : c.inspected now ++ c.skipped now = c.queue := List.takeWhile_append_dropWhile
  rwa [skipped_fresh fresh, List.append_nil] at split

theorem looksAt_calls (c : Connection) (now : Instant) (config : Config) :
    Connection.waiting { c with queue := (c.looksAt now config (c.inspected now) (c.skipped now)).queue }
      = (c.relinquished now config).waiting := by
  have looked (queue : List Unacked) :
      (queue.map (Unacked.looked c now)).filterMap Unacked.call = queue.filterMap Unacked.call := by
    rw [List.filterMap_map]
    exact List.filterMap_congr fun e _ => Unacked.looked_call e
  simp only [waiting, looksAt, relinquished, List.filterMap_append, looked]

/- The timer as a whole. -/

theorem onTimer_away (away : c.state ≠ .timeWait) : c.onTimer now config = (do
    let c ← c.releaseAcked now
    let found ← c.review now config c.queue
    let c := { c with queue := found.queue }
    if found.expired then
      return (← c.terminate .userTimeout, [])
    else
      return (c, found.resend.filterMap fun e => c.segment e.flags e.seq e.text)) := if_neg away

/-- Where a round trip cannot be measured, the timer stops there. -/
theorem onTimer_fails (away : c.state ≠ .timeWait) (brief : ∀ e ∈ c.queue, e.text.length ≤ 65535)
    (refused : c.roundTrip.measure now c.covered = .error fault) :
    (c.onTimer now config).outcome = .error fault := by
  rw [onTimer_away away, Act.bind_of_fault (releaseAcked_fails brief refused)]

section
variable (away : c.state ≠ .timeWait) (brief : ∀ e ∈ c.queue, e.text.length ≤ 65535)
  (counts : ∀ e ∈ c.queue, e.retries + 1 < UInt32.size)
  (measured : c.roundTrip.measure now c.covered = .ok r) (same : c.relieved r = d)
include away brief counts measured same

theorem onTimer_relieved {τ : List Signal} {c' : Connection} {segments : List Segment}
    (ends : Act.Ends (do
      let found := d.looksAt now config (d.inspected now) (d.skipped now)
      let c := { d with queue := found.queue }
      if found.expired then
        return (← c.terminate .userTimeout, [])
      else
        return (c, found.resend.filterMap fun e => c.segment e.flags e.seq e.text)) τ (c', segments)) :
    (c.onTimer now config).Ends ((c.covered.filterMap Unacked.call).map Signal.tellsDone ++
      ((d.abandoned now config (d.inspected now)).map (Signal.fails .retransmissionTimeout) ++ τ))
      (c', segments) := by
  subst same
  have left : ∀ e ∈ (c.relieved r).queue, e.retries + 1 < UInt32.size :=
    fun e member => counts e ((List.dropWhile_sublist _).subset member)
  rw [onTimer_away away]
  exact Act.ends_bind.mpr ⟨_, _, _, releaseAcked_measures brief measured,
    Act.ends_bind.mpr ⟨_, _, τ, (review_parts left).2, ends, rfl⟩, rfl⟩

/-- A segment has lapsed: everything that was not given up before it is given up with it. -/
theorem onTimer_lapses (lapsed : d.queue.any (Unacked.lapsed d now) = true) :
    (c.onTimer now config).Ends ((c.covered.filterMap Unacked.call).map Signal.tellsDone ++
      ((d.abandoned now config (d.inspected now)).map (Signal.fails .retransmissionTimeout) ++
        (d.relinquished now config).waiting.map (Signal.fails .userTimeout))) (d.shut, []) := by
  refine onTimer_relieved away brief counts measured same ?_
  have expired : (d.looksAt now config (d.inspected now) (d.skipped now)).expired = true :=
    (lapsed_iff d now).symm.trans lapsed
  dsimp only
  rw [if_pos expired]
  refine Act.ends_bind.mpr ⟨_, d.shut, [], terminate_ends.mpr ⟨rfl, rfl⟩, Act.ends_pure.mpr ⟨rfl, rfl⟩, ?_⟩
  rw [List.append_nil, looksAt_calls]

/-- No segment has lapsed: each is looked at, and one copy is made of each whose timer has run out, if it
    was not the last time. -/
theorem onTimer_looks (known : d.queue ≠ [] → c.foreign.isSome = true)
    (fresh : d.queue.any (Unacked.lapsed d now) = false) : ∃ segments,
    (c.onTimer now config).Ends ((c.covered.filterMap Unacked.call).map Signal.tellsDone ++
      (d.abandoned now config d.queue).map (Signal.fails .retransmissionTimeout))
      (d.ticked now config, segments) ∧
    segments.map some
      = (d.queue.filter (Unacked.repeated d now config)).map fun e => c.segment e.flags e.seq e.text := by
  have none := skipped_fresh fresh
  have all := inspected_fresh fresh
  have ticked : (d.looksAt now config d.queue []).queue = (d.ticked now config).queue := List.append_nil _
  refine ⟨(d.looksAt now config d.queue []).resend.filterMap fun e => c.segment e.flags e.seq e.text, ?_, ?_⟩
  · have ends : (c.onTimer now config).Ends (_ ++ (_ ++ [])) (d.ticked now config,
        (d.looksAt now config d.queue []).resend.filterMap fun e => c.segment e.flags e.seq e.text) :=
      onTimer_relieved away brief counts measured same ?_
    · rw [all, List.append_nil] at ends
      exact ends
    · rw [none, all]
      dsimp only
      rw [if_neg (by simp [looksAt]), ticked]
      subst same
      exact Act.ends_pure.mpr ⟨rfl, rfl⟩
  · rw [map_some_filterMap, looksAt, List.map_map]
    · rfl
    · intro e member
      have filled : d.queue ≠ [] := by
        intro empty
        rw [looksAt, empty] at member
        exact absurd member List.not_mem_nil
      obtain ⟨foreign, peer⟩ := Option.isSome_iff_exists.mp (known filled)
      rw [segment, peer]
      rfl

end

end Connection

namespace Stack

variable {k : Stack} {here : Endpoint} {history : List (Event × Instant)} {σ : List Signal} {c : Connection}
  {generator : SeqGenerator}

/-- In every history that begins with an empty table, the timer of a connection that is not in TIME-WAIT
    does what can be told of its queue as a whole, whatever the settings and the time. The segments in front
    that are acknowledged are done, and their round trips are measured; if that is refused, the timer stops,
    which it does not under settings in range. Of the others, those that the timer comes to and whose timer
    has run out for the last time are given up. If one has lapsed, the connection is closed and everything
    else is given up as well. Otherwise those whose timer has run out are counted and stamped, and just one
    copy of each is sent, in their order. -/
theorem timer_described {config settings : Config} {now : Instant} (few : config.maxRetransmits < UInt32.size)
    (ends : ((Stack.empty config generator).run 0 history).Ends σ k)
    (found : k.table.get? here = some c) (away : c.state ≠ .timeWait) :
    (∀ fault, c.roundTrip.measure now c.covered = .error fault →
      (c.onTimer now settings).outcome = .error fault) ∧
    (∀ roundTrip d, c.roundTrip.measure now c.covered = .ok roundTrip → c.relieved roundTrip = d →
      let told := (c.covered.filterMap Unacked.call).map Signal.tellsDone ++
        (d.abandoned now settings (d.inspected now)).map (Signal.fails .retransmissionTimeout)
      if d.queue.any (Unacked.lapsed d now) then
        (c.onTimer now settings).Ends
          (told ++ (d.relinquished now settings).waiting.map (Signal.fails .userTimeout)) (d.shut, [])
      else ∃ segments, (c.onTimer now settings).Ends told (d.ticked now settings, segments) ∧
        segments.map some
          = (d.queue.filter (Unacked.repeated d now settings)).map fun e => c.segment e.flags e.seq e.text) ∧
    (config.Sane → ∃ roundTrip, c.roundTrip.measure now c.covered = .ok roundTrip) := by
  have there := (Table.get?_some found).1
  have start := sound_empty config generator
  have sound := run_sound start ends
  have coherent := sound.proper.coherent c there
  have brief := (sound.limited c there).brief
  have traced := run_seen here ends
  have settled : k.table.config = config := run_alike ends
  have counts : ∀ e ∈ c.queue, e.retries + 1 < UInt32.size := by
    intro e member
    exact Connection.counts_of_spared (settled ▸ few) ((traced c found).1.spared e member)
  have known (filled : c.queue ≠ []) : c.foreign.isSome = true := by
    refine coherent.known (fun closed => ?_) (fun listens => ?_)
    · exact filled (coherent.unsent (Or.inl closed))
    · exact filled (coherent.unsent (Or.inr listens))
  refine ⟨fun fault refused => Connection.onTimer_fails away brief refused, ?_, ?_⟩
  · intro roundTrip d measured same told
    have peer (filled : d.queue ≠ []) : c.foreign.isSome = true := by
      refine known fun empty => filled ?_
      rw [← same, Connection.relieved, Connection.uncovered, empty, List.dropWhile_nil]
    split
    · rename_i lapsed
      have ends : (c.onTimer now settings).Ends _ (d.shut, []) :=
        Connection.onTimer_lapses away brief counts measured same lapsed
      rwa [← List.append_assoc] at ends
    · rename_i fresh
      rw [Bool.not_eq_true] at fresh
      have all : d.inspected now = d.queue := Connection.inspected_fresh fresh
      simp only [told, all]
      exact Connection.onTimer_looks away brief counts measured same peer fresh
  · intro sane
    have able := (run_going (going_empty sane generator) ends).able.each c there
    exact Connection.measure_succeeds able.measurable _

def assorted : List (Event × Instant) :=
  let here : Endpoint := ⟨⟨10, 0, 0, 1⟩, 49152⟩
  asking ++ [(agreement, .start), (.send here [97], .start), (.sweep, ⟨12000⟩),
    (.send here [98, 99], ⟨20000⟩), (.send here [100], ⟨30000⟩)]

def assortedStack : Stack :=
  ((Stack.empty { receiveWindow := 8, maxRetransmits := 2 } (.ofKey 1 2)).run 0 assorted).result
    (.empty {} (.ofKey 1 2))

def assortedConnection : Connection :=
  assortedStack.table.connections.headD (.bound ⟨⟨10, 0, 0, 1⟩, 49152⟩ {})

theorem assorted_described : ∃ σ d segments,
    ((Stack.empty { receiveWindow := 8, maxRetransmits := 2 } (.ofKey 1 2)).run 0 assorted).Ends σ
      assortedStack ∧
    assortedStack.table.get? ⟨⟨10, 0, 0, 1⟩, 49152⟩ = some assortedConnection ∧
    assortedConnection.state ≠ .timeWait ∧
    assortedConnection.queue.map Unacked.text = [[97], [98, 99], [100]] ∧
    (assortedConnection.onTimer ⟨36000⟩ { maxRetransmits := 2 }).Ends [.fails .retransmissionTimeout 3]
      (d, segments) ∧
    d.queue.map (fun e => (e.text, e.retries)) = [([98, 99], 1), ([100], 0)] ∧
    segments.map Segment.text = [[98, 99]] := by
  have ends : ((Stack.empty { receiveWindow := 8, maxRetransmits := 2 } (.ofKey 1 2)).run 0 assorted).Ends _
      assortedStack := Act.ends_result _ (by decide +kernel)
  have found : assortedStack.table.get? ⟨⟨10, 0, 0, 1⟩, 49152⟩ = some assortedConnection := by decide +kernel
  have away : assortedConnection.state ≠ .timeWait := by decide +kernel
  have measured : assortedConnection.roundTrip.measure ⟨36000⟩ assortedConnection.covered
      = .ok assortedConnection.roundTrip := by decide +kernel
  obtain ⟨_, described, _⟩ :=
    @timer_described _ _ _ _ _ _ _ { maxRetransmits := 2 } ⟨36000⟩ (by decide) ends found away
  obtain ⟨d, same⟩ : ∃ d, assortedConnection.relieved assortedConnection.roundTrip = d := ⟨_, rfl⟩
  have all := described _ d measured same
  have fresh : d.queue.any (Unacked.lapsed d ⟨36000⟩) = false := by
    rw [← same]
    decide +kernel
  simp only [fresh, Bool.false_eq_true, if_false] at all
  obtain ⟨segments, timed, copies⟩ := all
  have told : (assortedConnection.covered.filterMap Unacked.call).map Signal.tellsDone ++
      (d.abandoned ⟨36000⟩ { maxRetransmits := 2 } (d.inspected ⟨36000⟩)).map
        (Signal.fails .retransmissionTimeout) = [.fails .retransmissionTimeout 3] := by
    rw [← same]
    decide +kernel
  have texts : (segments.map Segment.text).map some = ([[98, 99]] : List (List UInt8)).map some := by
    have copied := congrArg (List.map (Option.map Segment.text)) copies
    rw [List.map_map, ← same] at copied
    rw [List.map_map]
    exact copied.trans (by decide +kernel)
  have kept : (d.ticked ⟨36000⟩ { maxRetransmits := 2 }).queue.map (fun e => (e.text, e.retries))
      = [([98, 99], 1), ([100], 0)] := by
    rw [← same]
    decide +kernel
  rw [told] at timed
  exact ⟨_, _, segments, ends, found, away, by decide +kernel, timed, kept,
    List.map_injective_iff.mpr (Option.some_injective _) texts⟩

/-- The first segment is given up, and so the handshake has measured nothing. Then a number half the circle
    ahead is acknowledged, and what is sent after that looks acknowledged to the timer. -/
def unmeasured : List (Event × Instant) :=
  asking ++
    [(.sweep, ⟨10000⟩), (agreement, ⟨10000⟩),
     (.ingress [0, 80, 192, 0, 0, 0, 3, 233, 138, 62, 28, 189, 80, 16, 1, 244, 46, 169, 0, 0]
       ⟨10, 0, 0, 2⟩ ⟨10, 0, 0, 1⟩, ⟨10000⟩),
     (.send ⟨⟨10, 0, 0, 1⟩, 49152⟩ [97], ⟨10000⟩)]

def unmeasuredStack : Stack :=
  ((Stack.empty { misordered with maxRetransmits := 1 } (.ofKey 1 2)).run 0 unmeasured).result
    (.empty {} (.ofKey 1 2))

def unmeasuredConnection : Connection :=
  unmeasuredStack.table.connections.headD (.bound ⟨⟨10, 0, 0, 1⟩, 49152⟩ {})

/-- Under bounds that are out of order, the timer does not come to its end. -/
theorem unmeasured_stops : ∃ σ,
    ((Stack.empty { misordered with maxRetransmits := 1 } (.ofKey 1 2)).run 0 unmeasured).Ends σ
      unmeasuredStack ∧
    unmeasuredStack.table.get? ⟨⟨10, 0, 0, 1⟩, 49152⟩ = some unmeasuredConnection ∧
    unmeasuredConnection.state = .established ∧ unmeasuredConnection.covered = unmeasuredConnection.queue ∧
    (unmeasuredConnection.onTimer ⟨10000⟩ { misordered with maxRetransmits := 1 }).outcome
      = .error .boundsCrossed :=
  ⟨_, Act.ends_result _ (by decide +kernel), by decide +kernel, by decide +kernel, by decide +kernel,
    by decide +kernel⟩

end Stack
end TcpEngine

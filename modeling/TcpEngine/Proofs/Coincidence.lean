import TcpEngine.Proofs.Expiry
import TcpEngine.Proofs.Isolation
import TcpEngine.Proofs.Reordering
import TcpEngine.Proofs.Retransmission

/-!
Two sweeps at the same instant. The first leaves no segment whose timer has run out, since it either gives
such a segment up or winds its timer up again. So the second finds nothing to do, unless the first has given
up a segment in front of others that look acknowledged.
-/
namespace TcpEngine

theorem Instant.reached_later {now : Instant} {d : Duration} (millisecond : 1000000 ≤ d.nanos)
    (room : now.millis + step d ≤ last) : now.reached (now.later d) = false := by
  have whole : 1 ≤ d.wholeMillis := Nat.div_pos millisecond (by decide)
  have steps : 1 ≤ step d := by
    simp only [step, last]
    omega
  have ahead : now.millis < max first (min last (now.millis + step d)) := by
    simp only [last] at room ⊢
    omega
  exact decide_eq_false (Int.not_le.mpr ahead)

theorem Instant.reached_mono {sent now : Instant} {d : Duration} (early : now.reached (sent.later d) = false)
    (order : sent.millis ≤ now.millis) : now.reached (now.later d) = false := by
  have ahead : now.millis < max first (min last (sent.millis + step d)) :=
    Int.not_le.mp (of_decide_eq_false early)
  exact decide_eq_false (Int.not_le.mpr (by simp only [later, nearest]; omega))

theorem Duration.timesOrLongest_above {d : Duration} {least n : Nat} (above : least ≤ d.nanos)
    (small : least < limit) (some : 0 < n) : least ≤ (d.timesOrLongest n).nanos := by
  have more : d.nanos ≤ d.nanos * n := Nat.le_mul_of_pos_right _ some
  unfold timesOrLongest
  split
  · exact Nat.le_trans above more
  · exact Nat.le_sub_one_of_lt small

theorem Duration.timesOrLongest_one {d : Duration} (fits : d.nanos < limit) : d.timesOrLongest 1 = d := by
  rw [timesOrLongest, Nat.mul_one, if_pos fits]

namespace Unacked

/-- The end of the range of instants does not cut the timer of the segment short. -/
def Timely (c : Connection) (e : Unacked) : Prop :=
  e.lastSent.millis + Instant.step (c.roundTrip.backoff e.retries) ≤ Instant.last

instance (c : Connection) (e : Unacked) : Decidable (e.Timely c) := Int.decLe _ _

end Unacked

namespace Connection

variable {c c' d : Connection} {now : Instant} {config : Config} {queue : List Unacked} {σ : List Signal}
  {segments : List Segment} {r : RoundTrip} {e : Unacked}

theorem backoff_above (long : 1000000 ≤ r.timeout.nanos) (retries : Nat) :
    1000000 ≤ (r.backoff retries).nanos := by
  rw [RoundTrip.backoff_eq]
  have some : 0 < min (2 ^ retries) (2 ^ 32 - 1) := by
    have power : 0 < 2 ^ retries := Nat.two_pow_pos retries
    omega
  exact Duration.timesOrLongest_above long (by decide) some

theorem review_idle (fresh : ∀ e ∈ queue, e.lapsed c now = false ∧ e.due c now = false) :
    c.review now config queue = return ⟨queue, [], false⟩ := by
  induction queue with
  | nil => rfl
  | cons e rest ih =>
    obtain ⟨early, waits⟩ := fresh e List.mem_cons_self
    have early : ¬ now.reached (e.firstSent.later c.userTimeout) = true := by
      rw [Bool.not_eq_true]
      exact early
    have waits : ¬ now.reached (e.lastSent.later (c.roundTrip.backoff e.retries)) = true := by
      rw [Bool.not_eq_true]
      exact waits
    rw [review, if_neg early, if_neg waits, ih fun d member => fresh d (List.mem_cons_of_mem e member)]
    rfl

theorem covered_nil :
    c.covered = [] ↔ ∀ e, c.queue.head? = some e → e.coveredBy c.send.unacked = false := by
  unfold covered
  cases c.queue with
  | nil => simp
  | cons e rest => simp [List.takeWhile_cons]

theorem relieved_same (waits : c.covered = []) : c.relieved c.roundTrip = c := by
  have split : c.covered ++ c.uncovered = c.queue := List.takeWhile_append_dropWhile
  rw [waits, List.nil_append] at split
  rw [relieved, split]

theorem onTimer_idle (away : c.state ≠ .timeWait) (brief : ∀ e ∈ c.queue, e.text.length ≤ 65535)
    (waits : c.covered = []) (fresh : ∀ e ∈ c.queue, e.lapsed c now = false ∧ e.due c now = false) :
    (c.onTimer now config).Ends [] (c, []) := by
  have same := relieved_same waits
  have released : (c.releaseAcked now).Ends _ (c.relieved c.roundTrip) :=
    releaseAcked_measures brief (by rw [waits]; rfl)
  rw [waits, same] at released
  rw [onTimer_away away]
  refine Act.ends_bind.mpr ⟨[], c, [], released, ?_, rfl⟩
  rw [review_idle fresh]
  exact Act.ends_pure.mpr ⟨rfl, rfl⟩

theorem releaseAcked_relieves (brief : ∀ e ∈ c.queue, e.text.length ≤ 65535)
    (ends : (c.releaseAcked now).Ends σ d) : ∃ r, d = c.relieved r := by
  rw [releaseAcked_settles brief] at ends
  obtain ⟨_, r, _, _, same, _⟩ := Act.ends_bind.mp ends
  exact ⟨r, (Act.ends_pure.mp same).2⟩

theorem Ticks.shorter {again : List Unacked} (away : c.state ≠ .timeWait)
    (brief : ∀ e ∈ c.queue, e.text.length ≤ 65535) (ticks : Ticks c now config σ c' again) :
    c'.queue.length ≤ c.uncovered.length := by
  cases ticks with
  | rests waits | leaves waits => exact absurd waits away
  | looks _ released =>
    obtain ⟨r, rfl⟩ := releaseAcked_relieves brief released
    rw [ticked, List.length_map]
    exact List.length_filter_le _ _
  | lapses => exact Nat.zero_le _

theorem onTimer_fixed (away : c.state ≠ .timeWait) (brief : ∀ e ∈ c.queue, e.text.length ≤ 65535)
    (ends : (c.onTimer now config).Ends σ (c, segments)) : c.covered = [] := by
  have split : c.covered ++ c.uncovered = c.queue := List.takeWhile_append_dropWhile
  have shorter := (onTimer_ticks ends).1.shorter away brief
  have lengths := congrArg List.length split
  rw [List.length_append] at lengths
  exact List.eq_nil_of_length_eq_zero (by omega)

/-- What the timer has looked at neither lapses at the same instant nor is due again. -/
theorem ticked_fresh (fresh : ∀ e ∈ d.queue, e.lapsed d now = false)
    (long : 1000000 ≤ d.roundTrip.timeout.nanos)
    (timely : ∀ e ∈ (d.ticked now config).queue, e.Timely d) :
    ∀ e ∈ (d.ticked now config).queue, e.lapsed d now = false ∧ e.due d now = false := by
  intro e member
  have timely := timely e member
  obtain ⟨e, kept, rfl⟩ := List.mem_map.mp member
  have waits := fresh e (List.mem_filter.mp kept).1
  cases due : e.due d now with
  | false =>
    rw [Unacked.looked_early due]
    exact ⟨waits, due⟩
  | true =>
    rw [Unacked.looked_due due] at timely ⊢
    exact ⟨waits, Instant.reached_later (backoff_above long _) timely⟩

/-- The timer of a connection, run again at the same instant, leaves it alone, just if the first run has
    left nothing acknowledged in front of the queue. -/
theorem onTimer_again (brief : ∀ e ∈ c.queue, e.text.length ≤ 65535)
    (brief' : ∀ e ∈ c'.queue, e.text.length ≤ 65535) (ends : (c.onTimer now config).Ends σ (c', segments))
    (long : 1000000 ≤ c'.roundTrip.timeout.nanos) (timely : ∀ e ∈ c'.queue, e.Timely c') :
    (c'.onTimer now config).Ends [] (c', []) ↔ (c'.state ≠ .timeWait → c'.covered = []) := by
  refine ⟨fun again away => onTimer_fixed away brief' again, fun waits => ?_⟩
  obtain ⟨ticks, made⟩ := onTimer_ticks ends
  generalize c.repeats now config = again at ticks made
  cases ticks with
  | rests =>
    rw [made] at ends
    exact ends
  | leaves | lapses =>
    exact onTimer_idle State.noConfusion brief' rfl fun e member => absurd member List.not_mem_nil
  | looks away released fresh =>
    obtain ⟨r, rfl⟩ := releaseAcked_relieves brief released
    exact onTimer_idle away brief' (waits away) (ticked_fresh fresh long timely)

theorem Window.uncovered {origin : SeqNumber} {unacked next : Nat} (window : c.Window origin unacked next)
    (limited : c.Limited) : c.covered = [] := by
  refine covered_nil.mpr fun e head => ?_
  have first : e ∈ c.queue := List.mem_of_head? head
  obtain ⟨start, _, there⟩ := window.laid.mem first
  rw [← Bool.not_eq_true, window.start,
    there.covered (limited.brief e first) window.room (Nat.le_refl _) window.order]
  exact Nat.not_le.mpr there.waits

end Connection

namespace Table

variable {t : Table} {now : Instant}

theorem sweep_idle : (t.sweep now).Ends [] (t, []) ↔
    ∀ c ∈ t.connections, (c.onTimer now t.config).Ends [] (c, []) := by
  rw [sweep_apart]
  constructor
  · rintro ⟨each, signals, same, segments⟩ c member
    have kept : t.connections.map (fun c => (c.timed now t.config).1) = t.connections.map id := by
      rw [List.map_id]
      exact (congrArg Table.connections same).symm
    have silent := List.flatMap_eq_nil_iff.mp signals.symm c member
    have state : (c.timed now t.config).1 = c := List.map_inj_left.mp kept c member
    have unsent := List.flatMap_eq_nil_iff.mp segments.symm c member
    have ends := (each c member).ends (c, [])
    rwa [silent, show Act.result _ (c, []) = (c, []) from Prod.ext state unsent] at ends
  · intro each
    have timed : ∀ c ∈ t.connections, c.timed now t.config = (c, []) :=
      fun c member => ((each c member).eq_result (c, [])).symm
    refine ⟨fun c member => ⟨_, _, each c member⟩, ?_, ?_, ?_⟩
    · exact (List.flatMap_eq_nil_iff.mpr fun c member => (each c member).eq_signals.symm).symm
    · rw [List.map_congr_left fun c member => congrArg Prod.fst (timed c member), List.map_id']
    · exact (List.flatMap_eq_nil_iff.mpr fun c member => congrArg Prod.snd (timed c member)).symm

end Table

namespace Stack

variable {k k' : Stack} {now : Instant} {σ τ : List Signal} {config : Config} {generator : SeqGenerator}
  {history : List (Event × Instant)} {c : Connection}

theorem sweep_connections (ends : (k.sweep now).Ends σ k') :
    k'.table.connections = k.table.connections.map (fun c => (c.timed now k.table.config).1) ∧
      ∀ c ∈ k.table.connections, (c.onTimer now k.table.config).Succeeds := by
  obtain ⟨_, ⟨table, segments⟩, _, swept, handed, _⟩ := Act.ends_bind.mp ends
  obtain ⟨each, _, rfl, _⟩ := Table.sweep_apart.mp swept
  obtain ⟨_, emitted⟩ := Act.ends_lift.mp handed
  rw [emitAll_eq, except_map_ok] at emitted
  obtain ⟨_, _, rfl⟩ := emitted
  exact ⟨rfl, each⟩

theorem sweep_fixed (ends : (k.sweep now).Ends σ k) (there : c ∈ k.table.connections) :
    ∃ τ segments, (c.onTimer now k.table.config).Ends τ (c, segments) := by
  obtain ⟨connections, timed⟩ := sweep_connections ends
  have kept : k.table.connections.map (fun c => (c.timed now k.table.config).1)
      = k.table.connections.map id := by
    rw [List.map_id, ← connections]
  have same : (c.timed now k.table.config).1 = c := List.map_inj_left.mp kept c there
  have ends := ((timed c there).ends (c, [])).pair
  exact ⟨_, _, same ▸ ends⟩

theorem handle_sweep (ends : (k.sweep now).Ends σ k') (call : CallId) :
    (k.handle .sweep now call).Ends σ (k', .accepted) :=
  ends.silently rfl

theorem run_sweep {start : Stack} (ends : (start.run 0 history).Ends σ k) (swept : (k.sweep now).Ends τ k') :
    (start.run 0 (history ++ [(.sweep, now)])).Ends (σ ++ τ) k' := by
  refine run_append_ends ends (run_cons_ends.mpr ⟨τ, k', .accepted, [], handle_sweep swept _, ?_, ?_⟩)
  · exact Act.ends_pure.mpr ⟨rfl, rfl⟩
  · exact (List.append_nil τ).symm

/-- In every history that begins with an empty table, under settings whose timeouts are not less than a
    millisecond, a second sweep at the instant of the first does nothing at all, where the end of the
    range of instants cuts no timer short, just if the first leaves no connection, but in TIME-WAIT, with an
    acknowledged segment in front of its queue. That is so where less than half the circle was on its way all
    the time and no segment slipped. -/
theorem sweep_repeated (ends : ((Stack.empty config generator).run 0 history).Ends σ k)
    (initial : 1000000 ≤ config.initialTimeout.nanos) (lower : 1000000 ≤ config.minTimeout.nanos)
    (swept : (k.sweep now).Ends τ k')
    (timely : ∀ c ∈ k'.table.connections, ∀ e ∈ c.queue, e.Timely c) :
    ((k'.table.sweep now).Ends [] (k'.table, []) ∧ (k'.sweep now).Ends [] k' ↔
      ∀ c ∈ k'.table.connections, c.state ≠ .timeWait → c.covered = []) ∧
    ((Stack.empty config generator).Fair 0 history →
      (k'.table.sweep now).Ends [] (k'.table, []) ∧ (k'.sweep now).Ends [] k') := by
  have start := sound_empty config generator
  have sound := run_sound start ends
  have ends' := run_sweep ends swept
  have sound' := run_sound start ends'
  have settled : k.table.config = config := run_alike ends
  have settled' : k'.table.config = config := run_alike ends'
  obtain ⟨connections, timed⟩ := sweep_connections swept
  have origin : ∀ c' ∈ k'.table.connections, ∃ c ∈ k.table.connections, ∃ ρ segments,
      (c.onTimer now config).Ends ρ (c', segments) := by
    intro c' member
    rw [connections] at member
    obtain ⟨c, there, rfl⟩ := List.mem_map.mp member
    have ends := (timed c there).ends (c, [])
    rw [settled] at ends ⊢
    exact ⟨c, there, _, _, ends.pair⟩
  have whole : (k'.table.sweep now).Ends [] (k'.table, []) ↔
      ∀ c ∈ k'.table.connections, c.state ≠ .timeWait → c.covered = [] := by
    rw [Table.sweep_idle, settled']
    refine forall₂_congr fun c' member => ?_
    obtain ⟨c, there, ρ, segments, timed⟩ := origin c' member
    have traced := run_seen c'.here ends'
    have bounded := (traced c' (get?_of_there sound'.proper member)).2.above
    rw [settled'] at bounded
    exact Connection.onTimer_again (sound.limited c there).brief (sound'.limited c' member).brief timed
      (by omega) (timely c' member)
  have stack (idle : (k'.table.sweep now).Ends [] (k'.table, [])) : (k'.sweep now).Ends [] k' :=
    Act.ends_bind.mpr ⟨[], _, [], idle, Act.ends_lift.mpr ⟨rfl, rfl⟩, rfl⟩
  refine ⟨⟨fun idle => whole.mp idle.1, fun waits => ?_⟩, fun fair => ?_⟩
  · have idle := whole.mpr waits
    exact ⟨idle, stack idle⟩
  · have idle := whole.mpr fun c' member _ => by
      obtain ⟨c, there, ρ, segments, timed⟩ := origin c' member
      obtain ⟨origin, unacked, next, window⟩ := ordered_of_fair fair ends c there
      have slides := Connection.turns_slide window (Connection.onTimer_turns timed).1
      exact slides.window.uncovered (sound'.limited c' member)
    exact ⟨idle, stack idle⟩

theorem asking_swept_twice : ∃ σ τ k',
    ((Stack.empty { receiveWindow := 8 } (.ofKey 1 2)).run 0 asking).Ends σ asked ∧
    (asked.sweep ⟨10000⟩).Ends τ k' ∧ k'.outlet.outbox.datagrams.length = 2 ∧
    (k'.table.sweep ⟨10000⟩).Ends [] (k'.table, []) ∧ (k'.sweep ⟨10000⟩).Ends [] k' := by
  let start := Stack.empty { receiveWindow := 8 } (.ofKey 1 2)
  let k' := (asked.sweep ⟨10000⟩).result asked
  have ends : (start.run 0 asking).Ends (start.run 0 asking).signals asked :=
    Act.ends_result _ (by decide +kernel)
  have swept : (asked.sweep ⟨10000⟩).Ends _ k' := Act.ends_result asked (by decide +kernel)
  have timely : ∀ c ∈ k'.table.connections, ∀ e ∈ c.queue, e.Timely c := by decide +kernel
  have fair : start.Fair 0 asking := by decide +kernel
  obtain ⟨_, idle⟩ := sweep_repeated ends (by decide) (by decide) swept timely
  exact ⟨_, _, k', ends, swept, by decide +kernel, idle fair⟩

end Stack

/- Where more than half the circle waits. -/

namespace Connection

variable {c : Connection} {config : Config} {sent now : Instant} {queue : List Unacked} {e : Unacked}

theorem GivesUp.spends {d : Unacked} (gives : c.GivesUp config sent now) (early : d.SentAt sent) :
    d.lapsed c now = false ∧ d.givenUp c now config = true ∧ d.repeated c now config = false := by
  have spent : config.maxRetransmits ≤ d.retries + 1 := by
    rw [early.retries]
    exact gives.once
  have due : d.due c now = true := by
    rw [Unacked.due, early.last, early.retries]
    exact gives.late
  have givenUp : d.givenUp c now config = true := by simp [Unacked.givenUp, due, spent]
  rcases Unacked.due_cases config due with ⟨_, once⟩ | ⟨kept, _⟩
  · refine ⟨?_, givenUp, once⟩
    rw [Unacked.lapsed, early.first]
    exact gives.early
  · cases kept.symm.trans givenUp

theorem onTimer_leaves (away : c.state ≠ .timeWait) (known : c.foreign.isSome = true)
    (brief : ∀ e ∈ c.queue, e.text.length ≤ 65535) (held : c.covered = [])
    (parts : c.queue = queue ++ [e]) (gives : c.GivesUp config sent now) (early : ∀ d ∈ queue, d.SentAt sent)
    (late : e.SentAt now) (fresh : e.lapsed c now = false) (waits : e.due c now = false) :
    ∃ σ, (c.onTimer now config).Ends σ ({ c with queue := [e] }, []) := by
  have spends : ∀ d ∈ queue, _ := fun d member => gives.spends (early d member)
  obtain ⟨kept, once⟩ : e.givenUp c now config = false ∧ e.repeated c now config = false :=
    Unacked.repeated_early waits
  have counts : ∀ d ∈ c.queue, d.retries + 1 < UInt32.size := by
    intro d member
    rw [parts, List.mem_append, List.mem_singleton] at member
    rcases member with member | rfl
    · rw [(early d member).retries]
      decide
    · rw [late.retries]
      decide
  have unlapsed : c.queue.any (Unacked.lapsed c now) = false := by
    rw [parts, List.any_append, List.any_eq_false.mpr fun d member => by simp [(spends d member).1]]
    simp [fresh]
  have measured : c.roundTrip.measure now c.covered = .ok c.roundTrip := by
    rw [held]
    rfl
  obtain ⟨segments, ends, copies⟩ : ∃ segments,
      (c.onTimer now config).Ends _ (c.ticked now config, segments) ∧ _ :=
    onTimer_looks away brief counts measured (relieved_same held) (fun _ => known) unlapsed
  have left : c.ticked now config = { c with queue := [e] } := by
    have gone : (queue.filter fun d => !d.givenUp c now config) = [] :=
      List.filter_eq_nil_iff.mpr fun d member => by simp [(spends d member).2.1]
    simp [ticked, parts, gone, kept, Unacked.looked_early waits]
  have silent : c.queue.filter (Unacked.repeated c now config) = [] := by
    rw [parts, List.filter_append, List.filter_eq_nil_iff.mpr fun d member => by simp [(spends d member).2.2]]
    simp [once]
  rw [silent, List.map_nil, List.map_eq_nil_iff] at copies
  rw [left, copies] at ends
  exact ⟨_, ends⟩

theorem flooded_leaves {text : Octets} (first n : Nat) (call : CallId) (idle : c.queue = []) (some : 0 < n)
    (away : c.state ≠ .timeWait) (known : c.foreign.isSome = true) (brief : text.length ≤ 65535)
    (held : (c.send.next.advance text.length).after c.send.unacked = true) (gives : c.GivesUp config sent now)
    (fresh : now.reached (now.later c.userTimeout) = false)
    (waits : now.reached (now.later (c.roundTrip.backoff 0)) = false) :
    ∃ σ c', (((c.flooded text sent first n).sent text now call).onTimer now config).Ends σ (c', []) ∧
      c'.queue = [⟨c.send.next.advance (n * text.length), .ofList [.ack, .psh], text, now, now, 0, call⟩] ∧
      (c'.state, c'.roundTrip, c'.send.unacked) = (c.state, c.roundTrip, c.send.unacked) := by
  have early : ∀ e ∈ (c.flooded text sent first n).queue, e.SentAt sent := flooded_sentAt idle
  have texts : ∀ e ∈ ((c.flooded text sent first n).sent text now call).queue, e.text = text := by
    intro e member
    simp only [Connection.sent, flooded, idle, List.nil_append, List.mem_append, List.mem_map,
      List.mem_singleton] at member
    rcases member with ⟨_, _, rfl⟩ | rfl <;> rfl
  have uncovered : ((c.flooded text sent first n).sent text now call).covered = [] := by
    refine covered_nil.mpr fun e head => ?_
    have filled : (c.flooded text sent first n).queue ≠ [] := by
      simp [flooded, Nat.pos_iff_ne_zero.mp some]
    have front : (c.flooded text sent first n).queue.head? = Option.some e := by
      rwa [Connection.sent, List.head?_append_of_ne_nil _ filled] at head
    obtain ⟨same, limit⟩ := flooded_head idle front
    rw [Unacked.coveredBy, Unacked.stop_limit (same ▸ brief)]
    rw [← Bool.not_eq_true, SeqNumber.atOrBefore_iff, limit, Connection.sent, flooded, held]
    decide
  have brief : ∀ e ∈ ((c.flooded text sent first n).sent text now call).queue, e.text.length ≤ 65535 :=
    fun e member => texts e member ▸ brief
  obtain ⟨σ, timed⟩ := onTimer_leaves (c := (c.flooded text sent first n).sent text now call) away known brief
    uncovered rfl ⟨gives.early, gives.late, gives.once⟩ early ⟨rfl, rfl, rfl⟩ fresh waits
  exact ⟨σ, _, timed, rfl, rfl⟩

end Connection

namespace Stack

variable {k : Stack} {here : Endpoint} {c : Connection} {text : Octets} {sent now : Instant} {config : Config}

theorem Streams.flood_late (streams : k.Streams here c) (filled : text ≠ [])
    (fits : text.length ≤ c.send.window.toNat) (sent now : Instant) (n place : Nat) :
    ∃ k', (k.run place (List.replicate n (.send here text, sent) ++ [(.send here text, now)])).Ends [] k' ∧
      k'.Streams here ((c.flooded text sent place n).sent text now (place + n)) := by
  obtain ⟨k₁, flood, streams₁⟩ := streams.run filled fits sent n place
  obtain ⟨k₂, handled, streams₂⟩ := streams₁.handle_send filled fits now (place + n)
  have last : (k₁.run (place + n) [(.send here text, now)]).Ends [] k₂ :=
    run_cons_ends.mpr ⟨[], k₂, _, [], handled, Act.ends_pure.mpr ⟨rfl, rfl⟩, rfl⟩
  refine ⟨k₂, run_append_ends flood ?_, streams₂⟩
  rwa [List.length_replicate]

/-- Just half the circle is sent, the last part of it when the timers of the others have run out. -/
def brimming : List (Event × Instant) :=
  widened ++ (List.replicate 65535 (.send ⟨⟨10, 0, 0, 1⟩, 49152⟩ filler, .start) ++
    [(.send ⟨⟨10, 0, 0, 1⟩, 49152⟩ filler, ⟨12000⟩)])

/-- The first sweep gives up the others. Then the last looks acknowledged, and the second sweep takes it off
    the queue. -/
theorem brimming_swept_twice : ∃ σ k τ k',
    ((Stack.empty { maxRetransmits := 1, receiveWindow := 8 } (.ofKey 1 2)).run 0 brimming).Ends σ k ∧
    (k.sweep ⟨12000⟩).Ends τ k' ∧ (∀ c ∈ k'.table.connections, ∀ e ∈ c.queue, e.Timely c) ∧
    ¬ (k'.sweep ⟨12000⟩).Ends [] k' := by
  obtain ⟨σ, k, c, ends, streams, window, _, idle, gives, _, _, _, _, marks⟩ := widened_streams
  obtain ⟨unacked, next, _, _⟩ : _ ∧ _ ∧ _ ∧ _ := by simpa only [Prod.mk.injEq] using marks
  have length : filler.length = 32768 := List.length_replicate
  have filled : filler ≠ [] := List.ne_nil_of_length_pos (by rw [length]; decide)
  have fits : filler.length ≤ c.send.window.toNat := by
    rw [length, window]
    decide
  obtain ⟨k', flood, streams'⟩ := streams.flood_late filled fits .start ⟨12000⟩ 65535 (0 + widened.length)
  have ends' := run_append_ends ends flood
  have settings : k'.table.config = { maxRetransmits := 1, receiveWindow := 8 } := run_alike ends'
  have bounded := (run_seen ⟨⟨10, 0, 0, 1⟩, 49152⟩ ends c streams.found).2
  rw [run_alike ends] at bounded
  obtain ⟨least, most⟩ : 1000000000 ≤ c.roundTrip.timeout.nanos ∧ c.roundTrip.timeout.nanos ≤ 60000000000 :=
    ⟨bounded.above, bounded.below⟩
  have wait : Instant.step (c.roundTrip.backoff 0) ≤ 60000 := by
    have once : c.roundTrip.backoff 0 = c.roundTrip.timeout := by
      rw [RoundTrip.backoff_eq]
      exact Duration.timesOrLongest_one (Nat.lt_of_le_of_lt most (by decide))
    rw [once, Instant.step, Duration.wholeMillis]
    omega
  have fresh := Instant.reached_mono gives.early (by decide)
  have waits : Instant.reached ⟨12000⟩ (Instant.later ⟨12000⟩ (c.roundTrip.backoff 0)) = false :=
    Instant.reached_later (Connection.backoff_above (by omega) 0) (by
      simp only [Instant.last]
      omega)
  obtain ⟨τ, c', timed, queue, same⟩ := Connection.flooded_leaves (0 + widened.length) 65535
    (0 + widened.length + 65535) idle (by decide)
    (by rw [streams.state]; exact State.noConfusion) streams.peer (by rw [length]; decide)
    (by rw [next, unacked, length]; decide) gives fresh waits
  rw [← settings] at timed
  obtain ⟨state, roundTrip, unacked'⟩ : _ ∧ _ ∧ _ := by simpa only [Prod.mk.injEq] using same
  have swept := streams'.sweep timed
  refine ⟨_, k', τ, _, ends', swept, ?_, fun again => ?_⟩
  · intro c₂ there e member
    rw [List.mem_singleton] at there
    rw [there, queue, List.mem_singleton] at member
    rw [there, member, Unacked.Timely, roundTrip]
    simp only [Instant.last]
    omega
  · obtain ⟨ρ, segments, ends⟩ := sweep_fixed again List.mem_cons_self
    have away : c'.state ≠ .timeWait := by
      rw [state, streams.state]
      exact State.noConfusion
    have brief : ∀ e ∈ c'.queue, e.text.length ≤ 65535 := by
      intro e member
      rw [queue, List.mem_singleton] at member
      rw [member, length]
      decide
    have held := Connection.covered_nil.mp (Connection.onTimer_fixed away brief ends)
    rw [queue] at held
    have held := held _ rfl
    rw [Unacked.coveredBy, Unacked.stop_limit (by rw [length]; decide), unacked', unacked, Unacked.limit,
      Unacked.size_sent, next, length] at held
    revert held
    decide

end Stack
end TcpEngine

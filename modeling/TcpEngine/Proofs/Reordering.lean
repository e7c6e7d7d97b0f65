import TcpEngine.Proofs.Connection.Overtaking
import TcpEngine.Proofs.Faultless
import TcpEngine.Proofs.FlowControl
import TcpEngine.Proofs.SendOrder
import TcpEngine.Proofs.Stack.Utterance

/-!
Acknowledgments that arrive in another order than they were sent in. The order makes no difference to a
connection, as long as the segments that wait for acknowledgment end where sequence numbers can still be
compared. Where half the circle was sent without an acknowledgment, it makes one.
-/
namespace TcpEngine

variable {config : Config} {now : Instant} {call : CallId} {event : Event} {c c' : Connection}
  {σ : List Signal} {ds : List Datagram} {iss : SeqNumber}

/- Our FIN is the last that is sent, whatever happens. -/

namespace Connection

/-- Our FIN is known from the moment it is sent, and SND.NXT stays behind it. -/
structure Parting (c : Connection) : Prop where
  sent : c.send.fin.isSome = c.state.finSent
  last : c.FinLast

theorem parting_early (unsent : c.state.finSent = false) (none : c.send.fin = none) : Parting c where
  sent := by rw [none, unsent, Option.isSome_none]
  last := by
    intro fin raised
    cases none.symm.trans raised

theorem parting_free (coherent : c.Coherent) (free : c.Free) : Parting c := by
  refine parting_early ?_ (coherent.silent (dead_of_free free)).1
  rcases free with state | state <;> rw [state] <;> rfl

theorem Parting.quiet (h : Parting c) (busy : ¬ c.Free) (coherent' : c'.Coherent) (quiet : Quiet c c') :
    Parting c' := by
  by_cases free' : c'.Free
  · exact parting_free coherent' free'
  · refine ⟨?_, h.last.quiet coherent' quiet⟩
    rcases quiet.goes with gone | ⟨speaks, fin, _⟩
    · exact absurd (Or.inl gone) free'
    · rw [fin, h.sent, finSent_of_busy busy, finSent_of_busy free', speaks]

theorem parting_called (coherent : c.Coherent) (h : Parting c)
    (called : Called iss now call event c σ ds c') : Parting c' := by
  have coherent' := coherent_called coherent called
  cases called with
  | told | idle => exact h
  | timed => exact ⟨h.sent, h.last⟩
  | listen | fail => exact parting_free coherent' (by first | exact Or.inr rfl | assumption)
  | ask => exact parting_early rfl rfl
  | send live =>
    have unsent : c.state.finSent = false := by
      rcases live with state | state <;> rw [state] <;> rfl
    have none : c.send.fin = none := by
      rw [← Option.not_isSome_iff_eq_none, h.sent, unsent]
      exact Bool.false_ne_true
    exact parting_early unsent none
  | receive _ _ ends =>
    rcases deliver_ends ends with ⟨_, rfl, _⟩ | ⟨_, _, _, _, rfl⟩ <;> exact ⟨h.sent, h.last⟩
  | quit _ ends | abort _ ends =>
    obtain ⟨_, rfl⟩ := terminate_ends.mp ends
    exact parting_early rfl rfl
  | finish states =>
    constructor
    · rcases states with ⟨_, rfl⟩ | ⟨_, rfl⟩ <;> rfl
    · rintro fin raised
      obtain rfl := Option.some.inj raised
      rfl

end Connection

theorem befalls_parting (coherent : c.Coherent) (h : c.Parting)
    (befalls : Befalls config now call event c σ ds c') : c'.Parting := by
  have coherent' := befalls_coherent coherent befalls
  cases befalls with
  | spared => exact h
  | called _ _ called => exact Connection.parting_called coherent h called
  | arrived _ _ _ arrives =>
    by_cases free : c.Free
    · rcases (Connection.arrives_free free arrives).2 with same | ⟨_, handled, state⟩
      · rw [same]
        exact h
      · have quiet := Connection.quiet_moves (Connection.takenUp_away _ _ _ _) handled.moves
        refine Connection.parting_early (by rw [state]; rfl) ?_
        rcases quiet.goes with gone | ⟨_, fin, _⟩
        · cases state.symm.trans gone
        · exact fin.trans (coherent.silent (Connection.dead_of_free free)).1
    · have moves := (Connection.arrives_handled coherent.fresh arrives).1
      exact h.quiet free coherent' (Connection.quiet_moves (fun listen => free (Or.inr listen)) moves)
  | timed ends =>
    have turns := (Connection.onTimer_turns ends).1
    by_cases free : c.Free
    · exact Connection.parting_free coherent' (turns.keeps (P := Connection.Free) Connection.turn_free free)
    · exact h.quiet free coherent' (Connection.quiet_turns turns)

/- Where the segments that wait end. -/

namespace Connection

open SeqNumber

variable {s s' : Segment} {ack ack' origin : SeqNumber} {unacked next : Nat}

def marks (c : Connection) : List SeqNumber := [c.send.unacked, c.send.next, c.send.windowAck]

theorem covers_of_arc (arc : Arc ([ack, ack'] ++ c.marks ++ c.queue.map Unacked.limit))
    (onward : ack.atOrBefore ack' = true) :
    ∀ e ∈ c.queue, e.limit.after ack = false → e.limit.after ack' = false := by
  obtain ⟨o, near⟩ := arc
  intro e member covered
  have number := near ack (by simp)
  have number' := near ack' (by simp)
  have limit := near e.limit (List.mem_append_right _ (List.mem_map_of_mem member))
  rw [atOrBefore_arc number number'] at onward
  rw [← Bool.not_eq_true, after_arc limit number] at covered
  rw [← Bool.not_eq_true, after_arc limit number']
  omega

/-- While less than half the circle waits, all that waits ends between SND.UNA and SND.NXT. -/
theorem Window.arc (window : c.Window origin unacked next)
    (arc : Arc ([ack, ack'] ++ c.marks)) : Arc ([ack, ack'] ++ c.marks ++ c.queue.map Unacked.limit) := by
  obtain ⟨o, near⟩ := arc
  refine ⟨o, fun n member => ?_⟩
  rcases List.mem_append.mp member with mark | limit
  · exact near n mark
  · obtain ⟨e, waits, rfl⟩ := List.mem_map.mp limit
    obtain ⟨start, -, there⟩ := window.laid.mem waits
    have first := near c.send.unacked (by simp [marks])
    have last := near c.send.next (by simp [marks])
    have behind := there.waits
    have within := there.sent
    have room := window.room
    have place : e.limit = origin.advance (start + e.size) := by
      rw [Unacked.limit, there.seq, advance_advance]
    have stop := ahead_from c.send.next c.send.unacked o
    have limit := ahead_from e.limit c.send.unacked o
    have bound := ahead_lt e.limit o
    simp only [halfCircle] at room first last ⊢
    rw [window.ahead] at stop
    rw [place, window.start, ahead_advance_of_le (by omega) (by omega), ← window.start, ← place] at limit
    omega

end Connection

namespace Stack

variable {generator : SeqGenerator} {history : List (Event × Instant)} {k : Stack} {here : Endpoint}
  {s s' : Segment} {ack ack' : SeqNumber}

theorem run_parting (ends : ((Stack.empty config generator).run 0 history).Ends σ k) :
    ∀ c ∈ k.table.connections, c.Parting :=
  run_each (fun _ => Connection.parting_early rfl rfl) befalls_parting (sound_empty config generator) rfl
    (fun _ member => absurd member List.not_mem_nil) ends

theorem fair_arc (ends : ((Stack.empty config generator).run 0 history).Ends σ k)
    (fair : (Stack.empty config generator).Fair 0 history) (there : c ∈ k.table.connections)
    (arc : SeqNumber.Arc ([ack, ack'] ++ c.marks)) :
    SeqNumber.Arc ([ack, ack'] ++ c.marks ++ c.queue.map Unacked.limit) := by
  obtain ⟨origin, unacked, next, window⟩ := ordered_of_fair fair ends c there
  exact window.arc arc

/-- Two acknowledgments without text or flags do the same to a connection in either order, and neither is
    answered: the later one decides, also on the window. The ends of the segments that wait have to be
    comparable with the acknowledgment numbers. They always are where less than half the circle was on
    its way all the time and no segment slipped. -/
theorem reordered_acknowledgments {config : Config}
    (ends : ((Stack.empty config generator).run 0 history).Ends σ k)
    (found : k.table.get? here = some c)
    (state : c.state ∈ [.established, .closeWait, .finWait1, .finWait2])
    (plain : s.Reports ack) (plain' : s'.Reports ack')
    (taken : c.acceptable s.header = .ok true) (taken' : c.acceptable s'.header = .ok true)
    (successive : c.send.Successive s.header s'.header ack ack')
    (waits : (Stack.empty config generator).Fair 0 history ∨
      SeqNumber.Arc ([ack, ack'] ++ c.marks ++ c.queue.map Unacked.limit))
    (iss : SeqNumber) (now : Instant) :
    c.arrivesBoth s s' iss now = c.arrivesBoth s' s iss now ∧
    (∀ τ a, (c.arrivesBoth s s' iss now).Ends τ a →
      a.answers = [] ∧
      let send := a.connection.send
      (send.window, send.windowSeq, send.windowAck) = if c.send.Counts s'.header ack'
        then (s'.header.window, s'.header.seq, ack')
        else (c.send.window, c.send.windowSeq, c.send.windowAck)) ∧
    (config.Sane → (c.arrivesBoth s s' iss now).Succeeds) := by
  have there := (Table.get?_some found).1
  have sound := run_sound (sound_empty config generator) ends
  have limited := sound.limited c there
  have heeds : c.state.heeds = true := by
    simp only [List.mem_cons, List.not_mem_nil, or_false] at state
    rcases state with state | state | state | state <;> rw [state] <;> rfl
  have arc : SeqNumber.Arc ([ack, ack'] ++ c.marks ++ c.queue.map Unacked.limit) :=
    waits.elim (fun fair => fair_arc ends fair there successive.acks) id
  have covers := Connection.covers_of_arc arc successive.onward
  have last := (run_parting ends c there).last
  have sent' := SeqNumber.atOrBefore_iff.mp successive.sent
  rw [Connection.arrivesBoth_in_order heeds last plain plain' taken taken' successive limited.brief covers,
    Connection.arrivesBoth_overtaken heeds last plain plain' taken taken' successive]
  refine ⟨rfl, ?_⟩
  rw [Connection.arrives_reports plain' heeds taken' sent']
  constructor
  · intro τ a done
    obtain ⟨_, left, _, _, told, _⟩ := Act.ends_bind.mp done
    obtain ⟨-, rfl⟩ := Act.ends_pure.mp told
    exact ⟨rfl, successive.heed_window⟩
  · intro sane
    have able := (run_going (going_empty sane generator) ends).able.each c there
    refine Act.succeeds_bind ?_ fun _ _ _ => Act.succeeds_pure _
    unfold Connection.drain
    split
    · exact Connection.release_succeeds limited.brief able.measurable
    · exact Act.succeeds_pure _

def acknowledging (number : SeqNumber) (n : Nat) (window : UInt16) : Segment where
  header := ⟨80, 49152, .ofList [.ack], ⟨1001⟩, some (number.advance n), window, 0, 0⟩
  text := []
  src := ⟨10, 0, 0, 2⟩
  dst := ⟨10, 0, 0, 1⟩

theorem acknowledging_reports (number : SeqNumber) (n : Nat) (window : UInt16) :
    (acknowledging number n window).Reports (number.advance n) := by
  have plain : ∀ flag ∈ [Flag.syn, .fin, .rst, .urg], (Flags.ofList [.ack]).has flag = false := by decide
  exact ⟨rfl, ⟨rfl, plain _ (by decide), plain _ (by decide)⟩, plain _ (by decide), plain _ (by decide)⟩

def spoken : List (Event × Instant) :=
  asking ++ [(agreement, .start), (.send ⟨⟨10, 0, 0, 1⟩, 49152⟩ [104, 105, 33], .start)]

theorem spoken_reordered : ∃ σ k c τ a,
    ((Stack.empty { receiveWindow := 8 } (.ofKey 1 2)).run 0 spoken).Ends σ k ∧
      k.table.get? ⟨⟨10, 0, 0, 1⟩, 49152⟩ = some c ∧
      (c.arrivesBoth (acknowledging ⟨171842749⟩ 1 400) (acknowledging ⟨171842749⟩ 3 300) ⟨0⟩ .start).Ends τ
        a ∧
      (c.arrivesBoth (acknowledging ⟨171842749⟩ 3 300) (acknowledging ⟨171842749⟩ 1 400) ⟨0⟩ .start).Ends τ
        a ∧
      a.answers = [] ∧ a.connection.send.window = 300 := by
  let start : Stack := .empty { receiveWindow := 8 } (.ofKey 1 2)
  let here : Endpoint := ⟨⟨10, 0, 0, 1⟩, 49152⟩
  let k := (start.run 0 spoken).result start
  let c := (k.table.get? here).getD (.bound here {})
  have ends : (start.run 0 spoken).Ends (start.run 0 spoken).signals k :=
    Act.ends_result _ (by decide +kernel)
  have found : k.table.get? here = some c := by decide +kernel
  have fair : start.Fair 0 spoken := by decide +kernel
  have successive : c.send.Successive (acknowledging ⟨171842749⟩ 1 400).header
      (acknowledging ⟨171842749⟩ 3 300).header (SeqNumber.advance ⟨171842749⟩ 1)
      (SeqNumber.advance ⟨171842749⟩ 3) := by
    refine ⟨⟨⟨1000⟩, by decide +kernel⟩, ⟨⟨171842749⟩, by decide +kernel⟩, ?_, ?_, ?_, ?_⟩ <;> decide +kernel
  have sane : Config.Sane { receiveWindow := 8 } := ⟨by decide, by decide, by decide, by decide⟩
  obtain ⟨same, left, succeeds⟩ := reordered_acknowledgments ends found (by decide +kernel)
    (acknowledging_reports _ _ _) (acknowledging_reports _ _ _) (by decide +kernel)
    (by decide +kernel) successive (.inl fair) ⟨0⟩ .start
  obtain ⟨τ, a, both⟩ := succeeds sane
  obtain ⟨silent, window⟩ := left τ a both
  have counts : c.send.Counts (acknowledging ⟨171842749⟩ 3 300).header (SeqNumber.advance ⟨171842749⟩ 3) := by
    decide +kernel
  rw [if_pos counts] at window
  exact ⟨_, k, c, τ, a, ends, found, both, same ▸ both, silent, congrArg Prod.fst window⟩

end Stack

/- Where more than half the circle waits. -/

namespace Connection

variable {e : Unacked} {rest : List Unacked} {ack : SeqNumber}

theorem drain_tells (queue : c.queue = e :: rest) (forward : c.send.unacked.before ack = true)
    (brief : e.text.length ≤ 65535) (covered : e.limit.after ack = false)
    (sampled : ∃ r, c.roundTrip.sample (now.since e.lastSent) = .ok r) (called : e.call = some call) :
    ⟨call, .done⟩ ∈ (c.drain ack now).signals := by
  obtain ⟨r, sampled⟩ := sampled
  rw [drain, if_pos forward, queue, release, Unacked.stop_limit brief, Act.lift_bind,
    if_neg (by rw [covered]; exact Bool.false_ne_true), sampled, Act.lift_bind, called]
  exact Act.signals_bind _ _ List.mem_cons_self

theorem drain_waits (queue : c.queue = e :: rest) (brief : e.text.length ≤ 65535)
    (waits : e.limit.after ack = true) : c.drain ack now = return (c.queue, c.roundTrip) := by
  unfold drain
  split
  next => rw [queue, release, Unacked.stop_limit brief, Act.lift_bind, if_pos waits]
  next => rfl

/-- If the first segment that waits is covered by the earlier one of two acknowledgments and not by the
    later one, their order matters. -/
theorem arrivesBoth_diverges {s s' : Segment} {ack' : SeqNumber} (heeds : c.state.heeds = true)
    (last : c.FinLast) (plain : s.Reports ack) (plain' : s'.Reports ack')
    (taken : c.acceptable s.header = .ok true) (taken' : c.acceptable s'.header = .ok true)
    (successive : c.send.Successive s.header s'.header ack ack') (queue : c.queue = e :: rest)
    (forward : c.send.unacked.before ack = true) (brief : e.text.length ≤ 65535)
    (covered : e.limit.after ack = false) (waits : e.limit.after ack' = true)
    (sampled : ∃ r, c.roundTrip.sample (now.since e.lastSent) = .ok r) (called : e.call = some call) :
    c.arrivesBoth s s' iss now ≠ c.arrivesBoth s' s iss now := by
  intro same
  have told : ⟨call, .done⟩ ∈ (c.arrivesBoth s s' iss now).signals := by
    have sent := SeqNumber.atOrBefore_iff.mp successive.sent_first
    rw [arrivesBoth, arrives_reports plain heeds taken sent]
    exact Act.signals_bind _ _ (Act.signals_bind _ _ (drain_tells queue forward brief covered sampled called))
  rw [same, arrivesBoth_overtaken heeds last plain plain' taken taken' successive,
    arrives_reports plain' heeds taken' (SeqNumber.atOrBefore_iff.mp successive.sent),
    drain_waits queue brief waits, pure_bind] at told
  exact List.not_mem_nil told

end Connection

structure Outlet.Clear (outlet : Outlet) : Prop where
  verdicts : outlet.verdicts = []
  failures : outlet.outbox.failures = 0

theorem Outlet.transmitWithin_clear {outlet : Outlet} (clear : outlet.Clear) (d : Datagram) (more : Nat) :
    ∃ outlet', outlet.transmitWithin d more = (outlet', .ok ()) ∧ outlet'.Clear := by
  obtain ⟨verdicts, datagrams, failures, attempts⟩ := outlet
  obtain rfl : verdicts = [] := clear.verdicts
  obtain rfl : failures = 0 := clear.failures
  refine ⟨⟨[], datagrams ++ [d], 0, attempts + 1⟩, ?_, rfl, rfl⟩
  cases more <;> rfl

structure Unacked.SentAt (e : Unacked) (sent : Instant) : Prop where
  first : e.firstSent = sent
  last : e.lastSent = sent
  retries : e.retries = 0

namespace Connection

structure GivesUp (c : Connection) (config : Config) (sent now : Instant) : Prop where
  early : now.reached (sent.later c.userTimeout) = false
  late : now.reached (sent.later (c.roundTrip.backoff 0)) = true
  once : config.maxRetransmits ≤ 1

theorem review_givesUp {config : Config} {sent : Instant} (gives : c.GivesUp config sent now)
    {queue : List Unacked} (fresh : ∀ e ∈ queue, e.SentAt sent) :
    ∃ σ, (c.review now config queue).Ends σ ⟨[], [], false⟩ := by
  induction queue with
  | nil => exact ⟨[], Act.ends_pure.mpr ⟨rfl, rfl⟩⟩
  | cons e rest ih =>
    obtain ⟨first, last, retries⟩ := fresh e List.mem_cons_self
    obtain ⟨σ, later⟩ := ih fun d member => fresh d (List.mem_cons_of_mem e member)
    have early : ¬ now.reached (e.firstSent.later c.userTimeout) = true := by
      rw [first, gives.early]
      exact Bool.false_ne_true
    have late : now.reached (e.lastSent.later (c.roundTrip.backoff e.retries)) = true := by
      rw [last, retries, gives.late]
    have few : e.retries + 1 < UInt32.size := by
      rw [retries]
      decide
    have spent : config.maxRetransmits ≤ e.retries + 1 := by
      rw [retries]
      exact gives.once
    rw [review, if_neg early, if_pos late, if_pos few, pure_bind]
    dsimp only
    rw [if_pos spent]
    exact ⟨_, Act.ends_bind.mpr ⟨_, (), σ, Act.ends_signal?.mpr rfl, later, rfl⟩⟩

theorem onTimer_givesUp {config : Config} {sent : Instant} (gives : c.GivesUp config sent now)
    (running : c.state ≠ .timeWait) (fresh : ∀ e ∈ c.queue, e.SentAt sent)
    (held : ∀ e, c.queue.head? = some e → e.text.length ≤ 65535 ∧ e.limit.after c.send.unacked = true) :
    ∃ σ, (c.onTimer now config).Ends σ ({ c with queue := [] }, []) := by
  have kept : release c.send.unacked now c.queue c.roundTrip = return (c.queue, c.roundTrip) := by
    cases queue : c.queue with
    | nil => rfl
    | cons e rest =>
      obtain ⟨brief, waits⟩ := held e (by rw [queue]; rfl)
      rw [release, Unacked.stop_limit brief, Act.lift_bind, if_pos waits]
  obtain ⟨σ, review⟩ := review_givesUp gives fresh
  refine ⟨σ, ?_⟩
  rw [onTimer, if_neg running, releaseAcked, kept, pure_bind, pure_bind]
  exact review.silently rfl

def flooded (c : Connection) (text : Octets) (now : Instant) (first : CallId) (n : Nat) : Connection :=
  { c with
    send := { c.send with next := c.send.next.advance (n * text.length) }
    queue := c.queue ++ (List.range n).map fun i =>
      ⟨c.send.next.advance (i * text.length), .ofList [.ack, .psh], text, now, now, 0, some (first + i)⟩ }

theorem flooded_zero (c : Connection) (text : Octets) (now : Instant) (first : CallId) :
    c.flooded text now first 0 = c := by
  rw [flooded, Nat.zero_mul, SeqNumber.advance_zero, List.range_zero, List.map_nil, List.append_nil]

theorem flooded_sent (c : Connection) (text : Octets) (now : Instant) (first : CallId) (n : Nat) :
    (c.sent text now first).flooded text now (first + 1) n = c.flooded text now first (n + 1) := by
  have next (i : Nat) : (c.send.next.advance text.length).advance (i * text.length)
      = c.send.next.advance ((i + 1) * text.length) := by
    rw [SeqNumber.advance_advance, Nat.succ_mul, Nat.add_comm]
  rw [flooded, flooded, sent, List.range_succ_eq_map, List.map_cons, List.map_map]
  simp only [next, Function.comp_def, Nat.zero_mul, SeqNumber.advance_zero, Nat.add_zero, Nat.succ_eq_add_one,
    Nat.add_assoc, Nat.add_comm 1, List.append_assoc, List.singleton_append]

section
variable {text : Octets} {first : CallId} {n : Nat} {sent : Instant}

theorem GivesUp.flooded {config : Config} (gives : c.GivesUp config sent now) :
    (c.flooded text sent first n).GivesUp config sent now :=
  ⟨gives.early, gives.late, gives.once⟩

theorem flooded_sentAt (idle : c.queue = []) : ∀ e ∈ (c.flooded text sent first n).queue, e.SentAt sent := by
  intro e member
  rw [flooded, idle, List.nil_append] at member
  obtain ⟨i, -, rfl⟩ := List.mem_map.mp member
  exact ⟨rfl, rfl, rfl⟩

theorem flooded_head (idle : c.queue = []) {e : Unacked}
    (head : (c.flooded text sent first n).queue.head? = some e) :
    e.text = text ∧ e.limit = c.send.next.advance text.length := by
  cases n with
  | zero =>
    rw [flooded_zero, idle] at head
    cases head
  | succ n =>
    rw [← flooded_sent, flooded, Connection.sent, idle] at head
    obtain rfl := Option.some.inj head
    exact ⟨rfl, congrArg c.send.next.advance (Unacked.size_sent _ _ _ _)⟩

end

end Connection

namespace Stack

variable {k : Stack} {here : Endpoint} {text : Octets} {place : Nat}

structure Streams (k : Stack) (here : Endpoint) (c : Connection) : Prop where
  alone : k.table.connections = [c]
  place : c.here = here
  state : c.state = .established
  peer : c.foreign.isSome = true
  clear : k.outlet.Clear

theorem Streams.found (streams : k.Streams here c) : k.table.get? here = some c := by
  rw [Table.get?, streams.alone]
  exact List.find?_cons_of_pos (by simpa using streams.place)

theorem Streams.put (streams : k.Streams here c) {outlet : Outlet} (clear : outlet.Clear)
    (place : c'.here = c.here) (state : c'.state = c.state) (foreign : c'.foreign = c.foreign) :
    (Stack.put { k with outlet } c').Streams here c' := by
  refine ⟨?_, place.trans streams.place, state.trans streams.state, foreign ▸ streams.peer, clear⟩
  change (k.table.connections.map fun old => if old.here = c'.here then c' else old) = [c']
  rw [streams.alone, List.map_singleton, if_pos place.symm]

theorem Streams.send (streams : k.Streams here c) (filled : text ≠ [])
    (fits : text.length ≤ c.send.window.toNat) (now : Instant) (call : CallId) :
    ∃ k', (k.send here text now call).Ends [] k' ∧ k'.Streams here (c.sent text now call) := by
  obtain ⟨peer, known⟩ := Option.isSome_iff_exists.mp streams.peer
  obtain ⟨s, given⟩ : ∃ s, c.segment (.ofList [.ack, .psh]) c.send.next text = some s := by
    rw [Connection.segment, known]
    exact ⟨_, rfl⟩
  have sends : k.Sends here c := ⟨streams.found, Or.inl streams.state⟩
  have short := Nat.le_trans fits (Nat.le_of_lt_succ c.send.window.toNat_lt)
  obtain ⟨d, posted⟩ := datagram_succeeds (Connection.segment_sized short given)
  obtain ⟨outlet, taken, clear⟩ := Outlet.transmitWithin_clear streams.clear d
    (k.table.config.transmitAttempts - 1)
  have transmitted : k.transmit s = .ok ({ k with outlet }, .ok ()) := by
    rw [transmit, posted]
    change Except.ok _ = _
    rw [taken]
  have entry : s.header.seq = c.send.next ∧ s.header.flags = .ofList [.ack, .psh] ∧ s.text = text := by
    obtain ⟨foreign, _, rfl⟩ := Option.map_eq_some_iff.mp given
    exact ⟨rfl, rfl, rfl⟩
  have near : text.length < SeqNumber.halfCircle := Nat.lt_of_le_of_lt short (by decide)
  refine ⟨Stack.put { k with outlet } (c.sent text now call), ?_, streams.put clear rfl rfl rfl⟩
  rw [send_live sends.1 sends.2, if_neg (Nat.not_lt.mpr fits), if_neg (by simpa using filled), given]
  dsimp only
  rw [transmitted, Act.lift_bind]
  simp only [SeqNumber.add_ok.mpr ⟨near, rfl⟩, Act.lift_bind, Connection.enqueue, entry]
  exact Act.ends_pure.mpr ⟨rfl, rfl⟩

theorem Streams.handle_send (streams : k.Streams here c) (filled : text ≠ [])
    (fits : text.length ≤ c.send.window.toNat) (now : Instant) (call : CallId) :
    ∃ k', (k.handle (.send here text) now call).Ends [] (k', .accepted) ∧
      k'.Streams here (c.sent text now call) := by
  obtain ⟨k', sent, streams'⟩ := streams.send filled fits now call
  exact ⟨k', sent.silently rfl, streams'⟩

theorem Streams.run (streams : k.Streams here c) (filled : text ≠ [])
    (fits : text.length ≤ c.send.window.toNat) (now : Instant) (n place : Nat) :
    ∃ k', (k.run place (List.replicate n (.send here text, now))).Ends [] k' ∧
      k'.Streams here (c.flooded text now place n) := by
  induction n generalizing k c place with
  | zero =>
    rw [Connection.flooded_zero]
    exact ⟨k, Act.ends_pure.mpr ⟨rfl, rfl⟩, streams⟩
  | succ n ih =>
    obtain ⟨k₁, handled, streams₁⟩ := streams.handle_send filled fits now place
    obtain ⟨k', ends, streams'⟩ := ih streams₁ fits (place + 1)
    rw [Connection.flooded_sent] at streams'
    exact ⟨k', run_cons_ends.mpr ⟨[], k₁, .accepted, [], handled, ends, rfl⟩, streams'⟩

theorem Streams.sweep (streams : k.Streams here c)
    (timed : (c.onTimer now k.table.config).Ends σ (c', [])) :
    (k.sweep now).Ends σ { k with table.connections := [c'] } := by
  have all : (Table.sweepAll now k.table.config [c]).Ends σ ([c'], []) :=
    timed.silently rfl
  rw [← streams.alone] at all
  have swept : (k.table.sweep now).Ends σ ({ k.table with connections := [c'] }, []) :=
    all.silently rfl
  exact swept.silently rfl

theorem Streams.handle_sweep (streams : k.Streams here c) {sent : Instant}
    (gives : c.GivesUp k.table.config sent now) (fresh : ∀ e ∈ c.queue, e.SentAt sent)
    (held : ∀ e, c.queue.head? = some e → e.text.length ≤ 65535 ∧ e.limit.after c.send.unacked = true)
    (call : CallId) : ∃ σ k', (k.handle .sweep now call).Ends σ (k', .accepted) ∧
      k'.Streams here { c with queue := [] } := by
  have running : c.state ≠ .timeWait := by
    rw [streams.state]
    exact State.noConfusion
  obtain ⟨σ, timed⟩ := Connection.onTimer_givesUp gives running fresh held
  have ends := streams.sweep timed
  exact ⟨σ, _, ends.silently rfl, rfl, streams.place, streams.state, streams.peer, streams.clear⟩

/-- What is sent after all that waited is given up waits in front of what follows it. -/
theorem Streams.overrun (streams : k.Streams here c) {sent : Instant} {more : Octets}
    (gives : c.GivesUp k.table.config sent now) (idle : c.queue = [])
    (waits : (c.send.next.advance text.length).after c.send.unacked = true) (filled : text ≠ [])
    (fits : text.length ≤ c.send.window.toNat) (filled' : more ≠ [])
    (fits' : more.length ≤ c.send.window.toNat) (n m place : Nat) :
    ∃ σ k' next rest, (k.run place (List.replicate n (.send here text, sent) ++
        (.sweep, now) :: (.send here more, now) :: List.replicate m (.send here text, now))).Ends σ k' ∧
      next = ((c.send.next.advance (n * text.length)).advance more.length).advance (m * text.length) ∧
      k'.Streams here { c with
        send := { c.send with next }
        queue := ⟨c.send.next.advance (n * text.length), .ofList [.ack, .psh], more, now, now, 0,
          some (place + n + 1)⟩ :: rest } := by
  have short := Nat.le_trans fits (Nat.le_of_lt_succ c.send.window.toNat_lt)
  obtain ⟨k₁, flood, streams₁⟩ := streams.run filled fits sent n place
  have settings : k₁.table.config = k.table.config := run_alike flood
  obtain ⟨τ, k₂, swept, streams₂⟩ := streams₁.handle_sweep (by rw [settings]; exact gives.flooded)
    (Connection.flooded_sentAt idle) (fun e head => by
      obtain ⟨same, limit⟩ := Connection.flooded_head idle head
      rw [same, limit]
      exact ⟨short, waits⟩) (place + n)
  obtain ⟨k₃, handled, streams₃⟩ := streams₂.handle_send filled' fits' now (place + n + 1)
  obtain ⟨k₄, again, streams₄⟩ := streams₃.run filled fits now m (place + n + 1 + 1)
  have later := run_cons_ends.mpr ⟨[], k₃, _, [], handled, again, rfl⟩
  have after := run_cons_ends.mpr ⟨τ, k₂, _, _, swept, later, rfl⟩
  exact ⟨_, k₄, _, _, run_append_ends flood (by rw [List.length_replicate]; exact after), rfl, streams₄⟩

def widened : List (Event × Instant) :=
  asking ++
    [(agreement, .start),
     -- As far as a header can say.
     (.ingress [0, 80, 192, 0, 0, 0, 3, 233, 10, 62, 28, 189, 80, 16, 255, 255, 176, 157, 0, 0]
       ⟨10, 0, 0, 2⟩ ⟨10, 0, 0, 1⟩, .start)]

def filler : Octets := List.replicate 32768 0

/-- Half the circle is sent and given up. Ten octets follow, and then half the circle again. Nothing of it
    is acknowledged. -/
def overrun : List (Event × Instant) :=
  widened ++ (List.replicate 65536 (.send ⟨⟨10, 0, 0, 1⟩, 49152⟩ filler, .start) ++
    (.sweep, ⟨12000⟩) :: (.send ⟨⟨10, 0, 0, 1⟩, 49152⟩ (List.replicate 10 0), ⟨12000⟩) ::
      List.replicate 65537 (.send ⟨⟨10, 0, 0, 1⟩, 49152⟩ filler, ⟨12000⟩))

/-- An acknowledgment half the circle and more behind the ten octets, so that it seems to cover them, and
    one less than half the circle behind them. -/
def reaching : Segment := acknowledging ⟨171842749⟩ 5 500

def passing : Segment := acknowledging ⟨171842749⟩ 20 500

theorem reaching_passing_successive {v : SendVars} (unacked : v.unacked = ⟨171842749⟩)
    (next : v.next = ((SeqNumber.advance ⟨171842749⟩ (65536 * 32768)).advance 10).advance (65537 * 32768))
    (windowSeq : v.windowSeq = ⟨1001⟩) (windowAck : v.windowAck = ⟨171842749⟩) :
    v.Successive reaching.header passing.header (.advance ⟨171842749⟩ 5) (.advance ⟨171842749⟩ 20) := by
  refine ⟨⟨⟨1001⟩, ?_⟩, ⟨⟨171842749⟩, ?_⟩, ?_, ?_, ?_, ?_⟩
  · rw [windowSeq]
    decide
  · rw [unacked, next, windowAck]
    decide
  · decide
  · decide
  · rw [next]
    decide
  · decide

theorem widened_streams : ∃ σ k c,
    ((Stack.empty { maxRetransmits := 1, receiveWindow := 8 } (.ofKey 1 2)).run 0 widened).Ends σ k ∧
    k.Streams ⟨⟨10, 0, 0, 1⟩, 49152⟩ c ∧ c.send.window = 65535 ∧ c.send.fin = none ∧ c.queue = [] ∧
    c.GivesUp { maxRetransmits := 1, receiveWindow := 8 } .start ⟨12000⟩ ∧
    (∃ r, c.roundTrip.sample (Instant.since ⟨12000⟩ ⟨12000⟩) = .ok r) ∧
    c.foreign = some reaching.sender ∧ c.acceptable reaching.header = .ok true ∧
    c.acceptable passing.header = .ok true ∧
    (c.send.unacked, c.send.next, c.send.windowSeq, c.send.windowAck) =
      (⟨171842749⟩, ⟨171842749⟩, ⟨1001⟩, ⟨171842749⟩) := by
  let start : Stack := .empty { maxRetransmits := 1, receiveWindow := 8 } (.ofKey 1 2)
  let here : Endpoint := ⟨⟨10, 0, 0, 1⟩, 49152⟩
  let k := (start.run 0 widened).result start
  let c := (k.table.get? here).getD (.bound here {})
  have ends : (start.run 0 widened).Ends (start.run 0 widened).signals k :=
    Act.ends_result _ (by decide +kernel)
  have streams : k.Streams here c :=
    ⟨by decide +kernel, by decide +kernel, by decide +kernel, by decide +kernel,
      ⟨by decide +kernel, by decide +kernel⟩⟩
  have gives : c.GivesUp { maxRetransmits := 1, receiveWindow := 8 } .start ⟨12000⟩ :=
    ⟨by decide +kernel, by decide +kernel, by decide⟩
  refine ⟨_, k, c, ends, streams, ?_, ?_, ?_, gives, ?_, ?_, ?_, ?_, ?_⟩
  · decide +kernel
  · decide +kernel
  · decide +kernel
  · have measured : (c.roundTrip.sample (Instant.since ⟨12000⟩ ⟨12000⟩)).isOk = true := by decide +kernel
    cases sampled : c.roundTrip.sample (Instant.since ⟨12000⟩ ⟨12000⟩) with
    | ok r => exact ⟨r, rfl⟩
    | error => rw [sampled] at measured; cases measured
  · decide +kernel
  · decide +kernel
  · decide +kernel
  · decide +kernel

/-- Then the order matters: only if the first one comes first, the call of the ten octets is done. -/
theorem overrun_diverges : ∃ σ k c,
    ((Stack.empty { maxRetransmits := 1, receiveWindow := 8 } (.ofKey 1 2)).run 0 overrun).Ends σ k ∧
      k.table.get? ⟨⟨10, 0, 0, 1⟩, 49152⟩ = some c ∧ c.state = .established ∧
      c.foreign = some reaching.sender ∧ c.foreign = some passing.sender ∧
      c.acceptable reaching.header = .ok true ∧ c.acceptable passing.header = .ok true ∧
      (∃ ack ack', reaching.Reports ack ∧ passing.Reports ack' ∧
        c.send.Successive reaching.header passing.header ack ack') ∧
      c.arrivesBoth reaching passing ⟨0⟩ ⟨12000⟩ ≠ c.arrivesBoth passing reaching ⟨0⟩ ⟨12000⟩ := by
  obtain ⟨σ, k, c, ends, streams, window, fin, queue, gives, sampled, peer, taken, taken', marks⟩ :=
    widened_streams
  obtain ⟨unacked, next, windowSeq, windowAck⟩ : _ ∧ _ ∧ _ ∧ _ := by simpa only [Prod.mk.injEq] using marks
  have length : filler.length = 32768 := List.length_replicate
  have filled : filler ≠ [] := List.ne_nil_of_length_pos (by rw [length]; decide)
  have fits : filler.length ≤ c.send.window.toNat := by
    rw [length, window]
    decide
  have settings : k.table.config = { maxRetransmits := 1, receiveWindow := 8 } := run_alike ends
  obtain ⟨τ, k', last, rest, overran, sent, streams'⟩ := streams.overrun (settings ▸ gives) queue
    (by rw [next, unacked, length]; decide) filled fits (by decide : List.replicate 10 (0 : UInt8) ≠ [])
    (by rw [window]; decide) 65536 65537 (0 + widened.length)
  rw [length, next, List.length_replicate] at sent
  rw [length, next] at streams'
  obtain ⟨c', is, streams'⟩ : ∃ c', c' = _ ∧ k'.Streams _ c' := ⟨_, rfl, streams'⟩
  have unacked' : c'.send.unacked = ⟨171842749⟩ := by rw [is]; exact unacked
  have next' : c'.send.next =
      ((SeqNumber.advance ⟨171842749⟩ (65536 * 32768)).advance 10).advance (65537 * 32768) := by
    rw [is]
    exact sent
  have plain := acknowledging_reports ⟨171842749⟩ 5 500
  have plain' := acknowledging_reports ⟨171842749⟩ 20 500
  have peer' : c'.foreign = some reaching.sender := by rw [is]; exact peer
  have accepted : c'.acceptable reaching.header = .ok true := by rw [is]; exact taken
  have accepted' : c'.acceptable passing.header = .ok true := by rw [is]; exact taken'
  have successive := reaching_passing_successive unacked' next' (by rw [is]; exact windowSeq)
    (by rw [is]; exact windowAck)
  refine ⟨_, k', c', run_append_ends ends overran, streams'.found, streams'.state, peer', peer', accepted,
    accepted', ⟨_, _, plain, plain', successive⟩, ?_⟩
  refine Connection.arrivesBoth_diverges (by rw [streams'.state]; rfl) ?_ plain plain' accepted accepted'
    successive (by rw [is]) (by rw [unacked']; decide) (by decide) (by decide) (by decide) ?_ rfl
  · intro f raised
    rw [is] at raised
    cases fin.symm.trans raised
  · rw [is]
    exact sampled

end Stack
end TcpEngine

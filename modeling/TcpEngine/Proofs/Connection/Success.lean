import TcpEngine.Proofs.Connection.Course
import TcpEngine.Proofs.Connection.Estimate
import TcpEngine.Proofs.Connection.Reviewing
import TcpEngine.Proofs.Duplicates
import TcpEngine.Proofs.Legibility
import TcpEngine.Proofs.Scaling

/-!
Handlers that come to their end. A segment that fits into a datagram never stops the handlers of a
connection: what is added to its numbers is short, and its text is only looked for once the segment was
found to lie near the next number expected, so never half the circle away from it.
-/
namespace TcpEngine

theorem RoundTrip.measurable_keeps : Keeps Measurable := by
  intro r r' now before h ok
  obtain ⟨r'', sampled, h'⟩ := h.sample (now.since_short before)
  rw [ok, Except.ok.injEq] at sampled
  exact sampled ▸ h'

namespace Connection

variable {c c' : Connection} {s : Segment} {h : Header} {iss acked : SeqNumber} {now : Instant}
  {queue : List Unacked} {r : RoundTrip} {config : Config} {text : Octets} {seq : SeqNumber}

/- The parts. -/

theorem release_succeeds (brief : ∀ e ∈ queue, e.text.length ≤ 65535) (measurable : r.Measurable) :
    (release acked now queue r).Succeeds := by
  induction queue generalizing r with
  | nil => exact Act.succeeds_pure _
  | cons e queue ih =>
    have short := brief e List.mem_cons_self
    have stops : e.stop = .ok (e.seq.advance (e.text.length + e.flags.sequenceLength)) :=
      Unacked.stop_ok.mpr ⟨by simp only [SeqNumber.halfCircle]; omega, rfl⟩
    refine Act.succeeds_lift_bind ⟨_, stops⟩ fun stop _ => ?_
    split
    · exact Act.succeeds_pure _
    · obtain ⟨r', sampled, measurable'⟩ := measurable.sample (now.since_short e.lastSent)
      refine Act.succeeds_lift_bind ⟨r', sampled⟩ fun r'' same => ?_
      obtain rfl := Except.ok.inj (sampled.symm.trans same)
      refine Act.succeeds_bind (Act.succeeds_signal? _ _) fun _ _ _ => ?_
      exact ih (fun e member => brief e (List.mem_cons_of_mem _ member)) measurable'

theorem releaseAcked_succeeds (brief : ∀ e ∈ c.queue, e.text.length ≤ 65535)
    (measurable : c.roundTrip.Measurable) : (c.releaseAcked now).Succeeds :=
  Act.succeeds_bind (release_succeeds brief measurable) fun _ _ _ => Act.succeeds_pure _

theorem terminate_succeeds (c : Connection) (error : CallError) : (c.terminate error).Succeeds :=
  ⟨_, _, terminate_ends.mpr ⟨rfl, rfl⟩⟩

theorem deliver_succeeds (c : Connection) : c.deliver.Succeeds := by
  unfold deliver
  split
  · exact Act.succeeds_pure _
  · split
    · exact Act.succeeds_pure _
    · exact Act.succeeds_bind (Act.succeeds_signal _ _) fun _ _ _ => Act.succeeds_pure _

/-- Text is only refused where its number is half the circle away. -/
theorem acceptText_succeeds (room : c.buffer.capacity ≤ 65535)
    (apart : text ≠ [] → c.receive.next.ahead seq ≠ SeqNumber.halfCircle) :
    ∃ c', c.acceptText seq text = .ok c' := by
  unfold acceptText
  split
  · exact ⟨c, rfl⟩
  · rename_i filled
    split
    · rename_i order
      have away := apart (by simpa using filled)
      have back := SeqNumber.ahead_from c.receive.next seq c.receive.next
      have bound := SeqNumber.ahead_lt seq c.receive.next
      rw [SeqNumber.atOrBefore_iff, ← Bool.not_eq_true, SeqNumber.after_iff] at order
      rw [SeqNumber.ahead_self] at back
      simp only [SeqNumber.halfCircle] at away order
      have near : c.receive.next.ahead seq < SeqNumber.halfCircle := by
        simp only [SeqNumber.halfCircle]
        omega
      have fits : (c.buffer.enqueue (text.drop (c.receive.next.ahead seq))).2 < SeqNumber.halfCircle := by
        rw [Ring.enqueue_snd, Ring.window, SeqNumber.halfCircle]
        omega
      simp only [except_bind_ok, SeqNumber.distance, if_pos near, SeqNumber.add_ok]
      exact ⟨_, _, rfl, _, ⟨fits, rfl⟩, rfl⟩
    · exact ⟨c, rfl⟩

theorem countFin_succeeds (c : Connection) (now : Instant) : (c.countFin now).Succeeds := by
  unfold countFin
  split
  · exact Act.succeeds_bind (Act.succeeds_signal? _ _) fun _ _ _ => Act.succeeds_pure _
  · exact Act.succeeds_pure _

theorem receiveFin_succeeds (short : s.header.textLength ≤ 65535) : (c.receiveFin s now).Succeeds := by
  rw [receiveFin_eq]
  split
  · refine Act.succeeds_lift_bind ⟨_, SeqNumber.add_ok.mpr ⟨?_, rfl⟩⟩ fun start _ => ?_
    · have := Bool.toNat_le (s.header.flags.has .syn)
      simp only [SeqNumber.halfCircle]
      omega
    · refine Act.succeeds_lift_bind ⟨_, SeqNumber.add_ok.mpr ⟨?_, rfl⟩⟩ fun place _ => ?_
      · simp only [SeqNumber.halfCircle]
        omega
      · split
        · exact countFin_succeeds c now
        · exact Act.succeeds_pure _
  · exact Act.succeeds_pure _

theorem noteUrgent_succeeds (c : Connection) (h : Header) : ∃ c', c.noteUrgent h = .ok c' := by
  unfold noteUrgent
  split
  · have short : h.urgent.toNat < SeqNumber.halfCircle := Nat.lt_trans h.urgent.toNat_lt (by decide)
    rw [SeqNumber.add, if_pos short]
    exact ⟨_, rfl⟩
  · exact ⟨c, rfl⟩

/- Which segments fit. -/

/-- The first or the last number of the segment lies in the window. Where that is closed, a segment that
    takes no number fits at the next number expected. -/
def Fits (c : Connection) (h : Header) : Prop :=
  c.InWindow h.seq ∨ 0 < h.sequenceLength ∧ c.InWindow h.last ∨
    h.sequenceLength = 0 ∧ c.window = 0 ∧ h.seq = c.receive.next

instance (c : Connection) (h : Header) : Decidable (c.Fits h) :=
  inferInstanceAs (Decidable (_ ∨ _ ∨ _))

theorem acceptable_eq (limited : Limited c) (short : h.sequenceLength ≤ SeqNumber.halfCircle) :
    c.acceptable h = .ok (decide (c.Fits h)) := by
  suffices tested : ∃ fits, c.acceptable h = .ok fits ∧ (fits = true ↔ c.Fits h) by
    obtain ⟨fits, ok, same⟩ := tested
    rw [ok, Except.ok.injEq, Bool.eq_iff_iff, same, decide_eq_true_iff]
  have small := limited.window
  by_cases takes : h.sequenceLength = 0
  · rw [acceptable, if_pos takes]
    by_cases shut : c.window = 0
    · rw [if_pos shut]
      exact ⟨_, rfl, by simp [Fits, InWindow, takes, shut]⟩
    · rw [if_neg shut, SeqNumber.inWindow_eq small]
      exact ⟨_, rfl, by simp [Fits, InWindow, takes, shut]⟩
  · by_cases inside : c.InWindow h.seq
    · have wide : c.window ≠ 0 := Nat.ne_of_gt (Nat.lt_of_le_of_lt (Nat.zero_le _) inside)
      have first : h.seq.inWindow c.receive.next c.window = .ok true := by
        rw [SeqNumber.inWindow_eq small]
        exact congrArg Except.ok (decide_eq_true inside)
      rw [acceptable, if_neg takes, if_neg wide, first]
      exact ⟨true, rfl, by simp [Fits, inside]⟩
    · rw [acceptable_outside limited (Nat.pos_of_ne_zero takes) inside, if_pos short]
      by_cases shut : c.window = 0
      · rw [if_pos shut]
        exact ⟨_, rfl, by simp [Fits, InWindow, takes, shut]⟩
      · rw [if_neg shut]
        exact ⟨_, rfl, by simp [Fits, inside, shut, Nat.pos_of_ne_zero takes]⟩

/-- A segment that fits and has text does not begin half the circle away from the number expected. -/
theorem Fits.apart (fits : c.Fits s.header) (limited : Limited c) (sized : s.Sized)
    (filled : s.text ≠ []) : c.receive.next.ahead s.header.seq ≠ SeqNumber.halfCircle := by
  have room := limited.room
  have brief := sized.brief
  have takes : 0 < s.header.sequenceLength := by
    have := sized.long
    have := List.length_pos_iff.mpr filled
    simp only [Header.sequenceLength]
    omega
  have back := SeqNumber.ahead_from c.receive.next s.header.seq c.receive.next
  have bound := SeqNumber.ahead_lt s.header.seq c.receive.next
  have narrow : c.window ≤ 65535 := Nat.le_trans (Nat.sub_le _ _) room
  rw [SeqNumber.ahead_self] at back
  simp only [SeqNumber.halfCircle]
  rcases fits with first | ⟨_, last⟩ | ⟨none, _⟩
  · unfold InWindow at first
    omega
  · have far := SeqNumber.ahead_from s.header.last c.receive.next s.header.seq
    rw [Header.last, SeqNumber.ahead_advance (by omega)] at far
    unfold InWindow Header.last at last
    omega
  · omega

/- The handlers, once the segment was found to fit. -/

structure Ready (s : Segment) (c : Connection) : Prop where
  room : c.buffer.capacity ≤ 65535
  brief : ∀ e ∈ c.queue, e.text.length ≤ 65535
  measurable : c.roundTrip.Measurable
  apart : s.text ≠ [] → c.receive.next.ahead s.header.seq ≠ SeqNumber.halfCircle

theorem Ready.delivered (h : Ready s c) {σ : List Signal} (ends : c.deliver.Ends σ c') : Ready s c' := by
  rcases deliver_ends ends with ⟨_, rfl, _⟩ | ⟨_, _, _, _, rfl⟩
  · exact h
  · refine ⟨?_, h.brief, h.measurable, h.apart⟩
    rw [served, Ring.dequeue_capacity]
    exact h.room

theorem Ready.released (h : Ready s c) {σ : List Signal} (ends : (c.releaseAcked now).Ends σ c') :
    Ready s c' := by
  obtain ⟨queue, roundTrip, released, rfl⟩ := releaseAcked_ends ends
  obtain ⟨done, split, _⟩ := release_ends released
  refine ⟨h.room, ?_, release_keeps RoundTrip.measurable_keeps h.measurable released, h.apart⟩
  intro e member
  refine h.brief e ?_
  rw [split.split]
  exact List.mem_append_right _ member

theorem finish_succeeds {due : Bool} (short : s.header.textLength ≤ 65535) : Act.Succeeds (do
    let (c, finished) ← c.receiveFin s now
    if due || finished then return Arrival.answered c (c.control [.ack]) else return .silent c) := by
  refine Act.succeeds_bind (receiveFin_succeeds short) fun _ result _ => ?_
  dsimp only
  split
  · exact Act.succeeds_pure _
  · exact Act.succeeds_pure _

theorem receiveContent_succeeds (sized : s.Sized) (ready : Ready s c) :
    (c.receiveContent s now).Succeeds := by
  have short : s.header.textLength ≤ 65535 := sized.long ▸ sized.short
  unfold receiveContent
  refine Act.succeeds_lift_bind (c.noteUrgent_succeeds s.header) fun c' noted => ?_
  obtain ⟨urgent, rfl⟩ := noteUrgent_eq noted
  dsimp only
  split
  · refine Act.succeeds_lift_bind (acceptText_succeeds ready.room ready.apart) fun kept _ => ?_
    exact Act.succeeds_bind kept.deliver_succeeds fun _ _ _ => finish_succeeds short
  · rw [pure_bind]
    exact finish_succeeds short

theorem progress_succeeds (sized : s.Sized) (ready : Ready s c) : (c.progress s now).Succeeds := by
  unfold progress
  split
  · apply receiveContent_succeeds sized
    split
    · exact ⟨ready.room, ready.brief, ready.measurable, ready.apart⟩
    · exact ready
  · split
    · exact receiveContent_succeeds sized ⟨ready.room, ready.brief, ready.measurable, ready.apart⟩
    · exact Act.succeeds_pure _
  · split
    · exact Act.succeeds_bind (c.terminate_succeeds _) fun _ _ _ => Act.succeeds_pure _
    · exact Act.succeeds_pure _
  · exact receiveContent_succeeds sized ready

theorem acknowledge_succeeds {ack : SeqNumber} (sized : s.Sized) (ready : Ready s c) :
    (c.acknowledge s ack now).Succeeds := by
  have refreshed {d : Connection} (ready : Ready s d) : Ready s (d.refreshWindow s.header ack) := by
    obtain ⟨_, _, _, same⟩ := refreshWindow_eq d s.header ack
    rw [same]
    exact ⟨ready.room, ready.brief, ready.measurable, ready.apart⟩
  rw [acknowledge_eq]
  split
  · exact Act.succeeds_pure _
  · split
    · have acked : Ready s { c with send := { c.send with unacked := ack } } :=
        ⟨ready.room, ready.brief, ready.measurable, ready.apart⟩
      refine Act.succeeds_bind (releaseAcked_succeeds acked.brief acked.measurable) fun _ d ends => ?_
      exact progress_succeeds sized (refreshed (acked.released ends))
    · rw [pure_bind]
      exact progress_succeeds sized (refreshed ready)

theorem resetReply_succeeds (sized : s.Sized) : ∃ answer, s.resetReply = .ok answer := by
  have brief := sized.brief
  have sum : s.header.seq.add s.header.sequenceLength
      = .ok (s.header.seq.advance s.header.sequenceLength) :=
    SeqNumber.add_ok.mpr ⟨by simp only [SeqNumber.halfCircle]; omega, rfl⟩
  unfold Segment.resetReply
  dsimp only
  split
  · exact ⟨none, rfl⟩
  · split
    · exact ⟨_, rfl⟩
    · rw [sum]
      exact ⟨_, rfl⟩

theorem arrivesWithAck_succeeds {ack : SeqNumber} (sized : s.Sized) (ready : Ready s c) :
    (c.arrivesWithAck s ack now).Succeeds := by
  unfold arrivesWithAck
  split
  · split
    · have opened : Ready s { c with state := .established } :=
        ⟨ready.room, ready.brief, ready.measurable, ready.apart⟩
      refine Act.succeeds_bind (deliver_succeeds _) fun _ d ends => ?_
      exact acknowledge_succeeds sized (opened.delivered ends)
    · exact Act.succeeds_lift_bind (resetReply_succeeds sized) fun _ _ => Act.succeeds_pure _
  · exact acknowledge_succeeds sized ready

theorem arrivesSynchronized_succeeds (sized : s.Sized) (limited : Limited c)
    (measurable : c.roundTrip.Measurable) : (c.arrivesSynchronized s now).Succeeds := by
  have short : s.header.sequenceLength ≤ SeqNumber.halfCircle := Nat.le_trans sized.brief (by decide)
  have tested := acceptable_eq limited short
  unfold arrivesSynchronized
  refine Act.succeeds_lift_bind ⟨_, tested⟩ fun fits same => ?_
  split
  · rename_i inside
    rw [tested, inside, Except.ok.injEq, decide_eq_true_iff] at same
    split
    · exact Act.succeeds_bind (c.terminate_succeeds _) fun _ _ _ => Act.succeeds_pure _
    · split
      · exact Act.succeeds_bind (c.terminate_succeeds _) fun _ _ _ => Act.succeeds_pure _
      · split
        · exact Act.succeeds_pure _
        · exact arrivesWithAck_succeeds sized
            ⟨limited.room, limited.brief, measurable, same.apart limited sized⟩
  · split
    · exact Act.succeeds_pure _
    · exact Act.succeeds_pure _

/- The handlers of a SYN. Its text begins at the number expected. -/

theorem acceptText_first (room : c.buffer.capacity ≤ 65535) (expected : c.receive.next = seq) :
    ∃ c', c.acceptText seq text = .ok c' := by
  refine acceptText_succeeds room fun _ => ?_
  rw [expected, SeqNumber.ahead_self]
  decide

theorem takeUp_succeeds (room : c.buffer.capacity ≤ 65535) : ∃ a, c.takeUp s iss now = .ok a := by
  unfold takeUp
  refine except_bind_succeeds ⟨_, add_one s.header.seq⟩ fun first _ => ?_
  refine except_bind_succeeds ⟨_, add_one iss⟩ fun next _ => ?_
  refine except_bind_succeeds (acceptText_first room rfl) fun kept _ => ?_
  split
  · exact ⟨_, rfl⟩
  · exact ⟨_, rfl⟩

theorem arrivesListen_succeeds (sized : s.Sized) (room : c.buffer.capacity ≤ 65535) :
    ∃ a, c.arrivesListen s iss now = .ok a := by
  unfold arrivesListen
  split
  · exact ⟨_, rfl⟩
  · split
    · obtain ⟨answer, reset⟩ := resetReply_succeeds sized
      rw [reset]
      exact ⟨_, rfl⟩
    · split
      · exact takeUp_succeeds room
      · exact ⟨_, rfl⟩

theorem met_succeeds (short : s.header.textLength ≤ 65535) (room : c.buffer.capacity ≤ 65535)
    (first : c.receive.next = s.header.seq.advance 1) : Act.Succeeds (do
      let c ← c.acceptText (s.header.seq.advance 1) s.text
      if c.send.unacked.after c.send.initial then
        let c := { c with state := .established }
        let c := c.setWindow s.header c.send.unacked
        let c ← c.deliver
        let (c, _) ← c.receiveFin s now
        return Arrival.answered c (c.control [.ack])
      else
        let both : Flags := .ofList [.syn, .ack]
        let c := { c with state := .synReceived }
        let c := c.setWindow s.header c.send.initial
        let c :=
          { c with
            queue := c.queue.map fun e => if e.flags.has .syn then { e with flags := both } else e }
        return .answered c (c.segment both c.send.initial [])) := by
  refine Act.succeeds_lift_bind (acceptText_first room first) fun kept _ => ?_
  split
  · refine Act.succeeds_bind (deliver_succeeds _) fun _ _ _ => ?_
    exact Act.succeeds_bind (receiveFin_succeeds short) fun _ _ _ => Act.succeeds_pure _
  · exact Act.succeeds_pure _

theorem meet_succeeds (sized : s.Sized) (limited : Limited c) (measurable : c.roundTrip.Measurable) :
    (c.meet s now).Succeeds := by
  have short : s.header.textLength ≤ 65535 := sized.long ▸ sized.short
  unfold meet
  refine Act.succeeds_lift_bind ⟨_, add_one s.header.seq⟩ fun first same => ?_
  obtain rfl := Except.ok.inj ((add_one s.header.seq).symm.trans same)
  dsimp only
  split
  · split
    · refine Act.succeeds_bind (releaseAcked_succeeds limited.brief measurable) fun _ d ends => ?_
      obtain ⟨_, _, _, rfl⟩ := releaseAcked_ends ends
      exact met_succeeds short limited.room rfl
    · rw [pure_bind]
      exact met_succeeds short limited.room rfl
  · rw [pure_bind]
    exact met_succeeds short limited.room rfl

theorem arrivesSynSent_succeeds (sized : s.Sized) (limited : Limited c)
    (measurable : c.roundTrip.Measurable) : (c.arrivesSynSent s now).Succeeds := by
  unfold arrivesSynSent
  dsimp only
  split
  · exact Act.succeeds_lift_bind (resetReply_succeeds sized) fun _ _ => Act.succeeds_pure _
  · split
    · split
      · exact Act.succeeds_bind (c.terminate_succeeds _) fun _ _ _ => Act.succeeds_pure _
      · exact Act.succeeds_pure _
    · split
      · exact meet_succeeds sized limited measurable
      · exact Act.succeeds_pure _

/-- Whatever segment arrives in whatever state, it is handled. -/
theorem arrives_succeeds (sized : s.Sized) (limited : Limited c) (measurable : c.roundTrip.Measurable) :
    (c.arrives s iss now).Succeeds := by
  unfold arrives
  split
  · exact Act.succeeds_lift_bind (resetReply_succeeds sized) fun _ _ => Act.succeeds_pure _
  · exact Act.succeeds_lift (arrivesListen_succeeds sized limited.room)
  · exact arrivesSynSent_succeeds sized limited measurable
  · exact arrivesSynchronized_succeeds sized limited measurable

/- The timer. -/

theorem review_counts (counts : ∀ e ∈ queue, e.retries + 1 < UInt32.size) :
    (c.review now config queue).Succeeds := by
  induction queue with
  | nil => exact Act.succeeds_pure _
  | cons e queue ih =>
    have later := ih fun e member => counts e (List.mem_cons_of_mem _ member)
    have first := counts e List.mem_cons_self
    unfold review
    split
    · exact Act.succeeds_pure _
    · split
      · dsimp only
        rw [pure_bind]
        split
        · exact Act.succeeds_bind (Act.succeeds_signal? _ _) fun _ _ _ => later
        · exact Act.succeeds_bind later fun _ _ _ => Act.succeeds_pure _
      · exact Act.succeeds_bind later fun _ _ _ => Act.succeeds_pure _

theorem counts_of_spared {e : Unacked} (few : config.maxRetransmits < UInt32.size)
    (spared : e.Spared config) : e.retries + 1 < UInt32.size := by
  rcases spared with none | fewer
  · rw [none]
    decide
  · omega

theorem review_succeeds (few : config.maxRetransmits < UInt32.size)
    (spared : ∀ e ∈ queue, e.Spared config) : (c.review now config queue).Succeeds :=
  review_counts fun e member => counts_of_spared few (spared e member)

theorem onTimer_succeeds (few : config.maxRetransmits < UInt32.size)
    (waits : ∃ period, config.timeWait = .ok period) (limited : Limited c)
    (measurable : c.roundTrip.Measurable) (spared : ∀ e ∈ c.queue, e.Spared config) :
    (c.onTimer now config).Succeeds := by
  unfold onTimer
  split
  · refine Act.succeeds_lift_bind waits fun period _ => ?_
    split
    · exact Act.succeeds_bind (c.terminate_succeeds _) fun _ _ _ => Act.succeeds_pure _
    · exact Act.succeeds_pure _
  · refine Act.succeeds_bind (releaseAcked_succeeds limited.brief measurable) fun _ d ends => ?_
    obtain ⟨queue, roundTrip, released, rfl⟩ := releaseAcked_ends ends
    obtain ⟨done, split', _⟩ := release_ends released
    have left : ∀ e ∈ queue, e.Spared config := by
      intro e member
      refine spared e ?_
      rw [split'.split]
      exact List.mem_append_right _ member
    refine Act.succeeds_bind (review_succeeds few left) fun _ found _ => ?_
    dsimp only
    split
    · exact Act.succeeds_bind (terminate_succeeds _ _) fun _ _ _ => Act.succeeds_pure _
    · exact Act.succeeds_pure _

end Connection
end TcpEngine

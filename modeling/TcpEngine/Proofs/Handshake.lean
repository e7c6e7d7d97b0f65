import TcpEngine.Proofs.Attendance
import TcpEngine.Proofs.Phases

/-!
Text and the handshake. As long as our SYN is not acknowledged, whoever sends may never have seen it,
and the text of a peer should stay in the buffer. There are two ways around that: a receive call made in
SYN-RECEIVED is served at once, and a close leads from there to FIN-WAIT-1, where text is handed out as
in any open connection.
-/
namespace TcpEngine

def Segment.Acknowledges (s : Segment) (c : Connection) : Prop :=
  ∃ ack ∈ s.header.ack, 0 < ack.ahead c.send.unacked ∧
    ack.ahead c.send.unacked ≤ c.send.next.ahead c.send.unacked

instance (s : Segment) (c : Connection) : Decidable (s.Acknowledges c) :=
  inferInstanceAs (Decidable (∃ ack ∈ s.header.ack, _))

theorem handed_of_mem {σ : List Signal} {call : CallId} {octets : Octets}
    (told : ⟨call, .received octets⟩ ∈ σ) (filled : octets ≠ []) : handed σ ≠ [] := by
  intro none
  exact filled (List.flatMap_eq_nil_iff.mp none _ told)

namespace Connection

variable {s : Segment} {iss : SeqNumber} {now : Instant} {σ : List Signal} {a : Arrival}
  {c c' : Connection} {call : CallId} {event : Event} {ds : List Datagram} {ack : SeqNumber}

structure Unproven (c : Connection) : Prop where
  unacked : c.send.unacked = c.send.initial
  states : c.state ∈ [.synSent, .synReceived, .finWait1, .closing]
  syn : c.state ∈ [.synSent, .synReceived] → c.send.next = c.send.initial.advance 1
  fin : c.state ∈ [.finWait1, .closing] →
    c.send.fin = some (c.send.initial.advance 1) ∧ c.send.next = c.send.initial.advance 2

theorem Unproven.finAcked (h : Unproven c) (waits : c.state ∈ [.finWait1, .closing]) :
    c.finAcked = false := by
  have under : (c.send.initial.advance 0).after (c.send.initial.advance 1) = false := by
    rw [← SeqNumber.atOrBefore_iff, SeqNumber.atOrBefore_advance ⟨by decide, by decide⟩]
    exact Nat.zero_le 1
  rw [SeqNumber.advance_zero] at under
  rw [Connection.finAcked, (h.fin waits).1, h.unacked]
  exact under

theorem Unproven.room (h : Unproven c) :
    c.send.next.ahead c.send.unacked < SeqNumber.halfCircle ∧ c.send.unacked ≠ c.send.next := by
  have places : ∃ n, c.send.next = c.send.unacked.advance n ∧ (n = 1 ∨ n = 2) := by
    rw [h.unacked]
    have states := h.states
    simp only [List.mem_cons, List.not_mem_nil, or_false] at states
    rcases states with state | state | state | state
    · exact ⟨1, h.syn (by simp [state]), Or.inl rfl⟩
    · exact ⟨1, h.syn (by simp [state]), Or.inl rfl⟩
    · exact ⟨2, (h.fin (by simp [state])).2, Or.inr rfl⟩
    · exact ⟨2, (h.fin (by simp [state])).2, Or.inr rfl⟩
  obtain ⟨n, next, small⟩ := places
  rw [next, SeqNumber.ahead_advance (by omega)]
  refine ⟨by simp only [SeqNumber.halfCircle]; omega, ?_⟩
  intro same
  rw [SeqNumber.eq_iff_ahead, SeqNumber.ahead_from _ _ c.send.unacked, SeqNumber.ahead_self,
    SeqNumber.ahead_advance (by omega)] at same
  omega

theorem Unproven.keeps (h : Unproven c) (unacked : c'.send.unacked = c.send.unacked)
    (initial : c'.send.initial = c.send.initial) (next : c'.send.next = c.send.next)
    (fin : c'.send.fin = c.send.fin)
    (states : c.state ∈ [.synSent, .synReceived] ∧ c'.state ∈ [.synSent, .synReceived] ∨
      c.state ∈ [.finWait1, .closing] ∧ c'.state ∈ [.finWait1, .closing]) : Unproven c' := by
  have apart (state : State) : state ∈ [.synSent, .synReceived] → state ∉ [.finWait1, .closing] := by
    cases state <;> decide
  refine ⟨by rw [unacked, initial, h.unacked], ?_, fun early => ?_, fun waits => ?_⟩
  · simp only [List.mem_cons, List.not_mem_nil, or_false] at states ⊢
    rcases states with ⟨_, early⟩ | ⟨_, waits⟩
    · exact early.elim Or.inl fun state => Or.inr (Or.inl state)
    · exact Or.inr (Or.inr waits)
  · rcases states with ⟨before, _⟩ | ⟨_, waits⟩
    · rw [next, initial, h.syn before]
    · exact absurd waits (apart _ early)
  · rcases states with ⟨_, early⟩ | ⟨before, _⟩
    · exact absurd waits (apart _ early)
    · rw [fin, next, initial]
      exact h.fin before

theorem Unproven.kinds (h : Unproven c) :
    c.state ∈ [.synSent, .synReceived] ∨ c.state ∈ [.finWait1, .closing] := by
  have states := h.states
  simp only [List.mem_cons, List.not_mem_nil, or_false] at states ⊢
  rcases states with state | state | state | state <;> simp [state]

/- What a segment does that leaves our SYN unacknowledged. -/

theorem receiveFin_waits {finished : Bool} (state : c.state = .finWait1) (waits : c.finAcked = false)
    (h : (c.receiveFin s now).Ends σ (c', finished)) : c'.state ∈ [.finWait1, .closing] := by
  rcases receiveFin_counts h with rfl | ⟨_, _, _, _, _, after⟩
  · simp [state]
  · have unacked : c.ended.finAcked = false := waits
    have before : c.ended.state = .finWait1 := state
    rw [after, peerFinished, before]
    simp [unacked]

theorem receiveContent_waits (state : c.state = .finWait1) (waits : c.finAcked = false)
    (h : (c.receiveContent s now).Ends σ a) : a.connection.state ∈ [.finWait1, .closing] := by
  cases receiveContent_content h with
  | quiet => simp [Arrival.silent, noted, state]
  | fin urgent ends => exact receiveFin_waits (c := c.noted urgent) state waits ends
  | text urgent _ _ taken served ends =>
    refine receiveFin_waits ?_ ?_ ends
    · rw [deliver_state served, acceptText_state taken]
      exact state
    · rw [Connection.finAcked, deliver_send served, acceptText_send taken]
      exact waits

theorem acknowledge_waits (states : c.state ∈ [.finWait1, .closing]) (waits : c.finAcked = false)
    (still : c.unackedAfter ack = c.send.unacked) (h : (c.acknowledge s ack now).Ends σ a) :
    a.connection.state ∈ [.finWait1, .closing] ∧ (c.state = .closing → σ = []) := by
  unfold acknowledge at h
  split at h
  · obtain ⟨rfl, rfl⟩ := Act.ends_pure.mp h
    exact ⟨states, fun _ => rfl⟩
  · rename_i sent
    have under : ¬ c.send.unacked.before ack = true := by
      intro above
      rw [unackedAfter, if_pos ⟨above, by simpa using sent⟩] at still
      rw [still, SeqNumber.before_iff, SeqNumber.ahead_self] at above
      omega
    rw [if_neg under, pure_bind] at h
    obtain ⟨d, state', waits', same⟩ : ∃ d : Connection, d.state = c.state ∧ d.finAcked = false ∧
        c.refreshWindow s.header ack = d := by
      obtain ⟨_, _, _, same⟩ := refreshWindow_eq c s.header ack
      exact ⟨c.refreshWindow s.header ack, by rw [same], by rw [same]; exact waits, rfl⟩
    dsimp only at h
    rw [same] at h
    simp only [List.mem_cons, List.not_mem_nil, or_false] at states
    rcases states with state | state
    · simp only [state'.trans state, waits', Bool.false_eq_true, if_false] at h
      refine ⟨receiveContent_waits (state'.trans state) waits' h, ?_⟩
      intro other
      cases state.symm.trans other
    · simp only [state'.trans state, waits', Bool.false_eq_true, if_false] at h
      obtain ⟨rfl, rfl⟩ := Act.ends_pure.mp h
      exact ⟨by simp [Arrival.silent, state'.trans state], fun _ => rfl⟩

theorem meet_quiet {kept : Connection}
    (h : Act.Ends (if kept.send.unacked.after kept.send.initial then do
        let c ← (setWindow { kept with state := .established } s.header kept.send.unacked).deliver
        let (c, _) ← c.receiveFin s now
        return .answered c (c.control [.ack])
      else
        let crossed : Connection :=
          { setWindow { kept with state := .synReceived } s.header kept.send.initial with
            queue := kept.queue.map fun e =>
              if e.flags.has .syn then { e with flags := .ofList [.syn, .ack] } else e }
        return .answered crossed (crossed.segment (.ofList [.syn, .ack]) crossed.send.initial []))
      σ a) (early : a.connection.state.pastHandshake = false) : σ = [] := by
  split at h
  · rw [Act.ends_bind] at h
    obtain ⟨_, c₁, _, served, h, _⟩ := h
    rw [Act.ends_bind] at h
    obtain ⟨_, ⟨c₂, finished⟩, _, fin, h, _⟩ := h
    obtain ⟨_, rfl⟩ := Act.ends_pure.mp h
    have state : c₁.state = .established := deliver_state served
    have past : c₂.state.pastHandshake = true := by
      rcases receiveFin_counts fin with rfl | ⟨_, _, _, _, _, after⟩
      · rw [state]
        rfl
      · have before : c₁.ended.state = .established := state
        rw [after, peerFinished, before]
        rfl
    cases early.symm.trans past
  · exact (Act.ends_pure.mp h).1

theorem arrivesSynSent_silent (h : (c.arrivesSynSent s now).Ends σ a)
    (early : a.connection.state.pastHandshake = false) : handed σ = [] := by
  unfold arrivesSynSent at h
  dsimp only at h
  split at h
  · simp only [Act.ends_bind, Act.ends_lift, Act.ends_pure] at h
    obtain ⟨_, _, _, ⟨rfl, _⟩, ⟨rfl, _⟩, rfl⟩ := h
    rfl
  · split at h
    · split at h
      · rw [Act.ends_bind] at h
        obtain ⟨_, _, _, ends, h, rfl⟩ := h
        obtain ⟨rfl, _⟩ := Act.ends_pure.mp h
        obtain ⟨rfl, _⟩ := terminate_ends.mp ends
        rw [List.append_nil, handed_fails]
      · obtain ⟨rfl, _⟩ := Act.ends_pure.mp h
        rfl
    · split at h
      · unfold meet at h
        rw [Act.ends_bind] at h
        obtain ⟨_, first, _, added, h, rfl⟩ := h
        obtain ⟨rfl, _⟩ := Act.ends_lift.mp added
        dsimp only at h
        split at h
        · split at h
          · rw [Act.ends_bind] at h
            obtain ⟨_, _, _, ends, h, rfl⟩ := h
            obtain ⟨queue, roundTrip, released, rfl⟩ := releaseAcked_ends ends
            obtain ⟨done, _, rfl⟩ := release_ends released
            rw [Act.ends_bind] at h
            obtain ⟨_, kept, _, taken, h, rfl⟩ := h
            rw [(Act.ends_lift.mp taken).1, meet_quiet h early, List.append_nil, List.append_nil, List.nil_append,
              handed_done]
          · rw [pure_bind, Act.ends_bind] at h
            obtain ⟨_, kept, _, taken, h, rfl⟩ := h
            rw [(Act.ends_lift.mp taken).1, meet_quiet h early]
            rfl
        · rw [pure_bind, Act.ends_bind] at h
          obtain ⟨_, kept, _, taken, h, rfl⟩ := h
          rw [(Act.ends_lift.mp taken).1, meet_quiet h early]
          rfl
      · obtain ⟨rfl, _⟩ := Act.ends_pure.mp h
        rfl

theorem processed_of_handed (h : (c.arrivesSynchronized s now).Ends σ a) (hands : handed σ ≠ []) :
    ∃ ack, c.Processes s ∧ s.header.ack = some ack ∧ (c.arrivesWithAck s ack now).Ends σ a := by
  have idle (idle : ¬ c.Processes s ∨ s.header.ack = none) : False := by
    rcases arrivesSynchronized_idle h idle with ⟨_, ends⟩ | ⟨rfl, _⟩
    · obtain ⟨rfl, _⟩ := terminate_ends.mp ends
      exact hands (handed_fails _ _)
    · exact hands rfl
  by_cases processed : c.Processes s
  · cases given : s.header.ack with
    | none => exact (idle (Or.inr given)).elim
    | some ack =>
      rw [arrivesSynchronized_processed processed given] at h
      exact ⟨ack, processed, rfl, h⟩
  · exact (idle (Or.inl processed)).elim

theorem Unproven.unackedAfter_iff (h : Unproven c) (given : s.header.ack = some ack) :
    c.unackedAfter ack ≠ c.send.unacked ↔ s.Acknowledges c := by
  have looked : _ ∧ ack.after c.send.next = false ↔ _ := SeqNumber.acknowledges_iff h.room.1
  have none : ¬ c.send.unacked = c.send.next := h.room.2
  simp only [none, false_and, or_false] at looked
  have reads : s.Acknowledges c ↔ 0 < ack.ahead c.send.unacked ∧
      ack.ahead c.send.unacked ≤ c.send.next.ahead c.send.unacked := by
    simp [Segment.Acknowledges, given]
  rw [reads, ← looked, unackedAfter]
  split
  · rename_i valid
    refine ⟨fun _ => valid, fun _ same => ?_⟩
    rw [same, SeqNumber.before_iff, SeqNumber.ahead_self] at valid
    omega
  · rename_i invalid
    exact ⟨fun moved => absurd rfl moved, fun valid => absurd valid invalid⟩

theorem arrivesWithAck_silent (state : c.state = .synReceived)
    (still : c.unackedAfter ack = c.send.unacked) (h : (c.arrivesWithAck s ack now).Ends σ a) :
    σ = [] := by
  unfold arrivesWithAck at h
  rw [if_pos state] at h
  split at h
  · rename_i valid
    obtain ⟨above, sent⟩ := Bool.and_eq_true_iff.mp valid
    rw [unackedAfter, if_pos ⟨above, SeqNumber.atOrBefore_iff.mp sent⟩] at still
    rw [still, SeqNumber.before_iff, SeqNumber.ahead_self] at above
    omega
  · simp only [Act.ends_bind, Act.ends_lift, Act.ends_pure] at h
    obtain ⟨_, _, _, ⟨rfl, _⟩, ⟨rfl, _⟩, rfl⟩ := h
    rfl

/-- A segment that hands out text before our SYN was acknowledged acknowledges it, unless our FIN has
    been sent. -/
theorem Unproven.arrives_handed (h : Unproven c) (coherent : Coherent c)
    (long : s.header.textLength = s.text.length) (arrives : (c.arrives s iss now).Ends σ a)
    (hands : handed σ ≠ []) :
    a.connection.send.unacked ≠ c.send.unacked ↔ ¬ (c.state = .finWait1 ∧ ¬ s.Acknowledges c) := by
  have synchronized (live : c.state.isSynchronized = true) :
      ∃ ack, (a.connection.send.unacked ≠ c.send.unacked ↔ s.Acknowledges c) ∧
        c.unackedAfter ack = a.connection.send.unacked ∧ (c.arrivesWithAck s ack now).Ends σ a := by
    rw [arrives_synchronized live] at arrives
    obtain ⟨ack, _, given, ends⟩ := processed_of_handed arrives hands
    have moved := arrivesWithAck_unacked ends
    exact ⟨ack, moved ▸ h.unackedAfter_iff given, moved.symm, ends⟩
  have moves (elsewhere : c.state ≠ .finWait1) (moved : a.connection.send.unacked ≠ c.send.unacked) :
      a.connection.send.unacked ≠ c.send.unacked ↔ ¬ (c.state = .finWait1 ∧ ¬ s.Acknowledges c) :=
    ⟨fun _ both => elsewhere both.1, fun _ => moved⟩
  have states := h.states
  simp only [List.mem_cons, List.not_mem_nil, or_false] at states
  rcases states with state | state | state | state
  · refine moves (by simp [state]) fun still => hands ?_
    have first := arrives_first coherent (by rw [state]; rfl) long arrives
    unfold Connection.arrives at arrives
    rw [state] at arrives
    refine arrivesSynSent_silent arrives ?_
    rcases first with (gone | gone) | ⟨_, asks | received | moved⟩
    · rw [gone]; rfl
    · rw [gone]; rfl
    · rw [asks]; rfl
    · rw [received]; rfl
    · exact absurd still moved
  · obtain ⟨ack, _, moved, ends⟩ := synchronized (by rw [state]; rfl)
    refine moves (by simp [state]) fun still => hands ?_
    rw [arrivesWithAck_silent state (moved.trans still) ends]
    rfl
  · obtain ⟨_, moved, _⟩ := synchronized (by rw [state]; rfl)
    rw [moved]
    simp [state]
  · obtain ⟨ack, _, moved, ends⟩ := synchronized (by rw [state]; rfl)
    refine moves (by simp [state]) fun still => hands ?_
    unfold arrivesWithAck at ends
    rw [if_neg (by simp [state])] at ends
    have waits : c.state ∈ [.finWait1, .closing] := by simp [state]
    rw [(acknowledge_waits waits (h.finAcked waits) (moved.trans still) ends).2 state]
    rfl

theorem Unproven.synchronized_waits (h : Unproven c) (waits : c.state ∈ [.finWait1, .closing])
    (busy' : ¬ a.connection.Free) (still : a.connection.send.unacked = c.send.unacked)
    (arrives : (c.arrivesSynchronized s now).Ends σ a) : a.connection.state ∈ [.finWait1, .closing] := by
  have idle (idle : ¬ c.Processes s ∨ s.header.ack = none) :
      a.connection.state ∈ [.finWait1, .closing] := by
    rcases arrivesSynchronized_idle arrives idle with ⟨_, ends⟩ | ⟨_, _, same⟩
    · obtain ⟨_, shut⟩ := terminate_ends.mp ends
      exact absurd (Or.inl (by rw [shut]; rfl)) busy'
    · rw [same]
      exact waits
  have begun : c.state ≠ .synReceived := by
    intro state
    rw [state] at waits
    exact absurd waits (by decide)
  by_cases processed : c.Processes s
  · cases given : s.header.ack with
    | none => exact idle (Or.inr given)
    | some ack =>
      rw [arrivesSynchronized_processed processed given] at arrives
      have moved := arrivesWithAck_unacked arrives
      unfold arrivesWithAck at arrives
      rw [if_neg begun] at arrives
      exact (acknowledge_waits waits (h.finAcked waits) (moved.symm.trans still) arrives).1
  · exact idle (Or.inl processed)

theorem Unproven.arrives (h : Unproven c) (coherent : Coherent c)
    (long : s.header.textLength = s.text.length) (busy' : ¬ a.connection.Free)
    (still : a.connection.send.unacked = c.send.unacked)
    (arrives : (c.arrives s iss now).Ends σ a) : Unproven a.connection := by
  have away : c.state ≠ .listen := by
    intro listen
    have states := h.states
    rw [listen] at states
    exact absurd states (by decide)
  have moves := (arrives_handled coherent.fresh arrives).1
  have quiet := quiet_moves away moves
  have fin : a.connection.send.fin = c.send.fin := by
    rcases quiet.goes with gone | ⟨_, fin, _⟩
    · exact absurd (Or.inl gone) busy'
    · exact fin
  refine h.keeps still (moves_initial away moves) quiet.next fin ?_
  rcases h.kinds with early | waits
  · refine Or.inl ⟨early, ?_⟩
    simp only [List.mem_cons, List.not_mem_nil, or_false] at early ⊢
    rcases early with state | state
    · have first := arrives_first coherent (by rw [state]; rfl) long arrives
      rcases (first.resolve_left busy').2 with asks | received | moved
      · exact Or.inl asks
      · exact Or.inr received
      · exact absurd still moved
    · rcases arrives_leaves state arrives with received | gone | moved
      · exact Or.inr received
      · exact absurd (Or.inl gone) busy'
      · exact absurd still moved
  · have live : c.state.isSynchronized = true := by
      simp only [List.mem_cons, List.not_mem_nil, or_false] at waits
      rcases waits with state | state <;> simp [state, State.isSynchronized]
    rw [arrives_synchronized live] at arrives
    exact Or.inr ⟨waits, h.synchronized_waits waits busy' still arrives⟩

theorem Unproven.called (h : Unproven c) (busy' : ¬ c'.Free)
    (called : Called iss now call event c σ ds c') : Unproven c' := by
  have busy : ¬ c.Free := by
    have states := h.states
    rintro (state | state) <;> rw [state] at states <;> exact absurd states (by decide)
  cases called with
  | told | idle => exact h
  | timed => exact ⟨h.unacked, h.states, h.syn, h.fin⟩
  | listen free | fail free | ask free => exact absurd free busy
  | send live =>
    have states := h.states
    rcases live with state | state <;> rw [state] at states <;> exact absurd states (by decide)
  | receive _ _ ends =>
    rcases deliver_ends ends with ⟨_, rfl, _⟩ | ⟨_, _, _, _, rfl⟩
    · exact ⟨h.unacked, h.states, h.syn, h.fin⟩
    · exact ⟨h.unacked, h.states, h.syn, h.fin⟩
  | quit _ ends | abort _ ends =>
    obtain ⟨_, rfl⟩ := terminate_ends.mp ends
    exact absurd (Or.inl rfl) busy'
  | finish states =>
    have states' := h.states
    rcases states with ⟨state | state, rfl⟩ | ⟨state, rfl⟩
    · have next := h.syn (by simp [state])
      refine ⟨h.unacked, by simp [finished], fun early => ?_, fun _ => ⟨?_, ?_⟩⟩
      · simp [finished] at early
      · exact congrArg some next
      · change c.send.next.advance 1 = c.send.initial.advance 2
        rw [next, SeqNumber.advance_advance]
    · rw [state] at states'
      exact absurd states' (by decide)
    · rw [state] at states'
      exact absurd states' (by decide)

theorem onTimer_handed {config : Config} {segments : List Segment}
    (h : (c.onTimer now config).Ends σ (c', segments)) : handed σ = [] := by
  rcases onTimer_ends h with ⟨_, ⟨rfl, _⟩ | ends⟩ | ⟨_, _, _, σ₁, σ₂, σ₃, first, second, rfl, last⟩
  · rfl
  · obtain ⟨rfl, _⟩ := terminate_ends.mp ends
    exact handed_fails _ _
  · obtain ⟨_, _, rfl⟩ := release_ends first
    obtain ⟨_, _, rfl⟩ := review_ends second
    rw [handed_append, handed_append, handed_done, handed_fails]
    rcases last with ⟨_, ends⟩ | ⟨rfl, _⟩
    · obtain ⟨rfl, _⟩ := terminate_ends.mp ends
      rw [handed_fails]
      rfl
    · rfl

/-- Text is handed out though our SYN is not acknowledged: to a call in SYN-RECEIVED, or in FIN-WAIT-1 by
    a call or a segment that does not acknowledge it. -/
def Hurries (c : Connection) (acknowledged : Nat) (event : Event) : Prop :=
  acknowledged = 0 ∧ (c.state = .synReceived ∧ event.segment? = none ∨
    c.state = .finWait1 ∧ ∀ s ∈ event.segment?, ¬ s.Acknowledges c)

instance (c : Connection) (acknowledged : Nat) (event : Event) :
    Decidable (c.Hurries acknowledged event) :=
  inferInstanceAs (Decidable (_ ∧ (_ ∨ _ ∧ ∀ s ∈ event.segment?, _)))

end Connection

variable {c c' : Connection} {now : Instant} {call : CallId} {event : Event} {σ : List Signal}
  {ds : List Datagram} {config : Config}

theorem befalls_unproven (coherent : c.Coherent) (unproven : c.Unproven) (busy' : ¬ c'.Free)
    (still : c'.send.unacked = c.send.unacked) (h : Befalls config now call event c σ ds c') :
    c'.Unproven := by
  cases h with
  | spared => exact unproven
  | called _ _ called => exact unproven.called busy' called
  | arrived _ brings _ arrives =>
    exact unproven.arrives coherent (Event.long_of_segment? brings) busy' still arrives
  | timed ends =>
    have turns := (Connection.onTimer_turns ends).1
    have quiet := Connection.quiet_turns turns
    have state : c'.state = c.state :=
      (Connection.turns_state turns).resolve_right fun gone => busy' (Or.inl gone)
    have fin : c'.send.fin = c.send.fin := by
      rcases quiet.goes with gone | ⟨_, fin, _⟩
      · exact absurd (Or.inl gone) busy'
      · exact fin
    exact unproven.keeps still (Connection.turns_initial turns) quiet.next fin
      (unproven.kinds.imp (fun early => ⟨early, state ▸ early⟩) fun waits => ⟨waits, state ▸ waits⟩)

theorem begins_unproven (still : c'.send.unacked = c'.send.initial)
    (h : Begins now call event c σ ds c') : c'.Unproven := by
  cases h with
  | asks iss => exact ⟨rfl, by simp [Connection.asked], fun _ => rfl, by simp [Connection.asked]⟩
  | takes s iss arrival _ _ takes _ moves state =>
    have away := c.takenUp_away s iss now
    have initial : arrival.connection.send.initial = iss := Connection.moves_initial away moves
    refine ⟨still, by simp [state], fun _ => ?_, by simp [state]⟩
    rw [(Connection.quiet_moves away moves).next, initial]
    rfl

theorem called_handed {iss : SeqNumber} (coherent : c.Coherent) (hands : handed σ ≠ [])
    (called : Called iss now call event c σ ds c') :
    c'.send.unacked = c.send.unacked ∧ event.segment? = none ∧
      c.state.isSynchronized = true ∧ c.state ≠ .closing := by
  cases called with
  | told _ reply plain =>
    cases reply with
    | received octets => exact absurd (by rw [plain octets rfl]; rfl) hands
    | _ => exact absurd rfl hands
  | timed | listen | fail | ask | send | finish | idle => exact absurd rfl hands
  | quit _ ends =>
    obtain ⟨rfl, _⟩ := Connection.terminate_ends.mp ends
    rw [handed_append, handed_fails] at hands
    exact absurd rfl hands
  | abort _ ends =>
    obtain ⟨rfl, _⟩ := Connection.terminate_ends.mp ends
    exact absurd (handed_fails _ _) hands
  | receive _ _ ends _ due =>
    have unacked : c'.send.unacked = c.send.unacked := by rw [Connection.deliver_send ends]
    rcases Connection.deliver_ends ends with ⟨rfl, _⟩ | ⟨_, _, filled, _⟩
    · exact absurd rfl hands
    · refine ⟨unacked, rfl, ?_, fun closing => due (Or.inl closing)⟩
      rw [← Bool.not_eq_false]
      intro dead
      rw [Ring.isEmpty_iff.mpr (coherent.silent dead).2] at filled
      cases filled

theorem befalls_free_handed (coherent : c.Coherent) (free : c.Free)
    (h : Befalls config now call event c σ ds c') : handed σ = [] := by
  by_contra hands
  have dead := Connection.dead_of_free free
  cases h with
  | spared => exact hands rfl
  | called _ _ called =>
    rw [(called_handed coherent hands called).2.2.1] at dead
    cases dead
  | arrived _ _ _ arrives =>
    obtain ⟨rfl, _⟩ := Connection.arrives_free free arrives
    exact hands rfl
  | timed ends => exact hands (Connection.onTimer_handed ends)

def Unheard (l : Life) (c : Connection) : Prop := l.acknowledged = 0 → c.Unproven

theorem unheard_lasts (here : Endpoint) :
    Stack.Lasting here (fun _ _ _ => True) (fun _ => True) Unheard where
  onward := fun _ _ => trivial
  begins := by
    intro place event now l c c' σ ds _ _ _ _ begins _
    refine ⟨trivial, fun none => begins_unproven ?_ begins⟩
    exact (SeqNumber.eq_iff_ahead.mpr (Nat.add_eq_zero_iff.mp none).2).symm
  goes := by
    intro k k' place event now rest l c c' σ ds sound _ _ found _ _ befalls _ unheard
    refine ⟨trivial, fun busy' none => ?_⟩
    obtain ⟨none, still⟩ := Nat.add_eq_zero_iff.mp none
    exact befalls_unproven (sound.proper.found found) (unheard none) busy'
      (SeqNumber.eq_iff_ahead.mpr still).symm befalls

/-- Text that is handed out follows an acknowledgment of our SYN, unless it was hurried. -/
theorem befalls_handed {l : Life} (coherent : c.Coherent) (unheard : Unheard l c)
    (hands : handed σ ≠ []) (h : Befalls config now call event c σ ds c') :
    0 < l.acknowledged + c'.send.unacked.ahead c.send.unacked ↔
      ¬ c.Hurries l.acknowledged event := by
  rcases Nat.eq_zero_or_pos l.acknowledged with none | some
  swap
  · refine ⟨fun _ hurries => ?_, fun _ => Nat.add_pos_left some _⟩
    exact Nat.lt_irrefl 0 (hurries.1 ▸ some)
  · have unproven := unheard none
    have moved : 0 < l.acknowledged + c'.send.unacked.ahead c.send.unacked ↔
        c'.send.unacked ≠ c.send.unacked := by
      rw [none, Nat.zero_add, Nat.pos_iff_ne_zero, ne_eq, ← SeqNumber.eq_iff_ahead, eq_comm]
    rw [moved]
    cases h with
    | spared => exact absurd rfl hands
    | called _ _ called =>
      obtain ⟨still, unasked, live, going⟩ := called_handed coherent hands called
      refine ⟨fun apart => absurd still apart, fun straight => absurd ⟨none, ?_⟩ straight⟩
      have states := unproven.states
      simp only [List.mem_cons, List.not_mem_nil, or_false] at states
      rcases states with state | state | state | state
      · exact absurd state (Connection.not_asking live)
      · exact Or.inl ⟨state, unasked⟩
      · refine Or.inr ⟨state, ?_⟩
        rw [unasked]
        exact fun _ member => absurd member (Option.not_mem_none _)
      · exact absurd state going
    | arrived _ brings _ arrives =>
      rw [unproven.arrives_handed coherent (Event.long_of_segment? brings) arrives hands,
        Connection.Hurries, brings]
      simp [none]
    | timed ends => exact absurd (Connection.onTimer_handed ends) hands

namespace Stack

variable {k k' : Stack} {now : Instant} {σ τ : List Signal} {event : Event} {answer : Answer}
  {place : Nat} {history : List (Event × Instant)} {call : CallId} {octets : Octets}

theorem told_somewhere (proper : Proper k) (ends : (k.handle event now place).Ends σ (k', answer))
    (told : ⟨call, .received octets⟩ ∈ σ) :
    ∃ here c, k.table.get? here = some c ∧ c.expects event place call = true := by
  have member : call ∈ answered σ := List.mem_map_of_mem told
  rcases List.mem_append.mp ((handle_balances proper ends).subset (List.mem_append_left _ member)) with
    waits | made
  · obtain ⟨c, there, waits⟩ := List.mem_flatMap.mp waits
    exact ⟨c.here, c, get?_of_there proper there, Connection.expects_waiting waits⟩
  · cases handle_happens proper.distinct ends with
    | kept | bound | removed => exact absurd told List.not_mem_nil
    | called callee calls =>
      cases calls with
      | absent =>
        split at told
        · cases List.mem_singleton.mp told
        · exact absurd told List.not_mem_nil
      | @present _ c _ _ _ _ found called =>
        have callee' : event.callee? = some c.here := by rw [callee, (Table.get?_some found).2]
        exact ⟨_, c, found, called_expects callee' called call member⟩
    | taken | swept => exact absurd made List.not_mem_nil

/-- In every history that begins with an empty table, a call that is answered with some text belongs to a
    connection whose SYN was acknowledged by then, unless the connection hurries. -/
theorem text_after_handshake_iff {config : Config} {generator : SeqGenerator}
    (ends : ((Stack.empty config generator).run 0 history).Ends σ k)
    (last : (k.handle event now history.length).Ends τ (k', answer))
    (told : ⟨call, .received octets⟩ ∈ τ) (filled : octets ≠ []) :
    ∃ here c, k.table.get? here = some c ∧ c.expects event history.length call = true ∧
      let l := (Stack.empty config generator).lived here .unborn 0 history
      (0 < (l.after here event history.length τ k k').acknowledged ↔
        ¬ c.Hurries l.acknowledged event) := by
  have sound := run_sound (sound_empty config generator) ends
  rw [Nat.zero_add] at sound
  obtain ⟨here, c, found, mine⟩ := told_somewhere sound.proper last told
  refine ⟨here, c, found, mine, ?_⟩
  have hands : handed (τ.filter fun signal => c.expects event history.length signal.call) ≠ [] :=
    handed_of_mem (List.mem_filter.mpr ⟨told, mine⟩) filled
  obtain ⟨_, _, _, goes⟩ := (unheard_lasts here).run [] (sound_empty config generator) trivial
    (lasts_none (l := .unborn) trivial) ends
  have coherent := sound.proper.found found
  rcases handle_befalls sound found last with ⟨⟨_, rfl⟩, _⟩ | ⟨c', ds, found', log, befalls⟩
  · exact absurd told List.not_mem_nil
  · have busy : ¬ c.Free := fun free => hands (befalls_free_handed coherent free befalls)
    dsimp only
    rw [Life.after, found, found']
    dsimp only
    rw [Life.observe_onward busy]
    exact befalls_handed coherent (goes c found busy) hands befalls

theorem welcome_after_handshake : ∃ σ k τ k' answer,
    ((Stack.empty { receiveWindow := 8 } (.ofKey 1 2)).run 0 greeted).Ends σ k ∧
    (k.handle welcome .start greeted.length).Ends τ (k', answer) ∧
    ⟨2, .received [103, 114, 101, 101, 116]⟩ ∈ τ ∧
    ∃ here c, k.table.get? here = some c ∧ c.expects welcome greeted.length 2 = true ∧
      let l := (Stack.empty { receiveWindow := 8 } (.ofKey 1 2)).lived here .unborn 0 greeted
      (0 < (l.after here welcome greeted.length τ k k').acknowledged ↔
        ¬ c.Hurries l.acknowledged welcome) := by
  let start := Stack.empty { receiveWindow := 8 } (.ofKey 1 2)
  let k := (start.run 0 greeted).result start
  have ends : (start.run 0 greeted).Ends _ k := Act.ends_result start (by decide +kernel)
  have told : (k.handle welcome .start greeted.length).signals
      = [⟨2, .received [103, 114, 101, 101, 116]⟩] := by decide +kernel
  obtain ⟨⟨k', answer⟩, last⟩ : ∃ result, (k.handle welcome .start greeted.length).Ends
      [⟨2, .received [103, 114, 101, 101, 116]⟩] result :=
    ⟨_, told ▸ Act.ends_result (k, Answer.accepted) (by decide +kernel)⟩
  exact ⟨_, k, _, k', answer, ends, last, List.mem_singleton.mpr rfl,
    text_after_handshake_iff ends last (List.mem_singleton.mpr rfl) (by decide)⟩

def unheeded : List (Event × Instant) := expecting.take 2 ++ [(greeting, .start)]

/-- A receive call in SYN-RECEIVED is answered at once, though SND.UNA still is our initial number. -/
theorem greeting_hurried : ∃ σ k τ k' answer c,
    ((Stack.empty { receiveWindow := 8 } (.ofKey 1 2)).run 0 unheeded).Ends σ k ∧
    (k.handle (.receive ⟨⟨10, 0, 0, 1⟩, 80⟩ 5) .start unheeded.length).Ends τ (k', answer) ∧
    ⟨unheeded.length, .received [103, 114, 101, 101, 116]⟩ ∈ τ ∧
    k'.table.get? ⟨⟨10, 0, 0, 1⟩, 80⟩ = some c ∧ c.state = .synReceived ∧
    c.send.unacked = c.send.initial := by
  let start := Stack.empty { receiveWindow := 8 } (.ofKey 1 2)
  let k := (start.run 0 unheeded).result start
  let act := k.handle (.receive ⟨⟨10, 0, 0, 1⟩, 80⟩ 5) .start unheeded.length
  let k' := (act.result (k, .accepted)).1
  let c := (k'.table.get? ⟨⟨10, 0, 0, 1⟩, 80⟩).getD (.bound ⟨⟨10, 0, 0, 1⟩, 80⟩ {})
  have ends : (start.run 0 unheeded).Ends _ k := Act.ends_result start (by decide +kernel)
  have last : act.Ends _ (k', _) := (Act.ends_result (k, Answer.accepted) (by decide +kernel)).pair
  exact ⟨_, k, _, k', _, c, ends, last, by decide +kernel, by decide +kernel, by decide +kernel,
    by decide +kernel⟩

end Stack
end TcpEngine

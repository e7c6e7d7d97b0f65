import TcpEngine.Proofs.Acknowledgment
import TcpEngine.Proofs.Connection.Hearing
import TcpEngine.Proofs.Connection.Limits

/-!
What comes out of the arrival of a segment at a synchronized connection. It is over, or it has looked
at no text, or it has looked at the text and the FIN of the segment once. So RCV.NXT moves forward by
no more than the window and a FIN, and a FIN is counted exactly if RCV.NXT comes to stand behind it.
-/
namespace TcpEngine

def State.finWaits : State → Bool
  | .finWait1 | .closing | .lastAck => true
  | _ => false

def Segment.finCounted (s : Segment) (c c' : Connection) : Bool :=
  s.header.flags.has .fin && c'.state.isSynchronized &&
    c'.receive.next.ahead (s.header.seq.advance (s.header.flags.has .syn).toNat)
      == s.header.textLength + 1 &&
    !(c.state.isSynchronized && c'.receive.next == c.receive.next)

namespace Connection

variable {s : Segment} {iss : SeqNumber} {now : Instant} {σ : List Signal} {a : Arrival}
  {c c' d : Connection}

/- The FIN of a segment, told from where RCV.NXT stands. -/

theorem finCounted_still (live : c.state.isSynchronized = true)
    (still : c'.receive.next = c.receive.next) : s.finCounted c c' = false := by
  simp [Segment.finCounted, live, still]

theorem finCounted_dead (dead : c'.state.isSynchronized = false) : s.finCounted c c' = false := by
  simp [Segment.finCounted, dead]

theorem finCounted_text {n : Nat} (short : n ≤ s.header.textLength)
    (place : c'.receive.next
      = (s.header.seq.advance (s.header.flags.has .syn).toNat).advance n) :
    s.finCounted c c' = false := by
  have less := Nat.mod_le n 0x100000000
  have apart : n % 0x100000000 ≠ s.header.textLength + 1 := by omega
  simp [Segment.finCounted, place, SeqNumber.ahead_advance_self, apart]

theorem finCounted_fin (fin : s.header.flags.has .fin = true)
    (short : s.header.textLength < SeqNumber.halfCircle) (live : c'.state.isSynchronized = true)
    (place : c'.receive.next = (textStop s).advance 1)
    (moved : c.state.isSynchronized = true → c'.receive.next ≠ c.receive.next) :
    s.finCounted c c' = true := by
  simp only [SeqNumber.halfCircle] at short
  have apart : c'.receive.next.ahead (s.header.seq.advance (s.header.flags.has .syn).toNat)
      = s.header.textLength + 1 := by
    rw [place, textStop, SeqNumber.advance_advance, Nat.add_assoc, ← SeqNumber.advance_advance,
      SeqNumber.ahead_advance (by omega)]
  have elsewhere : (c.state.isSynchronized && c'.receive.next == c.receive.next) = false := by
    cases synchronized : c.state.isSynchronized with
    | false => rfl
    | true => simpa using moved synchronized
  simp [Segment.finCounted, fin, live, apart, elsewhere]

/- The parts of the receive step. -/

theorem acceptText_next {seq : SeqNumber} {text : Octets} (limited : c.Limited)
    (h : c.acceptText seq text = .ok c') :
    c'.receive.initial = c.receive.initial ∧ ∃ n, n ≤ 65535 ∧
      c'.receive.next = c.receive.next.advance n ∧
      (n = 0 ∨ ∃ place, place ≤ text.length ∧ c'.receive.next = seq.advance place) := by
  rcases acceptText_ok h with rfl | ⟨known, taken, here, _, part, room, rfl⟩
  · exact ⟨rfl, 0, Nat.zero_le _, (SeqNumber.advance_zero _).symm, Or.inl rfl⟩
  · have capacity := limited.room
    unfold Ring.window at room
    refine ⟨rfl, taken.length, by omega, rfl, ?_⟩
    by_cases none : taken.length = 0
    · exact Or.inl none
    · have long := part.length_le
      rw [List.length_drop] at long
      refine Or.inr ⟨known + taken.length, by omega, ?_⟩
      change c.receive.next.advance taken.length = _
      rw [here, SeqNumber.advance_advance]

theorem receiveFin_counts {finished : Bool} (h : (c.receiveFin s now).Ends σ (c', finished)) :
    c' = c ∨ s.header.flags.has .fin = true ∧ s.header.textLength < SeqNumber.halfCircle ∧
      textStop s = c.receive.next ∧ c'.receive.initial = c.receive.initial ∧
      c'.receive.next = c.receive.next.advance 1 ∧ c'.state = (c.ended.peerFinished now).state := by
  rcases receiveFin_ends h with ⟨_, same⟩ | ⟨fin, place, ends⟩
  · exact Or.inl (Prod.mk.inj same).1
  · have state : c'.state = (c.ended.peerFinished now).state := by
      obtain ⟨rfl, _⟩ := Prod.mk.inj (countFin_ends ends).2
      rfl
    obtain ⟨_, _, rfl⟩ := countFin_counts ends
    exact Or.inr ⟨fin, receiveFin_short h fin, place, rfl, rfl, state⟩

theorem peerFinished_keeps_done (now : Instant) (live : c.state.pastHandshake = true) :
    (c.peerFinished now).state.peerDone = true := by
  cases done : c.state.peerDone with
  | false => exact peerFinished_done now live done
  | true =>
    unfold peerFinished
    split
    · rfl
    · rfl
    · split <;> rfl
    · rfl
    · exact done
    · exact done

theorem peerFinished_waits (now : Instant) (h : (c.peerFinished now).state.finWaits = true) :
    c.state.finWaits = true := by
  unfold peerFinished at h
  split at h
  · cases h
  · cases h
  · rename_i state
    rw [state]
    rfl
  · cases h
  · exact h
  · exact h

/-- The receive step of a segment: its text first, and then its FIN. -/
theorem receiveContent_parts (limited : c.Limited) (h : (c.receiveContent s now).Ends σ a) :
    ∃ (c₁ : Connection) (τ : List Signal) (finished : Bool) (n : Nat),
      c₁.state = c.state ∧ c₁.receive.initial = c.receive.initial ∧ n ≤ 65535 ∧
      c₁.receive.next = c.receive.next.advance n ∧
      (n = 0 ∨ ∃ place, place ≤ s.text.length ∧ c₁.receive.next = s.header.seq.advance place) ∧
      (c₁.receiveFin s now).Ends τ (a.connection, finished) := by
  obtain ⟨urgent, c₁, τ, finished, rfl | ⟨kept, _, taken, served⟩, fin⟩ := receiveContent_ends h
  · exact ⟨{ c with receive := { c.receive with urgent } }, τ, finished, 0, rfl, rfl, Nat.zero_le _,
      (SeqNumber.advance_zero _).symm, Or.inl rfl, fin⟩
  · have noted : Limited { c with receive := { c.receive with urgent } } :=
      ⟨limited.room, limited.brief, limited.fresh⟩
    obtain ⟨initial, n, short, forward, place⟩ := acceptText_next noted taken
    have same : c₁.receive = kept.receive := by
      rcases deliver_ends served with ⟨_, rfl, _⟩ | ⟨_, _, _, _, rfl⟩ <;> rfl
    refine ⟨c₁, τ, finished, n, ?_, ?_, short, ?_, ?_, fin⟩
    · rw [deliver_state served, acceptText_state taken]
    · rw [same, initial]
    · rw [same, forward]
    · rw [same]
      exact place

/-- What becomes of a synchronized connection when a segment arrives. -/
inductive Outcome (s : Segment) (now : Instant) (c : Connection) : Arrival → Prop where
  | gone {a : Arrival} (closed : a.connection.state = .closed) : Outcome s now c a
  | still {a : Arrival} (receive : a.connection.receive = c.receive)
      (done : a.connection.state.peerDone = c.state.peerDone)
      (waits : a.connection.state.finWaits = true →
        c.state.finWaits = true ∧ a.connection.finAcked = c.finAcked) : Outcome s now c a
  /-- The segment has acknowledged something, but not our FIN, and is not looked at any more. -/
  | unfinished {a : Arrival} (receive : a.connection.receive = c.receive)
      (done : a.connection.state.peerDone = c.state.peerDone)
      (waits : a.connection.finAcked = false) : Outcome s now c a
  | content {d : Connection} {τ : List Signal} {a : Arrival} (receive : d.receive = c.receive)
      (limited : c.Limited → d.Limited) (past : d.state.pastHandshake = true)
      (done : d.state.peerDone = c.state.peerDone)
      (waits : d.state.finWaits = true → d.finAcked = false)
      (plain : s.header.flags.has .syn = false) (ends : (d.receiveContent s now).Ends τ a) :
      Outcome s now c a

structure Alike (c d : Connection) : Prop where
  receive : d.receive = c.receive
  limited : c.Limited → d.Limited
  done : d.state.peerDone = c.state.peerDone
  past : d.state.pastHandshake = true

theorem progress_outcome (alike : Alike c d) (plain : s.header.flags.has .syn = false)
    (h : (d.progress s now).Ends σ a) : Outcome s now c a := by
  have done := alike.done
  have unfinished (waits : ¬ d.finAcked = true) (same : a = .silent d) : Outcome s now c a := by
    subst same
    exact .unfinished alike.receive done (Bool.not_eq_true _ ▸ waits)
  have moved (state : State) (waitingSince : Instant) (later : state ≠ .synReceived) :
      c.Limited → Limited { d with state, waitingSince } := fun limited =>
    ⟨(alike.limited limited).room, (alike.limited limited).brief, fun back => absurd back later⟩
  unfold progress at h
  split at h
  · rename_i state
    rw [state] at done
    split at h
    · refine .content (d := { d with state := .finWait2 }) alike.receive ?_ rfl done ?_ plain h
      · exact moved .finWait2 d.waitingSince (by decide)
      · intro waits
        cases waits
    · rename_i waits
      exact .content alike.receive alike.limited alike.past alike.done (fun _ => by simpa using waits) plain h
  · rename_i state
    rw [state] at done
    split at h
    · refine .content (d := d.enterTimeWait now) alike.receive ?_ rfl done ?_ plain h
      · exact moved .timeWait now (by decide)
      · intro waits
        cases waits
    · rename_i waits
      exact unfinished waits (Act.ends_pure.mp h).2
  · split at h
    · rw [Act.ends_bind] at h
      obtain ⟨_, d', _, ends, h, _⟩ := h
      obtain ⟨_, rfl⟩ := Act.ends_pure.mp h
      obtain ⟨_, rfl⟩ := terminate_ends.mp ends
      exact .gone rfl
    · rename_i waits
      exact unfinished waits (Act.ends_pure.mp h).2
  · rename_i first closing last
    refine .content alike.receive alike.limited alike.past alike.done ?_ plain h
    intro waits
    cases state : d.state <;> first
      | exact absurd state first
      | exact absurd state closing
      | exact absurd state last
      | (rw [state] at waits; cases waits)

theorem acknowledge_outcome {ack : SeqNumber} (alike : Alike c d)
    (waits : d.state.finWaits = true → c.state.finWaits = true ∧ d.finAcked = c.finAcked)
    (plain : s.header.flags.has .syn = false) (h : (d.acknowledge s ack now).Ends σ a) :
    Outcome s now c a := by
  have refreshed {e : Connection} (alike : Alike c e) :
      Alike c (e.refreshWindow s.header ack) := by
    obtain ⟨_, _, _, same⟩ := refreshWindow_eq e s.header ack
    rw [same]
    exact ⟨alike.receive,
      fun limited => ⟨(alike.limited limited).room, (alike.limited limited).brief,
        (alike.limited limited).fresh⟩, alike.done, alike.past⟩
  rw [acknowledge_eq] at h
  split at h
  · obtain ⟨_, rfl⟩ := Act.ends_pure.mp h
    exact .still alike.receive alike.done waits
  · split at h
    · rw [Act.ends_bind] at h
      obtain ⟨_, _, _, ends, h, _⟩ := h
      obtain ⟨queue, roundTrip, released, rfl⟩ := releaseAcked_ends ends
      obtain ⟨_, taken, _⟩ := release_ends released
      have acked : Alike c { d with send := { d.send with unacked := ack }, queue, roundTrip } := by
        refine ⟨alike.receive, fun limited => ⟨(alike.limited limited).room, ?_, ?_⟩, alike.done,
          alike.past⟩
        · intro e member
          apply (alike.limited limited).brief e
          rw [show d.queue = _ from taken.split]
          exact List.mem_append_right _ member
        · intro state
          have past := alike.past
          rw [show d.state = .synReceived from state] at past
          cases past
      exact progress_outcome (refreshed acked) plain h
    · rw [pure_bind] at h
      exact progress_outcome (refreshed alike) plain h

theorem arrivesWithAck_outcome {ack : SeqNumber} (live : c.state.isSynchronized = true)
    (plain : s.header.flags.has .syn = false) (h : (c.arrivesWithAck s ack now).Ends σ a) :
    Outcome s now c a := by
  unfold arrivesWithAck at h
  split at h
  · rename_i state
    split at h
    · rw [Act.ends_bind] at h
      obtain ⟨_, c₁, _, served, h, _⟩ := h
      have opened : c₁.state = .established := deliver_state served
      have receive : c₁.receive = c.receive := by
        rcases deliver_ends served with ⟨_, rfl, _⟩ | ⟨_, _, _, _, rfl⟩ <;> rfl
      refine acknowledge_outcome ⟨receive, ?_, ?_, ?_⟩ ?_ plain h
      · intro limited
        have opening : Limited { c with state := .established } := by
          refine ⟨limited.room, limited.brief, ?_⟩
          intro back
          cases back
        exact limited_deliver opening served
      · rw [opened, state]
        rfl
      · rw [opened]
        rfl
      · intro waits
        rw [opened] at waits
        cases waits
    · simp only [Act.ends_bind, Act.ends_lift, Act.ends_pure] at h
      obtain ⟨_, _, _, _, ⟨_, rfl⟩, _⟩ := h
      exact .still rfl rfl fun waits => ⟨waits, rfl⟩
  · rename_i state
    refine acknowledge_outcome ⟨rfl, id, rfl, ?_⟩ (fun waits => ⟨waits, rfl⟩) plain h
    simp [State.pastHandshake, live, state]

theorem arrivesSynchronized_outcome (live : c.state.isSynchronized = true)
    (h : (c.arrivesSynchronized s now).Ends σ a) : Outcome s now c a := by
  have idle (idle : ¬ c.Processes s ∨ s.header.ack = none) : Outcome s now c a := by
    rcases arrivesSynchronized_idle h idle with ⟨_, ends⟩ | ⟨_, _, same⟩
    · obtain ⟨_, shut⟩ := terminate_ends.mp ends
      refine .gone ?_
      rw [shut]
      rfl
    · refine .still ?_ ?_ ?_
      all_goals rw [same]
      exact fun waits => ⟨waits, rfl⟩
  by_cases processed : c.Processes s
  · cases given : s.header.ack with
    | none => exact idle (Or.inr given)
    | some ack =>
      rw [arrivesSynchronized_processed processed given] at h
      exact arrivesWithAck_outcome live processed.2.2 h
  · exact idle (Or.inl processed)

namespace Outcome

theorem waits (h : Outcome s now c a) (before : c.state.finWaits = true → c.finAcked = false)
    (after : a.connection.state.finWaits = true) : a.connection.finAcked = false := by
  cases h with
  | gone closed =>
    rw [closed] at after
    cases after
  | still _ _ waits =>
    obtain ⟨waited, same⟩ := waits after
    rw [same]
    exact before waited
  | unfinished _ _ waits => exact waits
  | @content d _ _ _ limited past done waits plain ends =>
    have send : a.connection.finAcked = d.finAcked := by
      unfold finAcked
      rw [receiveContent_send ends]
    rw [send]
    apply waits
    obtain ⟨urgent, c₁, _, _, taken, fin⟩ := receiveContent_ends ends
    have state : c₁.state = d.state := by
      rcases taken with rfl | ⟨kept, _, taken, served⟩
      · rfl
      · rw [deliver_state served, acceptText_state taken]
    rw [← state]
    rcases receiveFin_counts fin with same | ⟨_, _, _, _, _, finished⟩
    · exact same ▸ after
    · rw [finished] at after
      exact peerFinished_waits (c := c₁.ended) now after

theorem onward (h : Outcome s now c a) (limited : c.Limited) :
    a.connection.state = .closed ∨ a.connection.receive.initial = c.receive.initial ∧
      ∃ n, n ≤ 65536 ∧ a.connection.receive.next = c.receive.next.advance n := by
  cases h with
  | gone closed => exact Or.inl closed
  | still receive | unfinished receive =>
    refine Or.inr ⟨by rw [receive], 0, Nat.zero_le _, ?_⟩
    rw [receive, SeqNumber.advance_zero]
  | content receive limited' _ _ _ _ ends =>
    obtain ⟨c₁, _, _, n, _, initial, short, forward, _, fin⟩ :=
      receiveContent_parts (limited' limited) ends
    rw [receive] at initial forward
    rcases receiveFin_counts fin with same | ⟨_, _, _, initial', next, _⟩
    · rw [same]
      exact Or.inr ⟨initial, n, by omega, forward⟩
    · refine Or.inr ⟨initial'.trans initial, n + 1, by omega, ?_⟩
      rw [next, forward, SeqNumber.advance_advance]

theorem counts (h : Outcome s now c a) (limited : c.Limited)
    (long : s.header.textLength = s.text.length) (live : c.state.isSynchronized = true)
    (goes : a.connection.state ≠ .closed) :
    a.connection.state.peerDone = (c.state.peerDone || s.finCounted c a.connection) := by
  cases h with
  | gone closed => exact absurd closed goes
  | still receive done | unfinished receive done =>
    rw [finCounted_still live (by rw [receive]), Bool.or_false, done]
  | @content d _ _ receive limited' past done _ plain ends =>
    obtain ⟨c₁, _, _, n, state, _, short, forward, place, fin⟩ :=
      receiveContent_parts (limited' limited) ends
    rw [receive] at forward
    rcases receiveFin_counts fin with same | ⟨raised, small, here, _, next, finished⟩
    · have uncounted : s.finCounted c a.connection = false := by
        rw [same]
        rcases place with rfl | ⟨place, inside, stands⟩
        · exact finCounted_still live (forward.trans (SeqNumber.advance_zero _))
        · refine finCounted_text (n := place) (by omega) ?_
          rw [plain, Bool.toNat_false, SeqNumber.advance_zero]
          exact stands
      rw [uncounted, Bool.or_false, ← done, same, state]
    · have past₁ : c₁.ended.state.pastHandshake = true := by
        rw [← state] at past
        exact past
      have live' : a.connection.state.isSynchronized = true := by
        rw [finished]
        exact peerFinished_state c₁.ended now (synchronized_of_past past₁)
      have counted : s.finCounted c a.connection = true := by
        refine finCounted_fin raised small live' (by rw [next, here]) ?_
        intro _ same
        rw [next, forward, SeqNumber.advance_advance, ← SeqNumber.advance_zero c.receive.next,
          SeqNumber.advance_advance, SeqNumber.advance_eq_iff (by omega) (by omega)] at same
        omega
      rw [counted, Bool.or_true, finished]
      exact peerFinished_keeps_done now past₁

end Outcome

/- The first segment of the peer. -/

theorem acceptText_within {seq : SeqNumber} {text : Octets} (start : c.receive.next = seq)
    (h : c.acceptText seq text = .ok c') :
    ∃ place, place ≤ text.length ∧ c'.receive.next = seq.advance place := by
  rcases acceptText_ok h with rfl | ⟨known, taken, here, near, part, _, rfl⟩
  · exact ⟨0, Nat.zero_le _, start.trans (SeqNumber.advance_zero seq).symm⟩
  · have long := part.length_le
    rw [List.length_drop] at long
    refine ⟨taken.length, by omega, ?_⟩
    change c.receive.next.advance taken.length = _
    rw [start]

theorem finCounted_first {place : Nat} (syn : s.header.flags.has .syn = true)
    (long : s.header.textLength = s.text.length) (inside : place ≤ s.text.length)
    (stands : c'.receive.next = (s.header.seq.advance 1).advance place) :
    s.finCounted c c' = false := by
  refine finCounted_text (n := place) (by omega) ?_
  rw [syn]
  exact stands

theorem received_counts {place : Nat} (state : c'.state = .synReceived)
    (syn : s.header.flags.has .syn = true) (long : s.header.textLength = s.text.length)
    (inside : place ≤ s.text.length)
    (stands : c'.receive.next = (s.header.seq.advance 1).advance place) :
    c'.state.peerDone = s.finCounted c c' := by
  rw [finCounted_first syn long inside stands, state]
  rfl

theorem greeting_counts {kept : Connection} {window : SeqNumber} {place : Nat}
    (dead : c.state.isSynchronized = false) (syn : s.header.flags.has .syn = true)
    (long : s.header.textLength = s.text.length) (inside : place ≤ s.text.length)
    (stands : kept.receive.next = (s.header.seq.advance 1).advance place)
    (h : Act.Ends (do
      let c ← (setWindow { kept with state := .established } s.header window).deliver
      let (c, _) ← c.receiveFin s now
      return .answered c (c.control [.ack])) σ a) :
    a.connection.state.peerDone = s.finCounted c a.connection ∧
      a.connection.send.unacked = kept.send.unacked := by
  rw [Act.ends_bind] at h
  obtain ⟨_, c₁, _, served, h, rfl⟩ := h
  rw [Act.ends_bind] at h
  obtain ⟨_, ⟨c₂, finished⟩, _, fin, h, rfl⟩ := h
  obtain ⟨rfl, rfl⟩ := Act.ends_pure.mp h
  have state : c₁.state = .established := deliver_state served
  have next : c₁.receive.next = kept.receive.next := by
    rcases deliver_ends served with ⟨_, rfl, _⟩ | ⟨_, _, _, _, rfl⟩ <;> rfl
  have unacked : c₂.send.unacked = kept.send.unacked := by
    rw [receiveFin_send fin, deliver_send served]
    rfl
  refine ⟨?_, unacked⟩
  change c₂.state.peerDone = s.finCounted c c₂
  rcases receiveFin_counts fin with same | ⟨raised, small, here, _, after, closes⟩
  · subst same
    rw [finCounted_first syn long inside (next.trans stands), state]
    rfl
  · have past : c₁.ended.state.pastHandshake = true := by
      rw [show c₁.ended.state = c₁.state from rfl, state]
      rfl
    have live : c₂.state.isSynchronized = true := by
      rw [closes]
      exact peerFinished_state c₁.ended now (synchronized_of_past past)
    have counted : s.finCounted c c₂ = true := by
      refine finCounted_fin raised small live (by rw [after, here]) ?_
      intro synchronized
      rw [dead] at synchronized
      cases synchronized
    rw [counted, closes]
    exact peerFinished_keeps_done now past

theorem met_counts {d kept : Connection} (asked : c.state = .synSent)
    (fresh : c.send.unacked = c.send.initial) (syn : s.header.flags.has .syn = true)
    (long : s.header.textLength = s.text.length)
    (next : d.receive.next = s.header.seq.advance 1) (initial : d.send.initial = c.send.initial)
    (ok : d.acceptText (s.header.seq.advance 1) s.text = .ok kept)
    (h : Act.Ends (if kept.send.unacked.after kept.send.initial then do
        let c ← (setWindow { kept with state := .established } s.header kept.send.unacked).deliver
        let (c, _) ← c.receiveFin s now
        return .answered c (c.control [.ack])
      else
        let crossed : Connection :=
          { setWindow { kept with state := .synReceived } s.header kept.send.initial with
            queue := kept.queue.map fun e =>
              if e.flags.has .syn then { e with flags := .ofList [.syn, .ack] } else e }
        return .answered crossed (crossed.segment (.ofList [.syn, .ack]) crossed.send.initial []))
      σ a) :
    a.connection.state.peerDone = s.finCounted c a.connection ∧
      (a.connection.state = .synReceived ∨ a.connection.send.unacked ≠ c.send.unacked) := by
  have dead : c.state.isSynchronized = false := by
    rw [asked]
    rfl
  obtain ⟨place, inside, stands⟩ := acceptText_within next ok
  split at h
  · rename_i above
    obtain ⟨counts, same⟩ := greeting_counts dead syn long inside stands h
    refine ⟨counts, Or.inr ?_⟩
    intro back
    rw [← same, back, fresh, acceptText_send ok, initial, SeqNumber.after_iff,
      SeqNumber.ahead_self] at above
    omega
  · obtain ⟨_, rfl⟩ := Act.ends_pure.mp h
    refine ⟨received_counts rfl syn long inside ?_, Or.inl rfl⟩
    exact stands

theorem meet_counts (asked : c.state = .synSent) (fresh : c.send.unacked = c.send.initial)
    (syn : s.header.flags.has .syn = true) (long : s.header.textLength = s.text.length)
    (h : (c.meet s now).Ends σ a) :
    a.connection.state.peerDone = s.finCounted c a.connection ∧
      (a.connection.state = .synReceived ∨ a.connection.send.unacked ≠ c.send.unacked) := by
  unfold meet at h
  rw [Act.ends_bind] at h
  obtain ⟨_, first, τ, added, h, rfl⟩ := h
  obtain ⟨_, sum⟩ := Act.ends_lift.mp added
  obtain ⟨_, rfl⟩ := SeqNumber.add_ok.mp sum
  dsimp only at h
  split at h
  · split at h
    · rw [Act.ends_bind] at h
      obtain ⟨_, _, _, ends, h, rfl⟩ := h
      obtain ⟨queue, roundTrip, _, rfl⟩ := releaseAcked_ends ends
      rw [Act.ends_bind] at h
      obtain ⟨_, kept, _, taken, h, rfl⟩ := h
      refine met_counts asked fresh syn long ?_ ?_ (Act.ends_lift.mp taken).2 h
      · rfl
      · rfl
    · rw [pure_bind, Act.ends_bind] at h
      obtain ⟨_, kept, _, taken, h, rfl⟩ := h
      refine met_counts asked fresh syn long ?_ ?_ (Act.ends_lift.mp taken).2 h
      · rfl
      · rfl
  · rw [pure_bind, Act.ends_bind] at h
    obtain ⟨_, kept, _, taken, h, rfl⟩ := h
    refine met_counts asked fresh syn long ?_ ?_ (Act.ends_lift.mp taken).2 h
    · rfl
    · rfl

theorem takeUp_counts (syn : s.header.flags.has .syn = true)
    (long : s.header.textLength = s.text.length) (h : c.takeUp s iss now = .ok a) :
    a.connection.state.peerDone = s.finCounted c a.connection ∧ a.connection.state = .synReceived := by
  simp only [takeUp, except_bind_ok, SeqNumber.add_ok] at h
  obtain ⟨first, ⟨_, rfl⟩, next, ⟨_, rfl⟩, kept, ok, h⟩ := h
  obtain ⟨place, inside, stands⟩ := acceptText_within rfl ok
  have state : kept.state = .synReceived := acceptText_state ok
  split at h
  · obtain rfl := except_pure_ok.mp h
    exact ⟨received_counts state syn long inside stands, state⟩
  · obtain rfl := except_pure_ok.mp h
    refine ⟨received_counts state syn long inside ?_, state⟩
    exact stands

/-- A connection that was not synchronized is after an arrival what it was, or over, or it has counted
    the FIN of the segment if it shows that. Past the handshake our SYN was acknowledged. -/
theorem arrives_first (coherent : c.Coherent) (dead : c.state.isSynchronized = false)
    (long : s.header.textLength = s.text.length) (h : (c.arrives s iss now).Ends σ a) :
    a.connection.Free ∨ a.connection.state.peerDone = s.finCounted c a.connection ∧
      (a.connection.state = .synSent ∨ a.connection.state = .synReceived ∨
        a.connection.send.unacked ≠ c.send.unacked) := by
  unfold arrives at h
  split at h
  · rename_i closed
    simp only [Act.ends_bind, Act.ends_lift, Act.ends_pure] at h
    obtain ⟨_, _, _, _, ⟨_, rfl⟩, _⟩ := h
    exact Or.inl (Or.inl closed)
  · rename_i listen
    obtain ⟨_, ok⟩ := Act.ends_lift.mp h
    unfold arrivesListen at ok
    split at ok
    · cases ok
      exact Or.inl (Or.inr listen)
    · split at ok
      · simp only [except_bind_ok, except_pure_ok] at ok
        obtain ⟨_, _, rfl⟩ := ok
        exact Or.inl (Or.inr listen)
      · split at ok
        · rename_i takes
          obtain ⟨_, _, _, syn⟩ := takesUp_iff.mp takes
          obtain ⟨counts, state⟩ := takeUp_counts syn long ok
          exact Or.inr ⟨counts, Or.inr (Or.inl state)⟩
        · cases ok
          exact Or.inl (Or.inr listen)
  · rename_i asked
    have unmoved : c.state.peerDone = s.finCounted c c ∧ (c.state = .synSent ∨
        c.state = .synReceived ∨ c.send.unacked ≠ c.send.unacked) := by
      refine ⟨?_, Or.inl asked⟩
      rw [finCounted_dead dead, asked]
      rfl
    unfold arrivesSynSent at h
    dsimp only at h
    split at h
    · simp only [Act.ends_bind, Act.ends_lift, Act.ends_pure] at h
      obtain ⟨_, _, _, _, ⟨_, rfl⟩, _⟩ := h
      exact Or.inr unmoved
    · split at h
      · split at h
        · rw [Act.ends_bind] at h
          obtain ⟨_, _, _, ends, h, _⟩ := h
          obtain ⟨_, rfl⟩ := Act.ends_pure.mp h
          obtain ⟨_, rfl⟩ := terminate_ends.mp ends
          exact Or.inl (Or.inl rfl)
        · obtain ⟨_, rfl⟩ := Act.ends_pure.mp h
          exact Or.inr unmoved
      · split at h
        · rename_i syn
          obtain ⟨counts, moved⟩ := meet_counts asked (coherent.fresh asked) syn long h
          exact Or.inr ⟨counts, Or.inr moved⟩
        · obtain ⟨_, rfl⟩ := Act.ends_pure.mp h
          exact Or.inr unmoved
  · rename_i closed listen asked
    cases state : c.state <;> first | contradiction | (rw [state] at dead; cases dead)

theorem arrives_leaves (state : c.state = .synReceived) (h : (c.arrives s iss now).Ends σ a) :
    a.connection.state = .synReceived ∨ a.connection.state = .closed ∨
      a.connection.send.unacked ≠ c.send.unacked := by
  rw [arrives_synchronized (by rw [state]; rfl)] at h
  have idle (idle : ¬ c.Processes s ∨ s.header.ack = none) :
      a.connection.state = .synReceived ∨ a.connection.state = .closed := by
    rcases arrivesSynchronized_idle h idle with ⟨_, ends⟩ | ⟨_, _, same⟩
    · obtain ⟨_, shut⟩ := terminate_ends.mp ends
      rw [shut]
      exact Or.inr rfl
    · rw [same]
      exact Or.inl state
  by_cases processed : c.Processes s
  · cases given : s.header.ack with
    | none => exact (idle (Or.inr given)).imp id Or.inl
    | some ack =>
      rw [arrivesSynchronized_processed processed given] at h
      have moved := arrivesWithAck_unacked h
      unfold arrivesWithAck at h
      rw [if_pos state] at h
      split at h
      · rename_i valid
        obtain ⟨above, sent⟩ := Bool.and_eq_true_iff.mp valid
        refine Or.inr (Or.inr ?_)
        rw [moved, unackedAfter, if_pos ⟨above, SeqNumber.atOrBefore_iff.mp sent⟩]
        rintro rfl
        rw [SeqNumber.before_iff, SeqNumber.ahead_self] at above
        omega
      · simp only [Act.ends_bind, Act.ends_lift, Act.ends_pure] at h
        obtain ⟨_, _, _, _, ⟨_, rfl⟩, _⟩ := h
        exact Or.inl state
  · exact (idle (Or.inl processed)).imp id Or.inl

end Connection
end TcpEngine

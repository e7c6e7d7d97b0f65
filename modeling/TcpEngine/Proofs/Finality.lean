import TcpEngine.Proofs.Connection.Gaining
import TcpEngine.Proofs.Phases
import TcpEngine.Proofs.Stack.Utterance

/-!
Once the FIN of the peer is counted, nothing of the peer should be counted any more. Text is not looked at
in these states. But a FIN is, in all of them but LAST-ACK: one that claims to stand behind the first is
counted like that, and acknowledged. Nothing else moves RCV.NXT until the connection is closed.
-/
namespace TcpEngine

theorem State.past_of_done {state : State} (done : state.peerDone = true) :
    state.pastHandshake = true := by
  cases state <;> first | rfl | cases done

theorem State.deaf_of_done {state : State} (done : state.peerDone = true) :
    state.receivesText = false := by
  cases state <;> first | rfl | cases done

theorem State.open_of_done {state : State} (done : state.peerDone = true) : state ≠ .closed := by
  rintro rfl
  cases done

def Segment.FinAt (s : Segment) (place : SeqNumber) : Prop :=
  s.header.flags.has .fin = true ∧ Connection.textStop s = place

instance (s : Segment) (place : SeqNumber) : Decidable (s.FinAt place) :=
  inferInstanceAs (Decidable (_ ∧ _))

namespace Connection

variable {s : Segment} {iss : SeqNumber} {now : Instant} {call : CallId} {σ : List Signal}
  {a : Arrival} {c c' : Connection} {event : Event} {ds : List Datagram} {config : Config}
  {ack next : SeqNumber} {again again' : Prop}

def heeds (c : Connection) : Bool :=
  match c.state with
  | .closeWait | .timeWait => true
  | .closing => c.finAcked
  | _ => false

def acked (c : Connection) (ack : SeqNumber) : Connection :=
  { c with send := { c.send with unacked := c.unackedAfter ack } }

def heedsAfter (c : Connection) (ack : SeqNumber) : Bool :=
  !ack.after c.send.next && (c.acked ack).heeds

/-- A FIN of the peer is counted by this segment, though one was counted before. -/
def Recounts (c : Connection) (s : Segment) : Prop :=
  c.Processes s ∧ s.FinAt c.receive.next ∧ s.header.ack.any c.heedsAfter = true

instance (c : Connection) (s : Segment) : Decidable (c.Processes s) :=
  inferInstanceAs (Decidable (_ ∧ _))

instance (c : Connection) (s : Segment) : Decidable (c.Recounts s) :=
  inferInstanceAs (Decidable (_ ∧ _))

/-- The peer stays done. RCV.NXT, which was `next`, counts another FIN, or it stays where it is until the
    connection is over. -/
def Rests (again : Prop) (next : SeqNumber) (c' : Connection) : Prop :=
  again ∧ c'.state.peerDone = true ∧ c'.receive.next = next.advance 1 ∨
    ¬ again ∧ (c'.state = .closed ∨ c'.state.peerDone = true ∧ c'.receive.next = next)

theorem Rests.of_iff (rests : Rests again next c') (same : again ↔ again') : Rests again' next c' := by
  rwa [Rests, ← same]

theorem Rests.goes (rests : Rests again next c') : c'.state = .closed ∨ c'.state.peerDone = true := by
  rcases rests with ⟨_, done, _⟩ | ⟨_, closed | ⟨done, _⟩⟩
  · exact Or.inr done
  · exact Or.inl closed
  · exact Or.inr done

theorem Utters.acknowledges (utters : c.Utters s) (goes : c.state = .closed ∨ c.state.peerDone = true) :
    c.state.peerDone = true ∧ s.header.ack = some c.receive.next := by
  cases utters with
  | asks state =>
    rcases goes with closed | done
    · cases state.symm.trans closed
    · rw [state] at done
      cases done
  | acks live acknowledge _ sent =>
    obtain ⟨_, _, rfl⟩ := Option.map_eq_some_iff.mp sent
    refine ⟨goes.resolve_left fun closed => ?_, if_pos acknowledge.1⟩
    rw [closed] at live
    cases live

theorem rests_gone (once : ¬ again) (gone : c'.state = .closed) : Rests again next c' :=
  Or.inr ⟨once, Or.inl gone⟩

theorem rests_same (once : ¬ again) (goes : c'.state = .closed ∨ c'.state.peerDone = true)
    (same : c'.receive = c.receive) : Rests again c.receive.next c' :=
  Or.inr ⟨once, goes.imp_right fun done => ⟨done, congrArg ReceiveVars.next same⟩⟩

theorem rests_still (once : ¬ again) (done : c.state.peerDone = true) : Rests again c.receive.next c :=
  rests_same once (Or.inr done) rfl

/- What is looked at once the peer has finished. -/

theorem receiveFin_rests {finished : Bool} (done : c.state.peerDone = true)
    (h : (c.receiveFin s now).Ends σ (c', finished)) :
    Rests (s.FinAt c.receive.next) c.receive.next c' := by
  rw [receiveFin_eq] at h
  split at h
  · rename_i fin
    simp only [Act.ends_bind, Act.ends_lift, SeqNumber.add_ok] at h
    obtain ⟨_, _, _, ⟨rfl, _, rfl⟩, ⟨_, _, _, ⟨rfl, _, rfl⟩, h, rfl⟩, rfl⟩ := h
    rw [SeqNumber.advance_advance] at h
    split at h
    · rename_i here
      obtain ⟨rfl, _⟩ := Prod.mk.inj (countFin_ends h).2
      have past : c.ended.state.pastHandshake = true := State.past_of_done done
      refine Or.inl ⟨⟨fin, here⟩, peerFinished_keeps_done now past, ?_⟩
      obtain ⟨_, _, same⟩ := peerFinished_eq c.ended now
      rw [same]
      rfl
    · rename_i elsewhere
      obtain ⟨rfl, _⟩ := Prod.mk.inj (Act.ends_pure.mp h).2
      exact rests_still (fun counted => elsewhere counted.2) done
  · rename_i plain
    obtain ⟨rfl, _⟩ := Prod.mk.inj (Act.ends_pure.mp h).2
    exact rests_still (fun counted => plain counted.1) done

/-- Text is not looked at any more, but a FIN still is. -/
theorem receiveContent_rests (done : c.state.peerDone = true)
    (h : (c.receiveContent s now).Ends σ a) :
    Rests (s.FinAt c.receive.next) c.receive.next a.connection := by
  obtain ⟨urgent, c₁, _, _, _, _, _, _, fin, ⟨receives, _⟩ | ⟨_, _, rfl⟩⟩ := receiveContent_steps h
  · rw [State.deaf_of_done done] at receives
    cases receives
  · have same : (c.noted urgent).state.peerDone = true := done
    have rests := receiveFin_rests same fin
    exact rests

theorem progress_rests (done : c.state.peerDone = true) (h : (c.progress s now).Ends σ a) :
    Rests (c.heeds = true ∧ s.FinAt c.receive.next) c.receive.next a.connection := by
  have heeded (heeds : c.heeds = true) (rests : Rests (s.FinAt c.receive.next) c.receive.next a.connection) :
      Rests (c.heeds = true ∧ s.FinAt c.receive.next) c.receive.next a.connection :=
    rests.of_iff ⟨fun fin => ⟨heeds, fin⟩, And.right⟩
  have idle (deaf : ¬ c.heeds = true) (same : a.connection = c) :
      Rests (c.heeds = true ∧ s.FinAt c.receive.next) c.receive.next a.connection := by
    rw [same]
    exact rests_still (fun counted => deaf counted.1) done
  unfold progress at h
  cases state : c.state with
  | closeWait | timeWait =>
    rw [state] at h
    exact heeded (by rw [heeds, state]) (receiveContent_rests done h)
  | closing =>
    rw [state] at h
    dsimp only at h
    split at h
    · rename_i answered
      have waits : (c.enterTimeWait now).state.peerDone = true := rfl
      have rests : Rests (s.FinAt c.receive.next) c.receive.next a.connection :=
        receiveContent_rests (c := c.enterTimeWait now) waits h
      exact heeded (by rw [heeds, state]; exact answered) rests
    · rename_i unanswered
      obtain ⟨_, rfl⟩ := Act.ends_pure.mp h
      exact idle (by rw [heeds, state]; exact unanswered) rfl
  | lastAck =>
    have deaf : ¬ c.heeds = true := by
      rw [heeds, state]
      exact Bool.false_ne_true
    rw [state] at h
    dsimp only at h
    split at h
    · rw [Act.ends_bind] at h
      obtain ⟨_, d, _, ends, h, _⟩ := h
      obtain ⟨_, rfl⟩ := Act.ends_pure.mp h
      obtain ⟨_, rfl⟩ := terminate_ends.mp ends
      exact rests_gone (fun counted => deaf counted.1) rfl
    · obtain ⟨_, rfl⟩ := Act.ends_pure.mp h
      exact idle deaf rfl
  | _ =>
    rw [state] at done
    cases done

theorem refreshWindow_heeds (c : Connection) (h : Header) (ack : SeqNumber) :
    (c.refreshWindow h ack).heeds = c.heeds ∧ (c.refreshWindow h ack).receive = c.receive := by
  obtain ⟨_, _, _, same⟩ := refreshWindow_eq c h ack
  rw [same]
  exact ⟨rfl, rfl⟩

theorem acknowledge_rests (done : c.state.peerDone = true)
    (h : (c.acknowledge s ack now).Ends σ a) :
    Rests (c.heedsAfter ack = true ∧ s.FinAt c.receive.next) c.receive.next a.connection := by
  rw [acknowledge_eq] at h
  split at h
  · rename_i unsent
    obtain ⟨_, rfl⟩ := Act.ends_pure.mp h
    refine rests_still (fun counted => ?_) done
    rw [heedsAfter, unsent] at counted
    cases counted.1
  · rename_i sent
    rw [Bool.not_eq_true] at sent
    rw [heedsAfter, sent, Bool.not_false, Bool.true_and, acked]
    split at h
    · rename_i above
      rw [Act.ends_bind] at h
      obtain ⟨_, _, _, ends, h, _⟩ := h
      obtain ⟨queue, roundTrip, _, rfl⟩ := releaseAcked_ends ends
      have rests := progress_rests (by rw [refreshWindow_state]; exact done) h
      obtain ⟨heeds, receive⟩ :=
        refreshWindow_heeds { c with send := { c.send with unacked := ack }, queue, roundTrip } s.header ack
      rw [receive, heeds] at rests
      rw [unackedAfter, if_pos ⟨above, sent⟩]
      exact rests
    · rename_i under
      rw [pure_bind] at h
      have rests := progress_rests (by rw [refreshWindow_state]; exact done) h
      obtain ⟨heeds, receive⟩ := refreshWindow_heeds c s.header ack
      rw [receive, heeds] at rests
      rw [unackedAfter, if_neg (fun valid => under valid.1)]
      exact rests

theorem arrives_rests (done : c.state.peerDone = true) (h : (c.arrives s iss now).Ends σ a) :
    Rests (c.Recounts s) c.receive.next a.connection := by
  have past := State.past_of_done done
  rw [arrives_synchronized (synchronized_of_past past)] at h
  have idle (once : ¬ c.Recounts s) (idle : ¬ c.Processes s ∨ s.header.ack = none) :
      Rests (c.Recounts s) c.receive.next a.connection := by
    rcases arrivesSynchronized_idle h idle with ⟨_, ends⟩ | ⟨_, _, same⟩
    · obtain ⟨_, shut⟩ := terminate_ends.mp ends
      exact rests_gone once (by rw [shut]; rfl)
    · rw [same]
      exact rests_same once (Or.inr done) rfl
  by_cases processed : c.Processes s
  · cases given : s.header.ack with
    | none =>
      refine idle (fun counted => ?_) (Or.inr given)
      have heeded := counted.2.2
      rw [given] at heeded
      cases heeded
    | some ack =>
      have opened : c.state ≠ .synReceived := by
        intro state
        rw [state] at done
        cases done
      rw [arrivesSynchronized_processed processed given, arrivesWithAck, if_neg opened] at h
      refine (acknowledge_rests done h).of_iff ?_
      rw [Recounts, given, Option.any_some]
      exact ⟨fun ⟨heeded, fin⟩ => ⟨processed, fin, heeded⟩, fun ⟨_, fin, heeded⟩ => ⟨heeded, fin⟩⟩
  · exact idle (fun counted => processed counted.1) (Or.inl processed)

theorem called_stays_done (done : c.state.peerDone = true) (called : Called iss now call event c σ ds c') :
    c'.state = .closed ∨ c'.state.peerDone = true := by
  have busy : ¬ c.Free := not_free_of_live (synchronized_of_past (State.past_of_done done))
  cases called with
  | told | timed | send | idle => exact Or.inr done
  | listen free | fail free | ask free => exact absurd free busy
  | receive _ _ ends =>
    rw [deliver_state ends]
    exact Or.inr done
  | quit _ ends | abort _ ends =>
    obtain ⟨_, rfl⟩ := terminate_ends.mp ends
    exact Or.inl rfl
  | finish states =>
    rcases states with ⟨early, _⟩ | ⟨_, rfl⟩
    · rcases early with state | state <;> rw [state] at done <;> cases done
    · exact Or.inr rfl

def Recounted (c : Connection) (event : Event) : Prop := ∃ s ∈ event.bringsTo c, c.Recounts s

instance (c : Connection) (event : Event) : Decidable (c.Recounted event) :=
  inferInstanceAs (Decidable (∃ s ∈ event.bringsTo c, c.Recounts s))

theorem recounted_iff (brings : event.segment? = some s) (claims : c.claims s = true) :
    c.Recounted event ↔ c.Recounts s := by
  rw [Recounted, Event.bringsTo_claimed brings claims]
  simp only [List.mem_singleton, exists_eq_left]

theorem befalls_rests (done : c.state.peerDone = true) (none : event.bringsTo c = [])
    (h : Befalls config now call event c σ ds c') : Rests (c.Recounted event) c.receive.next c' := by
  have still : ¬ c.Recounted event := by
    rintro ⟨s, brought, _⟩
    rw [none] at brought
    exact absurd brought List.not_mem_nil
  have busy : ¬ c.Free := not_free_of_live (synchronized_of_past (State.past_of_done done))
  cases h with
  | spared => exact rests_still still done
  | called _ _ called => exact rests_same still (called_stays_done done called) (called_fixed busy called).2.1
  | arrived _ brings claims =>
    rw [Event.bringsTo_claimed brings claims] at none
    cases none
  | timed ends =>
    have turns := (onTimer_turns ends).1
    refine rests_same still ?_ (turns_receive turns)
    rcases turns_state turns with same | closed
    · exact Or.inr (same ▸ done)
    · exact Or.inl closed

end Connection

namespace Stack

variable {k k' : Stack} {here : Endpoint} {place : Nat} {answer : Answer} {event : Event} {now : Instant}
  {σ : List Signal} {c : Connection} {s : Segment} {next : SeqNumber} {later : List (Event × Instant)}

theorem handle_arrives (sound : Sound place k) (found : k.table.get? here = some c)
    (brings : event.segment? = some s) (claims : c.claims s = true)
    (ends : (k.handle event now place).Ends σ (k', answer)) : ∃ iss τ a,
      (c.arrives s iss now).Ends τ a ∧ k'.table.get? here = some a.connection := by
  obtain ⟨octets, src, dst, rfl, reads⟩ := Event.reads_of_segment? brings
  obtain rfl : s.receiver = here :=
    (Connection.claims_iff.mp claims).1.trans (Table.get?_some found).2
  rcases ingress_parts ends with ⟨_, _, unread⟩ | ⟨s', table, answers, reads', passes, emitted⟩
  · exact absurd reads (unread s)
  · obtain rfl := reads_unique reads reads'
    obtain ⟨same, _⟩ := emitAll_ok emitted
    cases passes with
    | unclaimed alone =>
      rw [alone c found] at claims
      cases claims
    | @claimed _ d a _ iss found' _ arrives put =>
      obtain rfl := Option.some.inj (found.symm.trans found')
      have coherent := sound.proper.found found
      have stays := Connection.moves_here (Connection.arrives_handled coherent.fresh arrives).1
      refine ⟨iss, _, a, arrives, found_of_put sound.proper.distinct found stays ?_⟩
      rw [same]
      exact put

/-- With one event a connection whose peer has finished counts a FIN again, or RCV.NXT stays where it is.
    Whatever it says acknowledges RCV.NXT. -/
theorem handle_rests (sound : Sound place k) (found : k.table.get? here = some c)
    (done : c.state.peerDone = true) (equipped : c.Equipped)
    (ends : (k.handle event now place).Ends σ (k', answer)) : ∃ c', k'.table.get? here = some c' ∧
      Connection.Rests (c.Recounted event) c.receive.next c' ∧ c'.Equipped ∧
      ∀ s, Emitted here (k'.log.drop k.log.length) s → s.header.flags.has .rst = false →
        c'.state.peerDone = true ∧ s.header.ack = some c'.receive.next := by
  obtain ⟨there, same⟩ := Table.get?_some found
  have coherent := sound.proper.coherent c there
  rcases handle_befalls sound found ends with ⟨⟨closed, _⟩, _⟩ | ⟨c', ds, found', log, befalls⟩
  · exact absurd closed (State.open_of_done done)
  have rests : Connection.Rests (c.Recounted event) c.receive.next c' := by
    cases brought : event.bringsTo c with
    | nil => exact Connection.befalls_rests done brought befalls
    | cons s rest =>
      have member : s ∈ event.bringsTo c := brought ▸ List.mem_cons_self
      obtain ⟨brings, claims⟩ := Event.brings_of_mem member
      obtain ⟨iss, _, a, arrives, found''⟩ := handle_arrives sound found brings claims ends
      obtain rfl := Option.some.inj (found'.symm.trans found'')
      exact (Connection.arrives_rests done arrives).of_iff (Connection.recounted_iff brings claims).symm
  refine ⟨c', found', rests, befalls_equipped coherent equipped befalls, ?_⟩
  intro s emitted calm
  rw [log, List.drop_left, ← same] at emitted
  exact (emitted_utters coherent (sound.limited c there) equipped emitted calm befalls).acknowledges rests.goes

/-- As long as the connection at the endpoint is not closed, the next number that it expects is `next`, and
    all that is said in its name acknowledges that, resets apart. -/
def Final (k : Stack) (here : Endpoint) (next : SeqNumber) (place : Nat) :
    List (Event × Instant) → Prop
  | [] => True
  | (event, now) :: rest => match (k.handle event now place).outcome with
    | .ok (k', _) => ∃ c' ∈ k'.table.get? here,
        (∀ s, Emitted here (k'.log.drop k.log.length) s → s.header.flags.has .rst = false →
          s.header.ack = some next) ∧
        (c'.state = .closed ∨ c'.receive.next = next ∧ k'.Final here next (place + 1) rest)
    | .error _ => True

def Unrepeated (k : Stack) (here : Endpoint) (place : Nat) : List (Event × Instant) → Prop
  | [] => True
  | (event, now) :: rest => match (k.handle event now place).outcome with
    | .ok (k', _) => ∀ c ∈ k.table.get? here,
        c.state = .closed ∨ ¬ c.Recounted event ∧ k'.Unrepeated here (place + 1) rest
    | .error _ => True

instance decidableUnrepeated : (k : Stack) → (here : Endpoint) → (place : Nat) →
    (later : List (Event × Instant)) → Decidable (k.Unrepeated here place later)
  | _, _, _, [] => inferInstanceAs (Decidable True)
  | k, here, place, (event, now) :: rest =>
    have : Decidable (match (k.handle event now place).outcome with
        | .ok (k', _) => ∀ c ∈ k.table.get? here,
            c.state = .closed ∨ ¬ c.Recounted event ∧ k'.Unrepeated here (place + 1) rest
        | .error _ => True) :=
      match (k.handle event now place).outcome with
      | .ok (k', _) =>
        have := decidableUnrepeated k' here (place + 1) rest
        inferInstanceAs (Decidable (∀ c ∈ k.table.get? here, _))
      | .error _ => inferInstanceAs (Decidable True)
    this

theorem unrepeated_closed (found : k.table.get? here = some c) (closed : c.state = .closed) :
    k.Unrepeated here place later := by
  cases later with
  | nil => trivial
  | cons head rest =>
    rw [Unrepeated]
    split
    · intro d there
      obtain rfl := Option.some.inj (found.symm.trans there)
      exact Or.inl closed
    · trivial

theorem final_iff_unrepeated (sound : Sound place k) (found : k.table.get? here = some c)
    (done : c.state.peerDone = true) (equipped : c.Equipped) :
    k.Final here c.receive.next place later ↔ k.Unrepeated here place later := by
  induction later generalizing k place c with
  | nil => rfl
  | cons head rest ih =>
    obtain ⟨event, now⟩ := head
    rw [Final, Unrepeated]
    split
    · rename_i k' answer outcome
      have ends : (k.handle event now place).Ends (k.handle event now place).signals (k', answer) := by
        rw [Act.Ends, ← outcome]
      obtain ⟨c', found', rests, equipped', said⟩ := handle_rests sound found done equipped ends
      have sound' := handle_sound sound ends
      constructor
      · rintro ⟨_, there, _, onward⟩ _ mine
        obtain rfl := Option.some.inj (found.symm.trans mine)
        obtain rfl := Option.some.inj (found'.symm.trans there)
        rcases rests with ⟨_, done', moved⟩ | ⟨once, closed | ⟨done', still⟩⟩
        · have apart := SeqNumber.ahead_advance (a := c.receive.next) (n := 1) (by decide)
          rw [← moved, (onward.resolve_left (State.open_of_done done')).1, SeqNumber.ahead_self] at apart
          cases apart
        · exact Or.inr ⟨once, unrepeated_closed found' closed⟩
        · obtain ⟨_, onward⟩ := onward.resolve_left (State.open_of_done done')
          rw [← still] at onward
          exact Or.inr ⟨once, (ih sound' found' done' equipped').mp onward⟩
      · intro unrepeated
        obtain ⟨once, onward⟩ := (unrepeated c found).resolve_left (State.open_of_done done)
        have goes := (rests.resolve_left fun counted => once counted.1).2
        refine ⟨c', found', fun s emitted calm => ?_, ?_⟩
        · obtain ⟨done', acknowledges⟩ := said s emitted calm
          rw [acknowledges, (goes.resolve_left (State.open_of_done done')).2]
        · refine goes.imp_right fun ⟨done', still⟩ => ⟨still, ?_⟩
          rw [← still]
          exact (ih sound' found' done' equipped').mpr onward
    · rfl

/-- In every history that begins with an empty table, let the peer of a connection have finished. Whatever
    happens later, until the connection is closed RCV.NXT stays where it is and all that is said in the name
    of the connection acknowledges that, exactly if no segment arrives by which a FIN is counted again. -/
theorem peer_fin_final_iff {config : Config} {generator : SeqGenerator} {history : List (Event × Instant)}
    (ends : ((Stack.empty config generator).run 0 history).Ends σ k)
    (found : k.table.get? here = some c)
    (finished : c.state ∈ [.closeWait, .closing, .lastAck, .timeWait]) :
    k.Final here c.receive.next history.length later ↔ k.Unrepeated here history.length later := by
  have sound := run_sound (sound_empty config generator) ends
  rw [Nat.zero_add] at sound
  exact final_iff_unrepeated sound found (State.mem_of_peerDone.mpr finished)
    (run_equipped ends c (Table.get?_some found).1)

def halfClosed : List (Event × Instant) :=
  asking ++
    [(agreement, .start),
     -- The FIN of the peer.
     (.ingress [0, 80, 192, 0, 0, 0, 3, 233, 10, 62, 28, 189, 80, 17, 1, 244, 174, 168, 0, 0]
       ⟨10, 0, 0, 2⟩ ⟨10, 0, 0, 1⟩, .start)]

def echoes : List (Event × Instant) :=
  -- The FIN comes again, and then another one with text before it.
  [(.ingress [0, 80, 192, 0, 0, 0, 3, 233, 10, 62, 28, 189, 80, 17, 1, 244, 174, 168, 0, 0]
     ⟨10, 0, 0, 2⟩ ⟨10, 0, 0, 1⟩, .start),
   (.ingress [0, 80, 192, 0, 0, 0, 3, 234, 10, 62, 28, 189, 80, 17, 1, 244, 70, 60, 0, 0, 104, 105]
     ⟨10, 0, 0, 2⟩ ⟨10, 0, 0, 1⟩, .start),
   (.sweep, .start)]

theorem echoes_leave_final : ∃ σ k c,
    ((Stack.empty { receiveWindow := 8 } (.ofKey 1 2)).run 0 halfClosed).Ends σ k ∧
    k.table.get? ⟨⟨10, 0, 0, 1⟩, 49152⟩ = some c ∧ c.state = .closeWait ∧
    k.Final ⟨⟨10, 0, 0, 1⟩, 49152⟩ c.receive.next halfClosed.length echoes := by
  let here : Endpoint := ⟨⟨10, 0, 0, 1⟩, 49152⟩
  let start := Stack.empty { receiveWindow := 8 } (.ofKey 1 2)
  let k := (start.run 0 halfClosed).result start
  let c := (k.table.get? here).getD (.bound here {})
  have ends : (start.run 0 halfClosed).Ends _ k := Act.ends_result start (by decide +kernel)
  have found : k.table.get? here = some c := by decide +kernel
  have state : c.state = .closeWait := by decide +kernel
  have finished : c.state ∈ [.closeWait, .closing, .lastAck, .timeWait] := by
    rw [state]
    decide
  refine ⟨_, k, c, ends, found, state, ?_⟩
  rw [peer_fin_final_iff ends found finished]
  decide +kernel

/-- A second FIN, of the number behind the first, is counted and acknowledged. -/
theorem second_fin_counted : ∃ σ k c τ k' answer c' s,
    ((Stack.empty { receiveWindow := 8 } (.ofKey 1 2)).run 0 halfClosed).Ends σ k ∧
    k.table.get? ⟨⟨10, 0, 0, 1⟩, 49152⟩ = some c ∧ c.state = .closeWait ∧ c.receive.next = ⟨1002⟩ ∧
    (k.handle (.ingress [0, 80, 192, 0, 0, 0, 3, 234, 10, 62, 28, 189, 80, 17, 1, 244, 174, 167, 0, 0]
      ⟨10, 0, 0, 2⟩ ⟨10, 0, 0, 1⟩) .start halfClosed.length).Ends τ (k', answer) ∧
    k'.table.get? ⟨⟨10, 0, 0, 1⟩, 49152⟩ = some c' ∧ c'.state = .closeWait ∧ c'.receive.next = ⟨1003⟩ ∧
    Emitted ⟨⟨10, 0, 0, 1⟩, 49152⟩ (k'.log.drop k.log.length) s ∧ s.header.flags.has .rst = false ∧
    s.header.ack = some ⟨1003⟩ := by
  let here : Endpoint := ⟨⟨10, 0, 0, 1⟩, 49152⟩
  let start := Stack.empty { receiveWindow := 8 } (.ofKey 1 2)
  let k := (start.run 0 halfClosed).result start
  let c := (k.table.get? here).getD (.bound here {})
  let second : Event :=
    .ingress [0, 80, 192, 0, 0, 0, 3, 234, 10, 62, 28, 189, 80, 17, 1, 244, 174, 167, 0, 0]
      ⟨10, 0, 0, 2⟩ ⟨10, 0, 0, 1⟩
  let r := (k.handle second .start halfClosed.length).result (k, .accepted)
  let c' := (r.1.table.get? here).getD (.bound here {})
  let s := (c'.segment (.ofList [.ack]) c'.send.next []).get (by decide +kernel)
  have ends : (start.run 0 halfClosed).Ends _ k := Act.ends_result start (by decide +kernel)
  have happens : (k.handle second .start halfClosed.length).Ends _ (r.1, r.2) :=
    (Act.ends_result (k, Answer.accepted) (by decide +kernel)).pair
  have sent : c'.segment (.ofList [.ack]) c'.send.next [] = some s := by decide +kernel
  have emitted : Emitted here (r.1.log.drop k.log.length) s :=
    ⟨(Connection.segment_formed sent).1, by decide +kernel, by decide +kernel⟩
  exact ⟨_, k, c, _, r.1, r.2, c', s, ends, by decide +kernel, by decide +kernel, by decide +kernel,
    happens, by decide +kernel, by decide +kernel, by decide +kernel, emitted, by decide +kernel,
    by decide +kernel⟩

end Stack
end TcpEngine

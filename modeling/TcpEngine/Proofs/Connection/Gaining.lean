import TcpEngine.Proofs.Connection.Course

/-!
What a connection takes in. RCV.NXT moves forward by as many places as octets were added to the text
handed out and to the buffer together, and by one more for each FIN that was counted; the storage of the
buffer stays. So what RCV.NXT has gained, and the buffer has not lost to a receive call, the window has
lost.
-/
namespace TcpEngine

namespace Connection

variable {s : Segment} {iss ack seq : SeqNumber} {now : Instant} {σ ρ τ : List Signal} {a : Arrival}
  {c c' d : Connection} {more more' text : Octets} {fins fins' known : Nat}

structure Gains (more : Octets) (fins : Nat) (σ : List Signal) (c c' : Connection) : Prop where
  initial : c'.receive.initial = c.receive.initial
  next : c'.receive.next = c.receive.next.advance (more.length + fins)
  text : handed σ ++ c'.buffer.toList = c.buffer.toList ++ more
  capacity : c'.buffer.capacity = c.buffer.capacity

theorem gains_still (initial : c'.receive.initial = c.receive.initial)
    (next : c'.receive.next = c.receive.next) (buffer : c'.buffer = c.buffer)
    (silent : handed σ = []) : Gains [] 0 σ c c' where
  initial := initial
  next := next.trans (SeqNumber.advance_zero _).symm
  text := by rw [silent, buffer, List.nil_append, List.append_nil]
  capacity := by rw [buffer]

theorem gains_refl (c : Connection) : Gains [] 0 [] c c := gains_still rfl rfl rfl rfl

theorem Gains.trans (first : Gains more fins σ c d) (later : Gains more' fins' τ d c') :
    Gains (more ++ more') (fins + fins') (σ ++ τ) c c' where
  initial := later.initial.trans first.initial
  next := by
    rw [later.next, first.next, SeqNumber.advance_advance, List.length_append]
    congr 1
    omega
  text := by
    rw [handed_append, List.append_assoc, later.text, ← List.append_assoc, first.text,
      List.append_assoc]
  capacity := later.capacity.trans first.capacity

theorem gains_deliver (ends : c.deliver.Ends σ c') : Gains [] 0 σ c c' := by
  rcases deliver_ends ends with ⟨rfl, rfl, _⟩ | ⟨reception, _, _, rfl, rfl⟩
  · exact gains_refl c'
  · have out : handed [⟨reception.call, .received (c.buffer.toList.take reception.capacity)⟩]
        = c.buffer.toList.take reception.capacity := List.append_nil _
    refine ⟨rfl, (SeqNumber.advance_zero _).symm, ?_, Ring.dequeue_capacity _ _⟩
    rw [out, served, Ring.toList_dequeue, List.take_append_drop, List.append_nil]

theorem gains_extended (room : text.length ≤ c.buffer.window) :
    Gains text 0 [] c (c.extended text) where
  initial := rfl
  next := rfl
  text := by
    change (c.buffer.enqueue text).1.toList = c.buffer.toList ++ text
    rw [Ring.toList_enqueue, List.take_of_length_le room]
  capacity := Ring.enqueue_capacity _ _

theorem gains_accept (ok : c.acceptText seq text = .ok c') :
    ∃ more, more.length ≤ c.window ∧ Gains more 0 [] c c' := by
  rcases acceptText_ok ok with rfl | ⟨_, taken, _, _, _, room, rfl⟩
  · exact ⟨[], Nat.zero_le _, gains_refl c'⟩
  · exact ⟨taken, room, gains_extended room⟩

theorem gains_fin {finished : Bool} (h : (c.receiveFin s now).Ends σ (c', finished)) :
    ∃ fins, fins ≤ (s.header.flags.has .fin).toNat ∧
      (c.state.pastHandshake = true → c'.state.peerDone = false → fins = 0) ∧ Gains [] fins σ c c' := by
  rcases receiveFin_ends h with ⟨rfl, same⟩ | ⟨fin, _, ends⟩
  · obtain ⟨rfl, _⟩ := Prod.mk.inj same
    exact ⟨0, Nat.zero_le _, fun _ _ => rfl, gains_refl c'⟩
  · have done (past : c.ended.state.pastHandshake = true) : c'.state.peerDone = true := by
      obtain ⟨rfl, _⟩ := Prod.mk.inj (countFin_ends ends).2
      exact peerFinished_keeps_done now past
    obtain ⟨rfl, _⟩ := countFin_ends ends
    obtain ⟨_, _, rfl⟩ := countFin_counts ends
    refine ⟨1, by rw [fin]; exact Nat.le_refl 1, fun past undone => ?_, rfl, rfl, ?_, rfl⟩
    · cases (done past).symm.trans undone
    · rw [handed_fails, List.append_nil]
      rfl

/- The text of a segment. -/

/-- The receive step takes the text if the state allows it, delivers, and then looks for the FIN. -/
theorem receiveContent_steps (h : (c.receiveContent s now).Ends σ a) : ∃ urgent c₁ ρ τ finished,
    c.noteUrgent s.header = .ok (c.noted urgent) ∧ c₁.state = c.state ∧ σ = ρ ++ τ ∧
      (c₁.receiveFin s now).Ends τ (a.connection, finished) ∧
      ((c.state.receivesText = true ∧ s.text ≠ [] ∧ ∃ kept,
          (c.noted urgent).acceptText s.header.seq s.text = .ok kept ∧ kept.deliver.Ends ρ c₁) ∨
        ¬ (c.state.receivesText = true ∧ s.text ≠ []) ∧ ρ = [] ∧ c₁ = c.noted urgent) := by
  unfold receiveContent at h
  rw [Act.ends_bind] at h
  obtain ⟨_, _, _, lifted, h, rfl⟩ := h
  obtain ⟨rfl, marked⟩ := Act.ends_lift.mp lifted
  obtain ⟨urgent, rfl⟩ := noteUrgent_eq marked
  rw [List.nil_append]
  dsimp only at h
  split at h
  · rename_i takes
    obtain ⟨filled, receives⟩ := Bool.and_eq_true_iff.mp takes
    simp only [Act.ends_bind, Act.ends_lift] at h
    obtain ⟨_, kept, _, ⟨rfl, taken⟩, ⟨ρ, c₁, τ, served, rest, rfl⟩, rfl⟩ := h
    obtain ⟨finished, fin⟩ := finish_ends (Act.ends_bind.mpr rest)
    have state : c₁.state = c.state := by
      rw [deliver_state served, acceptText_state taken]
    exact ⟨urgent, c₁, ρ, τ, finished, marked, state, rfl, fin,
      Or.inl ⟨receives, by simpa using filled, kept, taken, served⟩⟩
  · rename_i refused
    rw [pure_bind] at h
    obtain ⟨finished, fin⟩ := finish_ends h
    refine ⟨urgent, _, [], _, finished, marked, ?_, rfl, fin, Or.inr ⟨?_, rfl, rfl⟩⟩
    · rfl
    · rintro ⟨receives, filled⟩
      exact refused (by simpa [receives] using filled)

theorem gains_content (past : c.state.pastHandshake = true) (h : (c.receiveContent s now).Ends σ a) :
    ∃ more fins, more.length ≤ c.window ∧ fins ≤ (s.header.flags.has .fin).toNat ∧
      (a.connection.state.peerDone = false → fins = 0) ∧ Gains more fins σ c a.connection := by
  obtain ⟨urgent, c₁, ρ, τ, finished, _, state, rfl, fin, text⟩ := receiveContent_steps h
  obtain ⟨fins, few, undone, ended⟩ := gains_fin fin
  rw [state] at undone
  have marked : Gains [] 0 [] c (c.noted urgent) := gains_still rfl rfl rfl rfl
  have both {more : Octets} (before : Gains more 0 ρ c c₁) :
      Gains more fins (ρ ++ τ) c a.connection := by
    have gains := before.trans ended
    rwa [List.append_nil, Nat.zero_add] at gains
  rcases text with ⟨_, _, kept, taken, served⟩ | ⟨_, rfl, rfl⟩
  · obtain ⟨more, room, accepted⟩ := gains_accept taken
    have before := (marked.trans accepted).trans (gains_deliver served)
    rw [List.append_nil] at before
    exact ⟨more, fins, room, few, undone past, both before⟩
  · exact ⟨[], fins, Nat.zero_le _, few, undone past, both marked⟩

theorem acceptText_takes (limited : c.buffer.capacity ≤ 65535) (filled : text ≠ [])
    (place : c.receive.next = seq.advance known) (short : known < SeqNumber.halfCircle) :
    c.acceptText seq text = .ok (c.extended ((text.drop known).take c.window)) := by
  have small := short
  simp only [SeqNumber.halfCircle] at small
  have apart : c.receive.next.ahead seq = known := by
    rw [place, SeqNumber.ahead_advance (by omega)]
  have order : seq.atOrBefore c.receive.next = true := by
    have back := SeqNumber.ahead_from seq c.receive.next seq
    rw [SeqNumber.ahead_self, apart] at back
    rw [SeqNumber.atOrBefore_iff, ← Bool.not_eq_true, SeqNumber.after_iff]
    simp only [SeqNumber.halfCircle]
    omega
  have count : (c.buffer.enqueue (text.drop known)).2 = ((text.drop known).take c.window).length := by
    rw [Ring.enqueue_snd, List.length_take, Nat.min_comm]
    rfl
  have near : ((text.drop known).take c.window).length < SeqNumber.halfCircle := by
    simp only [List.length_take, window, Ring.window, SeqNumber.halfCircle]
    omega
  unfold acceptText
  rw [if_neg (by simpa using filled), if_pos order, SeqNumber.distance, apart, if_pos short]
  simp only [except_bind_ok, except_pure_ok, SeqNumber.add_ok]
  have part : (c.buffer.enqueue ((text.drop known).take c.window)).1
      = (c.buffer.enqueue (text.drop known)).1 := Ring.enqueue_take _ _
  exact ⟨known, rfl, _, ⟨count ▸ near, rfl⟩, by rw [count, extended, part]⟩

theorem Gains.window (gains : Gains [] fins σ c c') : c.window ≤ c'.window := by
  have text := congrArg List.length gains.text
  simp only [List.length_append, List.length_nil, Ring.length_toList] at text
  have capacity := gains.capacity
  simp only [Connection.window, Ring.window]
  omega

theorem receiveContent_takes (limited : c.buffer.capacity ≤ 65535)
    (receives : c.state.receivesText = true) (filled : s.text ≠ [])
    (place : c.receive.next = s.header.seq.advance known) (short : known < SeqNumber.halfCircle)
    (h : (c.receiveContent s now).Ends σ a) : ∃ fins, fins ≤ (s.header.flags.has .fin).toNat ∧
      Gains ((s.text.drop known).take c.window) fins σ c a.connection := by
  obtain ⟨urgent, c₁, ρ, τ, finished, _, _, rfl, fin, text⟩ := receiveContent_steps h
  obtain ⟨fins, few, _, ended⟩ := gains_fin fin
  rcases text with ⟨_, _, kept, taken, served⟩ | ⟨refused, _⟩
  · have part : (c.noted urgent).acceptText s.header.seq s.text = .ok _ :=
      acceptText_takes limited filled place short
    obtain rfl := Except.ok.inj (taken.symm.trans part)
    have marked : Gains [] 0 [] c (c.noted urgent) := gains_still rfl rfl rfl rfl
    have accepted : Gains ((s.text.drop known).take c.window) 0 [] (c.noted urgent) _ :=
      gains_extended (List.length_take_le _ _)
    have gains := ((marked.trans accepted).trans (gains_deliver served)).trans ended
    rw [List.append_nil, List.append_nil] at gains
    exact ⟨_, Nat.le_trans (Nat.zero_add fins).le few, gains⟩
  · exact absurd ⟨receives, filled⟩ refused

/- How a segment comes to the text step. -/

/-- The text of the segment is looked at: it fits, acknowledges nothing that was not sent, completes the
    handshake if that is not done yet, and the peer may still send text. -/
def LooksAt (c : Connection) (s : Segment) : Prop :=
  c.Processes s ∧ ∃ ack ∈ s.header.ack,
    c.state.receivesText = true ∧ ack.after c.send.next = false ∨
      c.state = .synReceived ∧ c.send.unacked.before ack = true ∧
        ack.atOrBefore c.send.next = true

structure Untaken (σ : List Signal) (c c' : Connection) : Prop where
  receive : c'.receive = c.receive
  gains : Gains [] 0 σ c c'

theorem untaken_still (receive : c'.receive = c.receive) (buffer : c'.buffer = c.buffer)
    (silent : handed σ = []) : Untaken σ c c' :=
  ⟨receive, gains_still (by rw [receive]) (by rw [receive]) buffer silent⟩

theorem Untaken.trans (first : Untaken σ c d) (later : Untaken τ d c') : Untaken (σ ++ τ) c c' :=
  ⟨later.receive.trans first.receive, first.gains.trans later.gains⟩

theorem untaken_deliver (ends : c.deliver.Ends σ c') : Untaken σ c c' := by
  refine ⟨?_, gains_deliver ends⟩
  rcases deliver_ends ends with ⟨_, rfl, _⟩ | ⟨_, _, _, _, rfl⟩ <;> rfl

/-- What has happened when a segment was handled. Before its text is looked at, nothing is taken in. -/
inductive Looks (s : Segment) (now : Instant) (c : Connection) : List Signal → Arrival → Prop where
  | shut {σ : List Signal} {a : Arrival} (unread : ¬ c.LooksAt s)
      (closed : a.connection.state = .closed) : Looks s now c σ a
  | idle {σ : List Signal} {a : Arrival} (unread : ¬ c.LooksAt s)
      (untaken : Untaken σ c a.connection) : Looks s now c σ a
  | content {d : Connection} {ρ τ : List Signal} {a : Arrival} (before : Untaken ρ c d)
      (past : d.state.pastHandshake = true) (reads : c.LooksAt s ↔ d.state.receivesText = true)
      (ends : (d.receiveContent s now).Ends τ a) : Looks s now c (ρ ++ τ) a

theorem progress_looks (before : Untaken ρ c d) (past : d.state.pastHandshake = true)
    (reads : c.LooksAt s ↔ d.state.receivesText = true) (h : (d.progress s now).Ends τ a) :
    Looks s now c (ρ ++ τ) a := by
  have moved {e : Connection} (receive : e.receive = d.receive) (buffer : e.buffer = d.buffer) :
      Untaken ρ c e := by
    have untaken := before.trans (untaken_still (σ := []) receive buffer rfl)
    rwa [List.append_nil] at untaken
  have quiet (same : τ = [] ∧ a = .silent d) (unread : ¬ c.LooksAt s) :
      Looks s now c (ρ ++ τ) a := by
    obtain ⟨rfl, rfl⟩ := same
    rw [List.append_nil]
    exact .idle unread before
  have closed {state : State} (same : d.state = state) (deaf : state.receivesText = false) :
      ¬ c.LooksAt s := by
    rw [reads, same, deaf]
    exact Bool.false_ne_true
  unfold progress at h
  split at h
  · rename_i state
    split at h
    · have looks : c.LooksAt s := reads.mpr (by rw [state]; rfl)
      exact .content (d := { d with state := .finWait2 }) (moved rfl rfl) rfl (iff_of_true looks rfl) h
    · exact .content before past reads h
  · rename_i state
    split at h
    · exact .content (d := d.enterTimeWait now) (moved rfl rfl) rfl
        (iff_of_false (closed state rfl) Bool.false_ne_true) h
    · exact quiet (Act.ends_pure.mp h) (closed state rfl)
  · rename_i state
    split at h
    · rw [Act.ends_bind] at h
      obtain ⟨_, d', _, ends, h, rfl⟩ := h
      obtain ⟨_, rfl⟩ := Act.ends_pure.mp h
      obtain ⟨_, rfl⟩ := terminate_ends.mp ends
      exact .shut (closed state rfl) rfl
    · exact quiet (Act.ends_pure.mp h) (closed state rfl)
  · exact .content before past reads h

theorem acknowledge_looks (before : Untaken ρ c d) (past : d.state.pastHandshake = true)
    (reads : c.LooksAt s ↔ d.state.receivesText = true ∧ ack.after d.send.next = false)
    (h : (d.acknowledge s ack now).Ends τ a) : Looks s now c (ρ ++ τ) a := by
  have refreshed {e : Connection} {τ : List Signal} (untaken : Untaken τ c e) :
      Untaken τ c (e.refreshWindow s.header ack) := by
    obtain ⟨_, _, _, same⟩ := refreshWindow_eq e s.header ack
    have still : Untaken [] e (e.refreshWindow s.header ack) := by
      rw [same]
      exact untaken_still rfl rfl rfl
    have all := untaken.trans still
    rwa [List.append_nil] at all
  rw [acknowledge_eq] at h
  split at h
  · rename_i beyond
    obtain ⟨rfl, rfl⟩ := Act.ends_pure.mp h
    rw [List.append_nil]
    refine .idle ?_ before
    intro looks
    rw [(reads.mp looks).2] at beyond
    cases beyond
  · rename_i within
    rw [Bool.not_eq_true] at within
    have reads : c.LooksAt s ↔ d.state.receivesText = true :=
      reads.trans (and_iff_left within)
    have kept {e : Connection} (state : e.state = d.state) :
        (e.refreshWindow s.header ack).state.pastHandshake = true ∧
          (c.LooksAt s ↔ (e.refreshWindow s.header ack).state.receivesText = true) := by
      rw [refreshWindow_state, state]
      exact ⟨past, reads⟩
    split at h
    · rw [Act.ends_bind] at h
      obtain ⟨σ₁, e, τ, ends, h, rfl⟩ := h
      obtain ⟨queue, roundTrip, released, rfl⟩ := releaseAcked_ends ends
      obtain ⟨done, _, rfl⟩ := release_ends released
      have acked : Untaken _ d { d with send := { d.send with unacked := ack }, queue, roundTrip } :=
        untaken_still rfl rfl (handed_done (done.filterMap Unacked.call))
      obtain ⟨past', reads'⟩ :=
        kept (e := { d with send := { d.send with unacked := ack }, queue, roundTrip }) rfl
      rw [← List.append_assoc]
      exact progress_looks (refreshed (before.trans acked)) past' reads' h
    · rw [pure_bind] at h
      obtain ⟨past', reads'⟩ := kept (e := d) rfl
      exact progress_looks (refreshed before) past' reads' h

theorem arrivesWithAck_looks (live : c.state.isSynchronized = true) (processed : c.Processes s)
    (given : s.header.ack = some ack) (h : (c.arrivesWithAck s ack now).Ends σ a) :
    Looks s now c σ a := by
  have heard : c.LooksAt s ↔ c.state.receivesText = true ∧ ack.after c.send.next = false ∨
      c.state = .synReceived ∧ c.send.unacked.before ack = true ∧ ack.atOrBefore c.send.next = true := by
    rw [LooksAt, given]
    simp [processed]
  unfold arrivesWithAck at h
  split at h
  · rename_i state
    have deaf : State.synReceived.receivesText = false := rfl
    simp only [state, deaf, Bool.false_eq_true, false_and, false_or, true_and] at heard
    split at h
    · rename_i valid
      have valid := Bool.and_eq_true_iff.mp valid
      rw [Act.ends_bind] at h
      obtain ⟨ρ, c₁, τ, served, h, rfl⟩ := h
      have opening : Untaken [] c { c with state := .established } := untaken_still rfl rfl rfl
      have before : Untaken ρ c c₁ := opening.trans (untaken_deliver served)
      have next : c₁.send.next = c.send.next := by rw [deliver_send served]
      have opened : c₁.state = .established := deliver_state served
      refine acknowledge_looks before (by rw [opened]; rfl) (iff_of_true (heard.mpr valid) ⟨?_, ?_⟩) h
      · rw [opened]
        rfl
      · rw [next]
        exact SeqNumber.atOrBefore_iff.mp valid.2
    · rename_i invalid
      simp only [Act.ends_bind, Act.ends_lift, Act.ends_pure] at h
      obtain ⟨_, _, _, ⟨rfl, _⟩, ⟨rfl, rfl⟩, rfl⟩ := h
      refine .idle ?_ (untaken_still rfl rfl rfl)
      exact fun looks => invalid (Bool.and_eq_true_iff.mpr (heard.mp looks))
  · rename_i state
    have past : c.state.pastHandshake = true := by simp [State.pastHandshake, live, state]
    simp only [state, false_and, or_false] at heard
    have still : Untaken [] c c := untaken_still rfl rfl rfl
    exact acknowledge_looks still past heard h

theorem arrivesSynchronized_looks (live : c.state.isSynchronized = true)
    (h : (c.arrivesSynchronized s now).Ends σ a) : Looks s now c σ a := by
  have idle (unread : ¬ c.LooksAt s) (idle : ¬ c.Processes s ∨ s.header.ack = none) :
      Looks s now c σ a := by
    rcases arrivesSynchronized_idle h idle with ⟨_, ends⟩ | ⟨rfl, _, same⟩
    · obtain ⟨_, shut⟩ := terminate_ends.mp ends
      exact .shut unread (by rw [shut]; rfl)
    · exact .idle unread (untaken_still (by rw [same]) (by rw [same]) rfl)
  by_cases processed : c.Processes s
  · cases given : s.header.ack with
    | none =>
      refine idle ?_ (Or.inr given)
      rintro ⟨_, ack, there, _⟩
      rw [given] at there
      cases there
    | some ack =>
      rw [arrivesSynchronized_processed processed given] at h
      exact arrivesWithAck_looks live processed given h
  · exact idle (fun looks => processed looks.1) (Or.inl processed)

/-- An arrival at a synchronized connection takes in no more text than there is storage for, and counts
    no FIN that is not there. -/
theorem arrives_gains (live : c.state.isSynchronized = true)
    (live' : a.connection.state.isSynchronized = true) (h : (c.arrives s iss now).Ends σ a) :
    ∃ more fins, more.length ≤ c.buffer.capacity ∧ fins ≤ (s.header.flags.has .fin).toNat ∧
      (a.connection.state.peerDone = false → fins = 0) ∧ Gains more fins σ c a.connection := by
  rw [arrives_synchronized live] at h
  cases arrivesSynchronized_looks live h with
  | shut _ closed =>
    rw [closed] at live'
    cases live'
  | idle _ untaken => exact ⟨[], 0, Nat.zero_le _, Nat.zero_le _, fun _ => rfl, untaken.gains⟩
  | @content d _ _ _ before past _ ends =>
    obtain ⟨more, fins, room, few, undone, after⟩ := gains_content past ends
    have gains := before.gains.trans after
    rw [List.nil_append, Nat.zero_add] at gains
    refine ⟨more, fins, ?_, few, undone, gains⟩
    rw [← before.gains.capacity]
    exact Nat.le_trans room (Nat.sub_le _ _)

theorem arrives_advances (limited : Limited c) (live : c.state.isSynchronized = true)
    (looks : c.LooksAt s) (filled : s.text ≠ [])
    (place : c.receive.next = s.header.seq.advance known) (short : known < SeqNumber.halfCircle)
    (h : (c.arrives s iss now).Ends σ a) :
    ∃ room fins, c.window ≤ room ∧ fins ≤ (s.header.flags.has .fin).toNat ∧
      Gains ((s.text.drop known).take room) fins σ c a.connection := by
  rw [arrives_synchronized live] at h
  cases arrivesSynchronized_looks live h with
  | shut unread | idle unread => exact absurd looks unread
  | @content d _ _ _ before _ reads ends =>
    have room : d.buffer.capacity ≤ 65535 := before.gains.capacity ▸ limited.room
    have there : d.receive.next = s.header.seq.advance known := by
      rw [before.receive]
      exact place
    obtain ⟨fins, few, after⟩ := receiveContent_takes room (reads.mp looks) filled there short ends
    have gains := before.gains.trans after
    rw [List.nil_append, Nat.zero_add] at gains
    exact ⟨d.window, fins, before.gains.window, few, gains⟩

/-- A text that is looked at, begins no later than the next number expected and fits behind it is taken
    to its end. -/
theorem arrives_takes (limited : Limited c) (live : c.state.isSynchronized = true)
    (looks : c.LooksAt s) (filled : s.text ≠ [])
    (place : c.receive.next = s.header.seq.advance known) (short : known < SeqNumber.halfCircle)
    (fits : (s.text.drop known).length ≤ c.window) (h : (c.arrives s iss now).Ends σ a) :
    ∃ fins, Gains (s.text.drop known) fins σ c a.connection := by
  obtain ⟨room, fins, wide, _, gains⟩ := arrives_advances limited live looks filled place short h
  rw [List.take_of_length_le (Nat.le_trans fits wide)] at gains
  exact ⟨fins, gains⟩

end Connection
end TcpEngine

import TcpEngine.Proofs.Connection.Window
import TcpEngine.Proofs.Stack.History

/-!
What an arbitrary peer can make us believe to be acknowledged. An arriving segment moves SND.UNA to
its acknowledgment number or not at all, and a call is done only if its segment was acknowledged. The
only exception is a number exactly half the circle ahead of SND.UNA while nothing waits: the order of
the circle takes it neither for one behind SND.NXT nor for one ahead of it.
-/
namespace TcpEngine
namespace Connection

variable {c c' : Connection} {s : Segment} {iss : SeqNumber} {now : Instant} {σ : List Signal}
  {a : Arrival} {timer : Option Config}

/- The send variables, step by step. -/

theorem acceptText_send {seq : SeqNumber} {text : Octets} (h : c.acceptText seq text = .ok c') :
    c'.send = c.send := by
  rcases acceptText_ok h with rfl | ⟨_, _, _, _, _, _, rfl⟩ <;> rfl

theorem deliver_send (h : c.deliver.Ends σ c') : c'.send = c.send := by
  rcases deliver_ends h with ⟨_, rfl, _⟩ | ⟨_, _, _, _, rfl⟩ <;> rfl

theorem terminate_unacked {error : CallError} (h : (c.terminate error).Ends σ c') :
    c'.send.unacked = c.send.unacked := by
  obtain ⟨_, rfl⟩ := terminate_ends.mp h
  rfl

theorem receiveFin_send {finished : Bool} (h : (c.receiveFin s now).Ends σ (c', finished)) :
    c'.send = c.send := by
  rcases receiveFin_ends h with ⟨_, same⟩ | ⟨_, _, ends⟩
  · obtain ⟨rfl, _⟩ := Prod.mk.inj same
    rfl
  · obtain ⟨_, _, rfl⟩ := countFin_counts ends
    rfl

theorem receiveContent_send (h : (c.receiveContent s now).Ends σ a) :
    a.connection.send = c.send := by
  obtain ⟨_, _, _, _, rfl | ⟨kept, _, taken, served⟩, fin⟩ := receiveContent_ends h
  · rw [receiveFin_send fin]
  · rw [receiveFin_send fin, deliver_send served, acceptText_send taken]

theorem progress_unacked (h : (c.progress s now).Ends σ a) :
    a.connection.send.unacked = c.send.unacked := by
  unfold progress at h
  split at h
  · rw [receiveContent_send h]
    split <;> rfl
  · split at h
    · rw [receiveContent_send h]
      rfl
    · obtain ⟨_, rfl⟩ := Act.ends_pure.mp h
      rfl
  · split at h
    · rw [Act.ends_bind] at h
      obtain ⟨σ₁, c', _, ends, h, _⟩ := h
      obtain ⟨_, rfl⟩ := Act.ends_pure.mp h
      exact terminate_unacked ends
    · obtain ⟨_, rfl⟩ := Act.ends_pure.mp h
      rfl
  · rw [receiveContent_send h]

def unackedAfter (c : Connection) (ack : SeqNumber) : SeqNumber :=
  if c.send.unacked.before ack = true ∧ ack.after c.send.next = false then ack else c.send.unacked

theorem acknowledge_unacked {ack : SeqNumber} (h : (c.acknowledge s ack now).Ends σ a) :
    a.connection.send.unacked = c.unackedAfter ack := by
  have refreshed (d : Connection) : (d.refreshWindow s.header ack).send.unacked
      = d.send.unacked := by
    obtain ⟨_, _, _, same⟩ := refreshWindow_eq d s.header ack
    rw [same]
  rw [acknowledge_eq] at h
  unfold unackedAfter
  split at h
  · rename_i unsent
    obtain ⟨_, rfl⟩ := Act.ends_pure.mp h
    rw [if_neg (by simp [unsent])]
    rfl
  · rename_i sent
    split at h
    · rename_i above
      rw [Act.ends_bind] at h
      obtain ⟨σ₁, c₁, σ₂, ends, h, _⟩ := h
      obtain ⟨queue, roundTrip, _, rfl⟩ := releaseAcked_ends ends
      rw [if_pos ⟨above, by simpa using sent⟩]
      exact (progress_unacked h).trans (refreshed _)
    · rename_i under
      rw [pure_bind] at h
      rw [if_neg (fun valid => under valid.1)]
      exact (progress_unacked h).trans (refreshed _)

theorem arrivesWithAck_unacked {ack : SeqNumber} (h : (c.arrivesWithAck s ack now).Ends σ a) :
    a.connection.send.unacked = c.unackedAfter ack := by
  unfold arrivesWithAck at h
  split at h
  · split at h
    · rw [Act.ends_bind] at h
      obtain ⟨σ₁, c₁, σ₂, served, h, _⟩ := h
      have same := deliver_send served
      rw [acknowledge_unacked h, unackedAfter, unackedAfter, same]
    · rename_i invalid
      simp only [Act.ends_bind, Act.ends_lift, Act.ends_pure] at h
      obtain ⟨_, answer, _, _, ⟨_, rfl⟩, _⟩ := h
      rw [unackedAfter, if_neg]
      · rfl
      · rw [← SeqNumber.atOrBefore_iff, ← Bool.and_eq_true]
        exact invalid
  · exact acknowledge_unacked h

def Processes (c : Connection) (s : Segment) : Prop :=
  c.acceptable s.header = .ok true ∧ s.header.flags.has .rst = false ∧
    s.header.flags.has .syn = false

theorem arrivesSynchronized_idle (h : (c.arrivesSynchronized s now).Ends σ a)
    (idle : ¬ c.Processes s ∨ s.header.ack = none) :
    (∃ error, (c.terminate error).Ends σ a.connection) ∨
      (σ = [] ∧ ∃ waitingSince, a.connection = { c with waitingSince }) := by
  unfold arrivesSynchronized at h
  dsimp only at h
  rw [Act.ends_bind] at h
  obtain ⟨_, acceptable, τ, tested, h, rfl⟩ := h
  obtain ⟨rfl, fits⟩ := Act.ends_lift.mp tested
  rw [List.nil_append]
  split at h
  · rename_i fit
    rw [fit] at fits
    split at h
    · rw [Act.ends_bind] at h
      obtain ⟨σ₁, c', _, ends, h, rfl⟩ := h
      obtain ⟨rfl, rfl⟩ := Act.ends_pure.mp h
      rw [List.append_nil]
      exact Or.inl ⟨_, ends⟩
    · rename_i reset
      split at h
      · rw [Act.ends_bind] at h
        obtain ⟨σ₁, c', _, ends, h, rfl⟩ := h
        obtain ⟨rfl, rfl⟩ := Act.ends_pure.mp h
        rw [List.append_nil]
        exact Or.inl ⟨_, ends⟩
      · rename_i syn
        split at h
        · obtain ⟨rfl, rfl⟩ := Act.ends_pure.mp h
          exact Or.inr ⟨rfl, c.waitingSince, rfl⟩
        · rename_i ack given
          rcases idle with idle | idle
          · exact absurd ⟨fits, by simpa using reset, by simpa using syn⟩ idle
          · cases given.symm.trans idle
  · split at h
    · obtain ⟨rfl, rfl⟩ := Act.ends_pure.mp h
      exact Or.inr ⟨rfl, c.waitingSince, rfl⟩
    · obtain ⟨rfl, rfl⟩ := Act.ends_pure.mp h
      refine Or.inr ⟨rfl, ?_⟩
      simp only [Arrival.answered]
      split
      · exact ⟨now, rfl⟩
      · exact ⟨c.waitingSince, rfl⟩

theorem arrivesSynchronized_processed {ack : SeqNumber} (processed : c.Processes s)
    (given : s.header.ack = some ack) :
    c.arrivesSynchronized s now = c.arrivesWithAck s ack now := by
  obtain ⟨fits, reset, syn⟩ := processed
  unfold arrivesSynchronized
  simp only [fits, reset, syn, given, Bool.false_eq_true, if_false]
  exact (Act.bind_of_ok rfl _).trans rfl

/-- A segment whose acknowledgment passes for one though nothing waits: it is exactly half the circle
    ahead of all that was sent. -/
def Slips (c : Connection) (s : Segment) : Prop :=
  c.Processes s ∧ c.send.unacked = c.send.next ∧
    ∃ ack, s.header.ack = some ack ∧ ack.ahead c.send.unacked = SeqNumber.halfCircle

/-- SND.UNA stayed, or it moved forward to the acknowledgment number of the segment, which is not
    beyond SND.NXT. -/
def Acknowledged (c : Connection) (s : Segment) (unacked : SeqNumber) : Prop :=
  unacked = c.send.unacked ∨
    s.header.ack = some unacked ∧ 0 < unacked.ahead c.send.unacked ∧
      unacked.ahead c.send.unacked ≤ c.send.next.ahead c.send.unacked

instance (c : Connection) (s : Segment) (unacked : SeqNumber) :
    Decidable (c.Acknowledged s unacked) :=
  inferInstanceAs (Decidable (_ ∨ _))

theorem arrives_synchronized (live : c.state.isSynchronized = true) :
    c.arrives s iss now = c.arrivesSynchronized s now := by
  unfold arrives
  cases state : c.state <;> first | rfl | (rw [state] at live; cases live)

/-- With less than half the circle on its way, a segment that slips is the only one that makes a
    false acknowledgment. -/
theorem arrives_acknowledged_iff (live : c.state.isSynchronized = true)
    (room : c.send.next.ahead c.send.unacked < SeqNumber.halfCircle)
    (h : (c.arrives s iss now).Ends σ a) :
    Acknowledged c s a.connection.send.unacked ↔ ¬ c.Slips s := by
  rw [arrives_synchronized live] at h
  by_cases passes : ∃ ack, c.Processes s ∧ s.header.ack = some ack
  · obtain ⟨ack, processed, given⟩ := passes
    rw [arrivesSynchronized_processed processed given] at h
    have looked : _ ∧ ack.after c.send.next = false ↔ _ := SeqNumber.acknowledges_iff room
    have moved := arrivesWithAck_unacked h
    unfold unackedAfter at moved
    constructor
    · rintro honest ⟨_, same, ack', given', half⟩
      cases given.symm.trans given'
      rw [if_pos (looked.mpr (Or.inr ⟨same, half⟩))] at moved
      rw [moved] at honest
      rcases honest with still | ⟨_, _, under⟩
      · rw [still, SeqNumber.ahead_self] at half
        cases half
      · rw [half, ← same, SeqNumber.ahead_self] at under
        cases under
    · intro straight
      split at moved
      · rename_i valid
        rcases looked.mp valid with ⟨above, under⟩ | ⟨same, half⟩
        · rw [moved]
          exact Or.inr ⟨given, above, under⟩
        · exact absurd ⟨processed, same, ack, given, half⟩ straight
      · exact Or.inl moved
  · have still : a.connection.send.unacked = c.send.unacked := by
      have idle : ¬ c.Processes s ∨ s.header.ack = none := by
        by_cases processed : c.Processes s
        · refine Or.inr (Option.eq_none_iff_forall_ne_some.mpr ?_)
          exact fun ack given => passes ⟨ack, processed, given⟩
        · exact Or.inl processed
      rcases arrivesSynchronized_idle h idle with ⟨error, ends⟩ | ⟨_, _, same⟩
      · exact terminate_unacked ends
      · rw [same]
    constructor
    · rintro _ ⟨processed, _, ack, given, _⟩
      exact passes ⟨ack, processed, given⟩
    · intro _
      exact Or.inl still

/- Over the whole of an arrival. -/

variable {origin : SeqNumber} {unacked next : Nat}

def Ordered (c : Connection) : Prop := ∃ origin unacked next, Window origin unacked next c

theorem Slides.silent {unacked' : Nat} (h : Slides origin unacked next none c σ unacked' c')
    (call : CallId) : Signal.tellsDone call ∉ σ := by
  intro told
  obtain ⟨_, _, _, stop, _, above, under⟩ := h.done call told
  cases h.given (by omega)

def Arrived (origin : SeqNumber) (unacked next : Nat) (s : Segment) (c : Connection)
    (σ : List Signal) (c' : Connection) : Prop :=
  (∃ unacked', Slides origin unacked next s.header.ack c σ unacked' c') ∨
    s.header.ack = none ∧ Ordered c' ∧ ∀ call, Signal.tellsDone call ∉ σ

theorem Arrived.ordered (h : Arrived origin unacked next s c σ c') : Ordered c' := by
  rcases h with ⟨_, slides⟩ | ⟨_, ordered, _⟩
  · exact ⟨_, _, _, slides.window⟩
  · exact ordered

theorem straight_of_unasked (unasked : s.header.ack = none) : Straight s c := by
  intro _ ack given
  cases unasked.symm.trans given

theorem moves_arrived (coherent : Coherent c) (straight : Straight s c)
    (h : Window origin unacked next c) (moves : Chain (Move s iss now) c σ c') :
    Arrived origin unacked next s c σ c' := by
  have kept {ρ : List Signal} {d : Connection} {τ : List Signal} {d' : Connection}
      (before : Coherent d ∧ Straight s d ∧ Arrived origin unacked next s c ρ d)
      (move : Move s iss now d τ d') :
      Coherent d' ∧ Straight s d' ∧ Arrived origin unacked next s c (ρ ++ τ) d' := by
    obtain ⟨coherent, straight, arrived⟩ := before
    refine ⟨coherent_move coherent move, ?_⟩
    rcases arrived with ⟨unacked₁, slides⟩ | ⟨unasked, ⟨origin₁, unacked₁, next₁, window⟩, silent⟩
    · rcases window_move coherent straight slides.window move with ⟨unacked₂, later, straight⟩ | fresh
      · exact ⟨straight, Or.inl ⟨unacked₂, slides.trans later⟩⟩
      · obtain ⟨_, unasked, rfl, iss, window⟩ := fresh
        rw [unasked] at slides
        refine ⟨straight_of_unasked unasked, Or.inr ⟨unasked, ⟨_, _, _, window⟩, ?_⟩⟩
        rw [List.append_nil]
        exact slides.silent
    · refine ⟨straight_of_unasked unasked, Or.inr ⟨unasked, ?_⟩⟩
      rcases window_move coherent straight window move with ⟨unacked₂, later, _⟩ | fresh
      · rw [unasked] at later
        refine ⟨⟨_, _, _, later.window⟩, fun call told => ?_⟩
        rcases List.mem_append.mp told with told | told
        · exact silent call told
        · exact later.silent call told
      · obtain ⟨_, _, rfl, iss, window⟩ := fresh
        rw [List.append_nil]
        exact ⟨⟨_, _, _, window⟩, silent⟩
  have start : Coherent c ∧ Straight s c ∧ Arrived origin unacked next s c [] c :=
    ⟨coherent, straight, Or.inl ⟨unacked, h.stays ⟨rfl, rfl⟩ rfl (by simp)⟩⟩
  have all := moves.carries (P := fun ρ d => Coherent d ∧ Straight s d ∧
    Arrived origin unacked next s c ρ d) kept start
  exact all.2.2

theorem moves_slide (coherent : Coherent c) (away : c.state ≠ .listen) (straight : Straight s c)
    (h : Window origin unacked next c) (moves : Chain (Move s iss now) c σ c') :
    ∃ unacked', Slides origin unacked next s.header.ack c σ unacked' c' := by
  have kept {ρ : List Signal} {d : Connection} {τ : List Signal} {d' : Connection}
      (before : Coherent d ∧ d.state ≠ .listen ∧ Straight s d ∧
        ∃ unacked', Slides origin unacked next s.header.ack c ρ unacked' d)
      (move : Move s iss now d τ d') :
      Coherent d' ∧ d'.state ≠ .listen ∧ Straight s d' ∧
        ∃ unacked', Slides origin unacked next s.header.ack c (ρ ++ τ) unacked' d' := by
    obtain ⟨coherent, away, straight, unacked₁, slides⟩ := before
    refine ⟨coherent_move coherent move, move_away away move, ?_⟩
    obtain ⟨unacked₂, later, straight⟩ | fresh := window_move coherent straight slides.window move
    · exact ⟨straight, unacked₂, slides.trans later⟩
    · exact absurd fresh.listening away
  have start : Coherent c ∧ c.state ≠ .listen ∧ Straight s c ∧
      ∃ unacked', Slides origin unacked next s.header.ack c [] unacked' c :=
    ⟨coherent, away, straight, unacked, h.stays ⟨rfl, rfl⟩ rfl (by simp)⟩
  have all := moves.carries (P := fun ρ d => Coherent d ∧ d.state ≠ .listen ∧ Straight s d ∧
    ∃ unacked', Slides origin unacked next s.header.ack c ρ unacked' d) kept start
  exact all.2.2.2

theorem arrives_straight (straight : c.state.isSynchronized = true → ¬ c.Slips s)
    (ends : (c.arrives s iss now).Ends σ a) :
    Straight s c ∨ (∃ error, (c.terminate error).Ends σ a.connection) ∨
      (σ = [] ∧ ∃ waitingSince, a.connection = { c with waitingSince }) := by
  by_cases passes : c.state.isSynchronized = true → c.Processes s
  · refine Or.inl ?_
    intro live ack given same half
    exact straight live ⟨passes live, same, ack, given, half⟩
  · rw [Classical.not_imp] at passes
    obtain ⟨live, idle⟩ := passes
    rw [arrives_synchronized live] at ends
    exact Or.inr (arrivesSynchronized_idle ends (Or.inl idle))

theorem Window.idles {ack : Option SeqNumber} (h : Window origin unacked next c)
    (idle : (∃ error, (c.terminate error).Ends σ c') ∨
      (σ = [] ∧ ∃ waitingSince, c' = { c with waitingSince })) :
    Slides origin unacked next ack c σ unacked c' := by
  rcases idle with ⟨error, ends⟩ | ⟨rfl, _, same⟩
  · have turn : Turn none .start c σ c' := .terminate ends
    exact window_turn h turn
  · rw [same]
    exact h.stays ⟨rfl, rfl⟩ rfl (by simp)

theorem arrives_arrived (coherent : Coherent c) (h : Window origin unacked next c)
    (straight : c.state.isSynchronized = true → ¬ c.Slips s)
    (ends : (c.arrives s iss now).Ends σ a) :
    Arrived origin unacked next s c σ a.connection := by
  rcases arrives_straight straight ends with straight | idle
  · exact moves_arrived coherent straight h (arrives_handled coherent.fresh ends).1
  · exact Or.inl ⟨unacked, h.idles idle⟩

theorem arrives_slides (coherent : Coherent c) (away : c.state ≠ .listen)
    (h : Window origin unacked next c) (straight : c.state.isSynchronized = true → ¬ c.Slips s)
    (ends : (c.arrives s iss now).Ends σ a) :
    ∃ unacked', Slides origin unacked next s.header.ack c σ unacked' a.connection := by
  rcases arrives_straight straight ends with straight | idle
  · exact moves_slide coherent away straight h (arrives_handled coherent.fresh ends).1
  · exact ⟨unacked, h.idles idle⟩

theorem turns_slide (h : Window origin unacked next c) (turns : Chain (Turn timer now) c σ c') :
    Slides origin unacked next none c σ unacked c' := by
  have start : Slides origin unacked next none c [] unacked c := h.stays ⟨rfl, rfl⟩ rfl (by simp)
  exact turns.carries (P := fun ρ d => Slides origin unacked next none c ρ unacked d)
    (fun slides turn => slides.trans (window_turn slides.window turn)) start

def Roomy (c : Connection) : Prop :=
  c.state.isSynchronized = true →
    c.send.next.ahead c.send.unacked < SeqNumber.halfCircle

instance (c : Connection) : Decidable c.Roomy :=
  inferInstanceAs (Decidable (c.state.isSynchronized = true → _ < _))

theorem Window.extend_roomy (h : Window origin unacked next c) {e : Unacked}
    (seq : e.seq = c.send.next) (filled : 0 < e.size) (small : e.size < SeqNumber.halfCircle)
    (plain : e.flags.has .syn = true → e.flags.has .fin = false)
    (unacked' : c'.send.unacked = c.send.unacked) (next' : c'.send.next = c.send.next.advance e.size)
    (queue' : c'.queue = c.queue ++ [e]) (live : c'.state.isSynchronized = true)
    (roomy : c'.Roomy) : Window origin unacked (next + e.size) c' := by
  have order := h.order
  have room := h.room
  have start : c'.send.unacked = origin.advance unacked := unacked'.trans h.start
  have stop : c'.send.next = origin.advance (next + e.size) := by
    rw [next', h.stop, SeqNumber.advance_advance]
  have apart := roomy live
  simp only [SeqNumber.halfCircle] at room small apart
  rw [start, stop, SeqNumber.ahead_advance_of_le (by omega) (by omega)] at apart
  refine h.extend seq filled plain unacked' next' queue' ?_
  simp only [SeqNumber.halfCircle]
  omega

theorem window_sent {text : Octets} {call : CallId} (h : Window origin unacked next c)
    (live : c.state = .established ∨ c.state = .closeWait) (filled : text ≠ [])
    (fits : text.length ≤ c.send.window.toNat) (roomy : (c.sent text now call).Roomy) :
    Window origin unacked (next + text.length) (c.sent text now call) := by
  have plain : (Flags.ofList [.ack, .psh]).has .syn = false := by decide
  have size := Unacked.size_sent c.send.next text now call
  have some : 0 < text.length := List.length_pos_iff.mpr filled
  have short := c.send.window.toNat_lt
  have live' : (c.sent text now call).state.isSynchronized = true := by
    change c.state.isSynchronized = true
    rcases live with state | state <;> rw [state] <;> rfl
  have small : text.length < SeqNumber.halfCircle := by
    simp only [SeqNumber.halfCircle]
    omega
  have extended : Window origin unacked _ (c.sent text now call) :=
    h.extend_roomy rfl (size.symm ▸ some) (size.symm ▸ small)
      (fun syn => absurd syn (plain ▸ Bool.false_ne_true)) rfl (size.symm ▸ rfl) rfl live' roomy
  rwa [size] at extended

theorem window_finished {after : State} {call : CallId} (h : Window origin unacked next c)
    (states : Finishes c.state after) (roomy : (c.finished after now call).Roomy) :
    Window origin unacked (next + 1) (c.finished after now call) := by
  have plain : (Flags.ofList [.fin, .ack]).has .syn = false := by decide
  have size := Unacked.size_finished c.send.next now call
  have live' : (c.finished after now call).state.isSynchronized = true := by
    rcases states with ⟨_, rfl⟩ | ⟨_, rfl⟩ <;> rfl
  have extended : Window origin unacked _ (c.finished after now call) :=
    h.extend_roomy rfl (size.symm ▸ Nat.one_pos) (size.symm ▸ by decide)
      (fun syn => absurd syn (plain ▸ Bool.false_ne_true)) rfl (size.symm ▸ rfl) rfl live' roomy
  rwa [size] at extended

theorem called_window {event : Event} {call : CallId} {ds : List Datagram} (coherent : Coherent c)
    (window : Window origin unacked next c) (called : Called iss now call event c σ ds c')
    (roomy : c'.Roomy) :
    (∃ n, n ≤ 65535 ∧ Window origin unacked (next + n) c') ∨
      c.Free ∧ ∃ next', Window iss 0 next' c' := by
  have same (sent : c'.send.unacked = c.send.unacked ∧ c'.send.next = c.send.next)
      (laid : Laid origin unacked next 0 c'.queue) :
      (∃ n, n ≤ 65535 ∧ Window origin unacked (next + n) c') ∨
        c.Free ∧ ∃ next', Window iss 0 next' c' := by
    refine Or.inl ⟨0, Nat.zero_le _, ?_⟩
    exact ⟨sent.1 ▸ window.start, sent.2 ▸ window.stop, window.order, window.room, laid⟩
  cases called with
  | told | timed | listen | idle => exact same ⟨rfl, rfl⟩ window.laid
  | fail free =>
    refine Or.inr ⟨free, 0, (SeqNumber.advance_zero iss).symm, (SeqNumber.advance_zero iss).symm,
      Nat.le_refl 0, by decide, ?_⟩
    exact coherent.unsent free ▸ .nil
  | @ask _ foreign _ _ _ free userTimeout =>
    exact Or.inr ⟨free, 1, window_fresh (.ofList [.syn]) (by decide) rfl rfl
      (asked_queue coherent free foreign userTimeout)⟩
  | @send _ text _ _ live filled fits =>
    have short := c.send.window.toNat_lt
    exact Or.inl ⟨text.length, by omega, window_sent window live filled fits roomy⟩
  | receive _ _ ends =>
    rcases deliver_ends ends with ⟨_, rfl, _⟩ | ⟨_, _, _, _, rfl⟩
    · exact same ⟨rfl, rfl⟩ window.laid
    · exact same ⟨rfl, rfl⟩ window.laid
  | quit _ ends =>
    obtain ⟨_, rfl⟩ := terminate_ends.mp ends
    exact same ⟨rfl, rfl⟩ .nil
  | finish states => exact Or.inl ⟨1, by decide, window_finished window states roomy⟩
  | abort _ ends =>
    obtain ⟨_, rfl⟩ := terminate_ends.mp ends
    exact same ⟨rfl, rfl⟩ .nil

theorem called_ordered {event : Event} {call : CallId} {ds : List Datagram} (coherent : Coherent c)
    (ordered : Ordered c) (called : Called iss now call event c σ ds c') (roomy : c'.Roomy) :
    Ordered c' := by
  obtain ⟨origin, unacked, next, window⟩ := ordered
  rcases called_window coherent window called roomy with ⟨_, _, extended⟩ | ⟨_, _, begun⟩
  · exact ⟨_, _, _, extended⟩
  · exact ⟨_, _, _, begun⟩

theorem called_done {event : Event} {call : CallId} {ds : List Datagram}
    (called : Called iss now call event c σ ds c') {done : CallId}
    (told : Signal.tellsDone done ∈ σ) : done = call ∧ ds = [] := by
  cases called with
  | told =>
    have same := List.mem_singleton.mp told
    simp only [Signal.tellsDone, Signal.mk.injEq] at same
    exact ⟨same.1, rfl⟩
  | timed | fail => cases List.mem_singleton.mp told
  | listen =>
    cases List.mem_singleton.mp told
    exact ⟨rfl, rfl⟩
  | ask | send | finish | idle => cases told
  | receive _ _ ends =>
    rcases deliver_ends ends with ⟨rfl, _⟩ | ⟨_, _, _, rfl, _⟩
    · cases told
    · cases List.mem_singleton.mp told
  | quit _ ends =>
    obtain ⟨rfl, _⟩ := terminate_ends.mp ends
    rcases List.mem_append.mp told with told | told
    · exact absurd told (fails_silent _ _ done)
    · cases List.mem_singleton.mp told
      exact ⟨rfl, rfl⟩
  | abort _ ends =>
    obtain ⟨rfl, _⟩ := terminate_ends.mp ends
    exact absurd told (fails_silent _ _ done)

end Connection

namespace Stack

variable {k k' : Stack} {now : Instant} {call : CallId} {σ : List Signal}

def Ordered (k : Stack) : Prop := ∀ c ∈ k.table.connections, c.Ordered

def Roomy (k : Stack) : Prop := ∀ c ∈ k.table.connections, c.Roomy

instance (k : Stack) : Decidable k.Roomy :=
  inferInstanceAs (Decidable (∀ c ∈ k.table.connections, c.Roomy))

def Slips (k : Stack) (event : Event) : Prop :=
  ∃ octets src dst s c, event = .ingress octets src dst ∧ Reads octets src dst s ∧
    k.table.get? s.receiver = some c ∧ c.state.isSynchronized = true ∧ c.Slips s

/-- The event brings an acknowledgment of the segment of a call: a number from the end of the segment
    to SND.NXT, as both were before it. -/
def Acknowledges (k : Stack) (event : Event) (call : CallId) : Prop :=
  ∃ octets src dst s ack, event = .ingress octets src dst ∧ Reads octets src dst s ∧
    s.header.ack = some ack ∧ ∃ c e stop, k.table.get? s.receiver = some c ∧ e ∈ c.queue ∧
      e.call = some call ∧ e.stop = .ok stop ∧
      0 < stop.ahead c.send.unacked ∧ stop.ahead c.send.unacked ≤ ack.ahead c.send.unacked ∧
      ack.ahead c.send.unacked ≤ c.send.next.ahead c.send.unacked

theorem Ordered.put (h : Ordered k) {c : Connection} (ordered : c.Ordered)
    (table : k'.table.connections = (k.table.put c).connections) : Ordered k' := by
  intro d member
  rw [table] at member
  rcases Table.mem_put member with rfl | member
  · exact ordered
  · exact h d member

theorem swept_ordered {config : Config} {connections connections' : List Connection}
    {segments : List Segment} (swept : Swept now config connections σ connections' segments)
    (ordered : ∀ c ∈ connections, c.Ordered) :
    (∀ c ∈ connections', c.Ordered) ∧ ∀ done, Signal.tellsDone done ∉ σ := by
  induction swept with
  | nil => exact ⟨ordered, fun _ => List.not_mem_nil⟩
  | @cons c c' _ _ _ _ _ _ first _ ih =>
    obtain ⟨origin, unacked, next, window⟩ := ordered c List.mem_cons_self
    have slides := Connection.turns_slide window (Connection.onTimer_turns first).1
    obtain ⟨others, silent⟩ := ih fun d member => ordered d (List.mem_cons_of_mem _ member)
    constructor
    · intro d member
      rcases List.mem_cons.mp member with rfl | member
      · exact ⟨_, _, _, slides.window⟩
      · exact others d member
    · intro done told
      rcases List.mem_append.mp told with told | told
      · exact slides.silent done told
      · exact silent done told

theorem arrived_acknowledges {octets : Octets} {src dst : Address} {s : Segment}
    {c c' : Connection} {origin : SeqNumber} {unacked next : Nat}
    (reads : Reads octets src dst s) (found : k.table.get? s.receiver = some c)
    (window : Connection.Window origin unacked next c)
    (arrived : Connection.Arrived origin unacked next s c σ c') {done : CallId}
    (told : Signal.tellsDone done ∈ σ) : k.Acknowledges (.ingress octets src dst) done := by
  rcases arrived with ⟨unacked', slides⟩ | ⟨_, _, silent⟩
  · obtain ⟨e, member, waits, stop, ends, above, under⟩ := slides.done done told
    have given := slides.given (by omega)
    have room := window.room
    have within := slides.window.order
    simp only [SeqNumber.halfCircle] at room
    have place {n : Nat} (behind : unacked ≤ n) (sent : n ≤ next) :
        (origin.advance n).ahead c.send.unacked = n - unacked := by
      rw [window.start, SeqNumber.ahead_advance_of_le behind (by omega)]
    refine ⟨octets, src, dst, s, _, rfl, reads, given, c, e, _, found, member, waits, ends, ?_⟩
    rw [window.ahead, place (by omega) (by omega), place (by omega) (by omega)]
    omega
  · exact absurd told (silent done)

theorem happens_ordered {event : Event} (proper : Proper k) (ordered : Ordered k)
    (roomy : Roomy k') (straight : ¬ k.Slips event) (happens : Happens k now call event σ k') :
    Ordered k' ∧ ∀ done, Signal.tellsDone done ∈ σ →
      done = call ∧ k'.log = k.log ∨ k.Acknowledges event done := by
  cases happens with
  | kept _ table =>
    exact ⟨fun c member => ordered c (table ▸ member), fun _ told => absurd told List.not_mem_nil⟩
  | bound _ table =>
    refine ⟨fun c member => ?_, fun _ told => absurd told List.not_mem_nil⟩
    rw [table] at member
    rcases Table.mem_insert.mp member with rfl | member
    · exact ⟨⟨0⟩, 0, 0, rfl, rfl, Nat.le_refl 0, by decide, .nil⟩
    · exact ordered c member
  | removed _ _ table =>
    refine ⟨fun c member => ?_, fun _ told => absurd told List.not_mem_nil⟩
    rw [table] at member
    exact ordered c (List.mem_filter.mp member).1
  | called _ calls =>
    cases calls with
    | absent _ table =>
      refine ⟨fun c member => ordered c (table ▸ member), fun done told => ?_⟩
      split at told
      · cases List.mem_singleton.mp told
      · cases told
    | present _ found called table log =>
      have member := mem_of_put proper.distinct found (Connection.called_here called) table
      refine ⟨ordered.put ?_ table, fun done told => ?_⟩
      · exact Connection.called_ordered (proper.found found)
          (ordered _ (Table.get?_some found).1) called (roomy _ member)
      · obtain ⟨same, rfl⟩ := Connection.called_done called told
        rw [List.append_nil] at log
        exact Or.inl ⟨same, log⟩
  | taken reads takes =>
    cases takes with
    | unclaimed table =>
      exact ⟨fun c member => ordered c (table ▸ member), fun _ told => absurd told List.not_mem_nil⟩
    | claimed _ found _ arrives table =>
      obtain ⟨origin, unacked, next, window⟩ := ordered _ (Table.get?_some found).1
      have arrived := Connection.arrives_arrived (proper.found found) window
        (fun live slips => straight ⟨_, _, _, _, _, rfl, reads, found, live, slips⟩) arrives
      exact ⟨ordered.put arrived.ordered table,
        fun done told => Or.inr (arrived_acknowledges reads found window arrived told)⟩
  | swept swept =>
    obtain ⟨ordered', silent⟩ := swept_ordered swept ordered
    exact ⟨ordered', fun done told => absurd told (silent done)⟩

def Fair (k : Stack) (place : Nat) : List (Event × Instant) → Prop
  | [] => k.Roomy
  | (event, now) :: rest => k.Roomy ∧ ¬ k.Slips event ∧
    ∀ σ k' answer, (k.handle event now place).Ends σ (k', answer) → k'.Fair (place + 1) rest

theorem Fair.roomy {place : Nat} {history : List (Event × Instant)}
    (fair : k.Fair place history) : k.Roomy := by
  cases history with
  | nil => exact fair
  | cons head rest => exact fair.1

theorem run_ordered {place : Nat} {history later : List (Event × Instant)} (proper : Proper k)
    (ordered : Ordered k) (fair : k.Fair place (history ++ later))
    (ends : (k.run place history).Ends σ k') :
    Ordered k' ∧ k'.Fair (place + history.length) later := by
  induction history generalizing k place σ with
  | nil =>
    obtain ⟨_, rfl⟩ := Act.ends_pure.mp ends
    exact ⟨ordered, fair⟩
  | cons head rest ih =>
    obtain ⟨event, now⟩ := head
    obtain ⟨_, straight, onward⟩ := fair
    obtain ⟨_, k₁, _, _, first, after, _⟩ := run_cons_ends.mp ends
    have fair := onward _ _ _ first
    have happens := handle_happens proper.distinct first
    have ordered := (happens_ordered proper ordered fair.roomy straight happens).1
    rw [List.length_cons, show place + (rest.length + 1) = place + 1 + rest.length by omega]
    exact ih (handle_proper proper first) ordered fair after

theorem ordered_of_fair {config : Config} {generator : SeqGenerator} {history : List (Event × Instant)}
    (fair : (Stack.empty config generator).Fair 0 history)
    (ends : ((Stack.empty config generator).run 0 history).Ends σ k) : Ordered k := by
  rw [← List.append_nil history] at fair
  exact (run_ordered (proper_empty config generator) (fun _ member => absurd member List.not_mem_nil)
    fair ends).1

theorem done_acknowledged {config : Config} {generator : SeqGenerator}
    {history : List (Event × Instant)} {event : Event} {answer : Answer} {τ : List Signal}
    {done : CallId} (fair : (Stack.empty config generator).Fair 0 (history ++ [(event, now)]))
    (ends : ((Stack.empty config generator).run 0 history).Ends σ k)
    (last : (k.handle event now history.length).Ends τ (k', answer))
    (told : Signal.tellsDone done ∈ τ) :
    done = history.length ∧ k'.log = k.log ∨ k.Acknowledges event done := by
  have start := proper_empty config generator
  have proper := run_proper start ends
  obtain ⟨ordered, _, straight, onward⟩ :=
    run_ordered start (fun _ member => absurd member List.not_mem_nil) fair ends
  rw [Nat.zero_add] at onward
  have roomy := (onward _ _ _ last).roomy
  exact (happens_ordered proper ordered roomy straight
    (handle_happens proper.distinct last)).2 done told

/-- Acknowledgments are sound against every peer, up to the one number that slips. Where a segment does
    not slip, SND.UNA stays or moves forward to the acknowledgment number, within what was sent, and
    where it slips it does neither. And as long as none slips, a call is done only by an acknowledgment
    of its segment, or at once if nothing was sent for it. -/
theorem acknowledgments_sound_iff_straight {config : Config} {generator : SeqGenerator} :
    (∀ {c : Connection} {s : Segment} {iss : SeqNumber} {now : Instant} {σ : List Signal}
      {a : Arrival}, c.state.isSynchronized = true →
      c.send.next.ahead c.send.unacked < SeqNumber.halfCircle → (c.arrives s iss now).Ends σ a →
      (c.Acknowledged s a.connection.send.unacked ↔ ¬ c.Slips s)) ∧
    ∀ {history : List (Event × Instant)} {event : Event} {now : Instant} {σ τ : List Signal}
      {k k' : Stack} {answer : Answer} {done : CallId},
      (Stack.empty config generator).Fair 0 (history ++ [(event, now)]) →
      ((Stack.empty config generator).run 0 history).Ends σ k →
      (k.handle event now history.length).Ends τ (k', answer) → Signal.tellsDone done ∈ τ →
      done = history.length ∧ k'.log = k.log ∨ k.Acknowledges event done :=
  ⟨Connection.arrives_acknowledged_iff, done_acknowledged⟩

/- An opening, and the segments that may follow it. -/

def asking : List (Event × Instant) :=
  [(.bind ⟨⟨10, 0, 0, 1⟩, 49152⟩, .start),
   (.openConnection ⟨⟨10, 0, 0, 1⟩, 49152⟩ (.active (some ⟨⟨10, 0, 0, 2⟩, 80⟩)) none, .start)]

def asked : Stack :=
  ((Stack.empty { receiveWindow := 8 } (.ofKey 1 2)).run 0 asking).result (.empty {} (.ofKey 1 2))

def agreement : Event :=
  .ingress [0, 80, 192, 0, 0, 0, 3, 232, 10, 62, 28, 189, 80, 18, 1, 244, 174, 168, 0, 0]
    ⟨10, 0, 0, 2⟩ ⟨10, 0, 0, 1⟩

theorem straight_of_unsynchronized {event : Event}
    (early : ∀ c ∈ k.table.connections, c.state.isSynchronized = false) : ¬ k.Slips event := by
  rintro ⟨_, _, _, _, c, _, _, found, live, _⟩
  rw [early c (Table.get?_some found).1] at live
  cases live

theorem asking_fair :
    (Stack.empty { receiveWindow := 8 } (.ofKey 1 2)).Fair 0 (asking ++ [(agreement, .start)]) := by
  refine ⟨by decide, straight_of_unsynchronized (by decide), ?_⟩
  intro σ₁ k₁ answer₁ first
  obtain ⟨rfl, _⟩ := Prod.mk.inj (first.eq_result (.empty {} (.ofKey 1 2), .accepted))
  refine ⟨by decide +kernel, straight_of_unsynchronized (by decide +kernel), ?_⟩
  intro σ₂ k₂ answer₂ second
  obtain ⟨rfl, _⟩ := Prod.mk.inj (second.eq_result (.empty {} (.ofKey 1 2), .accepted))
  refine ⟨by decide +kernel, straight_of_unsynchronized (by decide +kernel), ?_⟩
  intro σ₃ k₃ answer₃ third
  obtain ⟨rfl, _⟩ := Prod.mk.inj (third.eq_result (.empty {} (.ofKey 1 2), .accepted))
  change Roomy _
  decide +kernel

theorem opening_acknowledged : asked.Acknowledges agreement 1 := by
  have ends : ((Stack.empty { receiveWindow := 8 } (.ofKey 1 2)).run 0 asking).Ends
      ((Stack.empty { receiveWindow := 8 } (.ofKey 1 2)).run 0 asking).signals asked :=
    Act.ends_result _ (by decide +kernel)
  obtain ⟨⟨k', answer⟩, last⟩ : ∃ result, (asked.handle agreement .start 2).Ends [.tellsDone 1]
      result := by
    have signals : (asked.handle agreement .start 2).signals = [.tellsDone 1] := by decide +kernel
    exact ⟨_, signals ▸ Act.ends_result (asked, Answer.accepted) (by decide +kernel)⟩
  have sound := acknowledgments_sound_iff_straight.2 asking_fair ends last List.mem_cons_self
  exact sound.resolve_left fun own => absurd own.1 (by decide)

def agreed : Stack :=
  ((asked.handle agreement .start 2).result (asked, .accepted)).1

def beyond : Segment where
  header := ⟨80, 49152, .ofList [.ack], ⟨1001⟩, some (.advance ⟨171842749⟩ SeqNumber.halfCircle), 500, 0, 0⟩
  text := []
  src := ⟨10, 0, 0, 2⟩
  dst := ⟨10, 0, 0, 1⟩

/-- It makes a connection on which nothing waits believe that half the circle was acknowledged. -/
theorem beyond_acknowledges_falsely : ∃ c ∈ agreed.table.connections,
    c.state.isSynchronized = true ∧ c.send.next.ahead c.send.unacked < SeqNumber.halfCircle ∧
      ∃ τ a, (c.arrives beyond ⟨0⟩ .start).Ends τ a ∧
        ¬ c.Acknowledged beyond a.connection.send.unacked := by
  let c : Connection := agreed.table.connections.headD (.bound ⟨⟨10, 0, 0, 1⟩, 49152⟩ {})
  have ends : (c.arrives beyond ⟨0⟩ .start).Ends (c.arrives beyond ⟨0⟩ .start).signals
      ((c.arrives beyond ⟨0⟩ .start).result (.silent c)) := Act.ends_result _ (by decide +kernel)
  exact ⟨c, by decide +kernel, by decide +kernel, by decide +kernel, _, _, ends, by decide +kernel⟩

end Stack
end TcpEngine

import TcpEngine.Connection.Arrival
import TcpEngine.Connection.Timer
import TcpEngine.Proofs.Act
import TcpEngine.Proofs.Circle
import TcpEngine.Ring.Lemmas

/-!
What the parts of the engine do to a connection, one statement for each part. The handlers of
segments, timers and calls are put together from these parts.
-/
namespace TcpEngine

def Signal.fails (error : CallError) (call : CallId) : Signal := ⟨call, .failed error⟩

def Signal.tellsDone (call : CallId) : Signal := ⟨call, .done⟩

theorem Unacked.stop_ok {e : Unacked} {stop : SeqNumber} :
    e.stop = .ok stop ↔ e.text.length < SeqNumber.halfCircle ∧
      stop = e.seq.advance (e.text.length + e.flags.sequenceLength) := by
  have small : e.flags.sequenceLength < SeqNumber.halfCircle := by
    have syn := Bool.toNat_le (e.flags.has .syn)
    have fin := Bool.toNat_le (e.flags.has .fin)
    simp only [Flags.sequenceLength, SeqNumber.halfCircle]
    omega
  simp only [Unacked.stop, except_bind_ok, SeqNumber.add_ok]
  constructor
  · rintro ⟨_, ⟨short, rfl⟩, _, rfl⟩
    exact ⟨short, SeqNumber.advance_advance _ _ _⟩
  · rintro ⟨short, rfl⟩
    exact ⟨_, ⟨short, rfl⟩, small, (SeqNumber.advance_advance _ _ _).symm⟩

namespace Connection

/-- What `release` takes off a queue: a front part of it, up to the first segment that ends behind
    `unacked`. -/
structure Released (unacked : SeqNumber) (queue rest : List Unacked) (done : List Unacked) :
    Prop where
  split : queue = done ++ rest
  covered : ∀ e ∈ done, ∃ stop, e.stop = .ok stop ∧ stop.after unacked = false
  uncovered : ∀ e, rest.head? = some e → ∃ stop, e.stop = .ok stop ∧ stop.after unacked = true

theorem release_ends {unacked : SeqNumber} {now : Instant} {queue rest : List Unacked}
    {before after : RoundTrip} {σ : List Signal}
    (h : (release unacked now queue before).Ends σ (rest, after)) :
    ∃ done, Released unacked queue rest done ∧
      σ = (done.filterMap Unacked.call).map Signal.tellsDone := by
  induction queue generalizing before σ with
  | nil =>
    obtain ⟨rfl, same⟩ := Act.ends_pure.mp h
    obtain ⟨rfl, _⟩ := Prod.mk.inj same
    exact ⟨[], ⟨rfl, by simp, by simp⟩, rfl⟩
  | cons e queue ih =>
    simp only [release, Act.ends_bind, Act.ends_lift] at h
    obtain ⟨_, stop, _, ⟨rfl, ends⟩, h, rfl⟩ := h
    split at h
    · rename_i later
      obtain ⟨rfl, same⟩ := Act.ends_pure.mp h
      obtain ⟨rfl, _⟩ := Prod.mk.inj same
      refine ⟨[], ⟨rfl, by simp, ?_⟩, rfl⟩
      intro first head
      cases head
      exact ⟨stop, ends, later⟩
    · rename_i early
      simp only [Act.ends_bind, Act.ends_lift, Act.ends_signal?] at h
      obtain ⟨_, _, _, ⟨rfl, _⟩, ⟨_, _, τ, rfl, h, rfl⟩, rfl⟩ := h
      obtain ⟨done, released, rfl⟩ := ih h
      refine ⟨e :: done, ⟨by rw [released.split]; rfl, ?_, released.uncovered⟩, ?_⟩
      · intro d member
        rcases List.mem_cons.mp member with rfl | member
        · exact ⟨stop, ends, by simpa using early⟩
        · exact released.covered d member
      · cases call : e.call <;> simp [call, Signal.tellsDone]

theorem releaseAcked_ends {c c' : Connection} {now : Instant} {σ : List Signal}
    (h : (c.releaseAcked now).Ends σ c') :
    ∃ queue roundTrip, (release c.send.unacked now c.queue c.roundTrip).Ends σ (queue, roundTrip) ∧
      c' = { c with queue, roundTrip } := by
  simp only [releaseAcked, Act.ends_bind] at h
  obtain ⟨_, ⟨queue, roundTrip⟩, _, released, ends, rfl⟩ := h
  obtain ⟨rfl, rfl⟩ := Act.ends_pure.mp ends
  exact ⟨queue, roundTrip, by simpa using released, rfl⟩

def shut (c : Connection) : Connection :=
  { c with
    state := .closed
    foreign := none
    send := { c.send with fin := none }
    buffer := c.buffer.clear
    queue := []
    reception := none }

theorem terminate_ends {c c' : Connection} {error : CallError} {σ : List Signal} :
    (c.terminate error).Ends σ c' ↔ σ = c.waiting.map (Signal.fails error) ∧ c' = c.shut := by
  change (⟨c.waiting.map (Signal.fails error), .ok c.shut⟩ : Act Connection) = ⟨σ, .ok c'⟩ ↔ _
  rw [Act.mk.injEq, Except.ok.injEq, eq_comm, @eq_comm _ c.shut]

def served (c : Connection) (capacity : Nat) : Connection :=
  { c with buffer := (c.buffer.dequeue capacity).1, reception := none }

theorem deliver_ends {c c' : Connection} {σ : List Signal} (h : c.deliver.Ends σ c') :
    (σ = [] ∧ c' = c ∧ (c.reception = none ∨ c.buffer.isEmpty = true)) ∨
      ∃ reception, c.reception = some reception ∧ c.buffer.isEmpty = false ∧
        σ = [⟨reception.call, .received (c.buffer.toList.take reception.capacity)⟩] ∧
        c' = c.served reception.capacity := by
  unfold deliver at h
  split at h
  · rename_i none
    obtain ⟨rfl, rfl⟩ := Act.ends_pure.mp h
    exact Or.inl ⟨rfl, rfl, Or.inl none⟩
  · rename_i reception asked
    split at h
    · rename_i empty
      obtain ⟨rfl, rfl⟩ := Act.ends_pure.mp h
      exact Or.inl ⟨rfl, rfl, Or.inr empty⟩
    · rename_i filled
      simp only [Act.ends_bind, Act.ends_signal, Act.ends_pure] at h
      obtain ⟨_, _, _, rfl, ⟨rfl, rfl⟩, rfl⟩ := h
      refine Or.inr ⟨reception, asked, by simpa using filled, ?_, rfl⟩
      rw [Ring.dequeue_octets]
      rfl

def extended (c : Connection) (text : Octets) : Connection :=
  { c with
    buffer := (c.buffer.enqueue text).1
    receive := { c.receive with next := c.receive.next.advance text.length } }

theorem acceptText_ok {c c' : Connection} {seq : SeqNumber} {text : Octets}
    (h : c.acceptText seq text = .ok c') :
    c' = c ∨ ∃ known taken, c.receive.next = seq.advance known ∧ known < SeqNumber.halfCircle ∧
      taken <+: text.drop known ∧ taken.length ≤ c.buffer.window ∧ c' = c.extended taken := by
  unfold acceptText at h
  split at h
  · cases h
    exact Or.inl rfl
  · split at h
    · simp only [except_bind_ok, SeqNumber.add_ok] at h
      obtain ⟨known, apart, next, ⟨_, rfl⟩, rest⟩ := h
      obtain ⟨short, place⟩ := SeqNumber.distance_ok apart
      have count : ((text.drop known).take c.buffer.window).length
          = (c.buffer.enqueue (text.drop known)).2 := by
        rw [Ring.enqueue_snd, List.length_take, Nat.min_comm]
      refine Or.inr ⟨known, (text.drop known).take c.buffer.window, place, short,
        List.take_prefix _ _, by rw [List.length_take]; omega, ?_⟩
      cases rest
      simp only [extended, Ring.enqueue_take, count]
    · cases h
      exact Or.inl rfl

/-- The end of `acknowledge`: what it means in each state that our FIN is acknowledged, and the rest of
    the segment. -/
def progress (c : Connection) (s : Segment) (now : Instant) : Act Arrival :=
  match c.state with
  | .finWait1 =>
    receiveContent (if c.finAcked then { c with state := .finWait2 } else c) s now
  | .closing =>
    if c.finAcked then receiveContent (c.enterTimeWait now) s now else return .silent c
  | .lastAck => do
    if c.finAcked then return .silent (← c.terminate .connectionClosing) else return .silent c
  | _ => c.receiveContent s now

theorem acknowledge_eq (c : Connection) (s : Segment) (ack : SeqNumber) (now : Instant) :
    c.acknowledge s ack now = (if ack.after c.send.next then
        return .answered c (c.control [.ack])
      else do
        let c ←
          if c.send.unacked.before ack then
            releaseAcked { c with send := { c.send with unacked := ack } } now
          else pure c
        (c.refreshWindow s.header ack).progress s now) := rfl

def ended (c : Connection) : Connection :=
  { c with
    receive := { c.receive with next := c.receive.next.advance 1 }
    reception := if c.buffer.isEmpty then none else c.reception }

theorem peerFinished_eq (c : Connection) (now : Instant) :
    ∃ state waitingSince, c.peerFinished now = { c with state, waitingSince } := by
  unfold peerFinished
  split
  · exact ⟨.closeWait, c.waitingSince, rfl⟩
  · exact ⟨.closeWait, c.waitingSince, rfl⟩
  · split
    · exact ⟨.timeWait, now, rfl⟩
    · exact ⟨.closing, c.waitingSince, rfl⟩
  · exact ⟨.timeWait, now, rfl⟩
  · exact ⟨c.state, now, rfl⟩
  · exact ⟨c.state, c.waitingSince, rfl⟩

def textStop (s : Segment) : SeqNumber :=
  s.header.seq.advance ((s.header.flags.has .syn).toNat + s.header.textLength)

theorem add_one (a : SeqNumber) : a.add 1 = .ok (a.advance 1) :=
  SeqNumber.add_ok.mpr ⟨by decide, rfl⟩

/-- The end of `receiveFin`, once the FIN was found in its place. -/
def countFin (c : Connection) (now : Instant) : Act (Connection × Bool) := do
  if c.buffer.isEmpty then
    Act.signal? (c.reception.map Reception.call) (.failed .connectionClosing)
  return (c.ended.peerFinished now, true)

theorem receiveFin_eq (c : Connection) (s : Segment) (now : Instant) :
    c.receiveFin s now = (if s.header.flags.has .fin then do
        let start ← s.header.seq.add (s.header.flags.has .syn).toNat
        let place ← start.add s.header.textLength
        if place = c.receive.next then c.countFin now else return (c, false)
      else return (c, false)) := by
  have stay : s.header.seq.add 0 = .ok s.header.seq :=
    SeqNumber.add_ok.mpr ⟨by decide, (SeqNumber.advance_zero _).symm⟩
  unfold receiveFin countFin ended
  cases syn : s.header.flags.has .syn <;> cases empty : c.buffer.isEmpty <;>
    simp [empty, stay, add_one, Act.lift_bind, -bind_pure_comp]

theorem countFin_ends {c : Connection} {now : Instant} {σ : List Signal}
    {result : Connection × Bool} (h : (c.countFin now).Ends σ result) :
    σ = (if c.buffer.isEmpty then (c.reception.map Reception.call).toList else []).map
        (Signal.fails .connectionClosing) ∧
      result = (c.ended.peerFinished now, true) := by
  unfold countFin at h
  split at h
  · rename_i empty
    simp only [Act.ends_bind, Act.ends_signal?, Act.ends_pure] at h
    obtain ⟨_, _, _, rfl, ⟨rfl, rfl⟩, rfl⟩ := h
    rw [if_pos empty, List.append_nil]
    exact ⟨rfl, rfl⟩
  · rename_i filled
    obtain ⟨rfl, rfl⟩ := Act.ends_pure.mp h
    rw [if_neg filled]
    exact ⟨rfl, rfl⟩

theorem countFin_counts {c c' : Connection} {now : Instant} {finished : Bool} {σ : List Signal}
    (h : (c.countFin now).Ends σ (c', finished)) :
    ∃ state waitingSince, c' = { c.ended with state, waitingSince } := by
  obtain ⟨rfl, _⟩ := Prod.mk.inj (countFin_ends h).2
  exact peerFinished_eq c.ended now

theorem receiveFin_ends {c : Connection} {s : Segment} {now : Instant} {σ : List Signal}
    {result : Connection × Bool} (h : (c.receiveFin s now).Ends σ result) :
    (σ = [] ∧ result = (c, false)) ∨
      (s.header.flags.has .fin = true ∧ textStop s = c.receive.next ∧
        (c.countFin now).Ends σ result) := by
  rw [receiveFin_eq] at h
  split at h
  · rename_i fin
    simp only [Act.ends_bind, Act.ends_lift, SeqNumber.add_ok] at h
    obtain ⟨_, _, _, ⟨rfl, _, rfl⟩, ⟨_, _, _, ⟨rfl, _, rfl⟩, h, rfl⟩, rfl⟩ := h
    split at h
    · rename_i here
      refine Or.inr ⟨fin, ?_, h⟩
      rw [← here, SeqNumber.advance_advance]
      rfl
    · exact Or.inl (Act.ends_pure.mp h)
  · exact Or.inl (Act.ends_pure.mp h)

theorem receiveFin_short {c : Connection} {s : Segment} {now : Instant} {σ : List Signal}
    {result : Connection × Bool} (h : (c.receiveFin s now).Ends σ result)
    (fin : s.header.flags.has .fin = true) : s.header.textLength < SeqNumber.halfCircle := by
  rw [receiveFin_eq, if_pos fin] at h
  simp only [Act.ends_bind, Act.ends_lift, SeqNumber.add_ok] at h
  obtain ⟨_, _, _, _, ⟨_, _, _, ⟨_, short, _⟩, _⟩, _⟩ := h
  exact short

end Connection

def Unacked.content (e : Unacked) : SeqNumber × Flags × Octets × Option CallId :=
  (e.seq, e.flags, e.text, e.call)

namespace Connection

structure Reviewed (queue : List Unacked) (found : Review) (givenUp : List CallId) : Prop where
  kept : (found.queue.map Unacked.content).Sublist (queue.map Unacked.content)
  resend : ∀ e ∈ found.resend, e ∈ found.queue
  calls : (givenUp ++ found.queue.filterMap Unacked.call).Perm (queue.filterMap Unacked.call)

theorem filterMap_call_cons (e : Unacked) (queue : List Unacked) :
    (e :: queue).filterMap Unacked.call = e.call.toList ++ queue.filterMap Unacked.call := by
  cases call : e.call <;> simp [call]

inductive Inspects (c : Connection) (now : Instant) (config : Config) :
    List Unacked → List Signal → Review → Prop where
  | all : Inspects c now config [] [] ⟨[], [], false⟩
  | lapses {e : Unacked} {queue : List Unacked}
      (lapsed : now.reached (e.firstSent.later c.userTimeout) = true) :
      Inspects c now config (e :: queue) [] ⟨e :: queue, [], true⟩
  | givesUp {e : Unacked} {queue : List Unacked} {σ : List Signal} {found : Review}
      (fresh : now.reached (e.firstSent.later c.userTimeout) = false)
      (due : now.reached (e.lastSent.later (c.roundTrip.backoff e.retries)) = true)
      (often : config.maxRetransmits ≤ e.retries + 1) (later : Inspects c now config queue σ found) :
      Inspects c now config (e :: queue)
        (e.call.toList.map (Signal.fails .retransmissionTimeout) ++ σ) found
  | repeats {e : Unacked} {queue : List Unacked} {σ : List Signal} {found : Review}
      (fresh : now.reached (e.firstSent.later c.userTimeout) = false)
      (due : now.reached (e.lastSent.later (c.roundTrip.backoff e.retries)) = true)
      (seldom : ¬ config.maxRetransmits ≤ e.retries + 1) (later : Inspects c now config queue σ found) :
      Inspects c now config (e :: queue) σ
        { found with
          queue := { e with retries := e.retries + 1, lastSent := now } :: found.queue
          resend := { e with retries := e.retries + 1, lastSent := now } :: found.resend }
  | keeps {e : Unacked} {queue : List Unacked} {σ : List Signal} {found : Review}
      (fresh : now.reached (e.firstSent.later c.userTimeout) = false)
      (early : now.reached (e.lastSent.later (c.roundTrip.backoff e.retries)) = false)
      (later : Inspects c now config queue σ found) :
      Inspects c now config (e :: queue) σ { found with queue := e :: found.queue }

theorem review_inspects {c : Connection} {now : Instant} {config : Config} {queue : List Unacked}
    {found : Review} {σ : List Signal} (h : (c.review now config queue).Ends σ found) :
    Inspects c now config queue σ found := by
  induction queue generalizing found σ with
  | nil =>
    obtain ⟨rfl, rfl⟩ := Act.ends_pure.mp h
    exact .all
  | cons e queue ih =>
    unfold review at h
    split at h
    · rename_i lapsed
      obtain ⟨rfl, rfl⟩ := Act.ends_pure.mp h
      exact .lapses lapsed
    · rename_i fresh
      rw [Bool.not_eq_true] at fresh
      split at h
      · rename_i due
        dsimp only at h
        split at h
        · rw [pure_bind] at h
          split at h
          · rename_i often
            simp only [Act.ends_bind, Act.ends_signal?] at h
            obtain ⟨_, _, _, rfl, run, rfl⟩ := h
            exact .givesUp fresh due often (ih run)
          · rename_i seldom
            simp only [Act.ends_bind, Act.ends_pure] at h
            obtain ⟨_, later, _, run, ⟨rfl, rfl⟩, rfl⟩ := h
            rw [List.append_nil]
            exact .repeats fresh due seldom (ih run)
        · simp [Act.ends_bind, Act.ends_lift] at h
      · rename_i early
        rw [Bool.not_eq_true] at early
        simp only [Act.ends_bind, Act.ends_pure] at h
        obtain ⟨_, later, _, run, ⟨rfl, rfl⟩, rfl⟩ := h
        rw [List.append_nil]
        exact .keeps fresh early (ih run)

theorem review_ends {c : Connection} {now : Instant} {config : Config} {queue : List Unacked}
    {found : Review} {σ : List Signal} (h : (c.review now config queue).Ends σ found) :
    ∃ givenUp, Reviewed queue found givenUp ∧
      σ = givenUp.map (Signal.fails .retransmissionTimeout) := by
  replace h := review_inspects h
  induction h with
  | all | lapses => exact ⟨[], ⟨List.Sublist.refl _, by simp, List.Perm.refl _⟩, rfl⟩
  | @givesUp e _ _ _ _ _ _ _ ih =>
    obtain ⟨givenUp, seen, rfl⟩ := ih
    refine ⟨e.call.toList ++ givenUp, ⟨seen.kept.cons _, seen.resend, ?_⟩, List.map_append.symm⟩
    rw [filterMap_call_cons, List.append_assoc]
    exact seen.calls.append_left _
  | repeats _ _ _ _ ih =>
    obtain ⟨givenUp, seen, rfl⟩ := ih
    refine ⟨givenUp, ⟨seen.kept.cons_cons _, ?_, ?_⟩, rfl⟩
    · intro d member
      rcases List.mem_cons.mp member with rfl | member
      · exact List.mem_cons_self
      · exact List.mem_cons_of_mem _ (seen.resend d member)
    · rw [filterMap_call_cons, filterMap_call_cons]
      exact (List.perm_append_comm_assoc _ _ _).trans (seen.calls.append_left _)
  | @keeps e _ _ _ _ _ _ ih =>
    obtain ⟨givenUp, seen, rfl⟩ := ih
    refine ⟨givenUp, ⟨seen.kept.cons_cons _, ?_, ?_⟩, rfl⟩
    · intro d member
      exact List.mem_cons_of_mem e (seen.resend d member)
    · rw [filterMap_call_cons, filterMap_call_cons]
      exact (List.perm_append_comm_assoc _ _ _).trans (seen.calls.append_left _)

theorem onTimer_ends {c c' : Connection} {now : Instant} {config : Config} {σ : List Signal}
    {segments : List Segment} (h : (c.onTimer now config).Ends σ (c', segments)) :
    (segments = [] ∧ ((σ = [] ∧ c' = c) ∨ (c.terminate .userTimeout).Ends σ c')) ∨
      ∃ queue roundTrip found σ₁ σ₂ σ₃,
        (release c.send.unacked now c.queue c.roundTrip).Ends σ₁ (queue, roundTrip) ∧
        (Connection.review { c with queue, roundTrip } now config queue).Ends σ₂ found ∧
        σ = σ₁ ++ (σ₂ ++ σ₃) ∧
        ((segments = [] ∧
            (Connection.terminate { c with queue := found.queue, roundTrip } .userTimeout).Ends σ₃ c') ∨
          (σ₃ = [] ∧ c' = { c with queue := found.queue, roundTrip } ∧
            segments = found.resend.filterMap fun e => c'.segment e.flags e.seq e.text)) := by
  unfold onTimer at h
  split at h
  · left
    simp only [Act.ends_bind, Act.ends_lift] at h
    obtain ⟨_, period, _, ⟨rfl, _⟩, h, rfl⟩ := h
    split at h
    · simp only [Act.ends_bind, Act.ends_pure, Prod.mk.injEq] at h
      obtain ⟨τ, _, _, ends, ⟨rfl, rfl, rfl⟩, rfl⟩ := h
      exact ⟨rfl, Or.inr (by simpa using ends)⟩
    · obtain ⟨rfl, same⟩ := Act.ends_pure.mp h
      obtain ⟨rfl, rfl⟩ := Prod.mk.inj same
      exact ⟨rfl, Or.inl ⟨rfl, rfl⟩⟩
  · right
    simp only [Act.ends_bind] at h
    obtain ⟨σ₁, _, _, first, ⟨σ₂, found, σ₃, second, h, rfl⟩, rfl⟩ := h
    obtain ⟨queue, roundTrip, released, rfl⟩ := releaseAcked_ends first
    refine ⟨queue, roundTrip, found, σ₁, σ₂, σ₃, released, second, rfl, ?_⟩
    split at h
    · simp only [Act.ends_bind, Act.ends_pure, Prod.mk.injEq] at h
      obtain ⟨τ, _, _, ends, ⟨rfl, rfl, rfl⟩, rfl⟩ := h
      exact Or.inl ⟨rfl, by simpa using ends⟩
    · obtain ⟨rfl, same⟩ := Act.ends_pure.mp h
      obtain ⟨rfl, rfl⟩ := Prod.mk.inj same
      exact Or.inr ⟨rfl, rfl, rfl⟩

end Connection
end TcpEngine

import TcpEngine.Proofs.Connection.Parts

/-!
What the timer makes of the segments that wait, told segment by segment. It looks at a front part of the
queue, up to the first segment that has outlived the user timeout. There it gives up what was sent often
enough, sends the rest again where its time has come, and leaves everything else as it is.
-/
namespace TcpEngine

namespace Unacked

def lapsed (c : Connection) (now : Instant) (e : Unacked) : Bool :=
  now.reached (e.firstSent.later c.userTimeout)

def due (c : Connection) (now : Instant) (e : Unacked) : Bool :=
  now.reached (e.lastSent.later (c.roundTrip.backoff e.retries))

def givenUp (c : Connection) (now : Instant) (config : Config) (e : Unacked) : Bool :=
  e.due c now && decide (config.maxRetransmits ≤ e.retries + 1)

def repeated (c : Connection) (now : Instant) (config : Config) (e : Unacked) : Bool :=
  e.due c now && !decide (config.maxRetransmits ≤ e.retries + 1)

def again (now : Instant) (e : Unacked) : Unacked :=
  { e with retries := e.retries + 1, lastSent := now }

def looked (c : Connection) (now : Instant) (e : Unacked) : Unacked :=
  if e.due c now then e.again now else e

variable {c : Connection} {now : Instant} {config : Config} {e : Unacked}

theorem looked_due (due : e.due c now = true) : e.looked c now = e.again now := if_pos due

theorem looked_early (early : e.due c now = false) : e.looked c now = e := by
  rw [looked, early]
  rfl

theorem looked_call (e : Unacked) : (e.looked c now).call = e.call := by
  unfold looked
  split <;> rfl

theorem givenUp_due (spent : e.givenUp c now config = true) : e.due c now = true :=
  (Bool.and_eq_true_iff.mp spent).1

/-- A segment whose timer has run out is given up or sent again. -/
theorem due_cases (config : Config) (due : e.due c now = true) :
    e.givenUp c now config = true ∧ e.repeated c now config = false ∨
      e.givenUp c now config = false ∧ e.repeated c now config = true := by
  simp only [givenUp, repeated, due, Bool.true_and]
  cases decide (config.maxRetransmits ≤ e.retries + 1) <;> simp

/-- The segment was not given up yet, if there was ever an expiry of its timer to give it up at. -/
def Spared (config : Config) (e : Unacked) : Prop :=
  e.retries = 0 ∨ e.retries < config.maxRetransmits

theorem looked_spared (spared : e.Spared config) (kept : e.givenUp c now config = false) :
    (e.looked c now).Spared config := by
  cases due : e.due c now with
  | true =>
    rw [looked_due due]
    simp only [givenUp, due, Bool.true_and, decide_eq_false_iff_not] at kept
    exact Or.inr (Nat.lt_of_not_le kept)
  | false =>
    rw [looked_early due]
    exact spared

theorem repeated_early (early : e.due c now = false) :
    e.givenUp c now config = false ∧ e.repeated c now config = false := by
  simp only [givenUp, repeated, early, Bool.false_and, and_self]

end Unacked

namespace Connection

variable {c : Connection} {now : Instant} {config : Config} {queue : List Unacked} {found : Review}
  {σ : List Signal}

def looksAt (c : Connection) (now : Instant) (config : Config) (front back : List Unacked) : Review where
  queue := ((front.filter fun e => !e.givenUp c now config).map (Unacked.looked c now)) ++ back
  resend := (front.filter (Unacked.repeated c now config)).map (Unacked.again now)
  expired := !back.isEmpty

structure Lapses (c : Connection) (now : Instant) (front back : List Unacked) : Prop where
  fresh : ∀ e ∈ front, e.lapsed c now = false
  stale : ∀ e, back.head? = some e → e.lapsed c now = true

def abandoned (c : Connection) (now : Instant) (config : Config) (front : List Unacked) : List CallId :=
  (front.filter (Unacked.givenUp c now config)).filterMap Unacked.call

theorem abandoned_cons (c : Connection) (now : Instant) (config : Config) (e : Unacked)
    (front : List Unacked) : c.abandoned now config (e :: front)
      = (if e.givenUp c now config then e.call.toList else []) ++ c.abandoned now config front := by
  unfold abandoned
  cases spent : e.givenUp c now config with
  | true => rw [List.filter_cons_of_pos spent, filterMap_call_cons, if_pos rfl]
  | false =>
    rw [List.filter_cons_of_neg (by simp [spent])]
    rfl

theorem Lapses.inFront {e : Unacked} {front back : List Unacked} (lapses : Lapses c now front back)
    (fresh : e.lapsed c now = false) : Lapses c now (e :: front) back where
  fresh := List.forall_mem_cons.mpr ⟨fresh, lapses.fresh⟩
  stale := lapses.stale

theorem review_looks (h : (c.review now config queue).Ends σ found) :
    ∃ front back, queue = front ++ back ∧ Lapses c now front back ∧
      found = c.looksAt now config front back ∧
      σ = (c.abandoned now config front).map (Signal.fails .retransmissionTimeout) := by
  replace h := review_inspects h
  induction h with
  | all => exact ⟨[], [], rfl, ⟨by simp, by simp⟩, rfl, rfl⟩
  | @lapses e queue lapsed =>
    refine ⟨[], e :: queue, rfl, ⟨by simp, ?_⟩, rfl, rfl⟩
    intro first head
    cases head
    exact lapsed
  | @givesUp e _ _ _ fresh due often _ ih =>
    obtain ⟨front, back, rfl, lapses, rfl, rfl⟩ := ih
    have due : e.due c now = true := due
    have spent : e.givenUp c now config = true := by simp [Unacked.givenUp, due, often]
    have once : e.repeated c now config = false := by simp [Unacked.repeated, often]
    refine ⟨e :: front, back, rfl, lapses.inFront fresh, ?_, ?_⟩
    · simp [looksAt, spent, once]
    · rw [abandoned_cons, if_pos spent, List.map_append]
  | @repeats e _ _ _ fresh due seldom _ ih =>
    obtain ⟨front, back, rfl, lapses, rfl, rfl⟩ := ih
    have due : e.due c now = true := due
    have kept : e.givenUp c now config = false := by simp [Unacked.givenUp, seldom]
    have once : e.repeated c now config = true := by simp [Unacked.repeated, due, seldom]
    refine ⟨e :: front, back, rfl, lapses.inFront fresh, ?_, ?_⟩
    · simp only [looksAt, kept, once, Bool.not_false, List.filter_cons_of_pos, List.map_cons,
        Unacked.looked_due due, List.cons_append]
      rfl
    · rw [abandoned_cons, kept]
      rfl
  | @keeps e _ _ _ fresh early _ ih =>
    obtain ⟨front, back, rfl, lapses, rfl, rfl⟩ := ih
    have early : e.due c now = false := early
    obtain ⟨kept, once⟩ : e.givenUp c now config = false ∧ e.repeated c now config = false :=
      Unacked.repeated_early early
    refine ⟨e :: front, back, rfl, lapses.inFront fresh, ?_, ?_⟩
    · simp [looksAt, kept, once, Unacked.looked_early early]
    · rw [abandoned_cons, kept]
      rfl

def look (c : Connection) (now : Instant) (config : Config) : Act Review := do
  let c ← c.releaseAcked now
  c.review now config c.queue

def repeats (c : Connection) (now : Instant) (config : Config) : List Unacked :=
  match (c.look now config).outcome with
  | .ok found => if c.state = .timeWait ∨ found.expired then [] else found.resend
  | .error _ => []

def ticked (c : Connection) (now : Instant) (config : Config) : Connection :=
  { c with queue := (c.queue.filter fun e => !e.givenUp c now config).map (Unacked.looked c now) }

/-- Everything that the timer can do, and the segments that it sends again. It takes off the queue what
    was acknowledged, and then looks at all that is left, or at all in front of the first segment that has
    lapsed. -/
inductive Ticks (c : Connection) (now : Instant) (config : Config) :
    List Signal → Connection → List Unacked → Prop where
  | rests (waits : c.state = .timeWait) : Ticks c now config [] c []
  | leaves (waits : c.state = .timeWait) :
      Ticks c now config (c.waiting.map (Signal.fails .userTimeout)) c.shut []
  | looks {d : Connection} {σ : List Signal} (away : c.state ≠ .timeWait)
      (released : (c.releaseAcked now).Ends σ d) (fresh : ∀ e ∈ d.queue, e.lapsed d now = false) :
      Ticks c now config
        (σ ++ (d.abandoned now config d.queue).map (Signal.fails .retransmissionTimeout))
        (d.ticked now config)
        ((d.queue.filter (Unacked.repeated d now config)).map (Unacked.again now))
  | lapses {d : Connection} {σ : List Signal} {front back : List Unacked} (away : c.state ≠ .timeWait)
      (released : (c.releaseAcked now).Ends σ d) (split : d.queue = front ++ back)
      (lapses : Lapses d now front back) (filled : back ≠ []) :
      Ticks c now config
        (σ ++ ((d.abandoned now config front).map (Signal.fails .retransmissionTimeout) ++
          (Connection.waiting { d with queue := (d.looksAt now config front back).queue }).map
            (Signal.fails .userTimeout)))
        d.shut []

theorem repeats_waiting (waits : c.state = .timeWait) : c.repeats now config = [] := by
  unfold repeats
  split
  · exact if_pos (Or.inl waits)
  · rfl

theorem repeats_looked {d : Connection} {τ : List Signal} (away : c.state ≠ .timeWait)
    (released : (c.releaseAcked now).Ends σ d) (reviewed : (d.review now config d.queue).Ends τ found) :
    c.repeats now config = if found.expired then [] else found.resend := by
  have look : (c.look now config).Ends (σ ++ τ) found :=
    Act.ends_bind.mpr ⟨σ, d, τ, released, reviewed, rfl⟩
  rw [repeats, look]
  simp only [away, false_or]

theorem onTimer_ticks {c' : Connection} {segments : List Segment}
    (h : (c.onTimer now config).Ends σ (c', segments)) : Ticks c now config σ c' (c.repeats now config) ∧
      segments = (c.repeats now config).filterMap fun e => c'.segment e.flags e.seq e.text := by
  unfold onTimer at h
  split at h
  · rename_i waits
    rw [repeats_waiting waits]
    simp only [Act.ends_bind, Act.ends_lift] at h
    obtain ⟨_, period, _, ⟨rfl, _⟩, h, rfl⟩ := h
    split at h
    · simp only [Act.ends_bind, Act.ends_pure, Prod.mk.injEq, terminate_ends] at h
      obtain ⟨_, _, _, ⟨rfl, rfl⟩, ⟨rfl, rfl, rfl⟩, rfl⟩ := h
      rw [List.append_nil]
      exact ⟨.leaves waits, rfl⟩
    · obtain ⟨rfl, same⟩ := Act.ends_pure.mp h
      obtain ⟨rfl, rfl⟩ := Prod.mk.inj same
      exact ⟨.rests waits, rfl⟩
  · rename_i away
    simp only [Act.ends_bind] at h
    obtain ⟨σ₁, d, _, released, ⟨σ₂, found, σ₃, reviewed, h, rfl⟩, rfl⟩ := h
    rw [repeats_looked away released reviewed]
    obtain ⟨front, back, split, lapses, rfl, rfl⟩ := review_looks reviewed
    split at h
    · rename_i expired
      rw [if_pos expired]
      simp only [Act.ends_bind, Act.ends_pure, Prod.mk.injEq, terminate_ends] at h
      obtain ⟨_, _, _, ⟨rfl, rfl⟩, ⟨rfl, rfl, rfl⟩, rfl⟩ := h
      rw [List.append_nil]
      refine ⟨.lapses away released split lapses ?_, rfl⟩
      rintro rfl
      cases expired
    · rename_i seen
      rw [if_neg seen]
      obtain ⟨rfl, same⟩ := Act.ends_pure.mp h
      obtain ⟨rfl, rfl⟩ := Prod.mk.inj same
      obtain rfl : back = [] := by simpa [looksAt] using seen
      rw [List.append_nil] at split
      subst split
      have all : (d.looksAt now config d.queue []).queue = (d.ticked now config).queue :=
        List.append_nil _
      rw [all, List.append_nil]
      exact ⟨.looks away released lapses.fresh, rfl⟩

end Connection
end TcpEngine

import TcpEngine.Proofs.Acknowledgment
import TcpEngine.Proofs.Connection.Twins
import TcpEngine.Proofs.RightEdge
import TcpEngine.Proofs.Stack.Settings

/-!
A connection that is used again. Of what an earlier incarnation has left behind, two things make a
difference to a later one: the estimate of the round trip, and SND.NXT while the connection listens for a
peer that was named. Nothing else does.
-/
namespace TcpEngine

variable {home : Endpoint} {stale : SeqNumber} {now : Instant} {call : CallId}

namespace Connection

variable {c d : Connection} {s : Segment} {iss : SeqNumber}

/-- Two free connections, of which the first one may have been used before and the second one has not.
    The sequence variables may differ, and in CLOSED also the user timeout. -/
structure Blank (stale : SeqNumber) (c d : Connection) : Prop where
  free : c.Free
  twin : Twin { c with send := d.send, receive := d.receive, userTimeout := d.userTimeout } d
  fin : d.send.fin = c.send.fin
  idle : c.queue = []
  empty : c.buffer.toList = []
  kept : c.state = .listen → d.userTimeout = c.userTimeout
  stale : c.send.next = stale
  unused : d.send.next = ⟨0⟩

/-- Two connections that nobody can tell apart, unless the first one, which has then this endpoint, is
    aborted while it listens for a peer that was named. -/
inductive Matches (home : Endpoint) (stale : SeqNumber) (c d : Connection) : Prop
  | twin (twin : Twin c d)
  | blank (here : c.here = home) (blank : Blank stale c d)

def Answered (home : Endpoint) (stale : SeqNumber) (a b : Arrival) : Prop :=
  Matches home stale a.connection b.connection ∧ a.answers = b.answers

theorem Mirrored.answered {a b : Arrival} (mirrored : Mirrored a b) : Answered home stale a b :=
  ⟨.twin mirrored.1, mirrored.2⟩

def Swept (home : Endpoint) (stale : SeqNumber) (a b : Connection × List Segment) : Prop :=
  Matches home stale a.1 b.1 ∧ a.2 = b.2

section
variable (same : Matches home stale c d)
include same

theorem Matches.state : d.state = c.state := by
  cases same with
  | twin twin => exact twin.state
  | blank _ blank => exact blank.twin.state

theorem Matches.here : d.here = c.here := by
  cases same with
  | twin twin => exact twin.here
  | blank _ blank => exact blank.twin.here

theorem Matches.foreign : d.foreign = c.foreign := by
  cases same with
  | twin twin => exact twin.foreign
  | blank _ blank => exact blank.twin.foreign

theorem Matches.reception : d.reception = c.reception := by
  cases same with
  | twin twin => exact twin.reception
  | blank _ blank => exact blank.twin.reception

theorem Matches.held : c.buffer.Alike d.buffer := by
  cases same with
  | twin twin => exact twin.held
  | blank _ blank => exact blank.twin.held

end

theorem Matches.twin_of_busy (same : Matches home stale c d) (busy : ¬ c.Free) : Twin c d := by
  cases same with
  | twin twin => exact twin
  | blank _ blank => exact absurd blank.free busy

theorem Blank.arrives (here : c.here = home) (blank : Blank stale c d) :
    Act.Like (Answered home stale) (c.arrives s iss now) (d.arrives s iss now) := by
  have still : Matches home stale c d := .blank here blank
  unfold Connection.arrives
  rw [blank.twin.state]
  dsimp only
  rcases blank.free with closed | listens
  · rw [closed]
    refine Act.like_after fun _ => ?_
    exact Act.like_pure ⟨still, rfl⟩
  · rw [listens]
    have silent : Answered home stale (.silent c) (.silent d) := ⟨still, rfl⟩
    refine Act.like_lift ?_
    unfold arrivesListen
    rw [Twin.takesUp (c := c) blank.twin.state]
    split
    · exact .ok silent
    · split
      · refine fares_after fun _ => ?_
        exact .ok ⟨still, rfl⟩
      · split
        · have twin := blank.twin
          rw [blank.kept listens] at twin
          exact (twin.takeUp (c := c) blank.fin).mono fun _ _ => Mirrored.answered
        · exact .ok silent

theorem Matches.arrives (same : Matches home stale c d) :
    Act.Like (Answered home stale) (c.arrives s iss now) (d.arrives s iss now) := by
  cases same with
  | twin twin => exact (twin.arrives iss).mono fun _ _ => Mirrored.answered
  | blank here blank => exact blank.arrives here

theorem onTimer_free {config : Config} (free : c.Free) (idle : c.queue = []) :
    c.onTimer now config = return (c, []) := by
  have other : c.state ≠ .timeWait := by
    rcases free with state | state <;> rw [state] <;> exact State.noConfusion
  rw [Connection.onTimer, if_neg other, Connection.releaseAcked, idle]
  change (return ({ c with queue := [] }, []) : Act (Connection × List Segment)) = _
  rw [← idle]

theorem Matches.onTimer (same : Matches home stale c d) (config : Config) :
    Act.Like (Swept home stale) (c.onTimer now config) (d.onTimer now config) := by
  cases same with
  | twin twin => exact (twin.onTimer config).mono fun _ _ twins => ⟨.twin twins.1, twins.2⟩
  | blank here blank =>
    have free : d.Free := by
      rw [Free, blank.twin.state]
      exact blank.free
    rw [onTimer_free blank.free blank.idle, onTimer_free free (blank.twin.queue.trans blank.idle)]
    exact Act.like_pure ⟨.blank here blank, rfl⟩

theorem Matches.terminate (same : Matches home stale c d) (error : CallError) :
    Act.Like (Matches home stale) (c.terminate error) (d.terminate error) := by
  cases same with
  | twin twin => exact (twin.terminate error).mono fun _ _ => .twin
  | blank here blank =>
    obtain ⟨free, twin, fin, idle, empty, kept, old, new⟩ := blank
    have waiting : d.waiting = c.waiting := by
      rw [Connection.waiting, twin.queue, twin.reception, Connection.waiting]
    refine ⟨congrArg (List.map _) waiting.symm, .ok (.blank here ?_)⟩
    exact ⟨.inl rfl, twin.shut, rfl, rfl, Ring.toList_clear _, State.noConfusion, old, new⟩

theorem Matches.timed (same : Matches home stale c d) (userTimeout : Duration) :
    Matches home stale { c with userTimeout } { d with userTimeout } := by
  cases same with
  | twin twin => exact .twin (twin.timed _)
  | blank here blank =>
    obtain ⟨free, twin, fin, idle, empty, -, old, new⟩ := blank
    exact .blank here ⟨free, twin.timed _, fin, idle, empty, fun _ => rfl, old, new⟩

theorem Matches.listen (same : Matches home stale c d) (userTimeout : Duration)
    (foreign : Option Endpoint) :
    Matches home stale { c with userTimeout, foreign, state := .listen }
      { d with userTimeout, foreign, state := .listen } := by
  cases same with
  | twin twin => exact .twin ((twin.timed userTimeout).listen foreign)
  | blank here blank =>
    obtain ⟨-, twin, fin, idle, empty, -, old, new⟩ := blank
    have twin := (twin.timed userTimeout).listen foreign
    exact .blank here ⟨.inr rfl, twin, fin, idle, empty, fun _ => rfl, old, new⟩

theorem Matches.opened (same : Matches home stale c d) (userTimeout : Duration) :
    ∃ send receive, Twin { c with userTimeout, send, receive } { d with userTimeout } := by
  cases same with
  | twin twin => exact ⟨c.send, c.receive, twin.timed _⟩
  | blank _ blank => exact ⟨d.send, d.receive, blank.twin.timed _⟩

theorem Matches.deliver (same : Matches home stale c d) (reception : Reception) :
    Act.Like (Matches home stale) (deliver { c with reception := some reception })
      (deliver { d with reception := some reception }) := by
  cases same with
  | twin twin => exact (twin.ask _).deliver.mono fun _ _ => .twin
  | blank here blank =>
    obtain ⟨free, twin, fin, idle, empty, kept, old, new⟩ := blank
    have nothing {e : Connection} (none : e.buffer.toList = []) :
        Connection.deliver { e with reception := some reception }
          = return { e with reception := some reception } := by
      have empty : e.buffer.isEmpty = true := e.buffer.isEmpty_iff.mpr none
      rw [Connection.deliver]
      exact if_pos empty
    rw [nothing empty, nothing (twin.held.text.symm.trans empty)]
    exact Act.like_pure (.blank here ⟨free, twin.ask _, fin, idle, empty, kept, old, new⟩)

theorem Matches.reset (same : Matches home stale c d)
    (calm : c.here = home →
      ¬ (c.state = .listen ∧ c.foreign.isSome = true ∧ c.send.next = stale ∧ stale ≠ ⟨0⟩))
    (opened : c.state ≠ .closed) : c.control [.rst] = d.control [.rst] := by
  cases same with
  | twin twin => exact twin.control _
  | blank here blank =>
    have listens := blank.free.resolve_left opened
    have window : d.window = c.window := blank.twin.held.window.symm
    rw [control, control, segment, segment, blank.twin.foreign, blank.twin.here, window]
    cases foreign : c.foreign with
    | none => rfl
    | some peer =>
      have unused : stale = ⟨0⟩ := by
        by_contra used
        exact calm here ⟨listens, by rw [foreign]; rfl, blank.stale, used⟩
      rw [blank.stale, blank.unused, unused]
      rfl

end Connection

/- The table. -/

namespace Table

open Connection (Matches)

structure Alike (home : Endpoint) (stale : SeqNumber) (t t' : Table) : Prop where
  connections : List.Forall₂ (Matches home stale) t.connections t'.connections
  generator : t'.generator = t.generator
  config : t'.config = t.config

variable {t t' : Table} {c d : Connection}

theorem Alike.get? (alike : Alike home stale t t') (here : Endpoint) :
    t.get? here = none ∧ t'.get? here = none ∨
      ∃ c d, t.get? here = some c ∧ t'.get? here = some d ∧ Matches home stale c d := by
  have all := alike.connections
  unfold Table.get?
  revert all
  generalize t.connections = cs
  generalize t'.connections = ds
  intro all
  induction all with
  | nil => exact .inl ⟨rfl, rfl⟩
  | @cons c d rest rest' same others ih =>
    by_cases found : c.here = here
    · refine .inr ⟨c, d, ?_, ?_, same⟩
      · rw [List.find?_cons_of_pos (by simpa using found)]
      · rw [List.find?_cons_of_pos (by simpa [same.here] using found)]
    · rw [List.find?_cons_of_neg (by simpa using found),
        List.find?_cons_of_neg (by simpa [same.here] using found)]
      exact ih

theorem Alike.put (alike : Alike home stale t t') (same : Matches home stale c d) :
    Alike home stale (t.put c) (t'.put d) where
  connections := by
    refine List.forall₂_map_left_iff.mpr (List.forall₂_map_right_iff.mpr ?_)
    refine alike.connections.imp fun old old' matched => ?_
    rw [matched.here, same.here]
    split
    · exact same
    · exact matched
  generator := alike.generator
  config := alike.config

theorem Alike.draw (alike : Alike home stale t t') : Alike home stale t.draw t'.draw where
  connections := alike.connections
  generator := congrArg SeqGenerator.advance alike.generator
  config := alike.config

theorem Alike.arrives {s : Segment} (alike : Alike home stale t t') :
    Act.Like (fun a b => Alike home stale a.1 b.1 ∧ a.2 = b.2) (t.arrives s now) (t'.arrives s now) := by
  unfold Table.arrives
  rcases alike.get? s.receiver with ⟨absent, absent'⟩ | ⟨c, d, found, found', same⟩
  · rw [absent, absent']
    exact Act.like_after fun _ => Act.like_pure ⟨alike, rfl⟩
  · rw [found, found']
    dsimp only
    have seq (there : Endpoint) : t'.nextSeq s.receiver there now = t.nextSeq s.receiver there now := by
      rw [nextSeq, alike.generator, nextSeq]
    rw [same.foreign, seq, Connection.Twin.takesUp same.state]
    split
    · refine Act.like_bind same.arrives fun a b answered => Act.like_pure ⟨?_, answered.2⟩
      split
      · exact alike.draw.put answered.1
      · exact alike.put answered.1
    · exact Act.like_after fun _ => Act.like_pure ⟨alike, rfl⟩

theorem sweepAll_alike {config : Config} {cs ds : List Connection}
    (all : List.Forall₂ (Matches home stale) cs ds) :
    Act.Like (fun a b => List.Forall₂ (Matches home stale) a.1 b.1 ∧ a.2 = b.2)
      (sweepAll now config cs) (sweepAll now config ds) := by
  induction all with
  | nil => exact Act.like_pure ⟨.nil, rfl⟩
  | cons same _ ih =>
    refine Act.like_bind (same.onTimer config) fun a b swept => ?_
    refine Act.like_bind ih fun rest rest' others => Act.like_pure ⟨.cons swept.1 others.1, ?_⟩
    rw [swept.2, others.2]

theorem Alike.sweep (alike : Alike home stale t t') :
    Act.Like (fun a b => Alike home stale a.1 b.1 ∧ a.2 = b.2) (t.sweep now) (t'.sweep now) := by
  unfold Table.sweep
  rw [alike.config]
  exact Act.like_bind (sweepAll_alike alike.connections) fun a b swept =>
    Act.like_pure ⟨⟨swept.1, alike.generator, rfl⟩, swept.2⟩

theorem insert_alike {cs ds : List Connection} (same : Matches home stale c d)
    (all : List.Forall₂ (Matches home stale) cs ds) :
    List.Forall₂ (Matches home stale) (insert c cs) (insert d ds) := by
  induction all with
  | nil => exact .cons same .nil
  | cons first others ih =>
    rw [insert, insert, same.here, first.here]
    split
    · exact .cons same (.cons first others)
    · exact .cons first ih

theorem Alike.bind (alike : Alike home stale t t') (here : Endpoint) :
    (∃ t₁ t₁', t.bind here = .ok t₁ ∧ t'.bind here = .ok t₁' ∧ Alike home stale t₁ t₁') ∨
      ∃ e, t.bind here = .error e ∧ t'.bind here = .error e := by
  unfold Table.bind
  rcases alike.get? here with ⟨absent, absent'⟩ | ⟨c, d, found, found', -⟩
  · rw [absent, absent', alike.config]
    refine .inl ⟨_, _, rfl, rfl, ?_, alike.generator, rfl⟩
    exact insert_alike (.twin (.refl _)) alike.connections
  · rw [found, found']
    exact .inr ⟨_, rfl, rfl⟩

theorem Alike.remove (alike : Alike home stale t t') (here : Endpoint) :
    (∃ t₁ c₁ t₁' c₁', t.remove here = .ok (t₁, c₁) ∧ t'.remove here = .ok (t₁', c₁') ∧
        Alike home stale t₁ t₁') ∨
      ∃ e, t.remove here = .error e ∧ t'.remove here = .error e := by
  unfold Table.remove
  rcases alike.get? here with ⟨absent, absent'⟩ | ⟨c, d, found, found', same⟩
  · rw [absent, absent']
    exact .inr ⟨_, rfl, rfl⟩
  · rw [found, found']
    dsimp only
    rw [same.state]
    split
    · refine .inl ⟨_, _, _, _, rfl, rfl, ?_, alike.generator, alike.config⟩
      refine List.rel_filter ?_ alike.connections
      intro c d same
      simp only [same.here]
    · exact .inr ⟨_, rfl, rfl⟩

end Table

def Table.states (t : Table) : List (Endpoint × State) := t.connections.map fun c => (c.here, c.state)

theorem Table.Alike.states {t t' : Table} (alike : Alike home stale t t') : t'.states = t.states := by
  have all := alike.connections
  unfold Table.states
  revert all
  generalize t.connections = cs
  generalize t'.connections = ds
  intro all
  induction all with
  | nil => rfl
  | cons same _ ih => rw [List.map_cons, List.map_cons, same.here, same.state, ih]

structure Observation where
  signals : List Signal
  outcome : Except Fault (Answer × Outlet × List (Endpoint × State))
deriving DecidableEq

namespace Stack

def course (k : Stack) (first : CallId) : List (Event × Instant) → List Observation
  | [] => []
  | (event, now) :: rest =>
    let act := k.handle event now first
    match act.outcome with
    | .ok (k', answer) =>
      ⟨act.signals, .ok (answer, k'.outlet, k'.table.states)⟩ :: k'.course (first + 1) rest
    | .error fault => [⟨act.signals, .error fault⟩]

/-- The user aborts a connection that listens for a peer that was named, and the RST for that peer bears
    the number where an earlier incarnation stopped. -/
def Exposes (k : Stack) (home : Endpoint) (stale : SeqNumber) (event : Event) : Prop :=
  event = .abort home ∧ stale ≠ ⟨0⟩ ∧ ∃ c, k.table.get? home = some c ∧ c.state = .listen ∧
    c.foreign.isSome = true ∧ c.send.next = stale

def Discreet (k : Stack) (home : Endpoint) (stale : SeqNumber) (first : CallId) :
    List (Event × Instant) → Prop
  | [] => True
  | (event, now) :: rest => ¬ k.Exposes home stale event ∧
    ∀ σ k' answer, (k.handle event now first).Ends σ (k', answer) →
      k'.Discreet home stale (first + 1) rest

open Connection (Matches Twin)

structure Mirrors (home : Endpoint) (stale : SeqNumber) (k k' : Stack) : Prop where
  table : k.table.Alike home stale k'.table
  outlet : k'.outlet = k.outlet

def Told (home : Endpoint) (stale : SeqNumber) (a b : Stack × α) : Prop :=
  Mirrors home stale a.1 b.1 ∧ a.2 = b.2

variable {k k' : Stack} {c d : Connection} {here : Endpoint}

section
variable (mirrors : Mirrors home stale k k')
include mirrors

theorem Mirrors.put (same : Matches home stale c d) : Mirrors home stale (k.put c) (k'.put d) :=
  ⟨mirrors.table.put same, mirrors.outlet⟩

theorem Mirrors.answer (reply : Reply) :
    Act.Like (Mirrors home stale) (k.answer call reply) (k'.answer call reply) :=
  Act.like_after fun _ => Act.like_pure mirrors

theorem Mirrors.refuse (error : CallError) :
    Act.Like (Mirrors home stale) (k.refuse call error) (k'.refuse call error) :=
  mirrors.answer _

theorem Mirrors.transmit (s : Segment) : Fares (Told home stale) (k.transmit s) (k'.transmit s) := by
  unfold Stack.transmit
  refine fares_after fun d => ?_
  rw [mirrors.outlet, mirrors.table.config]
  exact .ok ⟨⟨mirrors.table, rfl⟩, rfl⟩

theorem Mirrors.emit (s : Segment) : Fares (Mirrors home stale) (k.emit s) (k'.emit s) := by
  unfold Stack.emit
  refine fares_after fun d => ?_
  rw [mirrors.outlet]
  exact .ok ⟨mirrors.table, rfl⟩

omit mirrors in
theorem Mirrors.emitAll (mirrors : Mirrors home stale k k') (segments : List Segment) :
    Fares (Mirrors home stale) (k.emitAll segments) (k'.emitAll segments) := by
  induction segments generalizing k k' with
  | nil => exact .ok mirrors
  | cons s rest ih => exact fares_bind (mirrors.emit s) fun _ _ mirrors => ih mirrors

/-- An active opening takes over nothing but the estimate of the round trip. -/
theorem Mirrors.openActive {send : SendVars} {receive : ReceiveVars}
    (twin : Twin { c with send, receive } d) (foreign : Endpoint) (iss : SeqNumber) :
    Act.Like (Mirrors home stale) (k.openActive c foreign iss now call)
      (k'.openActive d foreign iss now call) := by
  obtain ⟨_, waitingSince, buffer, -, waits, held⟩ := twin
  have starts (peer : Option Endpoint) : Twin
      { c with
        foreign := peer
        send := { unacked := iss, next := iss, urgent := iss, initial := iss }
        receive := {} }
      { c with
        foreign := peer
        send := { unacked := iss, next := iss, urgent := iss, initial := iss }
        receive := {}
        waitingSince
        buffer } := ⟨_, _, _, rfl, waits, held⟩
  unfold Stack.openActive
  dsimp only
  rw [(starts foreign).control]
  split
  · exact (mirrors.put (.twin (starts foreign))).refuse _
  · refine Act.like_bind (Act.like_lift (mirrors.transmit _)) fun a b told => ?_
    obtain ⟨k, outcome⟩ := a
    obtain ⟨k', outcome'⟩ := b
    obtain ⟨mirrors, rfl⟩ := told
    cases outcome with
    | ok =>
      refine Act.like_after fun next => Act.like_pure (mirrors.put (.twin (Twin.enqueue ?_ _ _)))
      exact ⟨_, _, _, rfl, State.noConfusion, held⟩
    | error => exact (mirrors.put (.twin (starts c.foreign))).refuse _

theorem Mirrors.openConnection (here : Endpoint) (opening : Opening) (timeout : Option Duration) :
    Act.Like (Mirrors home stale) (k.openConnection here opening timeout now call)
      (k'.openConnection here opening timeout now call) := by
  have drawn (draws : Bool) : Mirrors home stale (if draws then { k with table := k.table.draw } else k)
      (if draws then { k' with table := k'.table.draw } else k') := by
    cases draws with
    | true => exact ⟨mirrors.table.draw, mirrors.outlet⟩
    | false => exact mirrors
  have seq (there : Endpoint) : k'.table.nextSeq here there now = k.table.nextSeq here there now := by
    rw [Table.nextSeq, mirrors.table.generator, Table.nextSeq]
  unfold Stack.openConnection
  dsimp only
  rcases mirrors.table.get? here with ⟨absent, absent'⟩ | ⟨c, d, found, found', same⟩
  · rw [absent, absent']
    exact (drawn _).refuse _
  · rw [found, found']
    dsimp only
    rw [mirrors.table.config]
    refine Act.like_ite (by rw [same.state]) (fun _ => ?_) fun _ => (drawn _).refuse _
    · split
      · exact ((drawn _).put (same.listen _ _)).answer _
      · exact ((drawn _).put (same.timed _)).refuse _
      · obtain ⟨send, receive, twin⟩ := same.opened (timeout.getD k.table.config.userTimeout)
        rw [seq]
        exact (drawn _).openActive twin _ _

theorem Mirrors.send (here : Endpoint) (text : Octets) :
    Act.Like (Mirrors home stale) (k.send here text now call) (k'.send here text now call) := by
  rcases mirrors.table.get? here with ⟨absent, absent'⟩ | ⟨c, d, found, found', same⟩
  · unfold Stack.send
    rw [absent, absent']
    exact mirrors.refuse _
  · by_cases live : c.state = .established ∨ c.state = .closeWait
    · have twin : Twin c d := by
        refine same.twin_of_busy ?_
        rintro (free | free) <;> rw [free] at live <;> rcases live with live | live <;> cases live
      rw [send_live found live, send_live found' (by rwa [same.state]), twin.send, ← twin.segment]
      split
      · exact mirrors.refuse _
      · split
        · exact mirrors.answer _
        · split
          · exact mirrors.refuse _
          · refine Act.like_bind (Act.like_lift (mirrors.transmit _)) fun a b told => ?_
            obtain ⟨k, outcome⟩ := a
            obtain ⟨k', outcome'⟩ := b
            obtain ⟨mirrors, rfl⟩ := told
            cases outcome with
            | ok =>
              obtain ⟨receive, waitingSince, buffer, number, waits, held⟩ := twin
              refine Act.like_after fun next => Act.like_pure (mirrors.put (.twin (Twin.enqueue ?_ _ _)))
              exact ⟨_, _, _, number, waits, held⟩
            | error => exact mirrors.refuse _
    · unfold Stack.send
      rw [found, found']
      dsimp only
      rw [same.state, same.foreign]
      split
      · exact absurd (.inl ‹_›) live
      · exact absurd (.inr ‹_›) live
      · split
        · exact mirrors.refuse _
        · exact mirrors.refuse _
      · exact mirrors.refuse _
      · exact mirrors.refuse _

theorem Mirrors.receive (here : Endpoint) (capacity : Nat) :
    Act.Like (Mirrors home stale) (k.receive here capacity call) (k'.receive here capacity call) := by
  unfold Stack.receive
  rcases mirrors.table.get? here with ⟨absent, absent'⟩ | ⟨c, d, found, found', same⟩
  · rw [absent, absent']
    exact mirrors.refuse _
  · rw [found, found']
    have window : d.window = c.window := same.held.window.symm
    have length : d.buffer.length = c.buffer.length := same.held.length.symm
    dsimp only
    refine Act.like_ite (by rw [same.reception]) (fun _ => mirrors.refuse _) fun _ => ?_
    refine Act.like_ite (by rw [same.state]) (fun _ => mirrors.refuse _) fun _ => ?_
    refine Act.like_ite (by rw [same.state, length]) (fun _ => mirrors.refuse _) fun _ => ?_
    refine Act.like_ite Iff.rfl (fun _ => mirrors.answer _) fun _ => ?_
    refine Act.like_bind (same.deliver _) fun e e' served => ?_
    have window' : e'.window = e.window := served.held.window.symm
    refine Act.like_ite (by rw [served.state, window, window']) (fun opens => ?_) fun _ => ?_
    · have live : ¬ e.Free := Connection.not_free_of_live opens.2.2
      rw [(served.twin_of_busy live).control]
      exact Act.like_lift ((mirrors.put served).emitAll _)
    · exact Act.like_pure (mirrors.put served)

theorem Mirrors.finish (twin : Twin c d) {after : State} (other : after ≠ .timeWait) :
    Act.Like (Mirrors home stale) (k.finish c after now call) (k'.finish d after now call) := by
  unfold Stack.finish
  rw [twin.control]
  split
  · exact mirrors.refuse _
  · refine Act.like_bind (Act.like_lift (mirrors.transmit _)) fun a b told => ?_
    obtain ⟨k, outcome⟩ := a
    obtain ⟨k', outcome'⟩ := b
    obtain ⟨mirrors, rfl⟩ := told
    cases outcome with
    | ok =>
      dsimp only
      obtain ⟨receive, waitingSince, buffer, number, waits, held⟩ := twin
      refine Act.like_after fun next => Act.like_pure (mirrors.put (.twin (Twin.enqueue ?_ _ _)))
      exact ⟨_, _, _, number, fun waits => absurd waits other, held⟩
    | error => exact mirrors.refuse _

theorem Mirrors.close (here : Endpoint) :
    Act.Like (Mirrors home stale) (k.close here now call) (k'.close here now call) := by
  unfold Stack.close
  rcases mirrors.table.get? here with ⟨absent, absent'⟩ | ⟨c, d, found, found', same⟩
  · rw [absent, absent']
    exact mirrors.refuse _
  · rw [found, found']
    dsimp only
    rw [same.state]
    have busy {state : State} (is : c.state = state) (other : state ≠ .closed ∧ state ≠ .listen) :
        Twin c d := by
      refine same.twin_of_busy ?_
      rw [Connection.Free, is]
      exact not_or.mpr other
    split
    · exact mirrors.refuse _
    · exact Act.like_bind (same.terminate _) fun _ _ shut => (mirrors.put shut).answer _
    · exact Act.like_bind (same.terminate _) fun _ _ shut => (mirrors.put shut).answer _
    · exact mirrors.finish (busy ‹_› (by decide)) State.noConfusion
    · exact mirrors.finish (busy ‹_› (by decide)) State.noConfusion
    · exact mirrors.finish (busy ‹_› (by decide)) State.noConfusion
    all_goals exact mirrors.refuse _

theorem Mirrors.abort (here : Endpoint) (calm : ¬ k.Exposes home stale (.abort here)) :
    Act.Like (Told home stale) (k.abort here) (k'.abort here) := by
  unfold Stack.abort
  rcases mirrors.table.get? here with ⟨absent, absent'⟩ | ⟨c, d, found, found', same⟩
  · rw [absent, absent']
    exact Act.like_pure ⟨mirrors, rfl⟩
  · rw [found, found']
    dsimp only
    rw [same.state]
    split
    · exact Act.like_pure ⟨mirrors, rfl⟩
    next opened =>
      have reset : c.control [.rst] = d.control [.rst] := by
        refine same.reset (fun own => ?_) opened
        rintro ⟨listens, named, next, used⟩
        have is : here = home := (Table.get?_some found).2.symm.trans own
        exact calm ⟨congrArg Event.abort is, used, c, is ▸ found, listens, named, next⟩
      rw [reset]
      refine Act.like_bind (same.terminate _) fun _ _ shut => ?_
      refine Act.like_bind (Act.like_lift ((mirrors.put shut).emitAll _)) fun _ _ mirrors => ?_
      exact Act.like_pure ⟨mirrors, rfl⟩

theorem Mirrors.ingress (octets : Octets) (src dst : Address) :
    Act.Like (Told home stale) (k.ingress octets src dst now) (k'.ingress octets src dst now) := by
  unfold Stack.ingress
  split
  · exact Act.like_pure ⟨mirrors, rfl⟩
  · refine Act.like_after fun read => ?_
    cases read with
    | error => exact Act.like_pure ⟨mirrors, rfl⟩
    | ok header =>
      refine Act.like_bind mirrors.table.arrives fun a b arrived => ?_
      obtain ⟨t, answers⟩ := a
      obtain ⟨t', answers'⟩ := b
      obtain ⟨alike, rfl⟩ := arrived
      have arrived : Mirrors home stale { k with table := t } { k' with table := t' } :=
        ⟨alike, mirrors.outlet⟩
      refine Act.like_bind (Act.like_lift (arrived.emitAll answers)) fun _ _ mirrors => ?_
      exact Act.like_pure ⟨mirrors, rfl⟩

theorem Mirrors.sweep : Act.Like (Mirrors home stale) (k.sweep now) (k'.sweep now) := by
  unfold Stack.sweep
  refine Act.like_bind mirrors.table.sweep fun a b swept => ?_
  obtain ⟨t, segments⟩ := a
  obtain ⟨t', segments'⟩ := b
  obtain ⟨alike, rfl⟩ := swept
  have swept : Mirrors home stale { k with table := t } { k' with table := t' } := ⟨alike, mirrors.outlet⟩
  exact Act.like_lift (swept.emitAll segments)

/-- Every event does the same to both, and cannot be told from the other by what is seen. -/
theorem Mirrors.handle (event : Event) (calm : ¬ k.Exposes home stale event) :
    Act.Like (Told home stale) (k.handle event now call) (k'.handle event now call) := by
  have accepted {act act' : Act Stack} (like : Act.Like (Mirrors home stale) act act') :
      Act.Like (Told home stale) (do return (← act, Answer.accepted))
        (do return (← act', Answer.accepted)) :=
    Act.like_bind like fun _ _ mirrors => Act.like_pure ⟨mirrors, rfl⟩
  cases event with
  | bind here =>
    refine Act.like_pure ?_
    unfold Stack.bind
    rcases mirrors.table.bind here with ⟨t, t', bound, bound', alike⟩ | ⟨e, refused, refused'⟩
    · rw [bound, bound']
      exact ⟨⟨alike, mirrors.outlet⟩, rfl⟩
    · rw [refused, refused']
      exact ⟨mirrors, rfl⟩
  | remove here =>
    refine Act.like_pure ?_
    unfold Stack.remove
    rcases mirrors.table.remove here with ⟨t, c, t', c', removed, removed', alike⟩ | ⟨e, refused, refused'⟩
    · rw [removed, removed']
      exact ⟨⟨alike, mirrors.outlet⟩, rfl⟩
    · rw [refused, refused']
      exact ⟨mirrors, rfl⟩
  | openConnection here opening timeout => exact accepted (mirrors.openConnection here opening timeout)
  | send here text => exact accepted (mirrors.send here text)
  | receive here capacity => exact accepted (mirrors.receive here capacity)
  | close here => exact accepted (mirrors.close here)
  | abort here =>
    refine Act.like_bind (mirrors.abort here calm) fun a b told => ?_
    exact Act.like_pure ⟨told.1, congrArg Answer.ofCall told.2⟩
  | ingress octets src dst =>
    refine Act.like_bind (mirrors.ingress octets src dst) fun a b told => ?_
    exact Act.like_pure ⟨told.1, congrArg Answer.ofWire told.2⟩
  | sweep => exact accepted mirrors.sweep
  | verdicts verdicts =>
    refine Act.like_pure ⟨⟨mirrors.table, ?_⟩, rfl⟩
    dsimp only
    rw [mirrors.outlet]

omit mirrors in
theorem Mirrors.course {first : CallId} {history : List (Event × Instant)}
    (mirrors : Mirrors home stale k k') (discreet : k.Discreet home stale first history) :
    k.course first history = k'.course first history := by
  induction history generalizing k k' first with
  | nil => rfl
  | cons step rest ih =>
    obtain ⟨event, now⟩ := step
    obtain ⟨calm, discreet⟩ := discreet
    have like : Act.Like (Told home stale) (k.handle event now first) (k'.handle event now first) :=
      mirrors.handle event calm
    rw [Stack.course, Stack.course]
    generalize k.handle event now first = act at like discreet
    generalize k'.handle event now first = act' at like
    obtain ⟨signals, outcome⟩ := act
    obtain ⟨signals', outcome'⟩ := act'
    obtain ⟨rfl, fares⟩ : signals = signals' ∧ Fares (Told home stale) outcome outcome' :=
      ⟨like.signals, like.outcome⟩
    cases fares with
    | error fault => rfl
    | @ok a b told =>
      obtain ⟨k₁, answer⟩ := a
      obtain ⟨k₁', answer'⟩ := b
      obtain ⟨mirrors₁, rfl⟩ := told
      dsimp only at mirrors₁ ⊢
      rw [mirrors₁.outlet, mirrors₁.table.states, ih mirrors₁ (discreet _ k₁ answer rfl)]

end

/-- A stack and the same one with a new connection in the place of a closed one that has its estimate of
    the round trip. -/
theorem mirrors_renewed {config : Config} {generator : SeqGenerator} {history : List (Event × Instant)}
    {σ : List Signal} (ends : ((Stack.empty config generator).run 0 history).Ends σ k)
    (found : k.table.get? home = some c) (closed : c.state = .closed) :
    Mirrors home c.send.next k
      (k.put { Connection.bound home config with roundTrip := c.roundTrip }) := by
  have proper := run_proper (proper_empty config generator) ends
  obtain ⟨there, here⟩ := Table.get?_some found
  have coherent := proper.coherent c there
  obtain ⟨foreign, reception⟩ := coherent.closed closed
  obtain ⟨fin, empty⟩ := coherent.silent (by rw [closed]; rfl)
  have idle := coherent.unsent (.inl closed)
  have alike : c.buffer.Alike (.empty (min config.receiveWindow 65535)) :=
    ⟨run_capacity ends c there, by rw [empty, Ring.toList_empty]⟩
  have twin : Connection.Twin
      { c with send := {}, receive := {}, userTimeout := config.userTimeout }
      { Connection.bound home config with roundTrip := c.roundTrip } := by
    have new : { Connection.bound home config with roundTrip := c.roundTrip }
        = { c with
          send := {}
          receive := {}
          userTimeout := config.userTimeout
          waitingSince := .start
          buffer := .empty (min config.receiveWindow 65535) } := by
      rw [Connection.bound, closed, here, foreign, idle, reception]
    rw [new]
    exact ⟨_, _, _, rfl, fun waits => (State.noConfusion (closed.symm.trans waits)), alike⟩
  have blank : Connection.Blank c.send.next c
      { Connection.bound home config with roundTrip := c.roundTrip } :=
    { free := .inl closed
      twin := twin
      fin := fin.symm
      idle := idle
      empty := empty
      kept := fun listens => State.noConfusion (closed.symm.trans listens)
      stale := rfl
      unused := rfl }
  refine ⟨⟨?_, rfl, rfl⟩, rfl⟩
  refine List.forall₂_map_right_iff.mpr (List.forall₂_same.mpr fun old member => ?_)
  split
  next same =>
    have again := Table.get?_of_mem proper.distinct member
    rw [same] at again
    obtain rfl := Option.some.inj (found.symm.trans again)
    exact .blank here blank
  next => exact .twin (.refl old)

/-- A closed connection that is used again behaves just like a new one that has its estimate of the round
    trip, whatever happens then, as long as the number where it stopped is not exposed. So it behaves like
    a new one if the estimate is the one at the start. -/
theorem reused_like_new {config : Config} {generator : SeqGenerator}
    {history later : List (Event × Instant)} {σ : List Signal} {first : CallId}
    (ends : ((Stack.empty config generator).run 0 history).Ends σ k)
    (found : k.table.get? home = some c) (closed : c.state = .closed)
    (discreet : k.Discreet home c.send.next first later) :
    k.course first later
      = (k.put { Connection.bound home config with roundTrip := c.roundTrip }).course first later ∧
    (c.roundTrip = .start config →
      k.course first later = (k.put (.bound home config)).course first later) := by
  have same := (mirrors_renewed ends found closed).course discreet
  refine ⟨same, fun untouched => ?_⟩
  rw [same, untouched]
  rfl

theorem discreet_of_kept {first : CallId} {history : List (Event × Instant)}
    (kept : ∀ step ∈ history, step.1 ≠ .abort home) : k.Discreet home stale first history := by
  induction history generalizing k first with
  | nil => trivial
  | cons step rest ih =>
    refine ⟨fun exposes => kept step List.mem_cons_self exposes.1, fun _ _ _ _ => ?_⟩
    exact ih fun step member => kept step (List.mem_cons_of_mem _ member)

def again : List (Event × Instant) :=
  [(.openConnection ⟨⟨10, 0, 0, 1⟩, 49152⟩ (.active (some ⟨⟨10, 0, 0, 2⟩, 80⟩)) none, .start),
   (.sweep, ⟨10000⟩)]

theorem unanswered_reused : ∃ σ k c,
    ((Stack.empty { receiveWindow := 8 } (.ofKey 1 2)).run 0
      (asking ++ [(.abort ⟨⟨10, 0, 0, 1⟩, 49152⟩, .start)])).Ends σ k ∧
    k.table.get? ⟨⟨10, 0, 0, 1⟩, 49152⟩ = some c ∧ c.state = .closed ∧ c.send.next ≠ ⟨0⟩ ∧
    k.course 3 again
      = (k.put (.bound ⟨⟨10, 0, 0, 1⟩, 49152⟩ { receiveWindow := 8 })).course 3 again := by
  let start : Stack := .empty { receiveWindow := 8 } (.ofKey 1 2)
  let history := asking ++ [(.abort ⟨⟨10, 0, 0, 1⟩, 49152⟩, .start)]
  let k := (start.run 0 history).result start
  let c := (k.table.get? ⟨⟨10, 0, 0, 1⟩, 49152⟩).getD (.bound ⟨⟨10, 0, 0, 1⟩, 49152⟩ {})
  have ends : (start.run 0 history).Ends (start.run 0 history).signals k :=
    Act.ends_result _ (by decide +kernel)
  have found : k.table.get? ⟨⟨10, 0, 0, 1⟩, 49152⟩ = some c := by decide +kernel
  have closed : c.state = .closed := by decide +kernel
  have untouched : c.roundTrip = .start { receiveWindow := 8 } := by decide +kernel
  have discreet : k.Discreet ⟨⟨10, 0, 0, 1⟩, 49152⟩ c.send.next 3 again := discreet_of_kept (by decide)
  exact ⟨_, k, c, ends, found, closed, by decide +kernel,
    (reused_like_new ends found closed discreet).2 untouched⟩

/-- Where it was answered, the second SYN is sent again later than that of a new connection. -/
theorem answered_lingers : ∃ σ k c,
    ((Stack.empty { receiveWindow := 8 } (.ofKey 1 2)).run 0
      (asking ++ [(agreement, .start), (.abort ⟨⟨10, 0, 0, 1⟩, 49152⟩, .start)])).Ends σ k ∧
    k.table.get? ⟨⟨10, 0, 0, 1⟩, 49152⟩ = some c ∧ c.state = .closed ∧
    k.course 4 again
      ≠ (k.put (.bound ⟨⟨10, 0, 0, 1⟩, 49152⟩ { receiveWindow := 8 })).course 4 again := by
  let start : Stack := .empty { receiveWindow := 8 } (.ofKey 1 2)
  let history := asking ++ [(agreement, .start), (.abort ⟨⟨10, 0, 0, 1⟩, 49152⟩, .start)]
  let k := (start.run 0 history).result start
  let c := (k.table.get? ⟨⟨10, 0, 0, 1⟩, 49152⟩).getD (.bound ⟨⟨10, 0, 0, 1⟩, 49152⟩ {})
  exact ⟨_, k, c, Act.ends_result _ (by decide +kernel), by decide +kernel, by decide +kernel,
    by decide +kernel⟩

/- The number where the first incarnation stopped shows in the RST for a peer that was named. -/
example :
    let start : Stack := .empty { receiveWindow := 8 } (.ofKey 1 2)
    let here : Endpoint := ⟨⟨10, 0, 0, 1⟩, 49152⟩
    let exposing : List (Event × Instant) :=
      [(.openConnection here (.passive (some ⟨⟨10, 0, 0, 2⟩, 80⟩)) none, .start), (.abort here, .start)]
    let k := (start.run 0 (asking ++ [(.abort here, .start)])).result start
    k.course 3 exposing ≠ (k.put (.bound here { receiveWindow := 8 })).course 3 exposing := by
  decide +kernel

end Stack
end TcpEngine

import TcpEngine.Proofs.Answering
import TcpEngine.Proofs.Connection.Counting
import TcpEngine.Proofs.Reception
import TcpEngine.Proofs.Stack.Utterance

/-!
The right edge of the receive window: the first number that the peer may not send yet. Taken text moves
RCV.NXT forward by as much as it takes of the window, and a receive call or a FIN only add to one of the
two. So the edge never moves back, and what was offered once is still there when its text comes.
-/
namespace TcpEngine

variable {here : Endpoint} {d : Datagram} {ds : List Datagram} {s t : Segment} {iss : SeqNumber}
  {now : Instant} {call : CallId} {event : Event} {σ : List Signal} {a : Arrival} {c c' : Connection}
  {config : Config}

structure Segment.Offers (s : Segment) (c : Connection) : Prop extends Segment.Confirms s c where
  window : s.header.window.toNat = c.window

def Segment.edge? (s : Segment) : Option SeqNumber :=
  if s.header.flags.has .rst then none
  else s.header.ack.map fun ack => ack.advance s.header.window.toNat

def Datagram.edge? (here : Endpoint) (d : Datagram) : Option SeqNumber :=
  d.segment?.bind fun s => if s.sender = here then s.edge? else none

def Connection.edge (c : Connection) : SeqNumber := c.receive.next.advance c.window

namespace Life

def edges (l : Life) (here : Endpoint) : List SeqNumber := l.posted.filterMap (Datagram.edge? here)

def fins (l : Life) : Nat := l.arrived.countP fun s => s.header.flags.has .fin

end Life

/- What is offered. -/

theorem Segment.Offers.edge (offers : s.Offers c) : s.edge? = some c.edge := by
  rw [Segment.edge?, if_neg (by rw [offers.calm]; exact Bool.false_ne_true), offers.number, Option.map_some,
    offers.window]
  rfl

theorem Connection.Utters.offers (limited : c.Limited) (utters : c.Utters s) :
    c.state = .synSent ∧ s.header.ack = none ∨ c.state.isSynchronized = true ∧ s.Offers c := by
  cases utters with
  | asks state sent =>
    have plain : (Flags.ofList [.syn]).has .ack = false := by decide
    obtain ⟨_, _, rfl⟩ := Option.map_eq_some_iff.mp sent
    exact Or.inl ⟨state, by simp [plain]⟩
  | acks live acknowledge _ sent =>
    have room := limited.room
    obtain ⟨_, _, rfl⟩ := Option.map_eq_some_iff.mp sent
    refine Or.inr ⟨live, ⟨acknowledge.1, acknowledge.2, if_pos acknowledge.1⟩, ?_⟩
    simp only [UInt16.toNat_ofNat', Connection.window, Ring.window]
    omega

theorem edge?_posted (formed : s.Formed) (posted : Stack.datagram s = .ok d) (mine : s.sender = here) :
    d.edge? here = s.edge? := by
  rw [Datagram.edge?, segment?_posted formed posted, Option.bind_some, if_pos mine]

theorem edge?_alien (alien : Alien here d) : d.edge? here = none := by
  obtain ⟨s, formed, posted, kind⟩ := alien
  rw [Datagram.edge?, segment?_posted formed posted, Option.bind_some]
  rcases kind with ⟨_, rst⟩ | other
  · rw [Segment.edge?, if_pos rst, ite_self]
  · rw [if_neg other]

/-- Whatever is offered in the name of a connection is what it has, and it is synchronized. -/
theorem uttered_edges (limited : c.Limited) (same : c.here = here)
    (utters : ∀ d ∈ ds, Alien here d ∨ ∃ s, c.Utters s ∧ Stack.datagram s = .ok d) :
    ∀ e ∈ ds.filterMap (Datagram.edge? here), c.state.isSynchronized = true ∧ e = c.edge := by
  intro e member
  obtain ⟨d, there, shown⟩ := List.mem_filterMap.mp member
  rcases utters d there with alien | ⟨s, utters, posted⟩
  · rw [edge?_alien alien] at shown
    cases shown
  · have mine : s.sender = here := by
      rw [← same]
      cases utters with
      | asks _ sent | acks _ _ _ sent => exact Connection.segment_sender sent
    rw [edge?_posted utters.formed posted mine] at shown
    rcases utters.offers limited with ⟨_, none⟩ | ⟨live, offers⟩
    · rw [Segment.edge?, none, Option.map_none, ite_self] at shown
      cases shown
    · rw [offers.edge, Option.some.injEq] at shown
      exact ⟨live, shown.symm⟩

/- How the edge moves. -/

theorem Connection.Gains.edge {more : Octets} {fins : Nat} (gains : Connection.Gains more fins σ c c') :
    c'.edge = c.edge.advance ((handed σ).length + fins) := by
  have text := congrArg List.length gains.text
  have held := c.buffer.length_le
  have held' := c'.buffer.length_le
  have capacity := gains.capacity
  simp only [List.length_append, Ring.length_toList] at text
  simp only [Connection.edge, gains.next, SeqNumber.advance_advance, Connection.window, Ring.window]
  congr 1
  omega

theorem befalls_gains (live : c.state.isSynchronized = true) (live' : c'.state.isSynchronized = true)
    (h : Befalls config now call event c σ ds c') : ∃ more fins, more.length ≤ c.buffer.capacity ∧
      fins ≤ (event.bringsTo c).countP (fun s => s.header.flags.has .fin) ∧
      (c'.state.peerDone = false → fins = 0) ∧ Connection.Gains more fins σ c c' := by
  cases h with
  | spared => exact ⟨[], 0, Nat.zero_le _, Nat.zero_le _, fun _ => rfl, Connection.gains_refl c⟩
  | called _ _ called =>
    exact ⟨[], 0, Nat.zero_le _, Nat.zero_le _, fun _ => rfl, Connection.called_gains live live' called⟩
  | @arrived _ s _ _ _ _ _ brings claims arrives =>
    obtain ⟨more, fins, room, few, undone, gains⟩ := Connection.arrives_gains live live' arrives
    refine ⟨more, fins, room, ?_, undone, gains⟩
    rw [Event.bringsTo_claimed brings claims, List.countP_singleton]
    cases fin : s.header.flags.has .fin <;> simpa [fin] using few
  | timed ends =>
    exact ⟨[], 0, Nat.zero_le _, Nat.zero_le _, fun _ => rfl, Connection.onTimer_gains live' ends⟩

theorem befalls_first (coherent : c.Coherent) (dead : c.state.isSynchronized = false)
    (h : Befalls config now call event c σ ds c') :
    c'.state.isSynchronized = false ∧ handed σ = [] ∨ c'.state.isSynchronized = true ∧
      ∃ fins, fins ≤ (event.bringsTo c).countP (fun s => s.header.flags.has .fin) ∧
        (c'.state.peerDone = false → fins = 0) ∧ c'.Counted (handed σ) fins := by
  cases h with
  | spared => exact Or.inl ⟨dead, rfl⟩
  | called _ _ called =>
    refine Or.inl ⟨Connection.called_dead dead called, ?_⟩
    by_contra hands
    obtain ⟨_, _, live, _⟩ := called_handed coherent hands called
    rw [dead] at live
    cases live
  | @arrived _ s _ _ _ _ _ brings claims arrives =>
    refine (Connection.arrives_starts coherent dead arrives).imp id ?_
    rintro ⟨live, fins, few, undone, counted⟩
    refine ⟨live, fins, ?_, undone, counted⟩
    rw [Event.bringsTo_claimed brings claims, List.countP_singleton]
    cases fin : s.header.flags.has .fin <;> simpa [fin] using few
  | timed ends =>
    refine Or.inl ⟨?_, Connection.onTimer_handed ends⟩
    rcases Connection.turns_state (Connection.onTimer_turns ends).1 with same | closed
    · rw [same]
      exact dead
    · rw [closed]
      rfl

/- The edges of a life. -/

structure Mounting (initial : SeqNumber) (places : List Nat) (top : Nat) (edges : List SeqNumber) :
    Prop where
  same : edges = places.map initial.advance
  order : places.Pairwise (· ≤ ·)
  below : ∀ p ∈ places, p ≤ top

section Mounting

variable {initial : SeqNumber} {places : List Nat} {top top' : Nat} {edges new : List SeqNumber}

theorem mounting_nothing (initial : SeqNumber) (top : Nat) : Mounting initial [] top [] :=
  ⟨rfl, .nil, fun _ member => absurd member List.not_mem_nil⟩

theorem Mounting.raise (h : Mounting initial places top edges) (more : top ≤ top') :
    Mounting initial places top' edges :=
  ⟨h.same, h.order, fun p member => Nat.le_trans (h.below p member) more⟩

theorem Mounting.append (h : Mounting initial places top edges)
    (same : ∀ e ∈ new, e = initial.advance top) :
    Mounting initial (places ++ List.replicate new.length top) top (edges ++ new) where
  same := by
    rw [List.map_append, ← h.same, List.map_replicate, ← List.eq_replicate_of_mem same]
  order := by
    refine List.pairwise_append.mpr
      ⟨h.order, List.pairwise_replicate.mpr (Or.inr (Nat.le_refl top)), fun p there p' last => ?_⟩
    rw [List.eq_of_mem_replicate last]
    exact h.below p there
  below := by
    intro p member
    rcases List.mem_append.mp member with there | last
    · exact h.below p there
    · exact Nat.le_of_eq (List.eq_of_mem_replicate last)

/-- Within half the circle, places are in order just as their numbers are. -/
theorem Mounting.ordered (h : Mounting initial places top edges) (short : top < SeqNumber.halfCircle) :
    edges.Pairwise fun e e' => e.atOrBefore e' = true := by
  rw [h.same, List.pairwise_map]
  refine h.order.imp_of_mem fun {p p'} member member' order => ?_
  have below := h.below p member
  have below' := h.below p' member'
  have near : SeqNumber.Near p p' := ⟨by omega, by omega⟩
  exact (SeqNumber.atOrBefore_advance near).mpr order

end Mounting

/-- The edges of a life are in order. None is farther than all that was received, all FINs that have come
    and the largest window can bring it. -/
def Rises (here : Endpoint) (l : Life) : Prop :=
  ∃ initial places, Mounting initial places (1 + l.received.length + l.fins + 65535) (l.edges here)

structure Edged (here : Endpoint) (l : Life) (c : Connection) : Prop where
  equipped : c.Equipped
  asking : c.state = .synSent → l.received = [] ∧ l.edges here = []
  live : c.state.isSynchronized = true → ∃ fins places, fins ≤ l.fins ∧ c.Counted l.received fins ∧
    Mounting c.receive.initial places (1 + l.received.length + fins + c.buffer.capacity) (l.edges here)

section Posted

variable {l l' : Life} {places : List Nat} {fins top : Nat}

theorem edges_posted (posted : l'.posted = l.posted ++ ds) :
    l'.edges here = l.edges here ++ ds.filterMap (Datagram.edge? here) := by
  rw [Life.edges, posted, List.filterMap_append]
  rfl

theorem edges_dead (dead : c.state.isSynchronized = false) (posted : l'.posted = l.posted ++ ds)
    (shown : ∀ e ∈ ds.filterMap (Datagram.edge? here), c.state.isSynchronized = true ∧ e = c.edge) :
    l'.edges here = l.edges here := by
  have none : ds.filterMap (Datagram.edge? here) = [] := by
    refine List.eq_nil_iff_forall_not_mem.mpr fun e member => ?_
    have live := (shown e member).1
    rw [dead] at live
    cases live
  rw [edges_posted posted, none, List.append_nil]

theorem edges_mount (counted : c.Counted l'.received fins)
    (mounting : Mounting c.receive.initial places top (l.edges here))
    (more : top ≤ 1 + l'.received.length + fins + c.buffer.capacity)
    (posted : l'.posted = l.posted ++ ds)
    (shown : ∀ e ∈ ds.filterMap (Datagram.edge? here), c.state.isSynchronized = true ∧ e = c.edge) :
    ∃ places, Mounting c.receive.initial places (1 + l'.received.length + fins + c.buffer.capacity)
      (l'.edges here) := by
  rw [edges_posted posted]
  refine ⟨_, (mounting.raise more).append fun e member => ?_⟩
  rw [(shown e member).2]
  exact counted.edge

end Posted

theorem begins_edged (number : Nat) (initial : SeqNumber) (same : c.here = here) (coherent : c.Coherent)
    (limited : c.Limited) (free : c.Free) (h : Begins now call event c σ ds c') :
    Edged here ((Life.begun number initial).goOn event σ ds initial c c') c' := by
  suffices fresh : c'.here = here ∧ c'.Equipped ∧ c'.Limited ∧ handed σ = [] ∧
      (∀ d ∈ ds, Alien here d ∨ ∃ s, c'.Utters s ∧ Stack.datagram s = .ok d) ∧
      (c'.state.isSynchronized = true → ∃ fins,
        fins ≤ (event.bringsTo c).countP (fun s => s.header.flags.has .fin) ∧ c'.Counted [] fins) by
    obtain ⟨same', equipped, limited', silent, utters, counted⟩ := fresh
    have shown := uttered_edges limited' same' utters
    refine ⟨equipped, fun asks => ⟨silent, ?_⟩, fun live => ?_⟩
    · exact edges_dead (l := .begun number initial) (by rw [asks]; rfl) rfl shown
    · obtain ⟨fins, few, counted⟩ := counted live
      have counted : c'.Counted ((Life.begun number initial).goOn event σ ds initial c c').received
          fins := by
        rw [← silent] at counted
        exact counted
      obtain ⟨places, mounting⟩ := edges_mount (l := .begun number initial) counted
        (mounting_nothing _ 0) (Nat.zero_le _) rfl shown
      exact ⟨fins, places, few, counted, mounting⟩
  have equipped := Connection.equipped_of_free free
  cases h with
  | asks iss foreign userTimeout called =>
    refine ⟨same, Connection.equipped_called coherent equipped called,
      Connection.limited_called limited called, rfl, fun d member => called_utters member called, ?_⟩
    intro live
    cases live
  | takes s iss arrival brings claims _ arrives _ _ holds =>
    have befalls : Befalls {} now call event c [] ds arrival.connection :=
      .arrived iss brings claims arrives holds
    refine ⟨(befalls_here coherent befalls).trans same, befalls_equipped coherent equipped befalls,
      befalls_limited coherent limited befalls, rfl, ?_, fun live => ?_⟩
    · rw [← same]
      exact befalls_utters coherent limited equipped befalls
    · rcases befalls_first coherent (Connection.dead_of_free free) befalls with
        ⟨dead, _⟩ | ⟨_, fins, few, _, counted⟩
      · rw [dead] at live
        cases live
      · exact ⟨fins, few, counted⟩

section Onward

variable {l : Life} {unacked : SeqNumber}

theorem befalls_asking (coherent : c.Coherent) (limited : c.Limited) (busy : ¬ c.Free)
    (edged : Edged c.here l c) (h : Befalls config now call event c σ ds c') (asks : c'.state = .synSent) :
    (l.goOn event σ ds unacked c c').received = [] ∧
      (l.goOn event σ ds unacked c c').edges c.here = [] := by
  have shown := uttered_edges (befalls_limited coherent limited h) (befalls_here coherent h)
    (befalls_utters coherent limited edged.equipped h)
  have dead' : c'.state.isSynchronized = false := by
    rw [asks]
    rfl
  have early : c.state = .synSent := by
    by_contra off
    have busy' : ¬ c'.Free := fun free => by rcases free with state | state <;> cases asks.symm.trans state
    have live := Connection.live_of_busy busy off
    exact Connection.not_asking (befalls_receives coherent limited live busy' h).1 asks
  obtain ⟨silent, unoffered⟩ := edged.asking early
  refine ⟨?_, (edges_dead dead' rfl shown).trans unoffered⟩
  rcases befalls_first coherent (by rw [early]; rfl) h with ⟨_, quiet⟩ | ⟨live', _⟩
  · rw [Life.goOn, silent, quiet, List.append_nil]
  · rw [dead'] at live'
    cases live'

theorem befalls_mounts (coherent : c.Coherent) (limited : c.Limited) (busy : ¬ c.Free)
    (edged : Edged c.here l c) (h : Befalls config now call event c σ ds c')
    (live' : c'.state.isSynchronized = true) : ∃ fins places,
      fins ≤ (l.goOn event σ ds unacked c c').fins ∧
      c'.Counted (l.goOn event σ ds unacked c c').received fins ∧
      Mounting c'.receive.initial places
        (1 + (l.goOn event σ ds unacked c c').received.length + fins + c'.buffer.capacity)
        ((l.goOn event σ ds unacked c c').edges c.here) := by
  have shown := uttered_edges (befalls_limited coherent limited h) (befalls_here coherent h)
    (befalls_utters coherent limited edged.equipped h)
  have few {fins n : Nat} (before : fins ≤ l.fins)
      (new : n ≤ (event.bringsTo c).countP fun s => s.header.flags.has .fin) :
      fins + n ≤ (l.goOn event σ ds unacked c c').fins := by
    rw [Life.fins, Life.goOn, List.countP_append]
    exact Nat.add_le_add before new
  cases live : c.state.isSynchronized with
  | true =>
    obtain ⟨fins, places, before, counted, mounting⟩ := edged.live live
    obtain ⟨more, n, _, new, _, gains⟩ := befalls_gains live live' h
    rw [← gains.initial] at mounting
    have counted' : c'.Counted (l.goOn event σ ds unacked c c').received (fins + n) :=
      gains.counted counted
    obtain ⟨places', mounting'⟩ := edges_mount counted' mounting (by
      rw [Life.goOn, List.length_append, gains.capacity]
      omega) rfl shown
    exact ⟨fins + n, places', few before new, counted', mounting'⟩
  | false =>
    have early : c.state = .synSent := by
      by_contra off
      rw [Connection.live_of_busy busy off] at live
      cases live
    obtain ⟨silent, unoffered⟩ := edged.asking early
    rcases befalls_first coherent live h with ⟨dead', _⟩ | ⟨_, n, new, _, counted⟩
    · rw [dead'] at live'
      cases live'
    · have counted' : c'.Counted (l.goOn event σ ds unacked c c').received n := by
        rw [Life.goOn, silent, List.nil_append]
        exact counted
      have nothing := mounting_nothing c'.receive.initial 0
      rw [← unoffered] at nothing
      obtain ⟨places', mounting'⟩ := edges_mount counted' nothing (Nat.zero_le _) rfl shown
      exact ⟨n, places', Nat.zero_add n ▸ few (Nat.zero_le _) new, counted', mounting'⟩

/-- Whatever befalls a connection, the edges stay in order. -/
theorem befalls_edged (coherent : c.Coherent) (limited : c.Limited) (busy : ¬ c.Free)
    (edged : Edged c.here l c) (h : Befalls config now call event c σ ds c') :
    Edged c.here (l.goOn event σ ds unacked c c') c' where
  equipped := befalls_equipped coherent edged.equipped h
  asking := befalls_asking coherent limited busy edged h
  live := befalls_mounts coherent limited busy edged h

end Onward

theorem Edged.rises {l : Life} (edged : Edged here l c) (limited : c.Limited) (busy : ¬ c.Free) :
    Rises here l := by
  have room := limited.room
  by_cases asks : c.state = .synSent
  · rw [Rises, (edged.asking asks).2]
    exact ⟨⟨0⟩, [], mounting_nothing _ _⟩
  · obtain ⟨fins, places, few, _, mounting⟩ := edged.live (Connection.live_of_busy busy asks)
    exact ⟨_, places, mounting.raise (by omega)⟩

theorem begins_limited (coherent : c.Coherent) (limited : c.Limited)
    (h : Begins now call event c σ ds c') : c'.Limited ∧ ¬ c'.Free := by
  cases h with
  | asks iss foreign userTimeout called =>
    exact ⟨Connection.limited_called limited called, fun free => by cases free <;> contradiction⟩
  | takes s iss arrival brings claims _ arrives _ state holds =>
    have befalls : Befalls {} now call event c [] ds arrival.connection :=
      .arrived iss brings claims arrives holds
    refine ⟨befalls_limited coherent limited befalls, ?_⟩
    rw [Connection.Free, state]
    decide

theorem edged_lasts (here : Endpoint) :
    Stack.Lasting here (fun _ _ _ => True) (Rises here) (Edged here) where
  onward := fun _ _ => trivial
  begins := by
    intro place event now l c c' σ ds same coherent limited free begins _
    have edged := begins_edged (l.number + 1) c'.send.initial same coherent limited free begins
    obtain ⟨limited', busy⟩ := begins_limited coherent limited begins
    exact ⟨edged.rises limited' busy, edged⟩
  goes := by
    intro k k' place event now rest l c c' σ ds sound _ _ found _ busy befalls rises edged
    obtain ⟨there, rfl⟩ := Table.get?_some found
    have coherent := sound.proper.coherent c there
    have limited := sound.limited c there
    have limited' := befalls_limited coherent limited befalls
    have edged' : Edged c.here (l.goOn event σ ds c.send.unacked c c') c' :=
      befalls_edged coherent limited busy edged befalls
    refine ⟨?_, fun _ => edged'⟩
    cases live : c'.state.isSynchronized with
    | true => exact edged'.rises limited' (Connection.not_free_of_live live)
    | false =>
      have shown := uttered_edges limited' (befalls_here coherent befalls)
        (befalls_utters coherent limited edged.equipped befalls)
      obtain ⟨initial, places, mounting⟩ := rises
      rw [Rises, edges_dead live rfl shown]
      refine ⟨initial, places, mounting.raise ?_⟩
      simp only [Life.goOn, Life.fins, List.length_append, List.countP_append]
      omega

theorem rises_unborn (here : Endpoint) : Rises here .unborn := ⟨⟨0⟩, [], mounting_nothing _ _⟩

theorem befalls_capacity (coherent : c.Coherent) (h : Befalls config now call event c σ ds c') :
    c'.buffer.capacity = c.buffer.capacity := by
  cases h with
  | spared => rfl
  | called _ _ called => exact Connection.capacity_called called
  | arrived _ _ _ arrives =>
    exact (Connection.arrives_handled coherent.fresh arrives).1.keeps
      (P := fun d => d.buffer.capacity = c.buffer.capacity)
      (fun before move => (Connection.capacity_move move).trans before) rfl
  | timed ends =>
    exact (Connection.onTimer_turns ends).1.keeps (P := fun d => d.buffer.capacity = c.buffer.capacity)
      (fun before turn => (Connection.capacity_turn turn).trans before) rfl

theorem befalls_edge (limited : c.Limited) (live : c.state.isSynchronized = true)
    (live' : c'.state.isSynchronized = true) (h : Befalls config now call event c σ ds c') :
    c.edge.atOrBefore c'.edge = true := by
  obtain ⟨more, fins, room, few, _, gains⟩ := befalls_gains live live' h
  have text := congrArg List.length gains.text
  have held := c.buffer.length_le
  have storage := limited.room
  have one : (event.bringsTo c).countP (fun s => s.header.flags.has .fin) ≤ 1 := by
    refine Nat.le_trans List.countP_le_length (Nat.le_trans (List.length_filter_le _ _) ?_)
    cases event.segment? <;> simp
  simp only [List.length_append, Ring.length_toList] at text
  have near : SeqNumber.Near 0 ((handed σ).length + fins) := by
    simp only [SeqNumber.Near, SeqNumber.halfCircle]
    omega
  have order := SeqNumber.atOrBefore_advance (a := c.edge) near
  rw [SeqNumber.advance_zero] at order
  rw [gains.edge, order]
  exact Nat.zero_le _

structure Segment.Due (s : Segment) (initial : SeqNumber) (q n p : Nat) : Prop where
  seq : s.header.seq = initial.advance q
  begun : q ≤ n
  reaches : n ≤ q + s.text.length
  inside : q + s.text.length ≤ p

/-- A text that ends before the edge, and is due, goes into the buffer as a whole. -/
theorem Segment.Due.fits {initial : SeqNumber} {q n p : Nat} (due : s.Due initial q n p)
    (limited : c.Limited) (live : c.state.isSynchronized = true)
    (counted : c.receive.next = initial.advance n) (edge : p ≤ n + c.window)
    (sized : s.Sized) (filled : s.text ≠ []) (looks : c.LooksAt s) (arrives : (c.arrives s iss now).Ends σ a) :
    handed σ ++ a.connection.buffer.toList = c.buffer.toList ++ s.text.drop (n - q) := by
  have inside := due.inside
  have short := sized.short
  have reaches := due.reaches
  have place : c.receive.next = s.header.seq.advance (n - q) := by
    rw [due.seq, SeqNumber.advance_advance, Nat.add_sub_cancel' due.begun]
    exact counted
  obtain ⟨_, gains⟩ := Connection.arrives_takes limited live looks filled place
    (by simp only [SeqNumber.halfCircle]; omega) (by rw [List.length_drop]; omega) arrives
  exact gains.text

namespace Stack

theorem run_capacity {config : Config} {generator : SeqGenerator} {history : List (Event × Instant)}
    {k : Stack} {σ : List Signal}
    (ends : ((Stack.empty config generator).run 0 history).Ends σ k) :
    ∀ c ∈ k.table.connections, c.buffer.capacity = min config.receiveWindow 65535 :=
  run_each (P := fun c => c.buffer.capacity = min config.receiveWindow 65535) (fun _ => rfl)
    (fun coherent size h => (befalls_capacity coherent h).trans size) (sound_empty config generator) rfl
    (fun _ member => absurd member List.not_mem_nil) ends

/-- In every history that begins with an empty table, what is in the buffer and the window are together
    the same size at all times. The right edges of the windows that an incarnation has offered are at
    places that never go back, and none is behind the one that the connection has now. Places count on
    where the numbers begin anew; as long as all are within half the circle, the numbers are in order just
    as they are. So a text that lies within a window that was offered finds room, all of it, when it is its
    turn. Whatever a connection emits with the next event, resets apart, is its SYN without an ACK as long
    as it is asking, and offers just its window once it is synchronized, when the edge does not go back. -/
theorem right_edge_never_shrinks {config : Config} {generator : SeqGenerator} {here : Endpoint}
    {history : List (Event × Instant)} {k : Stack} {σ : List Signal} {l : Life}
    (ends : ((Stack.empty config generator).run 0 history).Ends σ k)
    (life : (Stack.empty config generator).lived here .unborn 0 history = l) :
    (∀ c ∈ k.table.connections,
      c.buffer.toList.length + c.window = min config.receiveWindow 65535) ∧
    (∃ initial places, Mounting initial places (1 + l.received.length + l.fins + 65535) (l.edges here)) ∧
    (1 + l.received.length + l.fins + 65535 < SeqNumber.halfCircle →
      (l.edges here).Pairwise fun e e' => e.atOrBefore e' = true) ∧
    (∀ {c : Connection}, k.table.get? here = some c → c.state.isSynchronized = true →
      ∃ (n fins : Nat) (places : List Nat),
        n = 1 + (l.received ++ c.buffer.toList).length + fins ∧ fins ≤ l.fins ∧
        c.receive.next = c.receive.initial.advance n ∧
        Mounting c.receive.initial places (n + c.window) (l.edges here) ∧
        ∀ {s : Segment} {iss : SeqNumber} {now : Instant} {q p : Nat}, p = n + c.window ∨ p ∈ places →
          s.Due c.receive.initial q n p → s.Sized → s.text ≠ [] → c.LooksAt s →
          (∀ {ρ : List Signal} {a : Arrival}, (c.arrives s iss now).Ends ρ a →
            handed ρ ++ a.connection.buffer.toList = c.buffer.toList ++ s.text.drop (n - q)) ∧
          (config.Sane → ∃ ρ a, (c.arrives s iss now).Ends ρ a)) ∧
    ∀ {event : Event} {now : Instant} {τ : List Signal} {k' : Stack} {answer : Answer}
      {c c' : Connection}, (k.handle event now history.length).Ends τ (k', answer) →
      k.table.get? here = some c → k'.table.get? here = some c' →
      (∀ s, Emitted here (k'.log.drop k.log.length) s → s.header.flags.has .rst = false →
        c'.state = .synSent ∧ s.header.ack = none ∨ c'.state.isSynchronized = true ∧ s.Offers c') ∧
      (c.state.isSynchronized = true → c'.state.isSynchronized = true →
        c.edge.atOrBefore c'.edge = true) := by
  obtain ⟨sound, _, rises, goes⟩ := (edged_lasts here).run [] (sound_empty config generator) trivial
    (lasts_none (rises_unborn here)) ends
  rw [life] at rises goes
  rw [Nat.zero_add] at sound
  refine ⟨?_, rises, fun short => ?_, ?_, ?_⟩
  · intro c there
    have held := c.buffer.length_le
    rw [← run_capacity ends c there, Ring.length_toList, Connection.window, Ring.window]
    omega
  · obtain ⟨initial, places, mounting⟩ := rises
    exact mounting.ordered short
  · intro c found live
    have there := (Table.get?_some found).1
    have limited := sound.limited c there
    obtain ⟨fins, places, few, counted, mounting⟩ :=
      (goes c found (Connection.not_free_of_live live)).live live
    have held := c.buffer.length_le
    have top : 1 + l.received.length + fins + c.buffer.capacity
        = 1 + (l.received ++ c.buffer.toList).length + fins + c.window := by
      simp only [List.length_append, Ring.length_toList, Connection.window, Ring.window]
      omega
    rw [top] at mounting
    refine ⟨_, fins, places, rfl, few, counted, mounting, ?_⟩
    intro s iss now q p offered due sized filled looks
    constructor
    · exact due.fits limited live counted (offered.elim Nat.le_of_eq (mounting.below _)) sized filled looks
    · intro sane
      have able := (run_going (going_empty sane generator) ends).able.each c there
      obtain ⟨ρ, a, arrives⟩ : (c.arrives s iss now).Succeeds :=
        Connection.arrives_succeeds sized limited able.measurable
      exact ⟨ρ, a, arrives⟩
  · intro event now τ k' answer c c' happens found found'
    rcases handle_origin sound happens found' with ⟨none, _⟩ | ⟨_, ds, found₀, log, befalls⟩
    · cases found.symm.trans none
    · obtain rfl := Option.some.inj (found.symm.trans found₀)
      obtain ⟨there, same⟩ := Table.get?_some found
      have coherent := sound.proper.coherent c there
      have limited := sound.limited c there
      refine ⟨fun s emitted calm => ?_, fun live live' => befalls_edge limited live live' befalls⟩
      rw [log, List.drop_left, ← same] at emitted
      exact (emitted_utters coherent limited (run_equipped ends c there) emitted calm befalls).offers
        (befalls_limited coherent limited befalls)

theorem repeated_fits : ∃ σ k l c s t τ k' answer c',
    ((Stack.empty { receiveWindow := 8 } (.ofKey 1 2)).run 0 (repeated.take 4)).Ends σ k ∧
    (Stack.empty { receiveWindow := 8 } (.ofKey 1 2)).lived ⟨⟨10, 0, 0, 1⟩, 49152⟩ .unborn 0
      (repeated.take 4) = l ∧ l.edges ⟨⟨10, 0, 0, 1⟩, 49152⟩ = [⟨1009⟩, ⟨1009⟩] ∧
    (l.edges ⟨⟨10, 0, 0, 1⟩, 49152⟩).Pairwise (fun e e' => e.atOrBefore e' = true) ∧
    k.table.get? ⟨⟨10, 0, 0, 1⟩, 49152⟩ = some c ∧ c.buffer.toList = [104] ∧ c.window = 7 ∧
    (repeated.drop 4).head?.bind (fun step => step.1.segment?) = some s ∧ s.text = [104, 105] ∧
    (∃ ρ a, (c.arrives s ⟨0⟩ .start).Ends ρ a ∧
      handed ρ ++ a.connection.buffer.toList = [104, 105]) ∧
    (∃ step ∈ (repeated.drop 4).head?, (k.handle step.1 .start 4).Ends τ (k', answer)) ∧
    k'.table.get? ⟨⟨10, 0, 0, 1⟩, 49152⟩ = some c' ∧
    Emitted ⟨⟨10, 0, 0, 1⟩, 49152⟩ (k'.log.drop k.log.length) t ∧ t.Offers c' ∧
    c.edge.atOrBefore c'.edge = true ∧ c'.edge = ⟨1010⟩ := by
  let here : Endpoint := ⟨⟨10, 0, 0, 1⟩, 49152⟩
  let start := Stack.empty { receiveWindow := 8 } (.ofKey 1 2)
  let event := ((repeated.drop 4).head (by decide)).1
  let k := (start.run 0 (repeated.take 4)).result start
  let c := (k.table.get? here).getD (.bound here {})
  let s := event.segment?.get (by decide +kernel)
  let r := (k.handle event .start 4).result (k, .accepted)
  let c' := (r.1.table.get? here).getD (.bound here {})
  let t := (c'.segment (.ofList [.ack]) c'.send.next []).get (by decide +kernel)
  have ends : (start.run 0 (repeated.take 4)).Ends _ k := Act.ends_result start (by decide +kernel)
  have succeeds : (k.handle event .start 4).outcome.isOk = true := by decide +kernel
  have whole := Act.ends_result (k, Answer.accepted) succeeds
  have happens : (k.handle event .start 4).Ends _ (r.1, r.2) := whole.pair
  have found : k.table.get? here = some c := by decide +kernel
  have found' : r.1.table.get? here = some c' := by decide +kernel
  have live : c.state.isSynchronized = true := by decide +kernel
  have live' : c'.state.isSynchronized = true := by decide +kernel
  have held : c.buffer.toList = [104] := by decide +kernel
  have room : c.window = 7 := by decide +kernel
  have sent : c'.segment (.ofList [.ack]) c'.send.next [] = some t := by decide +kernel
  have emitted : Emitted here (r.1.log.drop k.log.length) t :=
    ⟨(Connection.segment_formed sent).1, by decide +kernel, by decide +kernel⟩
  have unread : (start.lived here .unborn 0 (repeated.take 4)).received = [] := by decide +kernel
  have none : (start.lived here .unborn 0 (repeated.take 4)).fins = 0 := by decide +kernel
  obtain ⟨_, _, ordered, fits, onward⟩ := right_edge_never_shrinks ends rfl
  obtain ⟨n, fins, places, place, few, _, _, takes⟩ := fits found live
  rw [unread, held] at place
  rw [none] at few
  obtain rfl : n = 2 := by
    rw [place]
    simp only [List.nil_append, List.length_singleton]
    omega
  have due : s.Due c.receive.initial 1 2 (2 + c.window) :=
    ⟨by decide +kernel, by decide, by decide +kernel, by decide +kernel⟩
  have looks : c.LooksAt s :=
    ⟨⟨by decide +kernel, by decide +kernel, by decide +kernel⟩, c.send.unacked, by decide +kernel,
      .inl (by decide +kernel)⟩
  obtain ⟨full, ready⟩ := @takes s ⟨0⟩ .start 1 (2 + c.window) (.inl rfl) due (by decide +kernel)
    (by decide +kernel) looks
  obtain ⟨ρ, a, arrives⟩ := ready ⟨by decide, by decide, by decide, by decide⟩
  obtain ⟨offers, forward⟩ := onward happens found found'
  have offered : t.Offers c' := by
    rcases offers t emitted (by decide +kernel) with ⟨asks, _⟩ | ⟨_, offered⟩
    · exact absurd asks (Connection.not_asking live')
    · exact offered
  have missing : handed ρ ++ a.connection.buffer.toList = [104, 105] := by
    rw [full arrives, held]
    decide +kernel
  exact ⟨_, k, _, c, s, t, _, r.1, r.2, c', ends, rfl, by decide +kernel, ordered (by decide +kernel),
    found, held, room, by decide +kernel, by decide +kernel, ⟨ρ, a, arrives, missing⟩,
    ⟨_, rfl, happens⟩, found', emitted, offered, forward live live', by decide +kernel⟩

end Stack
end TcpEngine

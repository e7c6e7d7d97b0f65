import Mathlib.Algebra.Order.BigOperators.Group.List
import Mathlib.Algebra.Order.Group.Nat
import TcpEngine.Proofs.Connection.Unrest
import TcpEngine.Proofs.Link.Play
import TcpEngine.Proofs.Stack.Offering

/-!
How much unrest there is on a link. A delivery leaves less of it, unless the datagram is a plain
acknowledgment that is refused: that one comes back as another, an echo, and nothing else is changed.
-/
namespace TcpEngine

variable {now : Instant} {call : CallId} {d e f g : Datagram} {ds : List Datagram} {s : Segment}
  {σ : List Signal} {answer : Answer} {segments : List Segment}

namespace Datagram

def read? (d : Datagram) : Option Segment := (Event.ingress d.octets d.src d.dst).segment?

def unrest (d : Datagram) : Nat := d.read?.elim 1 Segment.unrest

theorem read?_iff : d.read? = some s ↔ Reads d.octets d.src d.dst s := by
  constructor
  · intro read
    obtain ⟨_, _, _, same, reads⟩ := Event.reads_of_segment? read
    cases same
    exact reads
  · exact Event.segment?_ingress

theorem unrest_pos : 0 < d.unrest := by
  unfold unrest
  cases d.read? with
  | none => exact Nat.one_pos
  | some s => exact Segment.unrest_pos

theorem unrest_le : d.unrest ≤ 3 := by
  unfold unrest
  cases d.read? with
  | none => decide
  | some s => exact Segment.unrest_le

theorem unrest_posted (formed : s.Formed) (posted : Stack.datagram s = .ok d) :
    d.unrest ≤ s.unrest := by
  unfold unrest
  cases read : d.read? with
  | none => exact Segment.unrest_pos
  | some t =>
    obtain rfl := reads_datagram formed posted (read?_iff.mp read)
    exact Nat.le_refl _

theorem unrest_post (formed : ∀ s ∈ segments, s.Formed) (post : Stack.Post segments ds) :
    (ds.map unrest).sum ≤ (segments.map Segment.unrest).sum := by
  induction post with
  | nil => exact Nat.le_refl _
  | cons posted _ ih =>
    simp only [List.map_cons, List.sum_cons]
    have first := unrest_posted (formed _ List.mem_cons_self) posted
    have later := ih fun s member => formed s (List.mem_cons_of_mem _ member)
    omega

end Datagram

namespace Connection

theorem arrives_formed {c : Connection} {iss : SeqNumber} {a : Arrival} (coherent : c.Coherent)
    (arrives : (c.arrives s iss now).Ends σ a) : ∀ t ∈ a.answers, t.Formed := by
  intro t member
  rcases (arrives_handled coherent.fresh arrives).2 t member with answers | rst
  · cases answers with
    | reset reset => exact (resetReply_formed reset).1
    | ack _ sent => exact (segment_formed sent).1
    | syn _ sent => exact (segment_formed sent).1
  · exact (segment_formed rst).1

end Connection

namespace Stack

variable {k k' : Stack} {c : Connection}

def unrest (k : Stack) : Nat := (k.table.connections.map Connection.unrest).sum

/-- The acknowledgment that comes back for a plain acknowledgment, if a connection refuses that. -/
def echo? (k : Stack) (d : Datagram) : Option Datagram := do
  let s ← d.read?
  let c ← k.table.get? s.receiver
  if c.claims s ∧ s.Plain ∧ c.refuses s then
    let t ← c.control [.ack]
    (datagram t).toOption
  else none

theorem echo?_iff : k.echo? d = some e ↔ ∃ s c t, Reads d.octets d.src d.dst s ∧
    k.table.get? s.receiver = some c ∧ c.claims s = true ∧ s.Plain ∧ c.refuses s = true ∧
    c.control [.ack] = some t ∧ datagram t = .ok e := by
  simp only [echo?, Option.bind_eq_bind, Option.bind_eq_some_iff, Datagram.read?_iff]
  constructor
  · rintro ⟨s, reads, c, found, back⟩
    split at back
    · rename_i refused
      obtain ⟨t, sent, posted⟩ := Option.bind_eq_some_iff.mp back
      refine ⟨s, c, t, reads, found, refused.1, refused.2.1, refused.2.2, sent, ?_⟩
      cases made : datagram t with
      | error fault =>
        rw [made] at posted
        cases posted
      | ok d =>
        rw [made] at posted
        cases posted
        rfl
    · cases back
  · rintro ⟨s, c, t, reads, found, claims, plain, refuses, sent, posted⟩
    refine ⟨s, reads, c, found, ?_⟩
    rw [if_pos ⟨claims, plain, refuses⟩, sent, Option.bind_some, posted]
    rfl

theorem ingress_willing {octets : Octets} {src dst : Address} (willing : k.Willing)
    (h : (k.handle (.ingress octets src dst) now call).Ends σ (k', answer)) : k'.Willing := by
  rcases ingress_parts h with ⟨_, rfl, _⟩ | ⟨_, table, _, _, _, emitted⟩
  · exact willing
  · exact (emitAll_willing (k := { k with table }) willing emitted).1

theorem ingress_taken (echo : k.echo? d = some e) (now : Instant) (call : CallId) :
    ∃ k', (k.handle (.ingress d.octets d.src d.dst) now call).Ends [] (k', .accepted) := by
  obtain ⟨s, c, t, reads, found, claims, plain, refuses, sent, posted⟩ := echo?_iff.mp echo
  have answered : (c.arrives s (k.table.nextSeq s.receiver s.sender now) now).Ends []
      (.answered c (c.control [.ack])) := by
    rw [Connection.arrives_refused plain refuses]
    rfl
  obtain ⟨table, arrives, _⟩ := Table.arrives_claimed found claims answered
  rw [sent] at arrives
  have emitted : emitAll { k with table } [t]
      = .ok { k with table, outlet := (k.outlet.transmit e).1 } := by
    rw [emitAll, emit, posted]
    rfl
  exact ⟨_, ingress_ends reads arrives emitted⟩

theorem ingress_echoed (proper : k.Proper) (willing : k.Willing) (echo : k.echo? d = some e)
    (h : (k.handle (.ingress d.octets d.src d.dst) now call).Ends σ (k', answer)) :
    k'.table.connections = k.table.connections ∧ k'.log = k.log ++ [e] := by
  obtain ⟨s, c, t, reads, found, claims, plain, refuses, sent, posted⟩ := echo?_iff.mp echo
  obtain ⟨iss, a, ds, arrives, table, post, log⟩ := ingress_offers willing reads found claims h
  rw [Connection.arrives_refused plain refuses, sent] at arrives
  obtain ⟨_, rfl⟩ := Act.ends_pure.mp arrives
  cases post with
  | cons posted' rest =>
    cases rest
    cases posted.symm.trans posted'
    obtain ⟨before, behind, parts, replaced⟩ := Table.split_at proper.distinct found
    refine ⟨?_, log⟩
    rw [table, parts]
    exact replaced c rfl

theorem unrest_le (k : Stack) : k.unrest ≤ k.table.connections.length := by
  have each := List.sum_le_card_nsmul (k.table.connections.map Connection.unrest) 1
    (by simpa using fun c _ => Connection.unrest_le (c := c))
  rwa [List.length_map, Nat.nsmul_eq_mul, Nat.mul_one] at each

theorem unrest_kept (table : k'.table.connections = k.table.connections) : k'.unrest = k.unrest := by
  rw [unrest, table]
  rfl

theorem unrest_put {here : Endpoint} {c' : Connection} (distinct : k.table.Distinct)
    (found : k.table.get? here = some c) (same : c'.here = c.here)
    (table : k'.table.connections = (k.table.put c').connections) :
    k'.unrest + c.unrest = k.unrest + c'.unrest := by
  obtain ⟨before, behind, parts, replaced⟩ := Table.split_at distinct found
  rw [unrest, unrest, table, parts, replaced c' same]
  simp only [List.map_append, List.map_cons, List.sum_append, List.sum_cons]
  omega

theorem reset_calms {reply : Option Segment} (reset : s.resetReply = .ok reply)
    (post : Post reply.toList ds) : (ds.map Datagram.unrest).sum < s.unrest := by
  cases reply with
  | none =>
    cases post
    exact Segment.unrest_pos
  | some t =>
    have formed : ∀ u ∈ (some t).toList, u.Formed := by
      intro u member
      obtain rfl := Option.mem_some.mp (Option.mem_toList.mp member)
      exact (resetReply_formed reset).1
    have sum := Datagram.unrest_post formed post
    have less := Segment.unrest_resetReply reset
    simp only [Option.toList, List.map_cons, List.map_nil, List.sum_cons, List.sum_nil] at sum
    omega

theorem arrival_calms {iss : SeqNumber} {a : Arrival} (coherent : c.Coherent)
    (arrives : (c.arrives s iss now).Ends σ a) (post : Post a.answers ds) :
    (s.Plain ∧ c.refuses s = true ∧ ∃ t e, c.control [.ack] = some t ∧ datagram t = .ok e) ∨
      a.connection.unrest + (ds.map Datagram.unrest).sum < c.unrest + s.unrest := by
  have sum := Datagram.unrest_post (Connection.arrives_formed coherent arrives) post
  have whole : a.unrest = a.connection.unrest + (a.answers.map Segment.unrest).sum := rfl
  rcases Connection.arrives_calms coherent arrives with ⟨plain, refuses⟩ | less
  · rw [Connection.arrives_refused plain refuses] at arrives
    obtain ⟨_, rfl⟩ := Act.ends_pure.mp arrives
    cases sent : c.control [.ack] with
    | none =>
      rw [sent] at post
      cases post
      exact Or.inr (Nat.add_lt_add_left Segment.unrest_pos _)
    | some t =>
      rw [sent] at post
      cases post with
      | cons posted _ => exact Or.inl ⟨plain, refuses, t, _, rfl, posted⟩
  · right
    omega

/-- A datagram that does not come back leaves less unrest than there was. -/
theorem ingress_calms (proper : k.Proper) (willing : k.Willing) (final : k.echo? d = none)
    (h : (k.handle (.ingress d.octets d.src d.dst) now call).Ends σ (k', answer)) :
    ∃ ds, k'.log = k.log ++ ds ∧
      k'.unrest + (ds.map Datagram.unrest).sum < k.unrest + d.unrest := by
  rcases ingress_parts h with ⟨_, rfl, _⟩ | ⟨s, table, answers, reads, passes, emitted⟩
  · exact ⟨[], (List.append_nil _).symm, Nat.add_lt_add_left Datagram.unrest_pos _⟩
  obtain ⟨_, same, ds, post, log⟩ := emitAll_willing (k := { k with table }) willing emitted
  refine ⟨ds, log, ?_⟩
  have weight : d.unrest = s.unrest := by
    rw [Datagram.unrest, Datagram.read?_iff.mpr reads]
    rfl
  cases passes with
  | unclaimed _ reset =>
    rw [unrest_kept (k := k) (by rw [same]), weight]
    exact Nat.add_lt_add_left (reset_calms reset post) _
  | @claimed _ c a _ iss found claims arrives put =>
    have coherent := proper.found found
    rcases arrival_calms coherent arrives post with ⟨plain, refuses, t, e, sent, posted⟩ | less
    · have echo := echo?_iff.mpr ⟨s, c, t, reads, found, claims, plain, refuses, sent, posted⟩
      cases final.symm.trans echo
    · have kept := Connection.moves_here (Connection.arrives_handled coherent.fresh arrives).1
      have table' : k'.table.connections = (k.table.put a.connection).connections := by
        rw [same]
        exact put
      have changed := unrest_put proper.distinct found kept table'
      omega

end Stack

namespace Link

variable {l l' : Link} {side : Side} {k : Stack} {i : Nat}

def Willing (l : Link) : Prop := l.near.stack.Willing ∧ l.far.stack.Willing

instance (l : Link) : Decidable l.Willing := inferInstanceAs (Decidable (_ ∧ _))

theorem willing_iff : l.Willing ↔ ∀ side, (l.host side).stack.Willing := by
  constructor
  · intro willing side
    cases side with
    | near => exact willing.1
    | far => exact willing.2
  · intro willing
    exact ⟨willing .near, willing .far⟩

def unrest (l : Link) : Nat :=
  l.near.stack.unrest + l.far.stack.unrest + (l.flight.map Datagram.unrest).sum

theorem flight_unrest (l : Link) : l.flight.length ≤ l.unrest := by
  have each := List.card_nsmul_le_sum (l.flight.map Datagram.unrest) 1
    (by simpa using fun d _ => Nat.succ_le_of_lt (Datagram.unrest_pos (d := d)))
  rw [List.length_map, Nat.nsmul_eq_mul] at each
  unfold unrest
  omega

def size (l : Link) : Nat :=
  l.near.stack.table.connections.length + l.far.stack.table.connections.length + 3 * l.flight.length

theorem unrest_le_size (l : Link) : l.unrest ≤ l.size := by
  have near := l.near.stack.unrest_le
  have far := l.far.stack.unrest_le
  have flight := List.sum_le_card_nsmul (l.flight.map Datagram.unrest) 3
    (by simpa using fun d _ => Datagram.unrest_le (d := d))
  rw [List.length_map, Nat.nsmul_eq_mul] at flight
  unfold unrest size
  omega

def echo? (l : Link) (d : Datagram) : Option Datagram := (l.host (l.owner d.dst)).stack.echo? d

structure Still (l l' : Link) : Prop where
  home : l'.home = l.home
  table : ∀ side, (l'.host side).stack.table.connections = (l.host side).stack.table.connections

theorem still_refl (l : Link) : l.Still l := ⟨rfl, fun _ => rfl⟩

theorem Still.trans {l'' : Link} (h : l.Still l') (h' : l'.Still l'') : l.Still l'' where
  home := h'.home.trans h.home
  table := fun side => (h'.table side).trans (h.table side)

theorem Still.echo? (still : l.Still l') : l'.echo? = l.echo? := by
  funext d
  have owner : l'.owner d.dst = l.owner d.dst := by
    unfold Link.owner
    rw [still.home]
  simp only [Link.echo?, Stack.echo?, Table.get?, owner, still.table]

theorem Still.unrest (still : l.Still l') (side : Side) :
    (l'.host side).stack.unrest = (l.host side).stack.unrest :=
  Stack.unrest_kept (still.table side)

theorem Becomes.willing (willing : l.Willing) (mine : k.Willing) (h : l.Becomes side k l') :
    l'.Willing := by
  apply willing_iff.mpr
  intro other
  by_cases same : other = side
  · subst same
    rw [h.here]
    exact mine
  · rw [h.other other same]
    exact willing_iff.mp willing other

theorem Becomes.still (same : k.table.connections = (l.host side).stack.table.connections)
    (h : l.Becomes side k l') : l.Still l' where
  home := h.home
  table := by
    intro other
    by_cases mine : other = side
    · subst mine
      rw [h.here]
      exact same
    · rw [h.other other mine]

theorem Becomes.unrest (h : l.Becomes side k l') :
    l'.unrest + (l.host side).stack.unrest
      = l.unrest + k.unrest + (k.log.map Datagram.unrest).sum := by
  have here : (l'.host side).stack.unrest = k.unrest := by
    rw [h.here]
    rfl
  have sum : (l'.flight.map Datagram.unrest).sum
      = (l.flight.map Datagram.unrest).sum + (k.log.map Datagram.unrest).sum := by
    rw [h.flight, List.map_append, List.sum_append]
  unfold Link.unrest
  cases side with
  | near =>
    have other : l'.far.stack = l.far.stack := h.other .far (by decide)
    simp only [host] at here ⊢
    rw [other]
    omega
  | far =>
    have other : l'.near.stack = l.near.stack := h.other .near (by decide)
    simp only [host] at here ⊢
    rw [other]
    omega

structure Reliable (l : Link) : Prop where
  ready : l.Ready
  willing : l.Willing

theorem deliver_reliable (reliable : l.Reliable) (i : Nat) (now : Instant) :
    (l.deliver i now).Reliable := by
  cases next : l.next? i with
  | none =>
    rw [deliver_empty (next?_none.mp next)]
    exact reliable
  | some d =>
    have becomes := deliver_becomes reliable.ready next now
    have mine := willing_iff.mp reliable.willing (l.owner d.dst)
    have remains : (l.without i).Willing := reliable.willing
    refine ⟨turn_ready reliable.ready (.delivery i now), becomes.willing remains ?_⟩
    rcases Host.handle_stack (l.host (l.owner d.dst)) (.ingress d.octets d.src d.dst) now 0 with
      same | ⟨_, _, ends⟩
    · rw [same]
      exact mine
    · exact Stack.ingress_willing mine ends

theorem after_reliable (reliable : l.Reliable) (order : Nat → Nat) (clock : Nat → Instant) (n : Nat) :
    (l.after order clock n).Reliable := by
  induction n generalizing l order clock with
  | zero => exact reliable
  | succ n ih => exact ih (deliver_reliable reliable _ _) _ _

theorem deliver_echoed (reliable : l.Reliable) (next : l.next? i = some d)
    (echo : l.echo? d = some e) (now : Instant) :
    l.Still (l.deliver i now) ∧ (l.deliver i now).flight = (l.without i).flight ++ [e] := by
  have becomes := deliver_becomes reliable.ready next now
  have ready := reliable.ready (l.owner d.dst)
  obtain ⟨k, ends⟩ := Stack.ingress_taken echo now 0
  obtain ⟨table, log⟩ := Stack.ingress_echoed ready.proper
    (willing_iff.mp reliable.willing (l.owner d.dst)) echo ends
  rw [Host.handle_ends ends] at becomes
  rw [ready.silent, List.nil_append] at log
  have still : (l.without i).Still (l.deliver i now) := becomes.still table
  exact ⟨⟨still.home, still.table⟩, by rw [becomes.flight, log]⟩

theorem next?_sum (next : l.next? i = some d) (f : Datagram → Nat) :
    (l.flight.map f).sum = ((l.without i).flight.map f).sum + f d := by
  obtain ⟨before, behind, flight, remains⟩ := next?_split next
  simp only [flight, remains, List.map_append, List.map_cons, List.sum_append, List.sum_cons]
  omega

theorem echoed_unrest (reliable : l.Reliable) (next : l.next? i = some d)
    (echo : l.echo? d = some e) (now : Instant) : (l.deliver i now).unrest ≤ l.unrest := by
  obtain ⟨s, c, t, reads, _, _, plain, _, sent, posted⟩ := Stack.echo?_iff.mp echo
  obtain ⟨still, flight⟩ := deliver_echoed reliable next echo now
  have before : d.unrest = 2 := by
    rw [Datagram.unrest, Datagram.read?_iff.mpr reads]
    exact Segment.unrest_plain plain
  have behind := Datagram.unrest_posted (Connection.segment_formed sent).1 posted
  rw [Segment.unrest_plain (Connection.control_ack_plain sent)] at behind
  have sum := next?_sum next Datagram.unrest
  have near : (l.deliver i now).near.stack.unrest = l.near.stack.unrest := still.unrest .near
  have far : (l.deliver i now).far.stack.unrest = l.far.stack.unrest := still.unrest .far
  simp only [unrest, near, far, flight, List.map_append, List.map_cons, List.map_nil,
    List.sum_append, List.sum_cons, List.sum_nil]
  omega

/-- Any other datagram leaves less unrest than there was. -/
theorem deliver_calms (reliable : l.Reliable) (next : l.next? i = some d)
    (final : l.echo? d = none) (now : Instant) : (l.deliver i now).unrest < l.unrest := by
  have becomes := (deliver_becomes reliable.ready next now).unrest
  have ready := reliable.ready (l.owner d.dst)
  have taken : l.unrest = (l.without i).unrest + d.unrest := by
    have sum := next?_sum next Datagram.unrest
    have near : (l.without i).near = l.near := rfl
    have far : (l.without i).far = l.far := rfl
    rw [unrest, unrest, near, far]
    omega
  have mine : (l.without i).host (l.owner d.dst) = l.host (l.owner d.dst) := rfl
  rw [mine] at becomes
  rcases Host.handle_stack (l.host (l.owner d.dst)) (.ingress d.octets d.src d.dst) now 0 with
    same | ⟨_, _, ends⟩
  · rw [same, ready.silent] at becomes
    have pos : 0 < d.unrest := Datagram.unrest_pos
    simp only [List.map_nil, List.sum_nil] at becomes
    omega
  · obtain ⟨ds, log, less⟩ := Stack.ingress_calms ready.proper
      (willing_iff.mp reliable.willing (l.owner d.dst)) final ends
    rw [ready.silent, List.nil_append] at log
    rw [log] at becomes
    omega

end Link
end TcpEngine

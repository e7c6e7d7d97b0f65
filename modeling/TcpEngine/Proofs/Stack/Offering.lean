import Mathlib.Data.List.Forall2
import TcpEngine.Proofs.Stack.Among

/-!
Stacks below which the network takes every datagram. What such a stack emits is handed over, all of it
and in order, so what was handed over tells how a segment was answered.
-/
namespace TcpEngine

namespace Outlet

variable {outlet : Outlet} {d : Datagram}

def Willing (outlet : Outlet) : Prop :=
  (∀ verdict ∈ outlet.verdicts, verdict = none) ∧ outlet.outbox.failures = 0

instance (outlet : Outlet) : Decidable outlet.Willing := inferInstanceAs (Decidable (_ ∧ _))

theorem transmit_willing (willing : outlet.Willing) (d : Datagram) :
    (outlet.transmit d).1.Willing ∧
      (outlet.transmit d).1.outbox.datagrams = outlet.outbox.datagrams ++ [d] := by
  obtain ⟨verdicts, box⟩ := outlet
  obtain ⟨none, calm⟩ := willing
  simp only at none calm
  cases verdicts with
  | nil => simp [transmit, Outbox.transmit, Willing, calm]
  | cons verdict rest =>
    have first := none verdict List.mem_cons_self
    subst first
    have later : ∀ verdict ∈ rest, verdict = Option.none :=
      fun verdict member => none verdict (List.mem_cons_of_mem _ member)
    simpa [transmit, Outbox.transmit, Willing, calm] using later

end Outlet

theorem reads_unique {octets : Octets} {src dst : Address} {s s' : Segment}
    (reads : Reads octets src dst s) (reads' : Reads octets src dst s') : s = s' := by
  have first := Event.segment?_ingress reads
  rw [Event.segment?_ingress reads'] at first
  exact (Option.some.inj first).symm

theorem Connection.claims_iff {c : Connection} {s : Segment} :
    c.claims s = true ↔ s.receiver = c.here ∧ (c.foreign.all fun peer => peer = s.sender) = true := by
  simp [claims]

namespace Table

variable {t t' : Table} {s : Segment} {now : Instant} {σ : List Signal} {answers : List Segment}

inductive Passes (t : Table) (s : Segment) (now : Instant) :
    List Signal → Table → List Segment → Prop where
  | unclaimed {answer : Option Segment} (alone : ∀ c, t.get? s.receiver = some c → c.claims s = false)
      (reset : s.resetReply = .ok answer) : Passes t s now [] t answer.toList
  | claimed {t' : Table} {c : Connection} {a : Arrival} {σ : List Signal} (iss : SeqNumber)
      (found : t.get? s.receiver = some c) (claims : c.claims s = true)
      (arrives : (c.arrives s iss now).Ends σ a)
      (table : t'.connections = (t.put a.connection).connections) : Passes t s now σ t' a.answers

theorem arrives_passes (h : (t.arrives s now).Ends σ (t', answers)) :
    Passes t s now σ t' answers := by
  unfold arrives at h
  split at h
  · rename_i missing
    simp only [Act.ends_bind, Act.ends_lift, Act.ends_pure, Prod.mk.injEq] at h
    obtain ⟨_, answer, _, ⟨rfl, reset⟩, ⟨rfl, rfl, rfl⟩, rfl⟩ := h
    refine .unclaimed ?_ reset
    intro c found
    cases missing.symm.trans found
  · rename_i c found
    have here := (get?_some found).2
    split at h
    · rename_i peer
      simp only [Act.ends_bind, Act.ends_pure, Prod.mk.injEq] at h
      obtain ⟨σ₁, a, _, ends, ⟨rfl, rfl, rfl⟩, rfl⟩ := h
      rw [List.append_nil]
      refine .claimed _ found (Connection.claims_iff.mpr ⟨here.symm, peer⟩) ends ?_
      split <;> rfl
    · rename_i stranger
      simp only [Act.ends_bind, Act.ends_lift, Act.ends_pure, Prod.mk.injEq] at h
      obtain ⟨_, answer, _, ⟨rfl, reset⟩, ⟨rfl, rfl, rfl⟩, rfl⟩ := h
      refine .unclaimed ?_ reset
      intro d found'
      rw [found, Option.some.injEq] at found'
      subst found'
      rw [← Bool.not_eq_true, Connection.claims_iff]
      exact fun claims => stranger claims.2

theorem arrives_claimed {c : Connection} {a : Arrival} (found : t.get? s.receiver = some c)
    (claims : c.claims s = true)
    (arrives : (c.arrives s (t.nextSeq s.receiver s.sender now) now).Ends σ a) :
    ∃ t', (t.arrives s now).Ends σ (t', a.answers) ∧
      t'.connections = (t.put a.connection).connections := by
  refine ⟨(if c.takesUp s then t.draw else t).put a.connection, ?_, by split <;> rfl⟩
  unfold Table.arrives
  rw [found]
  dsimp only
  rw [if_pos (Connection.claims_iff.mp claims).2]
  exact arrives.silently rfl

end Table

namespace Stack

variable {k k' : Stack} {here : Endpoint} {s : Segment} {segments : List Segment} {now : Instant}
  {call : CallId} {σ : List Signal} {answer : Answer} {c : Connection}

def Willing (k : Stack) : Prop := k.outlet.Willing

instance (k : Stack) : Decidable k.Willing := inferInstanceAs (Decidable k.outlet.Willing)

abbrev Post : List Segment → List Datagram → Prop := List.Forall₂ fun s d => datagram s = .ok d

theorem emitAll_willing (willing : k.Willing) (h : k.emitAll segments = .ok k') :
    k'.Willing ∧ k'.table = k.table ∧ ∃ ds, Post segments ds ∧ k'.log = k.log ++ ds := by
  induction segments generalizing k with
  | nil =>
    cases h
    exact ⟨willing, rfl, [], .nil, (List.append_nil _).symm⟩
  | cons s rest ih =>
    simp only [emitAll, emit, except_bind_ok, except_pure_ok] at h
    obtain ⟨k₁, ⟨d, posted, rfl⟩, h⟩ := h
    obtain ⟨willing₁, grown⟩ := Outlet.transmit_willing willing d
    obtain ⟨willing', table, ds, post, log⟩ := ih (k := { k with outlet := (k.outlet.transmit d).1 }) willing₁ h
    refine ⟨willing', table, d :: ds, .cons posted post, ?_⟩
    rw [log]
    change (k.outlet.transmit d).1.outbox.datagrams ++ ds = _
    rw [grown, List.append_assoc]
    rfl

theorem ingress_parts {octets : Octets} {src dst : Address}
    (h : (k.handle (.ingress octets src dst) now call).Ends σ (k', answer)) :
    (σ = [] ∧ k' = k ∧ ∀ s, ¬ Reads octets src dst s) ∨
      ∃ s table answers, Reads octets src dst s ∧ k.table.Passes s now σ table answers ∧
        emitAll { k with table } answers = .ok k' := by
  simp only [handle, Act.ends_bind, Act.ends_pure, Prod.mk.injEq] at h
  obtain ⟨σ₁, ⟨_, result⟩, _, h, ⟨rfl, rfl, _⟩, rfl⟩ := h
  rw [List.append_nil]
  unfold ingress at h
  split at h
  · rename_i bad
    obtain ⟨rfl, same⟩ := Act.ends_pure.mp h
    obtain ⟨rfl, _⟩ := Prod.mk.inj same
    refine Or.inl ⟨rfl, rfl, ?_⟩
    rintro s ⟨_, _, whole, _⟩
    cases bad.symm.trans whole
  · rename_i p whole
    rw [Act.ends_bind] at h
    obtain ⟨_, read, τ, lifted, h, rfl⟩ := h
    obtain ⟨rfl, read⟩ := Act.ends_lift.mp lifted
    rw [List.nil_append]
    split at h
    · obtain ⟨rfl, same⟩ := Act.ends_pure.mp h
      obtain ⟨rfl, _⟩ := Prod.mk.inj same
      refine Or.inl ⟨rfl, rfl, ?_⟩
      rintro s ⟨_, _, whole', read', _⟩
      cases whole.symm.trans whole'
      cases read.symm.trans read'
    · rename_i header
      simp only [Act.ends_bind, Act.ends_lift, Act.ends_pure, Prod.mk.injEq] at h
      obtain ⟨τ₁, ⟨table, answers⟩, _, arrives, ⟨_, after, _, ⟨rfl, emitted⟩, ⟨rfl, rfl, _⟩, rfl⟩,
        rfl⟩ := h
      rw [List.append_nil, List.append_nil]
      exact Or.inr ⟨_, table, answers, ⟨p, header, whole, read, rfl⟩, Table.arrives_passes arrives,
        emitted⟩

theorem ingress_ends {octets : Octets} {src dst : Address} {table : Table}
    (reads : Reads octets src dst s) (arrives : (k.table.arrives s now).Ends σ (table, segments))
    (emitted : emitAll { k with table } segments = .ok k') :
    (k.handle (.ingress octets src dst) now call).Ends σ (k', .accepted) := by
  obtain ⟨p, header, whole, read, rfl⟩ := reads
  simp only [handle, ingress, whole, read, Act.lift_bind]
  refine Act.Ends.silently (a := (k', (.ok () : Except WireError Unit))) ?_ rfl
  refine arrives.silently ?_
  rw [emitted, Act.lift_bind]
  rfl

/-- Over a network that takes everything, all answers of a connection to a segment are handed over. -/
theorem ingress_offers {octets : Octets} {src dst : Address} (willing : k.Willing)
    (reads : Reads octets src dst s) (found : k.table.get? s.receiver = some c)
    (claims : c.claims s = true)
    (h : (k.handle (.ingress octets src dst) now call).Ends σ (k', answer)) :
    ∃ iss a ds, (c.arrives s iss now).Ends σ a ∧
      k'.table.connections = (k.table.put a.connection).connections ∧ Post a.answers ds ∧
      k'.log = k.log ++ ds := by
  rcases ingress_parts h with ⟨_, _, unread⟩ | ⟨s', table, answers, reads', passes, emitted⟩
  · exact absurd reads (unread s)
  · obtain rfl := reads_unique reads reads'
    obtain ⟨_, same, ds, post, log⟩ := emitAll_willing (k := { k with table }) willing emitted
    cases passes with
    | unclaimed alone =>
      rw [alone c found] at claims
      cases claims
    | @claimed _ d a _ iss found' _ arrives put =>
      rw [found, Option.some.injEq] at found'
      subst found'
      refine ⟨iss, a, ds, arrives, ?_, post, log⟩
      rw [same]
      exact put

theorem control_offers {flags : List Flag} (willing : k.Willing) (known : c.foreign.isSome = true)
    (emitted : k.emitAll (c.control flags).toList = .ok k') :
    ∃ s d, c.control flags = some s ∧ datagram s = .ok d ∧ k'.log = k.log ++ [d] := by
  obtain ⟨_, _, ds, post, log⟩ := emitAll_willing willing emitted
  obtain ⟨foreign, same⟩ := Option.isSome_iff_exists.mp known
  cases sent : c.control flags with
  | none =>
    rw [Connection.control, Connection.segment, same] at sent
    cases sent
  | some s =>
    rw [sent] at post
    cases post with
    | cons posted rest =>
      cases rest
      exact ⟨s, _, rfl, posted, log⟩

/-- Over a network that takes everything, the peer is told when a receive call opens the window. -/
theorem receive_offers {capacity : Nat} (willing : k.Willing)
    (found : k.table.get? here = some c) (known : c.state.isSynchronized = true → c.foreign.isSome = true)
    (h : (k.handle (.receive here capacity) now call).Ends σ (k', answer)) :
    k'.table = k.table ∨ ∃ c' τ,
      (Connection.deliver { c with reception := some ⟨capacity, call⟩ }).Ends τ c' ∧
      k'.table.connections = (k.table.put c').connections ∧
      (c.window = 0 → 0 < c'.window → c'.state.isSynchronized = true →
        ∃ s d, c'.control [.ack] = some s ∧ datagram s = .ok d ∧ k'.log = k.log ++ [d]) := by
  simp only [handle, Act.ends_bind, Act.ends_pure, Prod.mk.injEq] at h
  obtain ⟨σ₁, _, _, h, ⟨rfl, rfl, _⟩, rfl⟩ := h
  have refused {error : CallError} (h : (k.refuse call error).Ends σ₁ k') : k'.table = k.table := by
    rw [(refuse_ends.mp h).2]
  unfold receive at h
  rw [found] at h
  dsimp only at h
  split at h
  · exact Or.inl (refused h)
  split at h
  · exact Or.inl (refused h)
  split at h
  · exact Or.inl (refused h)
  split at h
  · obtain ⟨_, rfl⟩ := answer_ends.mp h
    exact Or.inl rfl
  rw [Act.ends_bind] at h
  obtain ⟨τ, c', _, ends, h, _⟩ := h
  right
  refine ⟨c', τ, ends, ?_⟩
  split at h
  · rename_i opens
    obtain ⟨_, emitted⟩ := Act.ends_lift.mp h
    have table := (emitAll_willing (k := k.put c') willing emitted).2.1
    refine ⟨by rw [table]; rfl, fun _ _ live => ?_⟩
    have peer : c'.foreign = c.foreign ∧ c'.state = c.state := by
      rcases Connection.deliver_ends ends with ⟨_, rfl, _⟩ | ⟨_, _, _, _, rfl⟩ <;> exact ⟨rfl, rfl⟩
    rw [peer.2] at live
    exact control_offers (k := k.put c') willing (by rw [peer.1]; exact known live) emitted
  · rename_i shut
    obtain ⟨_, rfl⟩ := Act.ends_pure.mp h
    exact ⟨rfl, fun closed opens live => absurd ⟨closed, opens, live⟩ shut⟩

end Stack
end TcpEngine

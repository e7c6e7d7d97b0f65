import TcpEngine.Proofs.Act
import TcpEngine.Stack

/-!
What a stack hands to the network. The outbox is the log of all datagrams ever handed over, as long
as nobody takes them out.
-/
namespace TcpEngine

def Holds (d : Datagram) (s : Option Segment) : Prop :=
  ∃ sent, s = some sent ∧ Stack.datagram sent = .ok d

namespace Stack

def log (k : Stack) : List Datagram := k.outlet.outbox.datagrams

end Stack

namespace Outbox

theorem transmit_log (box : Outbox) (d : Datagram) :
    (box.transmit d).1.datagrams = box.datagrams ++ (if (box.transmit d).2.isOk then [d] else []) := by
  unfold transmit
  split
  · exact (List.append_nil _).symm
  · rfl

end Outbox

namespace Outlet

theorem transmit_log (outlet : Outlet) (d : Datagram) :
    (outlet.transmit d).1.outbox.datagrams
      = outlet.outbox.datagrams ++ (if (outlet.transmit d).2.isOk then [d] else []) := by
  unfold transmit
  split
  · exact (List.append_nil _).symm
  · exact outlet.outbox.transmit_log d
  · exact outlet.outbox.transmit_log d

theorem transmitWithin_log (outlet : Outlet) (d : Datagram) (attempts : Nat) :
    (outlet.transmitWithin d attempts).1.outbox.datagrams = outlet.outbox.datagrams
      ++ (if (outlet.transmitWithin d attempts).2.isOk then [d] else []) := by
  induction attempts generalizing outlet with
  | zero => exact outlet.transmit_log d
  | succ attempts ih =>
    have first := outlet.transmit_log d
    unfold transmitWithin
    split
    · rename_i tried sent
      rw [sent] at first
      exact first
    · rename_i tried refusal sent
      rw [sent] at first
      have kept : tried.outbox.datagrams = outlet.outbox.datagrams := by
        rw [first]
        exact List.append_nil _
      rw [ih, kept]

end Outlet

namespace Stack

theorem transmit_ok {k k' : Stack} {s : Segment} (h : k.transmit s = .ok (k', .ok ())) :
    k'.table = k.table ∧ ∃ d, datagram s = .ok d ∧ k'.log = k.log ++ [d] := by
  simp only [transmit, except_bind_ok, except_pure_ok, Prod.mk.injEq] at h
  obtain ⟨d, posted, rfl, sent⟩ := h
  refine ⟨rfl, d, posted, ?_⟩
  simp only [log, Outlet.transmitWithin_log, ← sent]
  rfl

theorem transmit_error {k k' : Stack} {s : Segment} {e : DeliveryError}
    (h : k.transmit s = .ok (k', .error e)) : k'.table = k.table ∧ k'.log = k.log := by
  simp only [transmit, except_bind_ok, except_pure_ok, Prod.mk.injEq] at h
  obtain ⟨d, posted, rfl, sent⟩ := h
  refine ⟨rfl, ?_⟩
  simp only [log, Outlet.transmitWithin_log, ← sent]
  exact List.append_nil _

theorem transmit_ends {k k' : Stack} {s : Segment} {σ : List Signal}
    {next : Stack × Except DeliveryError Unit → Act Stack}
    (h : (liftM (k.transmit s) >>= next).Ends σ k') :
    (∃ tried d, tried.table = k.table ∧ datagram s = .ok d ∧ tried.log = k.log ++ [d] ∧
        (next (tried, .ok ())).Ends σ k') ∨
      ∃ tried e, tried.table = k.table ∧ tried.log = k.log ∧
        (next (tried, .error e)).Ends σ k' := by
  rw [Act.ends_bind] at h
  obtain ⟨_, ⟨tried, result⟩, τ, lifted, h, rfl⟩ := h
  obtain ⟨rfl, sent⟩ := Act.ends_lift.mp lifted
  rw [List.nil_append]
  cases result with
  | ok =>
    obtain ⟨table, d, posted, log⟩ := transmit_ok sent
    exact Or.inl ⟨tried, d, table, posted, log, h⟩
  | error e =>
    obtain ⟨table, log⟩ := transmit_error sent
    exact Or.inr ⟨tried, e, table, log, h⟩

theorem emit_ok {k k' : Stack} {s : Segment} (h : k.emit s = .ok k') :
    k'.table = k.table ∧ ∃ ds, k'.log = k.log ++ ds ∧ ∀ d ∈ ds, datagram s = .ok d := by
  simp only [emit, except_bind_ok, except_pure_ok] at h
  obtain ⟨d, posted, rfl⟩ := h
  refine ⟨rfl, _, Outlet.transmit_log _ d, ?_⟩
  intro d' member
  split at member
  · rw [List.mem_singleton.mp member]
    exact posted
  · exact absurd member List.not_mem_nil

theorem emitAll_ok {k k' : Stack} {segments : List Segment} (h : k.emitAll segments = .ok k') :
    k'.table = k.table ∧ ∃ ds, k'.log = k.log ++ ds ∧
      ∀ d ∈ ds, ∃ s ∈ segments, datagram s = .ok d := by
  induction segments generalizing k with
  | nil =>
    cases h
    exact ⟨rfl, [], (List.append_nil _).symm, fun _ member => absurd member List.not_mem_nil⟩
  | cons s rest ih =>
    simp only [emitAll, except_bind_ok] at h
    obtain ⟨k₁, first, h⟩ := h
    obtain ⟨table₁, ds₁, log₁, held₁⟩ := emit_ok first
    obtain ⟨table, ds, log, held⟩ := ih h
    refine ⟨table.trans table₁, ds₁ ++ ds, by rw [log, log₁, List.append_assoc], ?_⟩
    intro d member
    rcases List.mem_append.mp member with early | late
    · exact ⟨s, List.mem_cons_self, held₁ d early⟩
    · obtain ⟨later, there, posted⟩ := held d late
      exact ⟨later, List.mem_cons_of_mem _ there, posted⟩

theorem emitAll_optional {k k' : Stack} {s : Option Segment}
    (h : k.emitAll s.toList = .ok k') :
    k'.table = k.table ∧ ∃ ds, k'.log = k.log ++ ds ∧ ∀ d ∈ ds, Holds d s := by
  obtain ⟨table, ds, log, held⟩ := emitAll_ok h
  refine ⟨table, ds, log, ?_⟩
  intro d member
  obtain ⟨sent, there, posted⟩ := held d member
  exact ⟨sent, Option.mem_toList.mp there, posted⟩

end Stack
end TcpEngine

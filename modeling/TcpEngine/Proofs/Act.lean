import Mathlib.Control.Monad.Basic
import TcpEngine.Call

/-!
Acts that come to their end. Each way to build an act is taken apart by one lemma, so that what is
known of a composed act is found by rewriting.
-/
namespace TcpEngine

namespace Act

/-- The act comes to its end with these signals and this result. -/
def Ends (act : Act α) (signals : List Signal) (a : α) : Prop := act = ⟨signals, .ok a⟩

instance [DecidableEq α] (act : Act α) (signals : List Signal) (a : α) :
    Decidable (act.Ends signals a) :=
  decidable_of_iff (act.signals = signals ∧ act.outcome = .ok a) (by rw [Ends]; cases act; simp)

theorem ends_pure {a b : α} {σ : List Signal} :
    (Pure.pure a : Act α).Ends σ b ↔ σ = [] ∧ b = a := by
  change (⟨[], .ok a⟩ : Act α) = ⟨σ, .ok b⟩ ↔ _
  rw [Act.mk.injEq, Except.ok.injEq, eq_comm, @eq_comm _ a]

theorem ends_bind {act : Act α} {next : α → Act β} {σ : List Signal} {b : β} :
    (act >>= next).Ends σ b ↔
      ∃ σ₁ a σ₂, act.Ends σ₁ a ∧ (next a).Ends σ₂ b ∧ σ = σ₁ ++ σ₂ := by
  obtain ⟨first, outcome⟩ := act
  cases outcome with
  | error fault =>
    rw [Ends, bind_of_fault rfl]
    constructor
    · intro h
      cases h
    · rintro ⟨_, _, _, h, _⟩
      cases h
  | ok a =>
    rw [Ends, bind_of_ok rfl]
    constructor
    · intro h
      cases outcome : next a with
      | mk second last =>
        rw [outcome] at h
        cases h
        exact ⟨first, a, second, rfl, outcome, rfl⟩
    · rintro ⟨_, _, σ₂, h, ends, rfl⟩
      cases h
      rw [ends]

theorem signals_bind (act : Act α) (next : α → Act β) : act.signals ⊆ (act >>= next).signals := by
  cases outcome : act.outcome with
  | error => rw [bind_of_fault outcome]; exact List.Subset.refl _
  | ok => rw [bind_of_ok outcome]; exact List.subset_append_left _ _

theorem Ends.silently {act : Act α} {next : α → Act β} {σ : List Signal} {a : α} {b : β}
    (first : act.Ends σ a) (last : (next a).Ends [] b) : (act >>= next).Ends σ b :=
  ends_bind.mpr ⟨σ, a, [], first, last, (List.append_nil σ).symm⟩

theorem ends_lift {outcome : Except Fault α} {σ : List Signal} {a : α} :
    (liftM outcome : Act α).Ends σ a ↔ σ = [] ∧ outcome = .ok a := by
  change (⟨[], outcome⟩ : Act α) = ⟨σ, .ok a⟩ ↔ _
  rw [Act.mk.injEq, eq_comm]

theorem ends_signal {call : CallId} {reply : Reply} {σ : List Signal} {a : Unit} :
    (signal call reply).Ends σ a ↔ σ = [⟨call, reply⟩] := by
  change (⟨[⟨call, reply⟩], .ok ()⟩ : Act Unit) = ⟨σ, .ok a⟩ ↔ _
  rw [Act.mk.injEq, eq_comm]
  simp

theorem ends_signal? {call : Option CallId} {reply : Reply} {σ : List Signal} {a : Unit} :
    (signal? call reply).Ends σ a ↔ σ = call.toList.map fun call => ⟨call, reply⟩ := by
  cases call with
  | none =>
    change (⟨[], .ok ()⟩ : Act Unit) = ⟨σ, .ok a⟩ ↔ _
    rw [Act.mk.injEq, eq_comm]
    simp
  | some call => exact ends_signal

theorem lift_bind {a : α} {next : α → Act β} :
    (liftM (Except.ok a : Except Fault α) : Act α) >>= next = next a := by
  rw [bind_of_ok rfl]
  rfl

def result (act : Act α) (other : α) : α :=
  match act.outcome with
  | .ok a => a
  | .error _ => other

theorem ends_result {act : Act α} (other : α) (h : act.outcome.isOk = true) :
    act.Ends act.signals (act.result other) := by
  obtain ⟨signals, outcome⟩ := act
  cases outcome with
  | ok => rfl
  | error => cases h

theorem Ends.pair {act : Act (α × β)} {σ : List Signal} {ab : α × β} (h : act.Ends σ ab) :
    act.Ends σ (ab.1, ab.2) :=
  h

theorem Ends.eq_result {act : Act α} {σ : List Signal} {a : α} (h : act.Ends σ a) (other : α) :
    a = act.result other := by
  rw [h]
  rfl

theorem Ends.eq_signals {act : Act α} {σ : List Signal} {a : α} (h : act.Ends σ a) :
    σ = act.signals := by
  rw [h]

def Succeeds (act : Act α) : Prop := ∃ σ a, act.Ends σ a

theorem Succeeds.ends {act : Act α} (h : act.Succeeds) (other : α) :
    act.Ends act.signals (act.result other) := by
  obtain ⟨σ, a, ends⟩ := h
  rw [ends]
  rfl

theorem succeeds_pure (a : α) : Succeeds (Pure.pure a) := ⟨[], a, rfl⟩

theorem succeeds_lift {outcome : Except Fault α} (h : ∃ a, outcome = .ok a) :
    Succeeds (liftM outcome : Act α) := by
  obtain ⟨a, ok⟩ := h
  exact ⟨[], a, ends_lift.mpr ⟨rfl, ok⟩⟩

theorem succeeds_signal (call : CallId) (reply : Reply) : (signal call reply).Succeeds :=
  ⟨_, (), ends_signal.mpr rfl⟩

theorem succeeds_signal? (call : Option CallId) (reply : Reply) : (signal? call reply).Succeeds :=
  ⟨_, (), ends_signal?.mpr rfl⟩

theorem succeeds_bind {act : Act α} {next : α → Act β} (first : act.Succeeds)
    (later : ∀ σ a, act.Ends σ a → (next a).Succeeds) : (act >>= next).Succeeds := by
  obtain ⟨σ, a, ends⟩ := first
  obtain ⟨τ, b, ends'⟩ := later σ a ends
  exact ⟨σ ++ τ, b, ends_bind.mpr ⟨σ, a, τ, ends, ends', rfl⟩⟩

theorem succeeds_lift_bind {outcome : Except Fault α} {next : α → Act β} (first : ∃ a, outcome = .ok a)
    (later : ∀ a, outcome = .ok a → (next a).Succeeds) : Succeeds (liftM outcome >>= next) :=
  succeeds_bind (succeeds_lift first) fun _ _ ends => later _ (ends_lift.mp ends).2

end Act

theorem except_bind_ok {first : Except Fault α} {next : α → Except Fault β} {b : β} :
    first >>= next = .ok b ↔ ∃ a, first = .ok a ∧ next a = .ok b := by
  cases first with
  | error fault => simp [bind, Except.bind]
  | ok a => simp [bind, Except.bind]

theorem except_bind_succeeds {first : Except Fault α} {next : α → Except Fault β}
    (h : ∃ a, first = .ok a) (later : ∀ a, first = .ok a → ∃ b, next a = .ok b) :
    ∃ b, first >>= next = .ok b := by
  obtain ⟨a, ok⟩ := h
  obtain ⟨b, ok'⟩ := later a ok
  exact ⟨b, except_bind_ok.mpr ⟨a, ok, ok'⟩⟩

theorem except_pure_ok {a b : α} : (pure a : Except Fault α) = .ok b ↔ b = a := by
  rw [eq_comm]
  exact Except.ok.injEq b a ▸ Iff.rfl

theorem except_map_ok {first : Except Fault α} {f : α → β} {b : β} :
    first.map f = .ok b ↔ ∃ a, first = .ok a ∧ b = f a := by
  cases first with
  | error fault => simp [Except.map]
  | ok a => simp [Except.map, eq_comm]

end TcpEngine

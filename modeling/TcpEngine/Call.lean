import TcpEngine.Error
import TcpEngine.Fault
import TcpEngine.Octets

/-!
User calls and what becomes of them. A call that finishes later is known by its name; the engine
signals its reply. An act is a computation that signals calls on its way and may be stopped by a
fault: what was signalled before the fault stays signalled.
-/
namespace TcpEngine

/-- The name under which a call is answered. -/
abbrev CallId := Nat

inductive Reply
  | done
  | received (octets : Octets)
  | failed (error : CallError)
deriving DecidableEq, Repr

structure Signal where
  call : CallId
  reply : Reply
deriving DecidableEq, Repr

structure Act (α : Type) where
  signals : List Signal
  outcome : Except Fault α

namespace Act

def pure (a : α) : Act α := ⟨[], .ok a⟩

def bind (act : Act α) (next : α → Act β) : Act β :=
  match act.outcome with
  | .error fault => ⟨act.signals, .error fault⟩
  | .ok a => ⟨act.signals ++ (next a).signals, (next a).outcome⟩

instance : Monad Act where
  pure := pure
  bind := bind

theorem bind_of_fault {act : Act α} {fault : Fault} (h : act.outcome = .error fault)
    (next : α → Act β) : act >>= next = ⟨act.signals, .error fault⟩ := by
  change act.bind next = _
  simp [bind, h]

theorem bind_of_ok {act : Act α} {a : α} (h : act.outcome = .ok a) (next : α → Act β) :
    act >>= next = ⟨act.signals ++ (next a).signals, (next a).outcome⟩ := by
  change act.bind next = _
  simp [bind, h]

instance : LawfulMonad Act := LawfulMonad.mk' Act
  (by
    rintro α ⟨signals, outcome⟩
    cases outcome <;> simp [Functor.map, bind, pure])
  (by
    intro α β a next
    rw [bind_of_ok rfl]
    rfl)
  (by
    rintro α β γ ⟨signals, outcome⟩ next last
    cases outcome with
    | error fault => rfl
    | ok a =>
      have run (δ : Type) (after : α → Act δ) : (⟨signals, .ok a⟩ : Act α) >>= after
          = ⟨signals ++ (after a).signals, (after a).outcome⟩ := bind_of_ok rfl after
      rw [run, run]
      cases middle : (next a).outcome with
      | error fault => rw [bind_of_fault rfl, bind_of_fault middle]
      | ok b => rw [bind_of_ok rfl, bind_of_ok middle, List.append_assoc])

def ofExcept (outcome : Except Fault α) : Act α := ⟨[], outcome⟩

instance : MonadLift (Except Fault) Act where
  monadLift := ofExcept

def signal (call : CallId) (reply : Reply) : Act Unit := ⟨[⟨call, reply⟩], .ok ()⟩

/-- Signals a call that may have none waiting for it. -/
def signal? (call : Option CallId) (reply : Reply) : Act Unit :=
  match call with
  | some call => signal call reply
  | none => pure ()

end Act

/-- The waiting end of a call: replies not yet looked at, oldest first, and whether somebody still
    holds the other end. -/
structure Waiter where
  arrived : List Reply
  held : Bool
deriving DecidableEq, Repr

namespace Waiter

def fresh : Waiter := ⟨[], true⟩

def push (w : Waiter) (reply : Reply) : Waiter := { w with arrived := w.arrived ++ [reply] }

def abandon (w : Waiter) : Waiter := { w with held := false }

/-- The next reply. A call that nobody can answer any more fails, as its connection is gone; one that
    is still running has none. -/
def poll (w : Waiter) : Option Reply × Waiter :=
  match w.arrived with
  | reply :: rest => (some reply, { w with arrived := rest })
  | [] => (if w.held then none else some (.failed .connectionDoesNotExist), w)

end Waiter
end TcpEngine

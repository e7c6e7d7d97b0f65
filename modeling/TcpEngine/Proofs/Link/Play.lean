import TcpEngine.Link
import TcpEngine.Proofs.Stack.History
import TcpEngine.Proofs.Stack.Posting

/-!
A link that loses nothing: what its hosts have sent is in flight until it is delivered. Any order of the
deliveries is allowed for, and so are all those that keep the order in each direction.
-/
namespace TcpEngine

namespace Stack

variable {k : Stack}

def drained (k : Stack) : Stack := { k with outlet := k.outlet.drain.1 }

theorem drained_proper (proper : k.Proper) : k.drained.Proper := proper.kept rfl

theorem drained_same (silent : k.log = []) : k.drained = k := by
  obtain ⟨table, verdicts, datagrams, failures, attempts⟩ := k
  cases silent
  rfl

end Stack

namespace Host

variable {h : Host} {event : Event} {now : Instant} {call : CallId}

structure Ready (h : Host) : Prop where
  proper : h.stack.Proper
  silent : h.stack.log = []

theorem notify_stack (signals : List Signal) : (signals.foldl notify h).stack = h.stack := by
  induction signals generalizing h with
  | nil => rfl
  | cons s rest ih => exact ih

theorem await_stack : (h.await event call).stack = h.stack := by
  unfold await
  split <;> rfl

/-- A host has the stack that the event has left, or its old one if there was a fault. -/
theorem handle_stack (h : Host) (event : Event) (now : Instant) (call : CallId) :
    (h.handle event now call).1.stack = h.stack ∨ ∃ σ answer,
      (h.stack.handle event now call).Ends σ ((h.handle event now call).1.stack, answer) := by
  unfold handle
  dsimp only
  split
  · rename_i k answer outcome
    refine Or.inr ⟨(h.stack.handle event now call).signals, answer, ?_⟩
    rw [Act.Ends, ← outcome]
  · left
    rw [notify_stack, await_stack]

theorem handle_ends {σ : List Signal} {k : Stack} {answer : Answer}
    (ends : (h.stack.handle event now call).Ends σ (k, answer)) :
    (h.handle event now call).1.stack = k := by
  unfold handle
  rw [ends]

theorem handle_proper (ready : h.Ready) : (h.handle event now call).1.stack.Proper := by
  rcases handle_stack h event now call with same | ⟨_, _, ends⟩
  · rw [same]
    exact ready.proper
  · exact Stack.handle_proper ready.proper ends

end Host

namespace Link

variable {l l' : Link} {side : Side} {event : Event} {now : Instant} {call : CallId} {d : Datagram}
  {i : Nat} {order : Nat → Nat} {clock : Nat → Instant} {k : Stack}

def place (l : Link) (i : Nat) : Nat := if i < l.flight.length then i else 0

def next? (l : Link) (i : Nat) : Option Datagram := l.flight[l.place i]?

def without (l : Link) (i : Nat) : Link := l.lose (l.place i)

/-- Delivers a datagram in flight, if there is any, and puts in flight what is sent in answer. Nothing is
    sent where the host faults. -/
def deliver (l : Link) (i : Nat) (now : Instant) : Link :=
  match l.next? i with
  | none => l
  | some d => ((l.without i).hand d now).1.launch.1

def after (l : Link) (order : Nat → Nat) (clock : Nat → Instant) : Nat → Link
  | 0 => l
  | n + 1 => (l.deliver (order 0) (clock 0)).after (fun i => order (i + 1)) (fun i => clock (i + 1)) n

theorem after_add (m n : Nat) : l.after order clock (m + n)
    = (l.after order clock m).after (fun i => order (m + i)) (fun i => clock (m + i)) n := by
  induction m generalizing l order clock with
  | zero => simp only [after, Nat.zero_add]
  | succ m ih =>
    have shift (i : Nat) : m + i + 1 = m + 1 + i := by omega
    rw [Nat.succ_add, after, ih, after]
    simp only [shift]

theorem after_succ (n : Nat) :
    l.after order clock (n + 1) = (l.after order clock n).deliver (order n) (clock n) := after_add n 1

theorem next?_none : l.next? i = none ↔ l.flight = [] := by
  rw [next?, List.getElem?_eq_none_iff, place]
  split
  · constructor
    · omega
    · intro empty
      simp_all
  · rw [Nat.le_zero, List.length_eq_zero_iff]

theorem next?_split (next : l.next? i = some d) : ∃ before behind,
    l.flight = before ++ d :: behind ∧ (l.without i).flight = before ++ behind := by
  obtain ⟨inside, rfl⟩ := List.getElem?_eq_some_iff.mp next
  refine ⟨l.flight.take (l.place i), l.flight.drop (l.place i + 1), ?_, ?_⟩
  · rw [List.getElem_cons_drop, List.take_append_drop]
  · exact List.eraseIdx_eq_take_drop_succ ..

theorem next?_mem (next : l.next? i = some d) : d ∈ l.flight := List.mem_of_getElem? next

theorem deliver_empty (empty : l.flight = []) : l.deliver i now = l := by
  rw [deliver, next?_none.mpr empty]

theorem after_empty (empty : l.flight = []) (n : Nat) : l.after order clock n = l := by
  induction n generalizing order clock with
  | zero => rfl
  | succ n ih => rw [after, deliver_empty empty, ih]

/-- What goes on at a link: something happens to one of the hosts, or a datagram is delivered. -/
inductive Turn
  | event (side : Side) (event : Event) (now : Instant) (call : CallId)
  | delivery (i : Nat) (now : Instant)
deriving DecidableEq, Repr

def turn (l : Link) : Turn → Link
  | .event side event now call => (l.handle side event now call).1.launch.1
  | .delivery i now => l.deliver i now

def play (l : Link) (turns : List Turn) : Link := turns.foldl turn l

def fresh (config config' : Config) (generator generator' : SeqGenerator) (home : Address) : Link :=
  join (.start (.empty config generator)) (.start (.empty config' generator')) home

def Ready (l : Link) : Prop := ∀ side, (l.host side).Ready

structure Becomes (l : Link) (side : Side) (k : Stack) (l' : Link) : Prop where
  home : l'.home = l.home
  flight : l'.flight = l.flight ++ k.log
  here : (l'.host side).stack = k.drained
  other : ∀ other, other ≠ side → (l'.host other).stack = (l.host other).stack

theorem handle_becomes (ready : l.Ready) : l.Becomes side
    ((l.host side).handle event now call).1.stack (l.handle side event now call).1.launch.1 := by
  have still (other : Side) : (l.host other).sent.1.stack = (l.host other).stack ∧
      (l.host other).sent.2 = [] :=
    ⟨Stack.drained_same (ready other).silent, (ready other).silent⟩
  cases side with
  | near =>
    refine ⟨rfl, ?_, rfl, ?_⟩
    · change l.flight ++ (_ ++ (l.host .far).sent.2) = _
      rw [(still .far).2, List.append_nil]
      rfl
    · intro other apart
      cases other with
      | near => contradiction
      | far => exact (still .far).1
  | far =>
    refine ⟨rfl, ?_, rfl, ?_⟩
    · change l.flight ++ ((l.host .near).sent.2 ++ _) = _
      rw [(still .near).2, List.nil_append]
      rfl
    · intro other apart
      cases other with
      | near => exact (still .near).1
      | far => contradiction

theorem Becomes.ready (ready : l.Ready) (proper : k.Proper) (h : l.Becomes side k l') : l'.Ready := by
  intro other
  by_cases same : other = side
  · subst same
    constructor
    · rw [h.here]
      exact Stack.drained_proper proper
    · rw [h.here]
      rfl
  · constructor
    · rw [h.other other same]
      exact (ready other).proper
    · rw [h.other other same]
      exact (ready other).silent

theorem deliver_becomes (ready : l.Ready) (next : l.next? i = some d) (now : Instant) :
    (l.without i).Becomes (l.owner d.dst)
      ((l.host (l.owner d.dst)).handle (.ingress d.octets d.src d.dst) now 0).1.stack
      (l.deliver i now) := by
  have remains : (l.without i).Ready := ready
  rw [deliver, next]
  exact handle_becomes remains

theorem turn_ready (ready : l.Ready) (turn : Turn) : (l.turn turn).Ready := by
  cases turn with
  | event side event now call =>
    exact (handle_becomes ready).ready ready (Host.handle_proper (ready side))
  | delivery i now =>
    cases next : l.next? i with
    | none =>
      rw [Link.turn, deliver_empty (next?_none.mp next)]
      exact ready
    | some d =>
      have remains : (l.without i).Ready := ready
      exact (deliver_becomes ready next now).ready remains (Host.handle_proper (ready _))

theorem play_ready (ready : l.Ready) (turns : List Turn) : (l.play turns).Ready := by
  induction turns generalizing l with
  | nil => exact ready
  | cons first rest ih => exact ih (turn_ready ready first)

theorem fresh_ready (config config' : Config) (generator generator' : SeqGenerator) (home : Address) :
    (fresh config config' generator generator' home).Ready := by
  intro side
  cases side with
  | near => exact ⟨Stack.proper_empty config generator, rfl⟩
  | far => exact ⟨Stack.proper_empty config' generator', rfl⟩

theorem launch_ready (ready : l.Ready) : l.launch.1 = l := by
  obtain ⟨⟨near, waiters⟩, ⟨far, waiters'⟩, home, flight⟩ := l
  have silent : near.log = [] := (ready .near).silent
  have silent' : far.log = [] := (ready .far).silent
  have sent : (launch ⟨⟨near, waiters⟩, ⟨far, waiters'⟩, home, flight⟩).1
      = ⟨⟨near.drained, waiters⟩, ⟨far.drained, waiters'⟩, home, flight ++ (near.log ++ far.log)⟩ := rfl
  rw [sent, Stack.drained_same silent, Stack.drained_same silent', silent, silent', List.append_nil,
    List.append_nil]

/-- Pumping delivers one datagram after the other, the oldest first, until none is left or the limit is
    reached. -/
theorem pump_after {limit n : Nat} (pumped : l.pump now limit = (l', .ok n)) :
    l' = l.launch.1.after (fun _ => 0) (fun _ => now) n ∧ n ≤ limit ∧ (n < limit → l'.flight = []) := by
  induction limit generalizing l n with
  | zero =>
    rw [pump, Prod.mk.injEq, Except.ok.injEq] at pumped
    obtain ⟨rfl, rfl⟩ := pumped
    exact ⟨rfl, Nat.le_refl _, fun less => absurd less (Nat.lt_irrefl _)⟩
  | succ limit ih =>
    rw [pump] at pumped
    dsimp only at pumped
    split at pumped
    · rename_i empty
      rw [Prod.mk.injEq, Except.ok.injEq] at pumped
      obtain ⟨rfl, rfl⟩ := pumped
      exact ⟨rfl, Nat.zero_le _, fun _ => empty⟩
    · rename_i d rest flight
      split at pumped
      · cases (Prod.mk.inj pumped).2
      · rename_i handed answer taken
        obtain ⟨last, count⟩ := Prod.mk.inj pumped
        obtain ⟨m, found, rfl⟩ := except_map_ok.mp count
        obtain ⟨same, most, empty⟩ := ih (l := handed) (Prod.ext last found)
        have delivered : l.launch.1.deliver 0 now = handed.launch.1 := by
          have next : l.launch.1.next? 0 = some d := by simp [next?, place, flight]
          have remains : l.launch.1.without 0 = { l.launch.1 with flight := rest } := by
            simp [without, lose, place, flight]
          rw [deliver, next]
          dsimp only
          rw [remains, taken]
        refine ⟨?_, by omega, fun less => empty (by omega)⟩
        rw [same, after, delivered]

end Link
end TcpEngine

import TcpEngine.Event

/-!
A host: a stack and the users that wait for their calls. A call is looked at until it has a reply;
one that the stack has lost track of fails.
-/
namespace TcpEngine

structure Host where
  stack : Stack
  /-- The calls without a reply, in the order in which they were made. -/
  waiters : List (CallId × Waiter)
deriving DecidableEq, Repr

def Table.waiting (t : Table) : List CallId := t.connections.flatMap Connection.waiting

namespace Host

def start (stack : Stack) : Host := ⟨stack, []⟩

def notify (h : Host) (s : Signal) : Host :=
  { h with
    waiters := h.waiters.map fun (call, waiter) =>
      (call, if call = s.call then waiter.push s.reply else waiter) }

def await (h : Host) (event : Event) (call : CallId) : Host :=
  if event.isCall then { h with waiters := h.waiters ++ [(call, .fresh)] } else h

/-- Lets an event happen. What the stack signals is known even if it then faults. There the model ends:
    what had been written up to the fault is not followed, and the stack stands as before the event. -/
def handle (h : Host) (event : Event) (now : Instant) (call : CallId) :
    Host × Except Fault Answer :=
  let act := h.stack.handle event now call
  let told := act.signals.foldl notify (h.await event call)
  match act.outcome with
  | .ok (stack, answer) => ({ told with stack }, .ok answer)
  | .error fault => (told, .error fault)

def forget (h : Host) (call : CallId) : Host × Bool :=
  ({ h with waiters := h.waiters.filter fun waiter => waiter.1 ≠ call },
    h.waiters.any fun waiter => waiter.1 = call)

/-- Looks at all calls, given those that may still be answered. -/
def collect (answerable : List CallId) :
    List (CallId × Waiter) → List (CallId × Reply) × List (CallId × Waiter)
  | [] => ([], [])
  | (call, waiter) :: rest =>
    let found := collect answerable rest
    let waiter := if call ∈ answerable then waiter else waiter.abandon
    match waiter.poll with
    | (some reply, _) => ((call, reply) :: found.1, found.2)
    | (none, waiter) => (found.1, (call, waiter) :: found.2)

def replies (h : Host) : Host × List (CallId × Reply) :=
  let found := collect h.stack.table.waiting h.waiters
  ({ h with waiters := found.2 }, found.1)

def lastReplies (h : Host) : List (CallId × Reply) := (collect [] h.waiters).1

def sent (h : Host) : Host × List Datagram :=
  let drained := h.stack.outlet.drain
  ({ h with stack := { h.stack with outlet := drained.1 } }, drained.2)

end Host
end TcpEngine

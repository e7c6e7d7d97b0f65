import TcpEngine.Stack

/-!
Events: everything that can happen to a stack, as one type. A history of a stack is a list of events
with the time of each.
-/
namespace TcpEngine

inductive Event
  | bind (here : Endpoint)
  | remove (here : Endpoint)
  | openConnection (here : Endpoint) (opening : Opening) (timeout : Option Duration)
  | send (here : Endpoint) (text : Octets)
  | receive (here : Endpoint) (capacity : Nat)
  | close (here : Endpoint)
  | abort (here : Endpoint)
  | ingress (octets : Octets) (src dst : Address)
  | sweep
  /-- The network settles what it will say to the next datagrams. -/
  | verdicts (verdicts : List Verdict)
deriving DecidableEq, Repr

def Event.isCall : Event → Bool
  | .openConnection .. | .send .. | .receive .. | .close .. => true
  | _ => false

/-- What a stack says to an event at once. A call is always accepted: its reply is a signal. -/
inductive Answer
  | accepted
  | refused (error : CallError)
  | dropped (error : WireError)
deriving DecidableEq, Repr

namespace Answer

def ofCall : Except CallError Unit → Answer
  | .ok () => accepted
  | .error e => refused e

def ofWire : Except WireError Unit → Answer
  | .ok () => accepted
  | .error e => dropped e

end Answer

namespace Stack

def orRefuse (k : Stack) : Except CallError Stack → Stack × Answer
  | .ok changed => (changed, .accepted)
  | .error e => (k, .refused e)

/-- What happens to a stack by an event. If the event is a call, `call` is its name. -/
def handle (k : Stack) (event : Event) (now : Instant) (call : CallId) : Act (Stack × Answer) :=
  match event with
  | .bind here => return k.orRefuse (k.bind here)
  | .remove here => return k.orRefuse (k.remove here)
  | .openConnection here opening timeout => do
    return (← k.openConnection here opening timeout now call, .accepted)
  | .send here text => do return (← k.send here text now call, .accepted)
  | .receive here capacity => do return (← k.receive here capacity call, .accepted)
  | .close here => do return (← k.close here now call, .accepted)
  | .abort here => do
    let (k, done) ← k.abort here
    return (k, .ofCall done)
  | .ingress octets src dst => do
    let (k, taken) ← k.ingress octets src dst now
    return (k, .ofWire taken)
  | .sweep => do return (← k.sweep now, .accepted)
  | .verdicts verdicts => return ({ k with outlet := { k.outlet with verdicts } }, .accepted)

end Stack
end TcpEngine

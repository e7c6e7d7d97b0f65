import TcpEngine.Link
import TcpEngine.Proofs.Exchange.Arrivals
import TcpEngine.Proofs.Exchange.Calls
import TcpEngine.Proofs.Stack.Single

/-!
Exchanges: two stacks with one connection each, and a network between them that may deliver whatever
was ever sent, as often as it likes and in any order, or never. What the users of both stacks see is
written down beside them.
-/
namespace TcpEngine

/-- What was heard of the other side when the connection was last synchronized: the receive variables,
    and all text taken in. -/
structure Account where
  receive : ReceiveVars
  text : Octets
deriving DecidableEq, Repr

/-- A segment whose call was done, and the number that its incarnation started from. -/
structure Completion where
  initial : SeqNumber
  entry : Unacked
deriving DecidableEq, Repr

structure Party where
  stack : Stack
  here : Endpoint
  /-- The text of all send calls whose segment was handed to the network. -/
  sent : Octets
  /-- The text that receive calls were answered with. -/
  received : Octets
  /-- How often the connection has left CLOSED or LISTEN for a handshake. -/
  incarnations : Nat
  completed : List Completion
  account : Option Account
  /-- An active opening was tried since the connection was last synchronized. -/
  reopened : Bool
deriving DecidableEq, Repr

def Unacked.isDone (e : Unacked) (σ : List Signal) : Bool :=
  e.call.any fun call => Signal.tellsDone call ∈ σ

def Event.asks : Event → Bool
  | .openConnection _ (.active (some _)) _ => true
  | _ => false

namespace Party

def start (here : Endpoint) (config : Config) (generator : SeqGenerator) : Party where
  stack := ⟨⟨[.bound here config], generator, config⟩, .empty⟩
  here := here
  sent := []
  received := []
  incarnations := 0
  completed := []
  account := none
  reopened := false

theorem bind_start (here : Endpoint) (config : Config) (generator : SeqGenerator) :
    (Stack.empty config generator).bind here = .ok (start here config generator).stack := rfl

def connection? (p : Party) : Option Connection := p.stack.table.get? p.here

def observe (p : Party) (event : Event) (σ : List Signal) (k : Stack) (c c' : Connection) : Party where
  stack := k
  here := p.here
  sent := p.sent ++ if k.log = p.stack.log then [] else event.text
  received := p.received ++ handed σ
  incarnations := if c.Free ∧ ¬ c'.Free then p.incarnations + 1 else p.incarnations
  completed := p.completed ++ (c.queue.filter (·.isDone σ)).map (⟨c.send.initial, ·⟩)
  account :=
    if c'.state.isSynchronized then
      some ⟨c'.receive, p.received ++ handed σ ++ c'.buffer.toList⟩
    else p.account
  reopened := if c'.state.isSynchronized then false else p.reopened || event.asks

def handle (p : Party) (event : Event) (now : Instant) (call : CallId) : Except Fault Party :=
  let act := p.stack.handle event now call
  act.outcome.map fun (k, _) =>
    match p.connection?, k.table.get? p.here with
    | some c, some c' => p.observe event act.signals k c c'
    | _, _ => { p with stack := k }

end Party

/-- Two parties, and how many deeds there were. A call is named by the number of deeds before it. -/
structure Exchange where
  near : Party
  far : Party
  count : Nat
deriving DecidableEq, Repr

def Side.other : Side → Side
  | .near => .far
  | .far => .near

inductive Action
  /-- The user opens the connection, towards the other side or without naming a peer. -/
  | openConnection (active named : Bool) (timeout : Option Duration)
  | send (text : Octets)
  | receive (capacity : Nat)
  | close
  | abort
  | sweep
  | verdicts (verdicts : List Verdict)
  /-- A datagram arrives that was sent by one of the sides. -/
  | deliver (source : Side) (place : Nat)
deriving DecidableEq, Repr

structure Deed where
  side : Side
  action : Action
  now : Instant
deriving DecidableEq, Repr

namespace Exchange

def start (here there : Endpoint) (config config' : Config) (generator generator' : SeqGenerator) :
    Exchange :=
  ⟨.start here config generator, .start there config' generator', 0⟩

def party (x : Exchange) : Side → Party
  | .near => x.near
  | .far => x.far

def event? (x : Exchange) (side : Side) : Action → Option Event
  | .openConnection active named timeout =>
    let peer := if named then some (x.party side.other).here else none
    some (.openConnection (x.party side).here (if active then .active peer else .passive peer) timeout)
  | .send text => some (.send (x.party side).here text)
  | .receive capacity => some (.receive (x.party side).here capacity)
  | .close => some (.close (x.party side).here)
  | .abort => some (.abort (x.party side).here)
  | .sweep => some .sweep
  | .verdicts verdicts => some (.verdicts verdicts)
  | .deliver source place =>
    (x.party source).stack.log[place]?.map fun d => .ingress d.octets d.src d.dst

def setParty (x : Exchange) (p : Party) : Side → Exchange
  | .near => { x with near := p }
  | .far => { x with far := p }

def act (x : Exchange) (deed : Deed) : Except Fault Exchange :=
  match x.event? deed.side deed.action with
  | none => .ok { x with count := x.count + 1 }
  | some event => do
    let p ← (x.party deed.side).handle event deed.now x.count
    return { x.setParty p deed.side with count := x.count + 1 }

def run (x : Exchange) : List Deed → Except Fault Exchange
  | [] => .ok x
  | deed :: rest => do (← x.act deed).run rest

def clientServer : Exchange :=
  start ⟨⟨10, 0, 0, 1⟩, 49152⟩ ⟨⟨10, 0, 0, 2⟩, 80⟩ { receiveWindow := 8 } { receiveWindow := 8 }
    (.ofKey 1 2) (.ofKey 3 4)

def handshake : List Deed :=
  [⟨.far, .openConnection false false none, .start⟩,
   ⟨.near, .openConnection true true none, .start⟩,
   ⟨.far, .deliver .near 0, .start⟩,
   ⟨.near, .deliver .far 0, .start⟩,
   ⟨.far, .deliver .near 1, .start⟩]

end Exchange
end TcpEngine

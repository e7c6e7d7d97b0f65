import TcpEngine.Connection.Arrival
import TcpEngine.Connection.Timer
import TcpEngine.InitialSeq

/-!
The table of connections, in the order of their endpoints, with the settings and the generator of
initial sequence numbers that they share. A connection stays in the table until it is removed.
-/
namespace TcpEngine

structure Table where
  connections : List Connection
  generator : SeqGenerator
  config : Config
deriving DecidableEq, Repr

namespace Table

def empty (config : Config) (generator : SeqGenerator) : Table := ⟨[], generator, config⟩

def get? (t : Table) (here : Endpoint) : Option Connection :=
  t.connections.find? fun c => c.here = here

def put (t : Table) (c : Connection) : Table :=
  { t with connections := t.connections.map fun old => if old.here = c.here then c else old }

def insert (c : Connection) : List Connection → List Connection
  | [] => [c]
  | d :: rest => if c.here.rank < d.here.rank then c :: d :: rest else d :: insert c rest

def bind (t : Table) (here : Endpoint) : Except CallError Table :=
  match t.get? here with
  | some _ => .error .addressInUse
  | none => .ok { t with connections := insert (.bound here t.config) t.connections }

def remove (t : Table) (here : Endpoint) : Except CallError (Table × Connection) :=
  match t.get? here with
  | none => .error .connectionDoesNotExist
  | some c =>
    if c.state = .closed then
      .ok ({ t with connections := t.connections.filter fun d => d.here ≠ here }, c)
    else .error .connectionExists

def nextSeq (t : Table) (here there : Endpoint) (now : Instant) : SeqNumber :=
  t.generator.next here there now

def draw (t : Table) : Table := { t with generator := t.generator.advance }

/-- Passes a segment to the connection with its endpoint. A connection that knows its peer takes
    segments from no one else; a segment that nobody takes is answered by a reset. -/
def arrives (t : Table) (s : Segment) (now : Instant) : Act (Table × List Segment) := do
  match t.get? s.receiver with
  | none => return (t, (← s.resetReply).toList)
  | some c =>
    if c.foreign.all fun peer => peer = s.sender then
      let arrival ← c.arrives s (t.nextSeq s.receiver s.sender now) now
      let drawn := if c.takesUp s then t.draw else t
      return (drawn.put arrival.connection, arrival.answers)
    else return (t, (← s.resetReply).toList)

def sweepAll (now : Instant) (config : Config) :
    List Connection → Act (List Connection × List Segment)
  | [] => return ([], [])
  | c :: rest => do
    let (c, segments) ← c.onTimer now config
    let (rest, others) ← sweepAll now config rest
    return (c :: rest, segments ++ others)

def sweep (t : Table) (now : Instant) : Act (Table × List Segment) := do
  let (connections, segments) ← sweepAll now t.config t.connections
  return ({ t with connections }, segments)

end Table
end TcpEngine

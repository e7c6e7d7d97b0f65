import TcpEngine.Delivery
import TcpEngine.Table

/-!
A stack: the table of connections above an outlet to the network, and the calls of its users. Calls
that finish later carry a name and are answered by a signal; all others answer at once.
-/
namespace TcpEngine

structure Stack where
  table : Table
  outlet : Outlet
deriving DecidableEq, Repr

inductive Opening
  /-- By a SYN to the peer, which has to be named. -/
  | active (foreign : Option Endpoint)
  /-- By waiting for a SYN, from anybody or only from the peer named. -/
  | passive (foreign : Option Endpoint)
deriving DecidableEq, Repr

namespace Stack

def empty (config : Config) (generator : SeqGenerator) : Stack := ⟨.empty config generator, .empty⟩

def put (k : Stack) (c : Connection) : Stack := { k with table := k.table.put c }

def answer (k : Stack) (call : CallId) (reply : Reply) : Act Stack := do
  Act.signal call reply
  return k

def refuse (k : Stack) (call : CallId) (error : CallError) : Act Stack :=
  k.answer call (.failed error)

/- Sending. -/

def datagram (s : Segment) : Except Fault Datagram :=
  s.encode.map fun octets => ⟨.tcp, s.src, s.dst, octets⟩

/-- Sends the segment of a user call, trying as often as the settings allow. -/
def transmit (k : Stack) (s : Segment) : Except Fault (Stack × Except DeliveryError Unit) := do
  let sent := k.outlet.transmitWithin (← datagram s) (k.table.config.transmitAttempts - 1)
  return ({ k with outlet := sent.1 }, sent.2)

/-- Sends an answer or a segment again. It is tried once, and the timer makes up for its loss. -/
def emit (k : Stack) (s : Segment) : Except Fault Stack := do
  return { k with outlet := (k.outlet.transmit (← datagram s)).1 }

def emitAll (k : Stack) : List Segment → Except Fault Stack
  | [] => .ok k
  | s :: rest => do (← k.emit s).emitAll rest

/- The calls of users. -/

def bind (k : Stack) (here : Endpoint) : Except CallError Stack :=
  (k.table.bind here).map fun table => { k with table }

def remove (k : Stack) (here : Endpoint) : Except CallError Stack :=
  (k.table.remove here).map fun removed => { k with table := removed.1 }

def status (k : Stack) (here : Endpoint) : Except CallError State :=
  match k.table.get? here with
  | some c => .ok c.state
  | none => .error .connectionDoesNotExist

/-- Sends the SYN of a connection that starts from `iss`. If no attempt succeeds, the peer known
    before is restored. -/
def openActive (k : Stack) (c : Connection) (foreign : Endpoint) (iss : SeqNumber) (now : Instant)
    (call : CallId) : Act Stack := do
  let starting : Connection :=
    { c with
      foreign := some foreign
      send := { unacked := iss, next := iss, urgent := iss, initial := iss }
      receive := {} }
  match starting.control [.syn] with
  | none => (k.put starting).refuse call .foreignUnspecified
  | some syn =>
    match ← k.transmit syn with
    | (k, .ok ()) =>
      let next ← iss.add 1
      let opened : Connection :=
        { starting with state := .synSent, send := { starting.send with next } }
      return k.put (opened.enqueue syn call now)
    | (k, .error e) =>
      (k.put { starting with foreign := c.foreign }).refuse call (.transmit e)

/-- Opens a connection. An active opening draws its initial sequence number before it looks at the
    connection. -/
def openConnection (k : Stack) (here : Endpoint) (opening : Opening) (timeout : Option Duration)
    (now : Instant) (call : CallId) : Act Stack := do
  let draws := match opening with
    | .active (some _) => true
    | _ => false
  let drawn := if draws then { k with table := k.table.draw } else k
  match k.table.get? here with
  | none => drawn.refuse call .connectionDoesNotExist
  | some c =>
    if c.state = .closed ∨ c.state = .listen then
      let c := { c with userTimeout := timeout.getD k.table.config.userTimeout }
      match opening with
      | .passive foreign => (drawn.put { c with foreign, state := .listen }).answer call .done
      | .active none => (drawn.put c).refuse call .foreignUnspecified
      | .active (some foreign) =>
        drawn.openActive c foreign (k.table.nextSeq here foreign now) now call
    else drawn.refuse call .connectionExists

/-- Sends text. The call is done when the peer has acknowledged all of it. -/
def send (k : Stack) (here : Endpoint) (text : Octets) (now : Instant) (call : CallId) :
    Act Stack := do
  match k.table.get? here with
  | none => k.refuse call .connectionDoesNotExist
  | some c =>
    match c.state with
    | .established | .closeWait =>
      if c.send.window.toNat < text.length then k.refuse call .insufficientResources
      else if text.isEmpty then k.answer call .done
      else
        match c.segment (.ofList [.ack, .psh]) c.send.next text with
        | none => k.refuse call .connectionDoesNotExist
        | some s =>
          match ← k.transmit s with
          | (k, .ok ()) =>
            let next ← c.send.next.add text.length
            let sent : Connection := { c with send := { c.send with next } }
            return k.put (sent.enqueue s call now)
          | (k, .error e) => k.refuse call (.transmit e)
    | .listen =>
      if c.foreign.isNone then k.refuse call .foreignUnspecified
      else k.refuse call .connectionClosing
    | .closed => k.refuse call .connectionDoesNotExist
    | _ => k.refuse call .connectionClosing

/-- Waits for at most `capacity` octets of text. The peer is told when a closed window opens. -/
def receive (k : Stack) (here : Endpoint) (capacity : Nat) (call : CallId) : Act Stack := do
  match k.table.get? here with
  | none => k.refuse call .connectionDoesNotExist
  | some c =>
    if c.reception.isSome then k.refuse call .receivePending
    else if c.state = .closed then k.refuse call .connectionDoesNotExist
    else if c.state = .closing ∨ c.state = .lastAck ∨ c.state = .timeWait
        ∨ c.state = .closeWait ∧ c.buffer.length = 0 then
      k.refuse call .connectionClosing
    else if capacity = 0 then k.answer call (.received [])
    else
      let served ← Connection.deliver { c with reception := some ⟨capacity, call⟩ }
      let k := k.put served
      if c.window = 0 ∧ 0 < served.window ∧ served.state.isSynchronized then
        k.emitAll (served.control [.ack]).toList
      else return k

def finish (k : Stack) (c : Connection) (after : State) (now : Instant) (call : CallId) :
    Act Stack := do
  match c.control [.fin, .ack] with
  | none => k.refuse call .connectionDoesNotExist
  | some fin =>
    match ← k.transmit fin with
    | (k, .ok ()) =>
      let next ← c.send.next.add 1
      let finished : Connection :=
        { c with state := after, send := { c.send with fin := some c.send.next, next } }
      return k.put (finished.enqueue fin call now)
    | (k, .error e) => k.refuse call (.transmit e)

/-- Closes our side. The call is done when the peer has acknowledged our FIN, or at once where none
    is needed. -/
def close (k : Stack) (here : Endpoint) (now : Instant) (call : CallId) : Act Stack := do
  match k.table.get? here with
  | none => k.refuse call .connectionDoesNotExist
  | some c =>
    match c.state with
    | .closed => k.refuse call .connectionDoesNotExist
    | .listen | .synSent => (k.put (← c.terminate .connectionClosing)).answer call .done
    | .synReceived | .established => k.finish c .finWait1 now call
    | .closeWait => k.finish c .lastAck now call
    | .finWait1 | .finWait2 | .closing | .lastAck | .timeWait => k.refuse call .connectionClosing

def abort (k : Stack) (here : Endpoint) : Act (Stack × Except CallError Unit) := do
  match k.table.get? here with
  | none => return (k, .error .connectionDoesNotExist)
  | some c =>
    if c.state = .closed then return (k, .error .connectionDoesNotExist)
    else
      let k := k.put (← c.terminate .connectionReset)
      let k ← k.emitAll (c.control [.rst]).toList
      return (k, .ok ())

/- The network and the timer. -/

/-- Takes the octets of a datagram. Octets that are no valid segment have no effect. -/
def ingress (k : Stack) (octets : Octets) (src dst : Address) (now : Instant) :
    Act (Stack × Except WireError Unit) := do
  match Packet.ofOctets octets with
  | .error e => return (k, .error e)
  | .ok p =>
    match ← Header.read p (.verify src dst) with
    | .error e => return (k, .error e)
    | .ok header =>
      let (table, answers) ← k.table.arrives { header, text := p.text, src, dst } now
      let k ← emitAll { k with table } answers
      return (k, .ok ())

def sweep (k : Stack) (now : Instant) : Act Stack := do
  let (table, segments) ← k.table.sweep now
  emitAll { k with table } segments

end Stack
end TcpEngine

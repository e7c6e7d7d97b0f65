import TcpEngine.Connection.Basic

/-!
The arrival of a segment at a connection. CLOSED, LISTEN and SYN-SENT have steps of their own. In
all other states a segment runs through the same checks in order: sequence number, RST, SYN, ACK,
urgent pointer, text, and FIN.
-/
namespace TcpEngine

structure Arrival where
  connection : Connection
  answers : List Segment
deriving DecidableEq, Repr

namespace Arrival

def silent (c : Connection) : Arrival := ⟨c, []⟩

def answered (c : Connection) (answer : Option Segment) : Arrival := ⟨c, answer.toList⟩

end Arrival

namespace Connection

def setWindow (c : Connection) (h : Header) (ack : SeqNumber) : Connection :=
  { c with
    send := { c.send with window := h.window, windowSeq := h.seq, windowAck := ack } }

/-- Keeps the part of a text that comes next and has room. Text from before is skipped, and text
    behind a gap is dropped. -/
def acceptText (c : Connection) (seq : SeqNumber) (text : Octets) : Except Fault Connection :=
  if text.isEmpty then .ok c
  else if seq.atOrBefore c.receive.next then do
    let known ← c.receive.next.distance seq
    let (buffer, taken) := c.buffer.enqueue (text.drop known)
    let next ← c.receive.next.add taken
    return { c with buffer, receive := { c.receive with next } }
  else .ok c

def enterTimeWait (c : Connection) (now : Instant) : Connection :=
  { c with state := .timeWait, waitingSince := now }

def peerFinished (c : Connection) (now : Instant) : Connection :=
  match c.state with
  | .synReceived | .established => { c with state := .closeWait }
  | .finWait1 => if c.finAcked then c.enterTimeWait now else { c with state := .closing }
  | .finWait2 => c.enterTimeWait now
  | .timeWait => { c with waitingSince := now }
  | _ => c

/-- Takes a FIN once all text before it has come, and tells whether it did. A receive call for which
    no text is left fails. -/
def receiveFin (c : Connection) (s : Segment) (now : Instant) : Act (Connection × Bool) := do
  if s.header.flags.has .fin then
    let start ← if s.header.flags.has .syn then s.header.seq.add 1 else pure s.header.seq
    let place ← start.add s.header.textLength
    if place = c.receive.next then
      let next ← c.receive.next.add 1
      let c := { c with receive := { c.receive with next } }
      let c ←
        if c.buffer.isEmpty then do
          Act.signal? (c.reception.map Reception.call) (.failed .connectionClosing)
          pure { c with reception := none }
        else pure c
      return (c.peerFinished now, true)
    else return (c, false)
  else return (c, false)

def takesUp (c : Connection) (s : Segment) : Bool :=
  c.state == .listen && !s.header.flags.has .rst && s.header.ack.isNone && s.header.flags.has .syn

/-- The answer to a SYN. Text that comes with it waits until the handshake is done. -/
def takeUp (c : Connection) (s : Segment) (iss : SeqNumber) (now : Instant) :
    Except Fault Arrival := do
  let first ← s.header.seq.add 1
  let next ← iss.add 1
  let c : Connection :=
    { c with
      state := .synReceived
      foreign := some s.sender
      receive := { c.receive with initial := s.header.seq, next := first }
      send := { c.send with initial := iss, unacked := iss, next := next, urgent := iss } }
  let c := c.setWindow s.header iss
  let c ← c.acceptText first s.text
  match c.segment (.ofList [.syn, .ack]) iss [] with
  | none => return .silent c
  | some answer => return .answered (c.enqueue answer none now) answer

def arrivesListen (c : Connection) (s : Segment) (iss : SeqNumber) (now : Instant) :
    Except Fault Arrival :=
  if s.header.flags.has .rst then .ok (.silent c)
  else if s.header.ack.isSome then do return .answered c (← s.resetReply)
  else if c.takesUp s then c.takeUp s iss now
  else .ok (.silent c)

def meet (c : Connection) (s : Segment) (now : Instant) : Act Arrival := do
  let first ← s.header.seq.add 1
  let c := { c with receive := { c.receive with initial := s.header.seq, next := first } }
  let c ← match s.header.ack with
    | some ack =>
      if ack.after c.send.unacked then
        releaseAcked { c with send := { c.send with unacked := ack } } now
      else pure c
    | none => pure c
  let c ← c.acceptText first s.text
  if c.send.unacked.after c.send.initial then
    let c := { c with state := .established }
    let c := c.setWindow s.header c.send.unacked
    let c ← c.deliver
    let (c, _) ← c.receiveFin s now
    return .answered c (c.control [.ack])
  else
    let both : Flags := .ofList [.syn, .ack]
    let c := { c with state := .synReceived }
    let c := c.setWindow s.header c.send.initial
    let c :=
      { c with queue := c.queue.map fun e => if e.flags.has .syn then { e with flags := both } else e }
    return .answered c (c.segment both c.send.initial [])

def arrivesSynSent (c : Connection) (s : Segment) (now : Instant) : Act Arrival := do
  let acceptableAck := s.header.ack.all fun ack =>
    ack.after c.send.initial && ack.atOrBefore c.send.next
  if !acceptableAck then
    return .answered c (← s.resetReply)
  else if s.header.flags.has .rst then
    if s.header.ack.isSome then return .silent (← c.terminate .connectionReset)
    else return .silent c
  else if s.header.flags.has .syn then c.meet s now
  else return .silent c

def acceptable (c : Connection) (h : Header) : Except Fault Bool :=
  if h.sequenceLength = 0 then
    if c.window = 0 then .ok (h.seq == c.receive.next)
    else h.seq.inWindow c.receive.next c.window
  else if c.window = 0 then .ok false
  else do
    if ← h.seq.inWindow c.receive.next c.window then return true
    else (← h.seq.add (h.sequenceLength - 1)).inWindow c.receive.next c.window

/-- Keeps the farthest urgent pointer. -/
def noteUrgent (c : Connection) (h : Header) : Except Fault Connection :=
  if h.flags.has .urg && c.state.receivesText then do
    let urgent ← h.seq.add h.urgent.toNat
    return if urgent.after c.receive.urgent then
        { c with receive := { c.receive with urgent } }
      else c
  else .ok c

def receiveContent (c : Connection) (s : Segment) (now : Instant) : Act Arrival := do
  let c ← c.noteUrgent s.header
  let takesText := !s.text.isEmpty && c.state.receivesText
  let c ← if takesText then do (← c.acceptText s.header.seq s.text).deliver else pure c
  let (c, finished) ← c.receiveFin s now
  if takesText || finished then return .answered c (c.control [.ack])
  else return .silent c

/-- The window of a segment counts if no newer segment has set it. -/
def refreshWindow (c : Connection) (h : Header) (ack : SeqNumber) : Connection :=
  if c.send.unacked = ack
      ∧ (c.send.windowSeq.before h.seq
        ∨ c.send.windowSeq = h.seq ∧ c.send.windowAck.atOrBefore ack) then
    c.setWindow h ack
  else c

def acknowledge (c : Connection) (s : Segment) (ack : SeqNumber) (now : Instant) :
    Act Arrival := do
  if ack.after c.send.next then
    return .answered c (c.control [.ack])
  else
    let c ←
      if c.send.unacked.before ack then
        releaseAcked { c with send := { c.send with unacked := ack } } now
      else pure c
    let c := c.refreshWindow s.header ack
    match c.state with
    | .finWait1 =>
      receiveContent (if c.finAcked then { c with state := .finWait2 } else c) s now
    | .closing =>
      if c.finAcked then receiveContent (c.enterTimeWait now) s now else return .silent c
    | .lastAck =>
      if c.finAcked then return .silent (← c.terminate .connectionClosing) else return .silent c
    | _ => c.receiveContent s now

/-- In SYN-RECEIVED, only an acknowledgment of our SYN completes the handshake. -/
def arrivesWithAck (c : Connection) (s : Segment) (ack : SeqNumber) (now : Instant) :
    Act Arrival := do
  if c.state = .synReceived then
    if c.send.unacked.before ack && ack.atOrBefore c.send.next then
      acknowledge (← deliver { c with state := .established }) s ack now
    else return .answered c (← s.resetReply)
  else c.acknowledge s ack now

def arrivesSynchronized (c : Connection) (s : Segment) (now : Instant) : Act Arrival := do
  let h := s.header
  if ← c.acceptable h then
    if h.flags.has .rst then
      let error := if c.state = .synReceived then .connectionRefused else .connectionReset
      return .silent (← c.terminate error)
    else if h.flags.has .syn then
      return .answered (← c.terminate .connectionReset) (c.control [.rst])
    else
      match h.ack with
      | none => return .silent c
      | some ack => c.arrivesWithAck s ack now
  else if h.flags.has .rst then
    return .silent c
  else
    let c :=
      if c.state = .timeWait ∧ h.flags.has .fin then { c with waitingSince := now } else c
    return .answered c (c.control [.ack])

/-- Runs a segment through the connection it is addressed to. `iss` is the number that a new
    incarnation would start from. -/
def arrives (c : Connection) (s : Segment) (iss : SeqNumber) (now : Instant) : Act Arrival :=
  match c.state with
  | .closed => do return .answered c (← s.resetReply)
  | .listen => c.arrivesListen s iss now
  | .synSent => c.arrivesSynSent s now
  | _ => c.arrivesSynchronized s now

end Connection
end TcpEngine

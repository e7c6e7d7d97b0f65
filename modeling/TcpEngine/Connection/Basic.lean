import TcpEngine.Call
import TcpEngine.Connection.State
import TcpEngine.Header
import TcpEngine.Ring
import TcpEngine.RoundTrip

/-!
Connections: the state, the sequence variables of both directions, received text that nobody asked
for yet, and the segments and calls that wait for the peer.
-/
namespace TcpEngine

structure SendVars where
  /-- The first number not yet acknowledged, SND.UNA. -/
  unacked : SeqNumber := ⟨0⟩
  /-- The next number to use, SND.NXT. -/
  next : SeqNumber := ⟨0⟩
  /-- The window that the peer announced, SND.WND. -/
  window : UInt16 := 0
  urgent : SeqNumber := ⟨0⟩
  /-- The sequence number of the segment that set the window, SND.WL1. -/
  windowSeq : SeqNumber := ⟨0⟩
  /-- The acknowledgment number of the segment that set the window, SND.WL2. -/
  windowAck : SeqNumber := ⟨0⟩
  /-- The number of our SYN, ISS. -/
  initial : SeqNumber := ⟨0⟩
  fin : Option SeqNumber := none
deriving DecidableEq, Repr

/-- The receive sequence variables. The window is not one of them: it is the room in the buffer. -/
structure ReceiveVars where
  /-- The next number expected, RCV.NXT. -/
  next : SeqNumber := ⟨0⟩
  urgent : SeqNumber := ⟨0⟩
  /-- The number of the peer's SYN, IRS. -/
  initial : SeqNumber := ⟨0⟩
deriving DecidableEq, Repr

/-- A segment that waits for its acknowledgment, and the call that waits with it. -/
structure Unacked where
  seq : SeqNumber
  flags : Flags
  text : Octets
  firstSent : Instant
  lastSent : Instant
  /-- How often the timer of the segment has run out. -/
  retries : Nat
  call : Option CallId
deriving DecidableEq, Repr

def Unacked.stop (e : Unacked) : Except Fault SeqNumber := do
  (← e.seq.add e.text.length).add e.flags.sequenceLength

structure Reception where
  capacity : Nat
  call : CallId
deriving DecidableEq, Repr

structure Connection where
  state : State
  here : Endpoint
  foreign : Option Endpoint
  send : SendVars
  receive : ReceiveVars
  /-- How long a segment may stay unacknowledged. -/
  userTimeout : Duration
  /-- When TIME-WAIT was last entered or restarted. -/
  waitingSince : Instant
  roundTrip : RoundTrip
  buffer : Ring
  /-- Segments sent and not acknowledged, in the order of their sequence numbers. -/
  queue : List Unacked
  reception : Option Reception
deriving DecidableEq, Repr

namespace Connection

def bound (here : Endpoint) (config : Config) : Connection where
  state := .closed
  here := here
  foreign := none
  send := {}
  receive := {}
  userTimeout := config.userTimeout
  waitingSince := .start
  roundTrip := .start config
  buffer := .empty (min config.receiveWindow 65535)
  queue := []
  reception := none

def window (c : Connection) : Nat := c.buffer.window

def finAcked (c : Connection) : Bool :=
  match c.send.fin with
  | some fin => c.send.unacked.after fin
  | none => false

/-- A segment to the peer, if it is known. Segments with ACK acknowledge what was received up to now. -/
def segment (c : Connection) (flags : Flags) (seq : SeqNumber) (text : Octets) : Option Segment :=
  c.foreign.map fun foreign =>
    { header :=
        { srcPort := c.here.port
          dstPort := foreign.port
          flags := flags
          seq := seq
          ack := if flags.has .ack then some c.receive.next else none
          window := UInt16.ofNat (min c.window 65535)
          urgent := 0
          textLength := text.length }
      text := text
      src := c.here.address
      dst := foreign.address }

def control (c : Connection) (flags : List Flag) : Option Segment :=
  c.segment (.ofList flags) c.send.next []

def enqueue (c : Connection) (sent : Segment) (call : Option CallId) (now : Instant) : Connection :=
  { c with
    queue := c.queue ++ [
      { seq := sent.header.seq
        flags := sent.header.flags
        text := sent.text
        firstSent := now
        lastSent := now
        retries := 0
        call := call }] }

/-- Takes the segments off the front of a queue that end at or before `unacked`. Their calls are
    done, and the time since each was sent is a round trip. -/
def release (unacked : SeqNumber) (now : Instant) :
    List Unacked → RoundTrip → Act (List Unacked × RoundTrip)
  | [], roundTrip => return ([], roundTrip)
  | e :: rest, roundTrip => do
    let stop ← e.stop
    if stop.after unacked then
      return (e :: rest, roundTrip)
    else
      let roundTrip ← roundTrip.sample (now.since e.lastSent)
      Act.signal? e.call .done
      release unacked now rest roundTrip

def releaseAcked (c : Connection) (now : Instant) : Act Connection := do
  let (queue, roundTrip) ← release c.send.unacked now c.queue c.roundTrip
  return { c with queue, roundTrip }

/-- The calls that wait for the peer, in the order in which they would be told. -/
def waiting (c : Connection) : List CallId :=
  c.queue.filterMap Unacked.call ++ c.reception.toList.map Reception.call

def terminate (c : Connection) (error : CallError) : Act Connection where
  signals := c.waiting.map fun call => ⟨call, .failed error⟩
  outcome := .ok
    { c with
      state := .closed
      foreign := none
      send := { c.send with fin := none }
      buffer := c.buffer.clear
      queue := []
      reception := none }

def deliver (c : Connection) : Act Connection :=
  match c.reception with
  | none => return c
  | some reception =>
    if c.buffer.isEmpty then return c
    else do
      let (buffer, octets) := c.buffer.dequeue reception.capacity
      Act.signal reception.call (.received octets)
      return { c with buffer, reception := none }

end Connection
end TcpEngine

import TcpEngine.Packet

/-!
Headers as values, and segments built from them. Reading a header skips its options; written headers
have none. The ACK flag on the wire says whether there is an acknowledgment number, whatever the
flags of the header say.
-/
namespace TcpEngine

structure Header where
  srcPort : UInt16
  dstPort : UInt16
  flags : Flags
  seq : SeqNumber
  ack : Option SeqNumber
  window : UInt16
  urgent : UInt16
  textLength : Nat
deriving DecidableEq, Repr

inductive ChecksumPolicy
  /-- It has to be right between these addresses. -/
  | verify (src dst : Address)
  /-- A layer below has seen to it. -/
  | trust
deriving DecidableEq, Repr

def ChecksumPolicy.accepts (policy : ChecksumPolicy) (p : Packet) : Except Fault Bool :=
  match policy with
  | .verify src dst => p.verifies src dst
  | .trust => .ok true

namespace Header

def sequenceLength (h : Header) : Nat := h.textLength + h.flags.sequenceLength

def segmentLength (h : Header) : Nat := Packet.fixedLength + h.textLength

def ofPacket (p : Packet) : Header where
  srcPort := p.srcPort
  dstPort := p.dstPort
  flags := p.flags
  seq := p.seq
  ack := if p.flags.has .ack then some p.ack else none
  window := p.window
  urgent := p.urgent
  textLength := p.text.length

/-- Reads the header of a packet. Ports are looked at before the checksum. -/
def read (p : Packet) (policy : ChecksumPolicy) : Except Fault (Except WireError Header) :=
  if p.srcPort = 0 ∨ p.dstPort = 0 then .ok (.error .malformed)
  else (policy.accepts p).map fun right =>
    if right then .ok (ofPacket p) else .error .wrongChecksum

def parse (octets : Octets) (policy : ChecksumPolicy) : Except Fault (Except WireError Header) :=
  match Packet.ofOctets octets with
  | .error e => .ok (.error e)
  | .ok p => read p policy

/-- Writes all twenty octets of the header; the checksum is left zero. -/
def emit (h : Header) : Packet.Edit Unit := do
  Packet.setSrcPort h.srcPort
  Packet.setDstPort h.dstPort
  Packet.setSeq h.seq
  Packet.setAck (h.ack.getD ⟨0⟩)
  Packet.setWindow h.window
  Packet.setHeaderLength 20
  Packet.setFlags (h.flags.put .ack h.ack.isSome)
  Packet.setChecksum 0
  Packet.setUrgent h.urgent

def encode (h : Header) (text : Octets) (src dst : Address) : Except Fault Octets :=
  if text.length = h.textLength then
    let edit : Packet.Edit Unit := do
      h.emit
      Packet.putText text
      Packet.fillChecksum src dst
    match edit.run (List.replicate h.segmentLength 0) with
    | .ok () octets => .ok octets
    | .error fault _ => .error fault
  else .error .textLengthDisagrees

def render (h : Header) : String :=
  "TCP src=" ++ toString h.srcPort.toNat ++ " dst=" ++ toString h.dstPort.toNat
    ++ " " ++ h.flags.render ++ " seq=" ++ h.seq.render
    ++ (match h.ack with
        | some ack => " ack=" ++ ack.render
        | none => "")
    ++ " win=" ++ toString h.window.toNat
    ++ " len=" ++ toString h.textLength

end Header

structure Segment where
  header : Header
  text : Octets
  src : Address
  dst : Address
deriving DecidableEq, Repr

namespace Segment

def sender (s : Segment) : Endpoint := ⟨s.src, s.header.srcPort⟩

def receiver (s : Segment) : Endpoint := ⟨s.dst, s.header.dstPort⟩

def encode (s : Segment) : Except Fault Octets := s.header.encode s.text s.src s.dst

/-- The reset that answers a segment to no connection. A reset is never answered. -/
def resetReply (s : Segment) : Except Fault (Option Segment) := do
  let h := s.header
  if h.flags.has .rst then return none
  let reply (flags : Flags) (seq : SeqNumber) (ack : Option SeqNumber) : Segment :=
    { header := ⟨h.dstPort, h.srcPort, flags, seq, ack, 0, 0, 0⟩, text := [], src := s.dst,
      dst := s.src }
  match h.ack with
  | some ack => return some (reply (.ofList [.rst]) ack none)
  | none =>
    let ack ← h.seq.add h.sequenceLength
    return some (reply (.ofList [.rst, .ack]) ⟨0⟩ (some ack))

end Segment
end TcpEngine

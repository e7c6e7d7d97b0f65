import TcpEngine.Checksum
import TcpEngine.Error
import TcpEngine.Flags
import TcpEngine.Sequence

/-!
Segments as octets. A `Packet` is an octet string that holds the whole header which its data offset
claims, so every field can be read. Fields can be written into any octets; an edit stops at the
first field that does not fit.

    0..1   source port         2..3   destination port
    4..7   sequence number     8..11  acknowledgment number
    12     data offset         13     flags                  14..15  window
    16..17 checksum            18..19 urgent pointer         20..    options, then text
-/
namespace TcpEngine
namespace Packet

def fixedLength : Nat := 20

/-- The header length claimed by the data offset, an octet whose high half counts 32-bit words. -/
def claimedLength (offset : UInt8) : Nat := offset.toNat / 16 * 4

/-- The octets hold a header, by the claim of its own data offset. -/
structure Whole (octets : Octets) : Prop where
  fixed : fixedLength ≤ octets.length
  offset : fixedLength ≤ claimedLength (octets.getD 12 0)
  claimed : claimedLength (octets.getD 12 0) ≤ octets.length

end Packet

structure Packet where
  octets : Octets
  whole : Packet.Whole octets

namespace Packet

def ofOctets (octets : Octets) : Except WireError Packet :=
  if fixed : octets.length < fixedLength then .error .truncated
  else if offset : claimedLength (octets.getD 12 0) < fixedLength then .error .malformed
  else if claimed : octets.length < claimedLength (octets.getD 12 0) then .error .truncated
  else .ok ⟨octets, Nat.not_lt.mp fixed, Nat.not_lt.mp offset, Nat.not_lt.mp claimed⟩

/- Reading. -/

def octet (p : Packet) (i : Fin fixedLength) : UInt8 := p.octets.get (i.castLE p.whole.fixed)

def word16 (p : Packet) (i : Nat) (h : i + 2 ≤ fixedLength := by decide) : UInt16 :=
  Octets.word16 (p.octet ⟨i, by omega⟩) (p.octet ⟨i + 1, by omega⟩)

def word32 (p : Packet) (i : Nat) (h : i + 4 ≤ fixedLength := by decide) : UInt32 :=
  Octets.word32 (p.octet ⟨i, by omega⟩) (p.octet ⟨i + 1, by omega⟩) (p.octet ⟨i + 2, by omega⟩)
    (p.octet ⟨i + 3, by omega⟩)

def srcPort (p : Packet) : UInt16 := p.word16 0
def dstPort (p : Packet) : UInt16 := p.word16 2
def seq (p : Packet) : SeqNumber := ⟨p.word32 4⟩
def ack (p : Packet) : SeqNumber := ⟨p.word32 8⟩
def headerLength (p : Packet) : Nat := claimedLength (p.octet ⟨12, by decide⟩)
def flags (p : Packet) : Flags := ⟨p.octet ⟨13, by decide⟩⟩
def window (p : Packet) : UInt16 := p.word16 14
def checksum (p : Packet) : UInt16 := p.word16 16
def urgent (p : Packet) : UInt16 := p.word16 18
def options (p : Packet) : Octets := (p.octets.take p.headerLength).drop fixedLength
def text (p : Packet) : Octets := p.octets.drop p.headerLength

def sequenceLength (p : Packet) : Nat := p.text.length + p.flags.sequenceLength

def verifies (p : Packet) (src dst : Address) : Except Fault Bool :=
  (Checksum.ofSegment p.octets src dst).map Checksum.isValid

def render (p : Packet) : String :=
  "TCP src=" ++ toString p.srcPort.toNat ++ " dst=" ++ toString p.dstPort.toNat
    ++ " " ++ p.flags.render ++ " seq=" ++ p.seq.render
    ++ (if p.flags.has .ack then " ack=" ++ p.ack.render else "")
    ++ " win=" ++ toString p.window.toNat
    ++ (if p.flags.has .urg then " urg=" ++ toString p.urgent.toNat else "")
    ++ " len=" ++ toString p.text.length

/- Writing. What was written before a fault stays written. -/

abbrev Edit := EStateM Fault Octets

def write (start : Nat) (value : Octets) : Edit Unit := do
  match (← get).overwrite start value with
  | .ok written => set written
  | .error fault => throw fault

def setSrcPort (port : UInt16) : Edit Unit := write 0 (Octets.ofWord16 port)
def setDstPort (port : UInt16) : Edit Unit := write 2 (Octets.ofWord16 port)
def setSeq (seq : SeqNumber) : Edit Unit := write 4 (Octets.ofWord32 seq.val)
def setAck (ack : SeqNumber) : Edit Unit := write 8 (Octets.ofWord32 ack.val)

/-- Takes the length in octets, and clears the reserved bits beside it. -/
def setHeaderLength (length : UInt8) : Edit Unit := write 12 [length / 4 * 16]

def setFlags (flags : Flags) : Edit Unit := write 13 [flags.bits]
def setWindow (window : UInt16) : Edit Unit := write 14 (Octets.ofWord16 window)
def setChecksum (checksum : UInt16) : Edit Unit := write 16 (Octets.ofWord16 checksum)
def setUrgent (urgent : UInt16) : Edit Unit := write 18 (Octets.ofWord16 urgent)

/-- Sums the octets with a checksum field of zero, and writes the complement there. -/
def fillChecksum (src dst : Address) : Edit Unit := do
  setChecksum 0
  match Checksum.ofSegment (← get) src dst with
  | .ok checksum => setChecksum checksum
  | .error fault => throw fault

/-- Writes text behind the header that the data offset claims, as much of it as there is room for. -/
def putText (text : Octets) : Edit Unit := do
  let octets ← get
  match octets[12]? with
  | none => throw .outOfRange
  | some offset =>
    let start := claimedLength offset
    if start ≤ octets.length then write start (text.take (octets.length - start))
    else throw .outOfRange

end Packet
end TcpEngine

import TcpEngine.Proofs.Checksum
import TcpEngine.Proofs.Wire

/-!
Segments that fit into a datagram. They can be written, whatever is in them, and whoever gets the
datagram reads the segment from it: the checksum on the wire is right.
-/
namespace TcpEngine

structure Segment.Sized (s : Segment) : Prop where
  long : s.text.length = s.header.textLength
  short : s.text.length ≤ 65535

instance (s : Segment) : Decidable s.Sized :=
  decidable_of_iff (s.text.length = s.header.textLength ∧ s.text.length ≤ 65535)
    ⟨fun h => ⟨h.1, h.2⟩, fun h => ⟨h.long, h.short⟩⟩

theorem Segment.Sized.brief {s : Segment} (sized : s.Sized) : s.header.sequenceLength ≤ 65537 := by
  have := sized.long
  have := sized.short
  have := Bool.toNat_le (s.header.flags.has .syn)
  have := Bool.toNat_le (s.header.flags.has .fin)
  simp only [Header.sequenceLength, Flags.sequenceLength]
  omega

variable {s : Segment} {octets text : Octets} {src dst : Address} {d : Datagram} {p : Packet}

namespace Packet

theorem length_headerOctets (h : Header) (c c' : UInt8) : (headerOctets h c c').length = fixedLength :=
  rfl

theorem wordSum_headerOctets (h : Header) (checksum : UInt16) (text : Octets) :
    Checksum.wordSum (headerOctets h (.ofNat (checksum.toNat / 256)) (.ofNat checksum.toNat) ++ text)
      = Checksum.wordSum (headerOctets h 0 0 ++ text) + checksum.toNat := by
  have bound := checksum.toNat_lt
  simp only [headerOctets, Octets.ofWord16, Octets.ofWord32, List.cons_append, List.nil_append,
    Checksum.wordSum, Checksum.addWords, UInt8.toNat_ofNat', UInt8.toNat_zero]
  rw [Checksum.addWords_eq, Checksum.addWords_eq]
  omega

end Packet

theorem Segment.Sized.room (sized : s.Sized) :
    (Packet.headerOctets s.header 0 0 ++ s.text).length ≤ 131074 := by
  have := sized.short
  rw [List.length_append, Packet.length_headerOctets, Packet.fixedLength]
  omega

theorem datagram_succeeds (sized : s.Sized) : ∃ d, Stack.datagram s = .ok d := by
  obtain ⟨checksum, sum⟩ := Checksum.ofSegment_succeeds s.src s.dst sized.room
  rw [Stack.datagram, Segment.encode, Header.encode_eq sized.long, sum]
  exact ⟨_, rfl⟩

def Header.asRead (h : Header) (length : Nat) : Header :=
  { h with flags := h.flags.put .ack h.ack.isSome, textLength := length }

theorem Header.asRead_self {h : Header} (formed : h.ack.isSome = h.flags.has .ack) :
    h.asRead h.textLength = h := by
  rw [asRead, Flags.put_ack formed]

theorem Packet.headerOctets_asRead (h : Header) (length : Nat) (c c' : UInt8) :
    headerOctets (h.asRead length) c c' = headerOctets h c c' := by
  have flags : (h.flags.put .ack h.ack.isSome).put .ack h.ack.isSome = h.flags.put .ack h.ack.isSome :=
    Flags.put_ack (Flags.has_put _ _ _).symm
  simp only [headerOctets, Header.asRead, flags]

theorem Header.ofPacket_asRead {h : Header} {c c' : UInt8}
    (same : p.octets = Packet.headerOctets h c c' ++ text) :
    ofPacket p = h.asRead text.length ∧ p.text = text :=
  ofPacket_headerOctets (same.trans (by rw [Packet.headerOctets_asRead h text.length])) rfl
    (Flags.has_put _ _ _).symm

theorem Header.read_written {h : Header} {checksum : UInt16}
    (short : (Packet.headerOctets h 0 0 ++ text).length ≤ 131074)
    (sum : Checksum.ofSegment (Packet.headerOctets h 0 0 ++ text) src dst = .ok checksum)
    (same : p.octets = Packet.headerOctets h (.ofNat (checksum.toNat / 256)) (.ofNat checksum.toNat)
      ++ text) :
    read p (.verify src dst) = .ok (if h.srcPort = 0 ∨ h.dstPort = 0 then .error .malformed
      else .ok (h.asRead text.length)) := by
  have fields := (ofPacket_asRead same).1
  obtain ⟨left, total, valid⟩ := Checksum.ofSegment_raised short
    (by simp [Packet.length_headerOctets]) sum (Packet.wordSum_headerOctets h checksum text)
  have verified : p.verifies src dst = .ok true := by
    rw [Packet.verifies, same, total]
    exact congrArg Except.ok (valid.mpr rfl)
  have srcPort : p.srcPort = h.srcPort := congrArg Header.srcPort fields
  have dstPort : p.dstPort = h.dstPort := congrArg Header.dstPort fields
  rw [read, srcPort, dstPort, ChecksumPolicy.accepts, verified, ← fields]
  split <;> rfl

/-- What was handed to the network for a segment is read as that segment, if its ports are not zero. -/
theorem reads_posted (formed : s.Formed) (sized : s.Sized) (src : s.header.srcPort ≠ 0)
    (dst : s.header.dstPort ≠ 0) (posted : Stack.datagram s = .ok d) :
    Reads d.octets d.src d.dst s := by
  rw [Stack.datagram, Segment.encode, Header.encode_eq sized.long] at posted
  obtain ⟨octets, written, rfl⟩ := except_map_ok.mp posted
  obtain ⟨checksum, sum, rfl⟩ := except_map_ok.mp written
  have whole := Packet.whole_headerOctets s.header (.ofNat (checksum.toNat / 256))
    (.ofNat checksum.toNat) s.text
  refine ⟨⟨_, whole⟩, s.header, Packet.ofOctets_whole whole, ?_, ?_⟩
  · rw [Header.read_written sized.room sum rfl, if_neg (not_or.mpr ⟨src, dst⟩), sized.long,
      Header.asRead_self formed]
  · rw [(Header.ofPacket_asRead rfl).2]

theorem Reads.sized (reads : Reads octets src dst s) (short : octets.length ≤ 65535) : s.Sized := by
  obtain ⟨p, header, whole, read, rfl⟩ := reads
  rw [Header.read_ofPacket read]
  refine ⟨rfl, ?_⟩
  rw [Packet.text, List.length_drop, Packet.ofOctets_octets whole]
  omega

theorem Header.read_succeeds (short : p.octets.length ≤ 65535) :
    ∃ result, Header.read p (.verify src dst) = .ok result := by
  unfold read
  split
  · exact ⟨_, rfl⟩
  · obtain ⟨checksum, sum⟩ := Checksum.ofSegment_succeeds src dst
      (Nat.le_trans short (by decide))
    rw [ChecksumPolicy.accepts, Packet.verifies, sum]
    exact ⟨_, rfl⟩

end TcpEngine

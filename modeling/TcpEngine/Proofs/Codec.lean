import TcpEngine.Proofs.Legibility

/-!
Headers and octets, there and back. What is written over any octets is read again, and octets that were
read are written again as they were, but for one thing: of the two forms that zero has as a checksum only
one is ever written.
-/
namespace TcpEngine

variable {h : Header} {octets text : Octets} {src dst : Address} {p : Packet}

namespace Packet

theorem take_octets (p : Packet) : p.octets.take fixedLength = List.ofFn p.octet := by
  have long : (p.octets.take fixedLength).length = (List.ofFn p.octet).length := by
    rw [List.length_take, List.length_ofFn, Nat.min_eq_left p.whole.fixed]
  refine List.ext_getElem long fun i _ _ => ?_
  rw [List.getElem_take, List.getElem_ofFn]
  rfl

/-- A packet without options, whose acknowledgment number is zero unless it counts, is what is written
    for the header that is read from it. -/
theorem octets_eq (p : Packet) (plain : p.octet ⟨12, by decide⟩ = 80)
    (silent : p.flags.has .ack = true ∨ p.ack = ⟨0⟩) :
    p.octets = headerOctets (.ofPacket p) (p.octet ⟨16, by decide⟩) (p.octet ⟨17, by decide⟩)
      ++ p.text := by
  have flags : p.flags.put .ack (Header.ofPacket p).ack.isSome = p.flags := by
    refine Flags.put_ack ?_
    unfold Header.ofPacket
    cases p.flags.has .ack <;> rfl
  have ack : (Header.ofPacket p).ack.getD ⟨0⟩ = p.ack := by
    unfold Header.ofPacket
    rcases silent with raised | zero
    · rw [raised]
      rfl
    · rw [zero]
      cases p.flags.has .ack <;> rfl
  have start : p.headerLength = fixedLength := by
    rw [headerLength, plain]
    decide
  have head : headerOctets (.ofPacket p) (p.octet ⟨16, by decide⟩) (p.octet ⟨17, by decide⟩)
      = p.octets.take fixedLength := by
    rw [take_octets, headerOctets, ack, show (Header.ofPacket p).flags = p.flags from rfl, flags,
      ← plain]
    simp only [Header.ofPacket, srcPort, dstPort, seq, Packet.ack, window, urgent, word16, word32,
      Octets.ofWord16_word16, Octets.ofWord32_word32]
    rfl
  rw [head, text, start, List.take_append_drop]

theorem octets_checksum (p : Packet) (plain : p.octet ⟨12, by decide⟩ = 80)
    (silent : p.flags.has .ack = true ∨ p.ack = ⟨0⟩) :
    p.octets = headerOctets (.ofPacket p) (.ofNat (p.checksum.toNat / 256)) (.ofNat p.checksum.toNat)
      ++ p.text := by
  have word : Octets.ofWord16 p.checksum = [p.octet ⟨16, by decide⟩, p.octet ⟨17, by decide⟩] :=
    Octets.ofWord16_word16 _ _
  rw [Octets.ofWord16, List.cons.injEq, List.cons.injEq] at word
  rw [word.1, word.2.1]
  exact p.octets_eq plain silent

theorem checksum_headerOctets {checksum : UInt16}
    (same : p.octets = headerOctets h (.ofNat (checksum.toNat / 256)) (.ofNat checksum.toNat) ++ text) :
    p.checksum = checksum := by
  obtain ⟨octets, whole⟩ := p
  dsimp only at same
  subst same
  exact Octets.word16_ofWord16 checksum

end Packet

namespace Header

theorem read_verifies (read : Header.read p (.verify src dst) = .ok (.ok h)) :
    p.verifies src dst = .ok true := by
  unfold Header.read at read
  split at read
  · cases read
  · obtain ⟨right, verified, same⟩ := except_map_ok.mp read
    cases right
    · cases same
    · exact verified

/-- Whatever twenty octets a header is written over, with its checksum it is read as itself, but for the
    ACK flag, which tells whether there is an acknowledgment, and for the length of the text that follows. -/
theorem parse_emit (h : Header) (src dst : Address) {rest : Octets}
    (short : Packet.fixedLength + rest.length ≤ 131074) :
    ∃ head : Octets, head.length = Packet.fixedLength ∧
      (∀ buffer : Octets, Packet.fixedLength ≤ buffer.length → buffer.drop Packet.fixedLength = rest →
        (do h.emit; Packet.fillChecksum src dst : Packet.Edit Unit).run buffer
          = .ok () (head ++ rest)) ∧
      parse (head ++ rest) (.verify src dst) = .ok (if h.srcPort = 0 ∨ h.dstPort = 0
        then .error .malformed else .ok (h.asRead rest.length)) ∧
      (∃ p, Packet.ofOctets (head ++ rest) = .ok p ∧ p.text = rest) ∧
      (rest.length = h.textLength → h.srcPort ≠ 0 → h.dstPort ≠ 0 →
        h.ack.isSome = h.flags.has .ack →
        h.encode rest src dst = .ok (head ++ rest) ∧
          parse (head ++ rest) (.verify src dst) = .ok (.ok h)) := by
  have room : (Packet.headerOctets h 0 0 ++ rest).length ≤ 131074 := by
    rw [List.length_append, Packet.length_headerOctets]
    exact short
  obtain ⟨checksum, sum⟩ := Checksum.ofSegment_succeeds src dst room
  let head := Packet.headerOctets h (.ofNat (checksum.toNat / 256)) (.ofNat checksum.toNat)
  let p : Packet := ⟨head ++ rest, Packet.whole_headerOctets h _ _ rest⟩
  have whole : Packet.ofOctets (head ++ rest) = .ok p := Packet.ofOctets_whole p.whole
  have read : parse (head ++ rest) (.verify src dst) = .ok (if h.srcPort = 0 ∨ h.dstPort = 0
      then .error .malformed else .ok (h.asRead rest.length)) := by
    rw [parse, whole]
    exact read_written room sum rfl
  refine ⟨head, rfl, ?_, read, ⟨p, whole, (ofPacket_asRead rfl).2⟩, ?_⟩
  · intro buffer fixed behind
    have emitted := Packet.run_emit h (List.length_take_of_le fixed) rest
    rw [← behind, List.take_append_drop, behind] at emitted
    rw [EStateM.run_bind, emitted]
    dsimp only
    rw [Packet.run_fillChecksum, sum]
  · intro long srcPort dstPort formed
    rw [encode_eq long, sum, read, if_neg (not_or.mpr ⟨srcPort, dstPort⟩), long, asRead_self formed]
    exact ⟨rfl, rfl⟩

theorem parse_emit_flags :
    let src : Address := ⟨10, 0, 0, 1⟩
    let dst : Address := ⟨10, 0, 0, 2⟩
    let h : Header := ⟨80, 49152, .ofList [.ack, .fin], ⟨7⟩, none, 1024, 0, 0⟩
    let h' : Header := ⟨80, 49152, .ofList [.ack, .fin], ⟨7⟩, some ⟨9⟩, 1024, 0, 3⟩
    (∃ head : Octets,
      (do h.emit; Packet.fillChecksum src dst : Packet.Edit Unit).run
        (List.replicate 20 0xff ++ [1, 2, 3]) = .ok () (head ++ [1, 2, 3]) ∧
      parse (head ++ [1, 2, 3]) (.verify src dst)
        = .ok (.ok ⟨80, 49152, .ofList [.fin], ⟨7⟩, none, 1024, 0, 3⟩)) ∧
    ∃ octets, h'.encode [1, 2, 3] src dst = .ok octets ∧
      parse octets (.verify src dst) = .ok (.ok h') := by
  intro src dst h h'
  obtain ⟨head, _, written, read, _⟩ := @parse_emit h src dst [1, 2, 3] (by decide)
  obtain ⟨head', _, _, _, _, encoded⟩ := @parse_emit h' src dst [1, 2, 3] (by decide)
  exact ⟨⟨head, written _ (by decide) rfl, read.trans (by decide)⟩, _,
    encoded rfl (by decide) (by decide) (by decide)⟩

theorem encode_ofPacket (short : p.octets.length ≤ 131074) (plain : p.octet ⟨12, by decide⟩ = 80)
    (silent : p.flags.has .ack = true ∨ p.ack = ⟨0⟩) (verified : p.verifies src dst = .ok true) :
    (ofPacket p).encode p.text src dst = .ok (if p.checksum = 0xffff
      then Packet.headerOctets (ofPacket p) 0 0 ++ p.text else p.octets) := by
  have same := p.octets_checksum plain silent
  have long : p.octets.length = (Packet.headerOctets (ofPacket p) 0 0 ++ p.text).length := by
    rw [same]
    simp only [List.length_append, Packet.length_headerOctets]
  obtain ⟨checksum, sum⟩ := Checksum.ofSegment_succeeds src dst (long ▸ short)
  have raised := Packet.wordSum_headerOctets (ofPacket p) p.checksum p.text
  rw [← same] at raised
  obtain ⟨left, total, valid⟩ := Checksum.ofSegment_raised (long ▸ short) long sum raised
  rw [Packet.verifies, total] at verified
  have congruent := valid.mp (Except.ok.inj verified)
  have proper := Checksum.ofSegment_ne sum
  have bound := checksum.toNat_lt
  have bound' := p.checksum.toNat_lt
  rw [ne_eq, ← UInt16.toNat_inj, show UInt16.toNat 0xffff = 65535 from rfl] at proper
  rw [encode_eq rfl, sum]
  split
  next all =>
    rw [all, show UInt16.toNat 0xffff = 65535 from rfl] at congruent
    have zero : checksum = 0 := UInt16.toNat_inj.mp (by rw [UInt16.toNat_zero]; omega)
    rw [zero]
    rfl
  next some =>
    rw [← UInt16.toNat_inj, show UInt16.toNat 0xffff = 65535 from rfl] at some
    have equal : checksum = p.checksum := UInt16.toNat_inj.mp (by omega)
    rw [equal]
    exact congrArg Except.ok same.symm

/-- Octets that are read are written again as they were, if they have no options and no acknowledgment
    number that does not count. Only `0xffff` comes back in the other form of zero; it is never written. -/
theorem encode_parse :
    (∀ {octets : Octets} {h : Header} {p : Packet} {src dst : Address}, octets.length ≤ 131074 →
      parse octets (.verify src dst) = .ok (.ok h) → Packet.ofOctets octets = .ok p →
      octets[12]? = some 0x50 → (p.flags.has .ack = true ∨ p.ack = ⟨0⟩) →
      h.encode p.text src dst = .ok (if p.checksum = 0xffff
        then octets.take 16 ++ [0, 0] ++ octets.drop 18 else octets)) ∧
    ∀ {h : Header} {text octets : Octets} {src dst : Address}, h.encode text src dst = .ok octets →
      ∃ p, Packet.ofOctets octets = .ok p ∧ p.checksum ≠ 0xffff := by
  constructor
  · intro octets h p src dst short read whole plain silent
    rw [parse, whole] at read
    obtain rfl := Packet.ofOctets_octets whole
    have offset : p.octet ⟨12, by decide⟩ = 80 :=
      (List.getElem_of_getElem? plain).2
    have same := p.octets_eq offset silent
    rw [read_ofPacket read, encode_ofPacket short offset silent (read_verifies read)]
    have cleared : p.octets.take 16 ++ [0, 0] ++ p.octets.drop 18
        = Packet.headerOctets (ofPacket p) 0 0 ++ p.text := by
      rw [same]
      rfl
    rw [cleared]
  · intro h text octets src dst written
    rw [encode_eq (encode_ok written).1] at written
    obtain ⟨checksum, sum, rfl⟩ := except_map_ok.mp written
    refine ⟨_, Packet.ofOctets_whole (Packet.whole_headerOctets h _ _ text), ?_⟩
    rw [Packet.checksum_headerOctets rfl]
    exact Checksum.ofSegment_ne sum

theorem encode_parse_zero :
    let src : Address := ⟨10, 0, 0, 1⟩
    let dst : Address := ⟨10, 0, 0, 2⟩
    let head : Octets := [0, 80, 192, 0, 0, 0, 3, 232, 0, 0, 0, 0, 80, 2, 199, 156]
    let h : Header := ⟨80, 49152, .ofList [.syn], ⟨1000⟩, none, 51100, 0, 3⟩
    parse (head ++ [255, 255, 0, 0, 7, 8, 9]) (.verify src dst) = .ok (.ok h) ∧
      h.encode [7, 8, 9] src dst = .ok (head ++ [0, 0, 0, 0, 7, 8, 9]) ∧
      ∃ p, Packet.ofOctets (head ++ [0, 0, 0, 0, 7, 8, 9]) = .ok p ∧ p.checksum ≠ 0xffff := by
  intro src dst head h
  let p : Packet := ⟨head ++ [255, 255, 0, 0, 7, 8, 9], by decide, by decide, by decide⟩
  have read : parse p.octets (.verify src dst) = .ok (.ok h) := by decide +kernel
  have text : p.text = [7, 8, 9] := by decide +kernel
  have field : p.checksum = 0xffff := by decide +kernel
  have written := encode_parse.1 (by decide) read (Packet.ofOctets_whole p.whole) rfl (.inr (by decide))
  rw [text, if_pos field] at written
  exact ⟨read, written, encode_parse.2 written⟩

end Header
end TcpEngine

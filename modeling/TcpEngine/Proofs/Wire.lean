import TcpEngine.Proofs.Stack.Events

/-!
What is written on the wire is read back from it. Octets that were written for a segment are read as
that segment or not at all.
-/
namespace TcpEngine

namespace Flags

theorem put_ack {flags : Flags} {raised : Bool} (same : raised = flags.has .ack) :
    flags.put .ack raised = flags := by
  obtain ⟨bits⟩ := flags
  subst same
  have all : ∀ n : Fin 256, (put ⟨.ofNat n⟩ .ack (has ⟨.ofNat n⟩ .ack)).bits = .ofNat n := by
    decide +kernel
  have here := all ⟨bits.toNat, bits.toNat_lt⟩
  simp only [UInt8.ofNat_toNat] at here
  exact congrArg Flags.mk here

theorem has_put (flags : Flags) (flag : Flag) (raised : Bool) :
    (flags.put flag raised).has flag = raised := by
  obtain ⟨bits⟩ := flags
  have all : ∀ n : Fin 256, has (put ⟨.ofNat n⟩ flag raised) flag = raised := by
    cases flag <;> cases raised <;> decide +kernel
  have here := all ⟨bits.toNat, bits.toNat_lt⟩
  simp only [UInt8.ofNat_toNat] at here
  exact here

end Flags

namespace Packet

def headerOctets (h : Header) (c c' : UInt8) : Octets :=
  Octets.ofWord16 h.srcPort ++ Octets.ofWord16 h.dstPort ++ Octets.ofWord32 h.seq.val
    ++ Octets.ofWord32 (h.ack.getD ⟨0⟩).val ++ [80, (h.flags.put .ack h.ack.isSome).bits]
    ++ Octets.ofWord16 h.window ++ [c, c'] ++ Octets.ofWord16 h.urgent

theorem run_write {start : Nat} {value octets : Octets}
    (fits : start + value.length ≤ octets.length) : (write start value).run octets
      = .ok () (octets.take start ++ value ++ octets.drop (start + value.length)) := by
  simp only [write, EStateM.run_bind, EStateM.run_get, Octets.overwrite, if_pos fits]
  rfl

/-- A header is written over whatever stands there, and the text behind it stays. -/
theorem run_emit (h : Header) {old : Octets} (fixed : old.length = fixedLength) (rest : Octets) :
    h.emit.run (old ++ rest) = .ok () (headerOctets h 0 0 ++ rest) := by
  match old, fixed with
  | [a₀, a₁, a₂, a₃, a₄, a₅, a₆, a₇, a₈, a₉, b₀, b₁, b₂, b₃, b₄, b₅, b₆, b₇, b₈, b₉], _ =>
    simp [Header.emit, setSrcPort, setDstPort, setSeq, setAck, setWindow, setHeaderLength, setFlags,
      setChecksum, setUrgent, EStateM.run_bind, run_write, Octets.ofWord16, Octets.ofWord32,
      headerOctets]

theorem run_putText (h : Header) {text rest : Octets} (same : rest.length = text.length) :
    (putText text).run (headerOctets h 0 0 ++ rest) = .ok () (headerOctets h 0 0 ++ text) := by
  have offset : (headerOctets h 0 0 ++ rest)[12]? = some 80 := rfl
  have start : claimedLength 80 = (headerOctets h 0 0).length := rfl
  have room : (headerOctets h 0 0 ++ rest).length - claimedLength 80 = text.length := by
    rw [start, List.length_append]
    omega
  simp only [putText, EStateM.run_bind, EStateM.run_get, offset]
  rw [if_pos (by rw [start, List.length_append]; omega), room, List.take_length, run_write, start,
    List.take_left, ← same, ← List.length_append, List.drop_length, List.append_nil]
  exact Nat.le_of_eq (by rw [start, List.length_append, same])

theorem run_setChecksum (h : Header) (c c' : UInt8) (w : UInt16) (text : Octets) :
    (setChecksum w).run (headerOctets h c c' ++ text) = .ok ()
      (headerOctets h (.ofNat (w.toNat / 256)) (.ofNat w.toNat) ++ text) := by
  simp [setChecksum, run_write, Octets.ofWord16, Octets.ofWord32, headerOctets]

/-- The checksum of a segment whose checksum field is zero is written there. -/
theorem run_fillChecksum (h : Header) (text : Octets) (src dst : Address) :
    (fillChecksum src dst).run (headerOctets h 0 0 ++ text) =
      match Checksum.ofSegment (headerOctets h 0 0 ++ text) src dst with
      | .ok checksum => .ok () (headerOctets h (.ofNat (checksum.toNat / 256))
          (.ofNat checksum.toNat) ++ text)
      | .error fault => .error fault (headerOctets h 0 0 ++ text) := by
  have cleared : (setChecksum 0).run (headerOctets h 0 0 ++ text)
      = .ok () (headerOctets h 0 0 ++ text) := run_setChecksum h 0 0 0 text
  simp only [fillChecksum, EStateM.run_bind, cleared, EStateM.run_get]
  cases Checksum.ofSegment (headerOctets h 0 0 ++ text) src dst with
  | error fault => rfl
  | ok checksum => exact run_setChecksum h 0 0 checksum text

end Packet

theorem Header.encode_eq {h : Header} {text : Octets} {src dst : Address}
    (long : text.length = h.textLength) :
    h.encode text src dst = (Checksum.ofSegment (Packet.headerOctets h 0 0 ++ text) src dst).map
      fun checksum => Packet.headerOctets h (.ofNat (checksum.toNat / 256)) (.ofNat checksum.toNat)
        ++ text := by
  have zeros : List.replicate h.segmentLength 0
      = List.replicate Packet.fixedLength 0 ++ List.replicate h.textLength (0 : UInt8) := by
    rw [List.replicate_append_replicate]
    rfl
  have emitted : h.emit.run (List.replicate Packet.fixedLength 0 ++ List.replicate h.textLength 0) = _ :=
    Packet.run_emit h List.length_replicate _
  have filled : (Packet.putText text).run
      (Packet.headerOctets h 0 0 ++ List.replicate h.textLength 0) = _ :=
    Packet.run_putText h (by rw [List.length_replicate, long])
  unfold encode
  simp only [if_pos long, zeros, EStateM.run_bind, emitted, filled, Packet.run_fillChecksum]
  cases Checksum.ofSegment (Packet.headerOctets h 0 0 ++ text) src dst <;> rfl

theorem Header.encode_ok {h : Header} {text octets : Octets} {src dst : Address}
    (encoded : h.encode text src dst = .ok octets) :
    text.length = h.textLength ∧ ∃ c c', octets = Packet.headerOctets h c c' ++ text := by
  by_cases long : text.length = h.textLength
  · rw [encode_eq long] at encoded
    obtain ⟨checksum, _, rfl⟩ := except_map_ok.mp encoded
    exact ⟨long, _, _, rfl⟩
  · rw [encode, if_neg long] at encoded
    cases encoded

theorem Packet.ofOctets_whole {octets : Octets} (whole : Whole octets) :
    ofOctets octets = .ok ⟨octets, whole⟩ := by
  simp only [ofOctets, Nat.not_lt.mpr whole.fixed, Nat.not_lt.mpr whole.offset,
    Nat.not_lt.mpr whole.claimed, dite_false]

theorem Packet.ofOctets_octets {octets : Octets} {p : Packet} (h : ofOctets octets = .ok p) :
    p.octets = octets := by
  unfold ofOctets at h
  split at h
  · cases h
  · split at h
    · cases h
    · split at h
      · cases h
      · cases h
        rfl

theorem Header.read_ofPacket {p : Packet} {policy : ChecksumPolicy} {header : Header}
    (h : read p policy = .ok (.ok header)) : header = ofPacket p := by
  unfold read at h
  split at h
  · cases h
  · obtain ⟨right, _, same⟩ := except_map_ok.mp h
    split at same
    · cases same
      rfl
    · cases same

def Segment.Formed (s : Segment) : Prop := s.header.ack.isSome = s.header.flags.has .ack

theorem Header.ofPacket_headerOctets {h : Header} {c c' : UInt8} {text : Octets} {p : Packet}
    (same : p.octets = Packet.headerOctets h c c' ++ text) (long : text.length = h.textLength)
    (formed : h.ack.isSome = h.flags.has .ack) : ofPacket p = h ∧ p.text = text := by
  obtain ⟨octets, whole⟩ := p
  dsimp only at same
  subst same
  have flags : Packet.flags ⟨_, whole⟩ = h.flags := Flags.put_ack formed
  have start : Packet.headerLength ⟨_, whole⟩ = (Packet.headerOctets h c c').length := by
    change Packet.claimedLength 80 = Packet.fixedLength
    decide
  have body : Packet.text ⟨_, whole⟩ = text := by
    rw [Packet.text, start]
    exact List.drop_left
  have srcPort : Packet.srcPort ⟨_, whole⟩ = h.srcPort := Octets.word16_ofWord16 h.srcPort
  have dstPort : Packet.dstPort ⟨_, whole⟩ = h.dstPort := Octets.word16_ofWord16 h.dstPort
  have seq : Packet.seq ⟨_, whole⟩ = h.seq :=
    congrArg SeqNumber.mk (Octets.word32_ofWord32 h.seq.val)
  have ack : Packet.ack ⟨_, whole⟩ = h.ack.getD ⟨0⟩ :=
    congrArg SeqNumber.mk (Octets.word32_ofWord32 (h.ack.getD ⟨0⟩).val)
  have window : Packet.window ⟨_, whole⟩ = h.window := Octets.word16_ofWord16 h.window
  have urgent : Packet.urgent ⟨_, whole⟩ = h.urgent := Octets.word16_ofWord16 h.urgent
  have given : (if h.flags.has .ack then some (h.ack.getD ⟨0⟩) else none) = h.ack := by
    rw [← formed]
    cases h.ack <;> rfl
  refine ⟨?_, body⟩
  rw [ofPacket, flags, body, srcPort, dstPort, seq, ack, window, urgent, given, long]

theorem reads_datagram {s s' : Segment} {d : Datagram} (formed : s.Formed)
    (posted : Stack.datagram s = .ok d) (reads : Reads d.octets d.src d.dst s') : s' = s := by
  obtain ⟨octets, encoded, rfl⟩ := except_map_ok.mp posted
  obtain ⟨long, c, c', written⟩ := Header.encode_ok encoded
  obtain ⟨p, header, whole, read, rfl⟩ := reads
  have same := (Packet.ofOctets_octets whole).trans written
  obtain ⟨fields, text⟩ := Header.ofPacket_headerOctets same long formed
  rw [Header.read_ofPacket read, fields, text]

theorem Packet.whole_headerOctets (h : Header) (c c' : UInt8) (text : Octets) :
    Packet.Whole (Packet.headerOctets h c c' ++ text) := by
  have offset : (Packet.headerOctets h c c' ++ text).getD 12 0 = 80 := rfl
  have claimed : Packet.claimedLength 80 = Packet.fixedLength := by decide
  have long : Packet.fixedLength ≤ (Packet.headerOctets h c c' ++ text).length := by
    rw [List.length_append]
    exact Nat.le_add_right _ _
  constructor
  · exact long
  · exact Nat.le_of_eq ((congrArg claimedLength offset).trans claimed).symm
  · rw [offset, claimed]
    exact long

theorem datagram_injective {s s' : Segment} {d : Datagram} (formed : s.Formed)
    (formed' : s'.Formed) (posted : Stack.datagram s = .ok d)
    (posted' : Stack.datagram s' = .ok d) : s = s' := by
  obtain ⟨octets, encoded, rfl⟩ := except_map_ok.mp posted
  obtain ⟨octets', encoded', same⟩ := except_map_ok.mp posted'
  simp only [Datagram.mk.injEq, true_and] at same
  obtain ⟨src, dst, rfl⟩ := same
  obtain ⟨long, c, c', written⟩ := Header.encode_ok encoded
  obtain ⟨long', e, e', written'⟩ := Header.encode_ok encoded'
  let p : Packet := ⟨octets, written ▸ Packet.whole_headerOctets _ _ _ _⟩
  obtain ⟨fields, text⟩ : Header.ofPacket p = s.header ∧ p.text = s.text :=
    Header.ofPacket_headerOctets written long formed
  obtain ⟨fields', text'⟩ : Header.ofPacket p = s'.header ∧ p.text = s'.text :=
    Header.ofPacket_headerOctets written' long' formed'
  obtain ⟨header, body, sender, receiver⟩ := s
  obtain ⟨header', body', sender', receiver'⟩ := s'
  rw [Segment.mk.injEq]
  exact ⟨fields.symm.trans fields', text.symm.trans text', src, dst⟩

theorem resetReply_formed {s answer : Segment} (h : s.resetReply = .ok (some answer)) :
    answer.Formed ∧ answer.header.flags.has .rst = true := by
  have plain : (Flags.ofList [.rst]).has .ack = false ∧ (Flags.ofList [.rst]).has .rst = true := by
    decide
  have both : (Flags.ofList [.rst, .ack]).has .ack = true ∧
      (Flags.ofList [.rst, .ack]).has .rst = true := by decide
  unfold Segment.resetReply at h
  dsimp only at h
  split at h
  · cases h
  · split at h
    · cases h
      exact ⟨plain.1.symm, plain.2⟩
    · simp only [except_bind_ok, except_pure_ok] at h
      obtain ⟨ack, _, same⟩ := h
      cases same
      exact ⟨both.1.symm, both.2⟩

def Segment.Bare (s : Segment) : Prop :=
  s.text = [] ∧ s.header.flags.has .syn = false ∧ s.header.flags.has .fin = false

theorem resetReply_bare {s answer : Segment} (h : s.resetReply = .ok (some answer)) :
    answer.Bare := by
  have plain : (Flags.ofList [.rst]).has .syn = false ∧ (Flags.ofList [.rst]).has .fin = false := by
    decide
  have both : (Flags.ofList [.rst, .ack]).has .syn = false ∧
      (Flags.ofList [.rst, .ack]).has .fin = false := by decide
  unfold Segment.resetReply at h
  dsimp only at h
  split at h
  · cases h
  · split at h
    · cases h
      exact ⟨rfl, plain⟩
    · simp only [except_bind_ok, except_pure_ok] at h
      obtain ⟨ack, _, same⟩ := h
      cases same
      exact ⟨rfl, both⟩

theorem Connection.segment_formed {c : Connection} {flags : Flags} {seq : SeqNumber}
    {octets : Octets} {s : Segment} (sent : c.segment flags seq octets = some s) :
    s.Formed ∧ s.header.flags = flags := by
  obtain ⟨_, _, rfl⟩ := Option.map_eq_some_iff.mp sent
  refine ⟨?_, rfl⟩
  unfold Segment.Formed
  cases raised : flags.has .ack <;> rfl

end TcpEngine

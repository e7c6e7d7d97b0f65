import TcpEngine.Proofs.Detection
import TcpEngine.Proofs.Faultless

/-!
What the network may hand in. Octets are taken if they spell a segment and its checksum is right, and
then all that happens is that the segment arrives and its answers are sent. Otherwise nothing happens.
-/
namespace TcpEngine

variable {octets : Octets} {src dst : Address} {now : Instant} {σ : List Signal}

open Octets (wordAt)

/-- The octets spell a segment with ports, and its checksum is right. -/
structure Grammatical (octets : Octets) (src dst : Address) : Prop where
  fixed : 20 ≤ octets.length
  offset : 5 ≤ (octets.getD 12 0).toNat / 16
  claimed : (octets.getD 12 0).toNat / 16 * 4 ≤ octets.length
  srcPort : octets.wordAt 0 ≠ 0
  dstPort : octets.wordAt 1 ≠ 0
  verified : Checksum.verifies octets src dst = .ok true

namespace Packet

theorem octet_eq (p : Packet) (i : Fin fixedLength) : p.octet i = p.octets.getD i 0 :=
  (List.getD_eq_getElem p.octets 0 (Nat.lt_of_lt_of_le i.isLt p.whole.fixed)).symm

theorem srcPort_eq (p : Packet) : p.srcPort = p.octets.wordAt 0 := by
  rw [srcPort, word16, octet_eq, octet_eq, wordAt]

theorem dstPort_eq (p : Packet) : p.dstPort = p.octets.wordAt 1 := by
  rw [dstPort, word16, octet_eq, octet_eq, wordAt]

theorem ofOctets_refused (short : ¬ Whole octets) : ∃ e, ofOctets octets = .error e := by
  cases read : ofOctets octets with
  | error e => exact ⟨e, rfl⟩
  | ok p => exact absurd (ofOctets_octets read ▸ p.whole) short

end Packet

namespace Grammatical

theorem whole (grammatical : Grammatical octets src dst) : Packet.Whole octets where
  fixed := grammatical.fixed
  offset := by
    have := grammatical.offset
    rw [Packet.fixedLength, Packet.claimedLength]
    omega
  claimed := grammatical.claimed

def segment (grammatical : Grammatical octets src dst) : Segment where
  header := .ofPacket ⟨octets, grammatical.whole⟩
  text := octets.drop ((octets.getD 12 0).toNat / 16 * 4)
  src := src
  dst := dst

theorem of_whole (whole : Packet.Whole octets)
    (ports : ¬ ((⟨octets, whole⟩ : Packet).srcPort = 0 ∨ (⟨octets, whole⟩ : Packet).dstPort = 0))
    (verified : Checksum.verifies octets src dst = .ok true) : Grammatical octets src dst where
  fixed := whole.fixed
  offset := by
    have := whole.offset
    rw [Packet.fixedLength, Packet.claimedLength] at this
    omega
  claimed := whole.claimed
  srcPort := fun none => ports (.inl ((Packet.srcPort_eq _).trans none))
  dstPort := fun none => ports (.inr ((Packet.dstPort_eq _).trans none))
  verified := verified

theorem reads (grammatical : Grammatical octets src dst) :
    Reads octets src dst grammatical.segment := by
  refine ⟨⟨octets, grammatical.whole⟩, .ofPacket ⟨octets, grammatical.whole⟩,
    Packet.ofOctets_whole grammatical.whole, ?_, ?_⟩
  rotate_left
  · rw [Packet.text, Packet.headerLength, Packet.octet_eq]
    rfl
  have ports : ¬ ((⟨octets, grammatical.whole⟩ : Packet).srcPort = 0
      ∨ (⟨octets, grammatical.whole⟩ : Packet).dstPort = 0) := by
    rw [Packet.srcPort_eq, Packet.dstPort_eq]
    exact not_or.mpr ⟨grammatical.srcPort, grammatical.dstPort⟩
  rw [Header.read, if_neg ports, ChecksumPolicy.accepts, Checksum.verifies_packet, grammatical.verified]
  rfl

end Grammatical

def Outlet.transmitEach (outlet : Outlet) (datagrams : List Datagram) : Outlet :=
  datagrams.foldl (fun outlet d => (outlet.transmit d).1) outlet

namespace Stack

variable {k : Stack} {s : Segment}

theorem emitAll_eq (k : Stack) (segments : List Segment) : k.emitAll segments
    = (segments.mapM datagram).map fun ds => { k with outlet := k.outlet.transmitEach ds } := by
  induction segments generalizing k with
  | nil => rfl
  | cons s rest ih =>
    rw [emitAll, List.mapM_cons, emit]
    cases datagram s with
    | error fault => rfl
    | ok d =>
      change emitAll { k with outlet := (k.outlet.transmit d).1 } rest = _
      rw [ih]
      cases rest.mapM datagram <;> rfl

def takeIn (k : Stack) (s : Segment) (now : Instant) : Act (Stack × Except WireError Unit) := do
  let (table, answers) ← k.table.arrives s now
  let datagrams ← (answers.mapM datagram : Except Fault (List Datagram))
  return (⟨table, k.outlet.transmitEach datagrams⟩, .ok ())

theorem ingress_grammatical (k : Stack) (grammatical : Grammatical octets src dst) (now : Instant) :
    k.ingress octets src dst now = k.takeIn grammatical.segment now := by
  obtain ⟨p, header, whole, read, same⟩ := grammatical.reads
  rw [ingress, whole]
  dsimp only
  rw [read, Act.lift_bind]
  dsimp only
  rw [← same, takeIn]
  refine congrArg _ (funext fun taken => ?_)
  obtain ⟨table, answers⟩ := taken
  dsimp only
  rw [emitAll_eq]
  cases answers.mapM datagram <;> rfl

theorem ingress_refused (k : Stack) (short : octets.length ≤ 131074)
    (apart : ¬ Grammatical octets src dst) (now : Instant) :
    ∃ e, k.ingress octets src dst now = pure (k, .error e) := by
  by_cases whole : Packet.Whole octets
  · rw [ingress, Packet.ofOctets_whole whole]
    dsimp only
    rw [Header.read]
    split
    · exact ⟨.malformed, Act.lift_bind⟩
    · rename_i ports
      rw [ChecksumPolicy.accepts, Checksum.verifies_packet, Checksum.verifies_eq short]
      have wrong : Checksum.verifies octets src dst = .ok false := by
        have verified := fun right => apart (.of_whole whole ports right)
        rw [Checksum.verifies_eq short] at verified ⊢
        cases right : decide (Checksum.total octets src dst % 65535 = 0) with
        | true => exact absurd (congrArg Except.ok right) verified
        | false => rfl
      rw [← Checksum.verifies_eq short, wrong]
      exact ⟨.wrongChecksum, Act.lift_bind⟩
  · obtain ⟨e, refused⟩ := Packet.ofOctets_refused whole
    rw [ingress, refused]
    exact ⟨e, rfl⟩

theorem answers_sized {t : Table} {answers : List Segment} (proper : k.Proper)
    (ends : (k.table.arrives s now).Ends σ (t, answers)) : ∀ answer ∈ answers, answer.Sized := by
  cases Table.arrives_passes ends with
  | unclaimed alone reset =>
    intro answer given
    rw [Option.mem_toList] at given
    exact resetReply_sized (given ▸ reset)
  | claimed iss found _ arrives => exact Connection.arrives_sized (proper.found found) arrives

theorem datagrams_succeed {segments : List Segment} (sized : ∀ s ∈ segments, s.Sized) :
    ∃ ds, segments.mapM datagram = .ok ds := by
  induction segments with
  | nil => exact ⟨[], rfl⟩
  | cons s rest ih =>
    obtain ⟨d, first⟩ := datagram_succeeds (sized s List.mem_cons_self)
    obtain ⟨ds, later⟩ := ih fun s member => sized s (List.mem_cons_of_mem _ member)
    exact ⟨d :: ds, by rw [List.mapM_cons, first, later]; rfl⟩

theorem takeIn_succeeds (proper : k.Proper) :
    (∃ τ k', (k.takeIn s now).Ends τ (k', .ok ())) ↔ (k.table.arrives s now).Succeeds := by
  constructor
  · rintro ⟨τ, k', ends⟩
    obtain ⟨σ, result, _, arrives, _⟩ := Act.ends_bind.mp ends
    exact ⟨σ, result, arrives⟩
  · rintro ⟨σ, ⟨table, answers⟩, arrives⟩
    obtain ⟨ds, written⟩ := datagrams_succeed (answers_sized proper arrives)
    refine ⟨σ ++ [], ⟨table, k.outlet.transmitEach ds⟩, Act.ends_bind.mpr ?_⟩
    refine ⟨σ, _, [], arrives, ?_, rfl⟩
    dsimp only
    rw [written, Act.lift_bind]
    exact Act.ends_pure.mpr ⟨rfl, rfl⟩

/-- One inverted bit, and the octets are not taken: if they still spell a segment, its checksum is wrong. -/
theorem flipped_refused (k : Stack) (brief : octets.length ≤ 131074)
    (grammatical : Grammatical octets src dst) {n : Nat} (inside : n < 8 * octets.length) (now : Instant) :
    ∃ e, k.ingress (octets.flip n) src dst now = pure (k, .error e) := by
  refine k.ingress_refused ((Octets.length_flip octets n).symm ▸ brief) (fun intact => ?_) now
  have verified := intact.verified
  rw [Checksum.verifies_flip brief grammatical.verified inside] at verified
  cases verified

/-- Octets that do not spell a segment, or not with the right checksum, are refused and leave the stack
    as it was. All that others do is to let their segment arrive and to hand over its answers. They are
    taken unless a fault stops the arrival, which none does under settings in range. -/
theorem ingress_takes_grammatical {config : Config} {generator : SeqGenerator}
    {history : List (Event × Instant)} (ends : ((Stack.empty config generator).run 0 history).Ends σ k)
    (brief : octets.length ≤ 65535) (src dst : Address) (now : Instant) :
    (¬ Grammatical octets src dst → ∃ e, k.ingress octets src dst now = pure (k, .error e)) ∧
    (∀ grammatical : Grammatical octets src dst,
      k.ingress octets src dst now = (do
        let (table, answers) ← k.table.arrives grammatical.segment now
        let datagrams ← (answers.mapM datagram : Except Fault (List Datagram))
        return (⟨table, k.outlet.transmitEach datagrams⟩, .ok ())) ∧
      grammatical.segment.header.textLength = grammatical.segment.text.length ∧
      (config.Sane → (k.table.arrives grammatical.segment now).Succeeds) ∧
      ∀ n < 8 * octets.length, ∃ e, k.ingress (octets.flip n) src dst now = pure (k, .error e)) ∧
    ((∃ τ k', (k.ingress octets src dst now).Ends τ (k', .ok ())) ↔
      ∃ grammatical : Grammatical octets src dst, (k.table.arrives grammatical.segment now).Succeeds) := by
  have proper := run_proper (proper_empty config generator) ends
  have short : octets.length ≤ 131074 := Nat.le_trans brief (by decide)
  refine ⟨fun apart => k.ingress_refused short apart now, fun grammatical => ⟨?_, ?_, ?_, ?_⟩, ?_⟩
  · exact k.ingress_grammatical grammatical now
  · exact (grammatical.reads.sized brief).long.symm
  · intro sane
    have able := (run_going (going_empty sane generator) ends).able
    exact Table.arrives_succeeds able.each (grammatical.reads.sized brief)
  · exact fun n inside => k.flipped_refused short grammatical inside now
  · constructor
    · rintro ⟨τ, k', taken⟩
      by_cases grammatical : Grammatical octets src dst
      · rw [k.ingress_grammatical grammatical now] at taken
        exact ⟨grammatical, (takeIn_succeeds proper).mp ⟨τ, k', taken⟩⟩
      · obtain ⟨e, refused⟩ := k.ingress_refused short grammatical now
        rw [refused] at taken
        cases (Act.ends_pure.mp taken).2
    · rintro ⟨grammatical, arrives⟩
      obtain ⟨τ, k', taken⟩ := (takeIn_succeeds proper).mpr arrives
      exact ⟨τ, k', by rw [k.ingress_grammatical grammatical now]; exact taken⟩

def agreeing : Octets :=
  -- The acknowledgment of a SYN that was sent.
  [0, 80, 192, 0, 0, 0, 3, 232, 10, 62, 28, 189, 80, 18, 1, 244, 174, 168, 0, 0]

theorem agreeing_grammatical : Grammatical agreeing ⟨10, 0, 0, 2⟩ ⟨10, 0, 0, 1⟩ := by
  constructor <;> decide +kernel

theorem agreeing_taken : ∃ σ k τ k',
    ((Stack.empty { receiveWindow := 8 } (.ofKey 1 2)).run 0 asking).Ends σ k ∧
      agreeing.length ≤ 65535 ∧
      (k.ingress agreeing ⟨10, 0, 0, 2⟩ ⟨10, 0, 0, 1⟩ .start).Ends τ (k', .ok ()) ∧
      ∀ n < 160, ∃ e, k.ingress (agreeing.flip n) ⟨10, 0, 0, 2⟩ ⟨10, 0, 0, 1⟩ .start
        = pure (k, .error e) := by
  have sane : Config.Sane { receiveWindow := 8 } := ⟨by decide, by decide, by decide, by decide⟩
  have ends : ((Stack.empty { receiveWindow := 8 } (.ofKey 1 2)).run 0 asking).Ends _ _ :=
    Act.ends_result (.empty {} (.ofKey 1 2)) (by decide +kernel)
  obtain ⟨-, taken, accepted⟩ := ingress_takes_grammatical ends (by decide : agreeing.length ≤ 65535)
    ⟨10, 0, 0, 2⟩ ⟨10, 0, 0, 1⟩ .start
  obtain ⟨-, -, arrives, flipped⟩ := taken agreeing_grammatical
  obtain ⟨τ, k', done⟩ := accepted.mpr ⟨agreeing_grammatical, arrives sane⟩
  exact ⟨_, _, τ, k', ends, by decide, done, flipped⟩

def misordered : Config where
  minTimeout := .ofSeconds 2
  maxTimeout := .ofSeconds 1
  receiveWindow := 8

/-- The first round trip that is measured under such settings stops the arrival. -/
theorem agreeing_stopped : ∃ σ k,
    ((Stack.empty misordered (.ofKey 1 2)).run 0 asking).Ends σ k ∧ agreeing.length ≤ 65535 ∧
      Grammatical agreeing ⟨10, 0, 0, 2⟩ ⟨10, 0, 0, 1⟩ ∧
      ¬ ∃ τ k', (k.ingress agreeing ⟨10, 0, 0, 2⟩ ⟨10, 0, 0, 1⟩ .start).Ends τ (k', .ok ()) := by
  have ends : ((Stack.empty misordered (.ofKey 1 2)).run 0 asking).Ends _ _ :=
    Act.ends_result (.empty {} (.ofKey 1 2)) (by decide +kernel)
  refine ⟨_, _, ends, by decide, agreeing_grammatical, ?_⟩
  rintro ⟨τ, k', taken⟩
  have stopped (k : Stack)
      (same : k = ((Stack.empty misordered (.ofKey 1 2)).run 0 asking).result (.empty {} (.ofKey 1 2))) :
      (k.ingress agreeing ⟨10, 0, 0, 2⟩ ⟨10, 0, 0, 1⟩ .start).outcome.isOk = false := by
    rw [same]
    decide +kernel
  have fault := stopped _ rfl
  rw [taken] at fault
  cases fault

end Stack
end TcpEngine

import Mathlib.Data.Int.ModEq
import TcpEngine.InitialSeq
import TcpEngine.Proofs.SipHash

/-!
Initial sequence numbers, drawn one after the other. Each is the clock at four microseconds a tick plus
a hash of the two endpoints and of the number of draws before. No two questions to the hash are written
alike, so that two numbers for the same question differ by the clock alone.
-/
namespace TcpEngine

theorem toNat_beside (k : Nat) {x y : UInt64} (inside : k < 8) (low : x.toNat < 256 ^ k)
    (high : y.toNat * 256 ^ k < 18446744073709551616) :
    (x ||| y <<< .ofNat (8 * k)).toNat = x.toNat + 256 ^ k * y.toNat := by
  have amount : (UInt64.ofNat (8 * k)).toNat % 64 = 8 * k := by
    simp
    omega
  have power : 256 ^ k = 2 ^ (8 * k) := by rw [Nat.pow_mul]
  rw [power] at low high ⊢
  rw [UInt64.toNat_or, UInt64.toNat_shiftLeft, amount, Nat.shiftLeft_eq, Nat.mod_eq_of_lt high,
    Nat.or_comm, Nat.mul_comm, ← Nat.two_pow_add_eq_or_of_lt low, Nat.add_comm]

theorem toNat_addresses (a b : UInt32) :
    (a.toUInt64 ||| b.toUInt64 <<< 32).toNat = a.toNat + 256 ^ 4 * b.toNat := by
  have low := a.toNat_lt
  have high := b.toNat_lt
  rw [← UInt32.toNat_toUInt64 a, ← UInt32.toNat_toUInt64 b] at *
  exact toNat_beside 4 (by decide) (by omega) (by omega)

theorem toNat_ports (p q : UInt16) :
    (p.toUInt64 ||| q.toUInt64 <<< 16).toNat = p.toNat + 256 ^ 2 * q.toNat := by
  have low := p.toNat_lt
  have high := q.toNat_lt
  rw [← UInt16.toNat_toUInt64 p, ← UInt16.toNat_toUInt64 q] at *
  exact toNat_beside 2 (by decide) (by omega) (by omega)

structure Attempt where
  here : Endpoint
  there : Endpoint
  now : Instant
deriving DecidableEq, Repr

namespace SeqGenerator

def numbers (g : SeqGenerator) : List Attempt → List SeqNumber
  | [] => []
  | a :: rest => g.next a.here a.there a.now :: g.advance.numbers rest

/-- What is hashed for the draw with this number: both addresses, both ports, and the number of the draw
    in 32 bits. -/
def question (here there : Endpoint) (draw : Nat) : Octets :=
  Octets.ofNumber 4 here.address.number.toNat ++ Octets.ofNumber 4 there.address.number.toNat
    ++ Octets.ofNumber 2 here.port.toNat ++ Octets.ofNumber 2 there.port.toNat
    ++ Octets.ofNumber 4 (draw % 4294967296)

def keyed (key0 key1 : UInt64) (here there : Endpoint) (draw : Nat) : Nat :=
  (SipHash.ofOctets 2 4 (Octets.ofNumber 8 key0.toNat ++ Octets.ofNumber 8 key1.toNat)
    (question here there draw)).toNat % 4294967296

variable {here there here' there' : Endpoint} {draw draw' n : Nat}
  {attempts attempts' : List Attempt} {a a' : Attempt}

theorem length_question (here there : Endpoint) (draw : Nat) : (question here there draw).length = 16 := by
  simp [question, Octets.length_ofNumber]

theorem message_octets (here there : Endpoint) (draw : Nat) :
    (message here there draw).flatMap SipHash.octets = question here there draw := by
  have address := here.address.number.toNat_lt
  have port := here.port.toNat_lt
  have port' := there.port.toNat_lt
  have count : (UInt64.ofNat (draw % UInt32.size)).toNat = draw % 4294967296 :=
    UInt64.toNat_ofNat_of_lt' (by simp only [UInt32.size, UInt64.size]; omega)
  have ports := toNat_ports here.port there.port
  have counted : (here.port.toUInt64 ||| there.port.toUInt64 <<< 16
        ||| UInt64.ofNat (draw % UInt32.size) <<< 32).toNat
      = here.port.toNat + 256 ^ 2 * there.port.toNat + 256 ^ 4 * (draw % 4294967296) := by
    have beside := toNat_beside 4 (x := here.port.toUInt64 ||| there.port.toUInt64 <<< 16)
      (y := UInt64.ofNat (draw % UInt32.size)) (by decide) (by rw [ports]; omega) (by rw [count]; omega)
    rwa [ports, count] at beside
  have both : here.port.toNat + 256 ^ 2 * there.port.toNat < 256 ^ (2 + 2) := by omega
  rw [message, List.flatMap_cons, List.flatMap_singleton, SipHash.octets, SipHash.octets, toNat_addresses,
    counted, Octets.ofNumber_add 4 4 address, show (8 : Nat) = 2 + 2 + 4 from rfl,
    Octets.ofNumber_add (2 + 2) 4 both, Octets.ofNumber_add 2 2 port, question]
  simp only [List.append_assoc]

/-- Every field keeps its place, so that nothing that is asked can be read in two ways. -/
theorem question_inj : question here there draw = question here' there' draw'
    ↔ here = here' ∧ there = there' ∧ draw % 4294967296 = draw' % 4294967296 := by
  constructor
  · intro same
    obtain ⟨front, counts⟩ := List.append_inj' same (by simp only [Octets.length_ofNumber])
    obtain ⟨front, theirPorts⟩ := List.append_inj' front (by simp only [Octets.length_ofNumber])
    obtain ⟨front, ourPorts⟩ := List.append_inj' front (by simp only [Octets.length_ofNumber])
    obtain ⟨ours, theirs⟩ := List.append_inj' front (by simp only [Octets.length_ofNumber])
    have port {left right : UInt16}
        (alike : Octets.ofNumber 2 left.toNat = Octets.ofNumber 2 right.toNat) : left = right :=
      UInt16.toNat_inj.mp ((Octets.ofNumber_inj left.toNat_lt right.toNat_lt).mp alike)
    have address {left right : Address} (alike : Octets.ofNumber 4 left.number.toNat
        = Octets.ofNumber 4 right.number.toNat) : left = right :=
      Address.number_injective <| UInt32.toNat_inj.mp <|
        (Octets.ofNumber_inj left.number.toNat_lt right.number.toNat_lt).mp alike
    cases here
    cases there
    cases here'
    cases there'
    cases address ours
    cases address theirs
    cases port ourPorts
    cases port theirPorts
    exact ⟨rfl, rfl, (Octets.ofNumber_inj (Nat.mod_lt _ (by decide)) (Nat.mod_lt _ (by decide))).mp counts⟩
  · rintro ⟨rfl, rfl, counts⟩
    rw [question, question, counts]

theorem next_value (g : SeqGenerator) (here there : Endpoint) (now : Instant) :
    ((g.next here there now).val.toNat : Int)
      ≡ 250 * now.millis + keyed g.key0 g.key1 here there g.draws [ZMOD 4294967296] := by
  have hashed : (SipHash.ofWords g.key0 g.key1 (message here there g.draws)).toUInt32.toNat
      = keyed g.key0 g.key1 here there g.draws := by
    have octets := congrArg BitVec.toNat (SipHash.ofWords_octets g.key0 g.key1 (message here there g.draws))
    rw [message_octets] at octets
    rw [UInt64.toNat_toUInt32, ← UInt64.toNat_toBitVec, octets]
    rfl
  have clock : ((ticks now).toNat : Int) = now.millis * 250 % 4294967296 := by
    have positive : 0 ≤ now.millis * 250 % 4294967296 := Int.emod_nonneg _ (by decide)
    have inside : now.millis * 250 % 4294967296 < 4294967296 := Int.emod_lt_of_pos _ (by decide)
    rw [ticks, UInt32.toNat_ofNat_of_lt' (by simp only [UInt32.size]; omega)]
    omega
  rw [next, UInt32.toNat_add, hashed, Int.ModEq]
  omega

theorem numbers_getElem (g : SeqGenerator) (attempts : List Attempt) (n : Nat) :
    (g.numbers attempts)[n]?
      = attempts[n]?.map fun a => { g with draws := g.draws + n }.next a.here a.there a.now := by
  induction attempts generalizing g n with
  | nil => rfl
  | cons a rest ih =>
    cases n with
    | zero => rfl
    | succ n =>
      have later : g.advance.draws + n = g.draws + (n + 1) := by
        change g.draws + 1 + n = _
        omega
      rw [numbers, List.getElem?_cons_succ, ih, later, List.getElem?_cons_succ]
      rfl

theorem drawn_value (key0 key1 : UInt64) (attempt : attempts[n]? = some a) :
    ∃ number, ((ofKey key0 key1).numbers attempts)[n]? = some number ∧ (number.val.toNat : Int)
      ≡ 250 * a.now.millis + keyed key0 key1 a.here a.there n [ZMOD 4294967296] := by
  have value := next_value { ofKey key0 key1 with draws := (ofKey key0 key1).draws + n } a.here a.there a.now
  rw [show (ofKey key0 key1).draws + n = n from Nat.zero_add n] at value
  refine ⟨_, ?_, value⟩
  rw [numbers_getElem, attempt, show (ofKey key0 key1).draws + n = n from Nat.zero_add n]
  rfl

/-- The number drawn after `n` others is the clock at four microseconds a tick plus the low half of the
    hash of what is asked, modulo 2^32, whatever has been drawn before. What is asked tells both endpoints
    and `n` modulo 2^32. For the same question at two instants the numbers are as far apart as these. -/
theorem initial_numbers :
    (∀ (key0 key1 : UInt64) (attempts : List Attempt) (n : Nat) (a : Attempt), attempts[n]? = some a →
      ∃ number, ((ofKey key0 key1).numbers attempts)[n]? = some number ∧ (number.val.toNat : Int)
        ≡ 250 * a.now.millis + keyed key0 key1 a.here a.there n [ZMOD 4294967296]) ∧
    (∀ (here there here' there' : Endpoint) (draw draw' : Nat),
      (question here there draw).length = 16 ∧
      (question here there draw = question here' there' draw'
        ↔ here = here' ∧ there = there' ∧ draw % 4294967296 = draw' % 4294967296)) ∧
    ∀ (key0 key1 : UInt64) (attempts attempts' : List Attempt) (n : Nat) (a a' : Attempt),
      attempts[n]? = some a → attempts'[n]? = some a' → a'.here = a.here → a'.there = a.there →
      ∃ number number', ((ofKey key0 key1).numbers attempts)[n]? = some number ∧
        ((ofKey key0 key1).numbers attempts')[n]? = some number' ∧
        (number'.val.toNat : Int) - number.val.toNat
          ≡ 250 * (a'.now.millis - a.now.millis) [ZMOD 4294967296] := by
  refine ⟨?_, ?_, ?_⟩
  · exact fun key0 key1 _ _ _ attempt => drawn_value key0 key1 attempt
  · exact fun here there _ _ draw _ => ⟨length_question here there draw, question_inj⟩
  · intro key0 key1 attempts attempts' n a a' attempt attempt' sameHere sameThere
    obtain ⟨number, drawn, value⟩ := drawn_value key0 key1 attempt
    obtain ⟨number', drawn', value'⟩ := drawn_value key0 key1 attempt'
    refine ⟨number, number', drawn, drawn', ?_⟩
    rw [sameHere, sameThere] at value'
    have apart := value'.sub value
    rwa [add_sub_add_right_eq_sub, ← mul_sub] at apart

theorem second_initial_numbers :
    let here : Endpoint := ⟨⟨192, 0, 2, 1⟩, 80⟩
    let there : Endpoint := ⟨⟨192, 0, 2, 2⟩, 4900⟩
    let g := ofKey 0x0706050403020100 0x0f0e0d0c0b0a0908
    (∃ number, (g.numbers [⟨here, there, ⟨5⟩⟩, ⟨here, there, ⟨-1000000⟩⟩])[1]? = some number ∧
      number.val.toNat = 1758146333) ∧
    question here there 1 ≠ question here there 2 ∧
    ∃ early late, (g.numbers [⟨here, there, ⟨5⟩⟩, ⟨here, there, ⟨-1000000⟩⟩])[1]? = some early ∧
      (g.numbers [⟨there, here, ⟨5⟩⟩, ⟨here, there, ⟨3⟩⟩])[1]? = some late ∧
      (late.val.toNat : Int) - early.val.toNat ≡ 250 * 1000003 [ZMOD 4294967296] := by
  intro here there g
  obtain ⟨values, questions, instants⟩ := initial_numbers
  have hashed : keyed 0x0706050403020100 0x0f0e0d0c0b0a0908 here there 1 = 2008146333 := by decide +kernel
  refine ⟨?_, ?_, ?_⟩
  · obtain ⟨number, drawn, value⟩ := values 0x0706050403020100 0x0f0e0d0c0b0a0908
      [⟨here, there, ⟨5⟩⟩, ⟨here, there, ⟨-1000000⟩⟩] 1 _ rfl
    refine ⟨number, drawn, ?_⟩
    have bound := number.val.toNat_lt
    rw [hashed] at value
    change (number.val.toNat : Int) % 4294967296 = (250 * -1000000 + 2008146333) % 4294967296 at value
    omega
  · intro same
    have counts := ((questions here there here there 1 2).2.mp same).2.2
    omega
  · exact instants 0x0706050403020100 0x0f0e0d0c0b0a0908
      [⟨here, there, ⟨5⟩⟩, ⟨here, there, ⟨-1000000⟩⟩] [⟨there, here, ⟨5⟩⟩, ⟨here, there, ⟨3⟩⟩] 1
      ⟨here, there, ⟨-1000000⟩⟩ ⟨here, there, ⟨3⟩⟩ rfl rfl rfl rfl

end SeqGenerator
end TcpEngine

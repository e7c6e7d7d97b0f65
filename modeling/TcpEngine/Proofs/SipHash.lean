import Mathlib.Algebra.Group.Nat.Defs
import TcpEngine.Octets
import TcpEngine.SipHash

/-!
SipHash on octet strings, for any numbers of rounds: the message is cut into little-endian words, of
which the last one ends with the length. The hash of a list of words is the hash of their octets with
two rounds a word and four at the end.
-/
namespace TcpEngine
namespace Octets

/- Numbers, least significant octet first. -/

def little : Octets → Nat
  | [] => 0
  | o :: rest => o.toNat + 256 * little rest

def ofNumber : Nat → Nat → Octets
  | 0, _ => []
  | width + 1, n => .ofNat n :: ofNumber width (n / 256)

theorem length_ofNumber (width n : Nat) : (ofNumber width n).length = width := by
  induction width generalizing n with
  | zero => rfl
  | succ width ih => rw [ofNumber, List.length_cons, ih]

theorem little_ofNumber (width : Nat) {n : Nat} (small : n < 256 ^ width) :
    little (ofNumber width n) = n := by
  induction width generalizing n with
  | zero =>
    rw [Nat.pow_zero] at small
    simp only [ofNumber, little]
    omega
  | succ width ih =>
    rw [Nat.pow_succ] at small
    simp only [ofNumber, little, UInt8.toNat_ofNat', ih (by omega : n / 256 < 256 ^ width)]
    omega

theorem ofNumber_inj {width m n : Nat} (small : m < 256 ^ width) (small' : n < 256 ^ width) :
    ofNumber width m = ofNumber width n ↔ m = n := by
  constructor
  · intro same
    have back := congrArg little same
    rwa [little_ofNumber width small, little_ofNumber width small'] at back
  · exact congrArg _

theorem ofNumber_add (low high : Nat) {m n : Nat} (small : m < 256 ^ low) :
    ofNumber (low + high) (m + 256 ^ low * n) = ofNumber low m ++ ofNumber high n := by
  induction low generalizing m with
  | zero =>
    have none : m = 0 := by simpa using small
    subst none
    simp [ofNumber]
  | succ low ih =>
    rw [Nat.pow_succ] at small
    have shifted : m + 256 ^ (low + 1) * n = m + 256 * (256 ^ low * n) := by
      rw [Nat.pow_succ, Nat.mul_comm (256 ^ low) 256, Nat.mul_assoc]
    have quotient : (m + 256 * (256 ^ low * n)) / 256 = m / 256 + 256 ^ low * n := by omega
    have digit : UInt8.ofNat (m + 256 * (256 ^ low * n)) = UInt8.ofNat m := by
      apply UInt8.toNat_inj.mp
      simp only [UInt8.toNat_ofNat']
      omega
    rw [show low + 1 + high = low + high + 1 by omega, shifted, ofNumber, ofNumber, quotient, digit,
      ih (by omega : m / 256 < 256 ^ low), List.cons_append]

end Octets

namespace SipHash

structure Words where
  v0 : BitVec 64
  v1 : BitVec 64
  v2 : BitVec 64
  v3 : BitVec 64
deriving DecidableEq, Repr

namespace Words

/-- The constants spell `somepseudorandomlygeneratedbytes`. -/
def start (k0 k1 : BitVec 64) : Words where
  v0 := k0 ^^^ 0x736f6d6570736575
  v1 := k1 ^^^ 0x646f72616e646f6d
  v2 := k0 ^^^ 0x6c7967656e657261
  v3 := k1 ^^^ 0x7465646279746573

def half (v : Words) (s t : Nat) : Words where
  v0 := (v.v0 + v.v1).rotateLeft 32
  v1 := v.v1.rotateLeft s ^^^ (v.v0 + v.v1)
  v2 := v.v2 + v.v3
  v3 := v.v3.rotateLeft t ^^^ (v.v2 + v.v3)

def swap (v : Words) : Words := { v with v0 := v.v2, v2 := v.v0 }

def round (v : Words) : Words := ((v.half 13 16).swap.half 17 21).swap

def rounds : Nat → Words → Words
  | 0, v => v
  | n + 1, v => rounds n v.round

def compress (c : Nat) (v : Words) (m : BitVec 64) : Words :=
  let mixed := rounds c { v with v3 := v.v3 ^^^ m }
  { mixed with v0 := mixed.v0 ^^^ m }

def finish (d : Nat) (v : Words) : BitVec 64 :=
  let mixed := rounds d { v with v2 := v.v2 ^^^ 0xff }
  mixed.v0 ^^^ mixed.v1 ^^^ mixed.v2 ^^^ mixed.v3

end Words

/-- Zeros up to the last octet of a word, which counts the octets of the message. -/
def padded (message : Octets) : Octets :=
  message ++ List.replicate (7 - message.length % 8) 0 ++ [.ofNat message.length]

def blocks : Octets → List (BitVec 64)
  | a :: b :: c :: d :: e :: f :: g :: h :: rest =>
    .ofNat 64 (Octets.little [a, b, c, d, e, f, g, h]) :: blocks rest
  | _ => []

/-- SipHash with `c` rounds for each word and `d` at the end, under a key of sixteen octets. -/
def ofOctets (c d : Nat) (key message : Octets) : BitVec 64 :=
  let k0 := .ofNat 64 (Octets.little (key.take 8))
  let k1 := .ofNat 64 (Octets.little (key.drop 8))
  ((blocks (padded message)).foldl (Words.compress c) (Words.start k0 k1)).finish d

def octets (word : UInt64) : Octets := Octets.ofNumber 8 word.toNat

def plain (s : SipHash) : Words := ⟨s.v0.toBitVec, s.v1.toBitVec, s.v2.toBitVec, s.v3.toBitVec⟩

theorem rotate_plain (x : UInt64) {n : Nat} (positive : 0 < n) (inside : n < 64) :
    (rotate x (.ofNat n)).toBitVec = x.toBitVec.rotateLeft n := by
  have left : ((UInt64.ofNat n).toBitVec % 64).toNat = n := by
    simp [BitVec.toNat_umod, BitVec.toNat_ofNat]
    omega
  have right : ((64 - UInt64.ofNat n).toBitVec % 64).toNat = 64 - n := by
    simp [BitVec.toNat_umod, BitVec.toNat_ofNat, BitVec.toNat_sub]
    omega
  rw [rotate, UInt64.toBitVec_or, UInt64.toBitVec_shiftLeft, UInt64.toBitVec_shiftRight,
    BitVec.shiftLeft_eq', BitVec.ushiftRight_eq', left, right, BitVec.rotateLeft_def,
    Nat.mod_eq_of_lt inside]

theorem round_plain (s : SipHash) : s.round.plain = s.plain.round := by
  have turn (x : UInt64) : (rotate x 13).toBitVec = x.toBitVec.rotateLeft 13 ∧
      (rotate x 16).toBitVec = x.toBitVec.rotateLeft 16 ∧
      (rotate x 17).toBitVec = x.toBitVec.rotateLeft 17 ∧
      (rotate x 21).toBitVec = x.toBitVec.rotateLeft 21 ∧
      (rotate x 32).toBitVec = x.toBitVec.rotateLeft 32 := by
    refine ⟨?_, ?_, ?_, ?_, ?_⟩ <;> exact rotate_plain x (by decide) (by decide)
  simp only [plain, round, Words.round, Words.half, Words.swap, UInt64.toBitVec_add, UInt64.toBitVec_xor,
    turn]

theorem absorb_plain (s : SipHash) (word : UInt64) :
    (s.absorb word).plain = s.plain.compress 2 word.toBitVec := by
  have mixed : plain (round (round { s with v3 := s.v3 ^^^ word }))
      = Words.rounds 2 { s.plain with v3 := s.plain.v3 ^^^ word.toBitVec } := by
    rw [round_plain, round_plain]
    rfl
  simp only [Words.compress, ← mixed]
  rfl

theorem finish_plain (s : SipHash) : s.finish.toBitVec = s.plain.finish 4 := by
  have mixed : plain (round (round (round (round { s with v2 := s.v2 ^^^ 0xff }))))
      = Words.rounds 4 { s.plain with v2 := s.plain.v2 ^^^ 0xff } := by
    rw [round_plain, round_plain, round_plain, round_plain]
    rfl
  simp only [Words.finish, ← mixed]
  rfl

theorem foldl_plain (s : SipHash) (words : List UInt64) : (words.foldl absorb s).plain
    = (words.map UInt64.toBitVec).foldl (Words.compress 2) s.plain := by
  induction words generalizing s with
  | nil => rfl
  | cons word words ih => rw [List.foldl_cons, ih, absorb_plain, List.map_cons, List.foldl_cons]

/- Words and octets. -/

theorem little_octets (word : UInt64) : Octets.little (octets word) = word.toNat :=
  Octets.little_ofNumber 8 word.toNat_lt

theorem length_octets (word : UInt64) : (octets word).length = 8 := Octets.length_ofNumber 8 _

theorem blocks_append {piece : Octets} (eight : piece.length = 8) (rest : Octets) :
    blocks (piece ++ rest) = .ofNat 64 (Octets.little piece) :: blocks rest := by
  match piece, eight with
  | [a, b, c, d, e, f, g, h], _ => rfl

theorem blocks_octets (words : List UInt64) (rest : Octets) :
    blocks (words.flatMap octets ++ rest) = words.map UInt64.toBitVec ++ blocks rest := by
  induction words with
  | nil => rfl
  | cons word words ih =>
    rw [List.flatMap_cons, List.append_assoc, blocks_append (length_octets word), ih, little_octets,
      List.map_cons, List.cons_append]
    exact congrArg (· :: _) (BitVec.ofNat_toNat 64 word.toBitVec)

theorem length_flatMap (words : List UInt64) : (words.flatMap octets).length = 8 * words.length := by
  induction words with
  | nil => rfl
  | cons word words ih =>
    rw [List.flatMap_cons, List.length_append, length_octets, ih, List.length_cons]
    omega

theorem octets_length (n : Nat) :
    octets (UInt64.ofNat n <<< 56) = List.replicate 7 0 ++ [UInt8.ofNat n] := by
  have value : (UInt64.ofNat n <<< 56).toNat = 0 + 256 ^ 7 * (n % 256) := by
    simp [UInt64.toNat_shiftLeft, Nat.shiftLeft_eq]
    omega
  have digit : UInt8.ofNat (n % 256) = UInt8.ofNat n := UInt8.toNat_inj.mp (by simp)
  have last : Octets.ofNumber 1 (n % 256) = [UInt8.ofNat n] := congrArg (fun o => [o]) digit
  rw [octets, value, Octets.ofNumber_add 7 1 (by decide), last]
  rfl

/-- The length of a message of whole words stands alone in the last word. -/
theorem padded_octets (words : List UInt64) : padded (words.flatMap octets)
    = (words ++ [UInt64.ofNat (8 * words.length) <<< 56]).flatMap octets := by
  have none : 7 - 8 * words.length % 8 = 7 := by omega
  rw [padded, length_flatMap, none, List.flatMap_append, List.flatMap_singleton, octets_length,
    List.append_assoc]

/-- A list of words is hashed like the string of their octets. -/
theorem ofWords_octets (k0 k1 : UInt64) (words : List UInt64) :
    (ofWords k0 k1 words).toBitVec = ofOctets 2 4 (octets k0 ++ octets k1) (words.flatMap octets) := by
  have key0 : (octets k0 ++ octets k1).take 8 = octets k0 := List.take_left' (length_octets k0)
  have key1 : (octets k0 ++ octets k1).drop 8 = octets k1 := List.drop_left' (length_octets k0)
  have message := blocks_octets (words ++ [UInt64.ofNat (8 * words.length) <<< 56]) []
  rw [List.append_nil, show blocks [] = [] from rfl, List.append_nil] at message
  have absorbed : ofWords k0 k1 words = ((words ++ [UInt64.ofNat (8 * words.length) <<< 56]).foldl
      absorb (start k0 k1)).finish := by
    rw [List.foldl_append]
    rfl
  have initial : (start k0 k1).plain = Words.start k0.toBitVec k1.toBitVec := rfl
  rw [absorbed, finish_plain, foldl_plain, ← message, ← padded_octets, initial, ofOctets, key0, key1,
    little_octets, little_octets, UInt64.toNat, UInt64.toNat, BitVec.ofNat_toNat, BitVec.ofNat_toNat,
    BitVec.setWidth_eq, BitVec.setWidth_eq]

/-- The octets `0` to `14` under the key `0` to `15`. -/
example : ofOctets 2 4 ((List.range 16).map .ofNat) ((List.range 15).map .ofNat)
    = 0xa129ca6149be45e5 := by
  decide +kernel

end SipHash
end TcpEngine

import Mathlib.Algebra.BigOperators.Intervals
import Mathlib.Data.List.GetD
import Mathlib.Tactic.IntervalCases
import TcpEngine.Proofs.Codec

/-!
What a checksum detects. A string verifies when all its words and those of its pseudo header, added up,
leave nothing modulo 65535. Another word in the place of one changes that, unless both are zero, in the
two forms that zero has. A single bit never makes one of these forms into the other.
-/
namespace TcpEngine

variable {octets other : Octets} {src dst : Address} {w w' : UInt16} {i n : Nat}

namespace Octets

def wordAt (octets : Octets) (i : Nat) : UInt16 :=
  word16 (octets.getD (2 * i) 0) (octets.getD (2 * i + 1) 0)

structure Differ (octets other : Octets) (i : Nat) : Prop where
  long : other.length = octets.length
  here : octets.wordAt i ≠ other.wordAt i
  elsewhere : ∀ j ≠ i, octets.wordAt j = other.wordAt j

def flipBit (octet : UInt8) (bit : Nat) : UInt8 := octet ^^^ (1 <<< UInt8.ofNat bit)

/-- The string with one bit inverted: the octets in order, and in each of them the lowest bit first. -/
def flip (octets : Octets) (n : Nat) : Octets := octets.modify (n / 8) (flipBit · (n % 8))

theorem toNat_word16 (a b : UInt8) : (word16 a b).toNat = a.toNat * 256 + b.toNat := by
  have := a.toNat_lt
  have := b.toNat_lt
  simp only [word16, UInt16.toNat_ofNat']
  omega

theorem word16_inj {a b c d : UInt8} (same : word16 a b = word16 c d) : a = c ∧ b = d := by
  have := a.toNat_lt
  have := b.toNat_lt
  have := c.toNat_lt
  have := d.toNat_lt
  rw [← UInt16.toNat_inj, toNat_word16, toNat_word16] at same
  rw [← UInt8.toNat_inj, ← UInt8.toNat_inj]
  omega

theorem wordAt_succ (a b : UInt8) (rest : Octets) (i : Nat) :
    wordAt (a :: b :: rest) (i + 1) = wordAt rest i := rfl

theorem flipBit_ne (octet : UInt8) {bit : Nat} (inside : bit < 8) : flipBit octet bit ≠ octet := by
  have all : ∀ n : Fin 256, ∀ k : Fin 8, flipBit (.ofNat n) k ≠ .ofNat n := by decide +kernel
  have here := all ⟨octet.toNat, octet.toNat_lt⟩ ⟨bit, inside⟩
  simpa only [UInt8.ofNat_toNat] using here

theorem length_flip (octets : Octets) (n : Nat) : (octets.flip n).length = octets.length :=
  List.length_modify _ _ _

theorem getD_flip (inside : n < 8 * octets.length) (j : Nat) : (octets.flip n).getD j 0
    = if n / 8 = j then flipBit (octets.getD j 0) (n % 8) else octets.getD j 0 := by
  have place : n / 8 < octets.length := by omega
  rw [flip, List.getD_eq_getElem?_getD, List.getElem?_modify, List.getD_eq_getElem?_getD]
  split
  next same =>
    subst same
    rw [List.getElem?_eq_getElem place]
    rfl
  next => rw [id_map']

theorem differ_flip (inside : n < 8 * octets.length) : Differ octets (octets.flip n) (n / 16) where
  long := length_flip octets n
  here := by
    intro same
    obtain ⟨first, second⟩ := word16_inj same
    rw [getD_flip inside] at first second
    have changed := fun octet => (flipBit_ne octet (Nat.mod_lt n (by decide : 0 < 8))).symm
    rcases Nat.mod_two_eq_zero_or_one (n / 8) with even | odd
    · rw [if_pos (by omega)] at first
      exact changed _ first
    · rw [if_pos (by omega)] at second
      exact changed _ second
  elsewhere := by
    intro j apart
    rw [wordAt, wordAt, getD_flip inside, getD_flip inside, if_neg (by omega), if_neg (by omega)]

theorem wordAt_flip (inside : n < 8 * octets.length) :
    (∃ a b c, octets.wordAt (n / 16) = word16 a b ∧ (octets.flip n).wordAt (n / 16) = word16 a c) ∨
      ∃ a b c, octets.wordAt (n / 16) = word16 a b ∧ (octets.flip n).wordAt (n / 16) = word16 c b := by
  have first := getD_flip inside (2 * (n / 16))
  have second := getD_flip inside (2 * (n / 16) + 1)
  rcases Nat.mod_two_eq_zero_or_one (n / 8) with even | odd
  · rw [if_neg (by omega)] at second
    exact .inr ⟨_, _, _, rfl, by rw [wordAt, second]⟩
  · rw [if_neg (by omega)] at first
    exact .inl ⟨_, _, _, rfl, by rw [wordAt, first]⟩

end Octets

namespace Checksum

open Octets

def Zeros (w w' : UInt16) : Prop := (w = 0 ∧ w' = 0xffff) ∨ (w = 0xffff ∧ w' = 0)

instance (w w' : UInt16) : Decidable (Zeros w w') :=
  inferInstanceAs (Decidable ((w = 0 ∧ w' = 0xffff) ∨ (w = 0xffff ∧ w' = 0)))

/-- The check of a packet, on octets that need not hold a whole header. -/
def verifies (octets : Octets) (src dst : Address) : Except Fault Bool :=
  (ofSegment octets src dst).map isValid

theorem verifies_packet (p : Packet) (src dst : Address) :
    p.verifies src dst = verifies p.octets src dst := rfl

theorem wordSum_eq (octets : Octets) :
    wordSum octets = ∑ i ∈ Finset.range ((octets.length + 1) / 2), (octets.wordAt i).toNat := by
  have pairwise (sum : Nat) : addWords sum octets
      = sum + ∑ i ∈ Finset.range ((octets.length + 1) / 2), (octets.wordAt i).toNat := by
    fun_induction addWords sum octets with
    | case1 => rfl
    | case2 sum a =>
      have only : (wordAt [a] 0).toNat = a.toNat * 256 + UInt8.toNat 0 := toNat_word16 a 0
      rw [UInt8.toNat_zero] at only
      simp only [List.length_singleton, Nat.reduceAdd, Nat.reduceDiv, Finset.sum_range_one, only,
        Nat.add_zero]
    | case3 sum a b rest ih =>
      have first : (wordAt (a :: b :: rest) 0).toNat = a.toNat * 256 + b.toNat := toNat_word16 a b
      rw [ih, show ((a :: b :: rest).length + 1) / 2 = (rest.length + 1) / 2 + 1 from by
        simp only [List.length_cons]; omega, Finset.sum_range_succ', first]
      simp only [wordAt_succ]
      omega
  rw [wordSum, pairwise, Nat.zero_add]

theorem wordSum_append {front : Octets} (even : front.length % 2 = 0) (back : Octets) :
    wordSum (front ++ back) = wordSum front + wordSum back := by
  have later (sum : Nat) : addWords sum (front ++ back) = addWords sum front + wordSum back := by
    fun_induction addWords sum front with
    | case1 sum => exact addWords_eq sum back
    | case2 sum a => cases even
    | case3 sum a b rest ih =>
      rw [List.length_cons, List.length_cons] at even
      exact ih (by omega)
  exact later 0

theorem wordSum_ofWord16 (w : UInt16) : wordSum (ofWord16 w) = w.toNat := by
  have bound := w.toNat_lt
  simp only [wordSum, ofWord16, addWords, UInt8.toNat_ofNat']
  omega

theorem wordSum_differ (differ : Differ octets other i) :
    wordSum other + (octets.wordAt i).toNat = wordSum octets + (other.wordAt i).toNat := by
  have beyond (string : Octets) (out : ¬ i < (string.length + 1) / 2) : string.wordAt i = 0 := by
    rw [wordAt, List.getD_eq_default _ _ (by omega), List.getD_eq_default _ _ (by omega)]
    rfl
  have inside : i < (octets.length + 1) / 2 := by
    by_contra out
    refine differ.here ?_
    rw [beyond octets out, beyond other (differ.long ▸ out)]
  have rest : ∑ j ∈ (Finset.range ((octets.length + 1) / 2)).erase i, (other.wordAt j).toNat
      = ∑ j ∈ (Finset.range ((octets.length + 1) / 2)).erase i, (octets.wordAt j).toNat :=
    Finset.sum_congr rfl fun j apart => by rw [differ.elsewhere j (Finset.ne_of_mem_erase apart)]
  have split (string : Octets) :=
    Finset.add_sum_erase (Finset.range ((octets.length + 1) / 2)) (fun j => (string.wordAt j).toNat)
      (Finset.mem_range.mpr inside)
  have left := split octets
  have right := split other
  rw [wordSum_eq, wordSum_eq, differ.long]
  omega

def total (octets : Octets) (src dst : Address) : Nat :=
  wordSum src.octets + wordSum dst.octets + 6 + octets.length % 65536 + wordSum octets

theorem pseudoHeader_residue (src dst : Address) (length : Nat) :
    ∃ pseudo, pseudoHeader src dst .tcp length = .ok pseudo ∧ pseudo.toNat % 65535
      = (wordSum src.octets + wordSum dst.octets + 6 + length % 65536) % 65535 := by
  have short (octets : Octets) (four : octets.length = 4) :
      ofOctets octets = .ok (fold (wordSum octets)) ∧
        (fold (wordSum octets)).toNat % 65535 = wordSum octets % 65535 :=
    ⟨ofOctets_ok (by omega), fold_toNat (wordSum_small (by omega))⟩
  obtain ⟨source, sourceResidue⟩ := short src.octets rfl
  obtain ⟨target, targetResidue⟩ := short dst.octets rfl
  obtain ⟨told, toldResidue⟩ := short ([0, Protocol.tcp.number] ++ Octets.ofWord16 (.ofNat length)) rfl
  have words : wordSum ([0, Protocol.tcp.number] ++ Octets.ofWord16 (.ofNat length))
      = 6 + length % 65536 := by
    have number : Protocol.tcp.number.toNat = 6 := rfl
    simp only [wordSum, Octets.ofWord16, List.cons_append, List.nil_append, addWords, UInt8.toNat_zero,
      UInt8.toNat_ofNat', UInt16.toNat_ofNat', number]
    omega
  have first := (fold (wordSum src.octets)).toNat_lt
  have second := (fold (wordSum dst.octets)).toNat_lt
  have third := (fold (wordSum ([0, Protocol.tcp.number] ++ Octets.ofWord16 (.ofNat length)))).toNat_lt
  unfold pseudoHeader
  rw [source, target, told]
  have small : 0 + (fold (wordSum src.octets)).toNat + (fold (wordSum dst.octets)).toNat
      + (fold (wordSum ([0, Protocol.tcp.number] ++ Octets.ofWord16 (.ofNat length)))).toNat
        < UInt32.size := by
    simp only [UInt32.size]
    omega
  refine ⟨_, foldWide_ok small, ?_⟩
  rw [List.foldl_cons, List.foldl_cons, List.foldl_cons, List.foldl_nil, fold_toNat small]
  omega

/-- Folding the sums one after the other comes to the same as adding everything up. -/
theorem verifies_eq (short : octets.length ≤ 131074) (src dst : Address) :
    verifies octets src dst = .ok (decide (total octets src dst % 65535 = 0)) := by
  obtain ⟨pseudo, header, residue⟩ := pseudoHeader_residue src dst octets.length
  have inner := fold_toNat (wordSum_small short)
  have bound := pseudo.toNat_lt
  have bound' := (fold (wordSum octets)).toNat_lt
  rw [verifies, ofSegment_eq short header]
  refine congrArg Except.ok (Bool.eq_iff_iff.mpr ?_)
  rw [isValid_not, fold_toNat (by simp only [UInt32.size]; omega), decide_eq_true_iff, total]
  omega

/-- Two words leave the same remainder only if they are the same or the two forms of zero. -/
theorem zeros_iff (apart : w ≠ w') : Zeros w w' ↔ w.toNat % 65535 = w'.toNat % 65535 := by
  have bound := w.toNat_lt
  have bound' := w'.toNat_lt
  rw [ne_eq, ← UInt16.toNat_inj] at apart
  simp only [Zeros, ← UInt16.toNat_inj, UInt16.toNat_zero, show UInt16.toNat 0xffff = 65535 from rfl]
  omega

theorem not_zeros_flip (inside : n < 8 * octets.length) :
    ¬ Zeros (octets.wordAt (n / 16)) ((octets.flip n).wordAt (n / 16)) := by
  have zero {a b : UInt8} (h : word16 a b = 0) : a = 0 ∧ b = 0 := word16_inj (c := 0) (d := 0) h
  have ones {a b : UInt8} (h : word16 a b = 0xffff) : a = 0xff ∧ b = 0xff :=
    word16_inj (c := 0xff) (d := 0xff) h
  have apart : (0 : UInt8) ≠ 0xff := by decide
  rcases wordAt_flip inside with ⟨a, b, c, here, there⟩ | ⟨a, b, c, here, there⟩
  · rw [here, there]
    rintro (⟨none, all⟩ | ⟨all, none⟩) <;> exact apart ((zero none).1.symm.trans (ones all).1)
  · rw [here, there]
    rintro (⟨none, all⟩ | ⟨all, none⟩) <;> exact apart ((zero none).2.symm.trans (ones all).2)

section Replacing

variable (short : octets.length ≤ 131074) (right : verifies octets src dst = .ok true)
include short right

theorem verifies_moved {src' dst' : Address} (short' : other.length ≤ 131074) (apart : w ≠ w')
    (moved : total other src' dst' + w.toNat = total octets src dst + w'.toNat) :
    verifies other src' dst' = .ok (decide (Zeros w w')) := by
  rw [verifies_eq short, Except.ok.injEq, decide_eq_true_iff] at right
  rw [verifies_eq short', Except.ok.injEq, decide_eq_decide, zeros_iff apart]
  omega

theorem verifies_differ (differ : Differ octets other i) :
    verifies other src dst = .ok (decide (Zeros (octets.wordAt i) (other.wordAt i))) := by
  have moved := wordSum_differ differ
  refine verifies_moved short right (differ.long ▸ short) differ.here ?_
  rw [total, total, differ.long]
  omega

theorem verifies_differ_src {src' : Address} (differ : Differ src.octets src'.octets i) :
    verifies octets src' dst = .ok (decide (Zeros (src.octets.wordAt i) (src'.octets.wordAt i))) := by
  have moved := wordSum_differ differ
  refine verifies_moved short right short differ.here ?_
  rw [total, total]
  omega

theorem verifies_differ_dst {dst' : Address} (differ : Differ dst.octets dst'.octets i) :
    verifies octets src dst' = .ok (decide (Zeros (dst.octets.wordAt i) (dst'.octets.wordAt i))) := by
  have moved := wordSum_differ differ
  refine verifies_moved short right short differ.here ?_
  rw [total, total]
  omega

theorem verifies_flip (inside : n < 8 * octets.length) :
    verifies (octets.flip n) src dst = .ok false := by
  rw [verifies_differ short right (differ_flip inside), decide_eq_false (not_zeros_flip inside)]

end Replacing

end Checksum

namespace Address

def flip (address : Address) (n : Nat) : Address :=
  let octets := address.octets.flip n
  ⟨octets.getD 0 0, octets.getD 1 0, octets.getD 2 0, octets.getD 3 0⟩

theorem octets_flip (address : Address) (n : Nat) : (address.flip n).octets = address.octets.flip n := by
  have four : (address.octets.flip n).length = 4 := Octets.length_flip _ _
  refine List.ext_getElem four.symm fun i below _ => ?_
  have bound : i < 4 := below
  interval_cases i <;>
    exact List.getD_eq_getElem _ _ _

theorem differ_flip (address : Address) (inside : n < 32) :
    Octets.Differ address.octets (address.flip n).octets (n / 16) := by
  rw [octets_flip]
  exact Octets.differ_flip inside

end Address

namespace Packet

theorem run_setChecksum_field (field : 18 ≤ octets.length) (w : UInt16) :
    (setChecksum w).run octets = .ok () (octets.take 16 ++ Octets.ofWord16 w ++ octets.drop 18) :=
  run_write field

theorem fillChecksum_verifies (field : 18 ≤ octets.length) (short : octets.length ≤ 131074)
    (src dst : Address) :
    ∃ checksum, (fillChecksum src dst).run octets
        = .ok () (octets.take 16 ++ Octets.ofWord16 checksum ++ octets.drop 18) ∧
      Checksum.verifies (octets.take 16 ++ Octets.ofWord16 checksum ++ octets.drop 18) src dst
        = .ok true := by
  have front : (octets.take 16).length = 16 := List.length_take_of_le (by omega)
  have long (w : UInt16) :
      (octets.take 16 ++ Octets.ofWord16 w ++ octets.drop 18).length = octets.length := by
    simp only [List.length_append, front, Octets.length_ofWord16, List.length_drop]
    omega
  have sum (w : UInt16) :
      Checksum.wordSum (octets.take 16 ++ Octets.ofWord16 w ++ octets.drop 18)
        = Checksum.wordSum (octets.take 16) + w.toNat + Checksum.wordSum (octets.drop 18) := by
    rw [Checksum.wordSum_append (by rw [List.length_append, front, Octets.length_ofWord16]),
      Checksum.wordSum_append (by rw [front]), Checksum.wordSum_ofWord16]
  have again (w : UInt16) : (setChecksum w).run (octets.take 16 ++ Octets.ofWord16 0 ++ octets.drop 18)
      = .ok () (octets.take 16 ++ Octets.ofWord16 w ++ octets.drop 18) := by
    have front' : (octets.take 16 ++ Octets.ofWord16 0).length = 18 := by
      rw [List.length_append, front, Octets.length_ofWord16]
    rw [run_setChecksum_field ((long 0).symm ▸ field), List.drop_left' front',
      List.take_append_of_le_length (front' ▸ by decide), List.take_left' front]
  obtain ⟨checksum, written⟩ := Checksum.ofSegment_succeeds src dst ((long 0).symm ▸ short)
  refine ⟨checksum, ?_, ?_⟩
  · simp only [fillChecksum, EStateM.run_bind, run_setChecksum_field field, EStateM.run_get, written]
    exact again checksum
  · have more : Checksum.wordSum (octets.take 16 ++ Octets.ofWord16 checksum ++ octets.drop 18)
        = Checksum.wordSum (octets.take 16 ++ Octets.ofWord16 0 ++ octets.drop 18) + checksum.toNat := by
      rw [sum, sum, UInt16.toNat_zero]
      omega
    obtain ⟨left, total, valid⟩ := Checksum.ofSegment_raised ((long 0).symm ▸ short)
      ((long checksum).trans (long 0).symm) written more
    rw [Checksum.verifies, total]
    exact congrArg Except.ok (valid.mpr rfl)

end Packet

namespace Checksum

open Octets

/-- A checksum is right once it was filled in. As long as it is, a single bit that is inverted, in the
    octets or in an address, is detected, and so is another word in the place of one: all but for zero,
    which may take either of its forms. -/
theorem verifies_iff_intact (octets : Octets) (src dst : Address) (field : 18 ≤ octets.length)
    (short : octets.length ≤ 131074) :
    (∃ checksum, let filled := octets.take 16 ++ ofWord16 checksum ++ octets.drop 18
      (Packet.fillChecksum src dst).run octets = .ok () filled ∧ verifies filled src dst = .ok true) ∧
    (verifies octets src dst = .ok true →
      (∀ n < 8 * octets.length, verifies (octets.flip n) src dst = .ok false) ∧
      (∀ n < 32, verifies octets (src.flip n) dst = .ok false ∧
        verifies octets src (dst.flip n) = .ok false) ∧
      (∀ other i, Differ octets other i →
        verifies other src dst = .ok (decide (Zeros (octets.wordAt i) (other.wordAt i)))) ∧
      ∀ (other : Address) (i : Nat),
        (Differ src.octets other.octets i →
          verifies octets other dst = .ok (decide (Zeros (src.octets.wordAt i) (other.octets.wordAt i)))) ∧
        (Differ dst.octets other.octets i →
          verifies octets src other
            = .ok (decide (Zeros (dst.octets.wordAt i) (other.octets.wordAt i))))) := by
  refine ⟨Packet.fillChecksum_verifies field short src dst, fun right => ⟨?_, ?_, ?_, ?_⟩⟩
  · exact fun n inside => verifies_flip short right inside
  · intro n inside
    have detected (address : Address) : ¬ Zeros (address.octets.wordAt (n / 16))
        ((address.flip n).octets.wordAt (n / 16)) := by
      rw [Address.octets_flip]
      exact not_zeros_flip inside
    rw [verifies_differ_src short right (src.differ_flip inside), decide_eq_false (detected src),
      verifies_differ_dst short right (dst.differ_flip inside), decide_eq_false (detected dst)]
    exact ⟨rfl, rfl⟩
  · exact fun other i differ => verifies_differ short right differ
  · exact fun other i =>
      ⟨fun differ => verifies_differ_src short right differ,
        fun differ => verifies_differ_dst short right differ⟩

theorem verifies_iff_intact_zero :
    let src : Address := ⟨10, 0, 0, 1⟩
    let dst : Address := ⟨10, 0, 0, 2⟩
    let head : Octets := [0, 80, 192, 0, 0, 0, 3, 232, 0, 0, 0, 0, 80, 2, 199, 156]
    let octets := head ++ [255, 255, 0, 0, 7, 8, 9]
    let other := head ++ [0, 0, 0, 0, 7, 8, 9]
    18 ≤ octets.length ∧ octets.length ≤ 131074 ∧ verifies octets src dst = .ok true ∧
      (∀ n < 184, verifies (octets.flip n) src dst = .ok false) ∧ Differ octets other 8 ∧
      verifies other src dst = .ok true := by
  intro src dst head octets other
  have right : verifies octets src dst = .ok true := by decide +kernel
  obtain ⟨-, detected⟩ := verifies_iff_intact octets src dst (by decide) (by decide)
  obtain ⟨flipped, -, replaced, -⟩ := detected right
  have differ : Differ octets other 8 := by
    refine ⟨rfl, by decide, fun j apart => ?_⟩
    rcases Nat.lt_or_ge j 12 with inside | beyond
    · have all : ∀ j < 12, j ≠ 8 → octets.wordAt j = other.wordAt j := by decide
      exact all j inside apart
    · have past : octets.length ≤ 2 * j := Nat.le_trans (by decide : 23 ≤ 2 * 12) (by omega)
      have past' : other.length ≤ 2 * j := past
      rw [wordAt, wordAt, List.getD_eq_default _ _ past, List.getD_eq_default _ _ past',
        List.getD_eq_default _ _ (by omega), List.getD_eq_default _ _ (by omega)]
  refine ⟨by decide, by decide, right, flipped, differ, ?_⟩
  rw [replaced other 8 differ]
  decide

end Checksum
end TcpEngine

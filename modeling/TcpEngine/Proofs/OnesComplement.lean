import Mathlib.Algebra.BigOperators.Group.List.Basic
import Mathlib.Data.Nat.ModEq
import TcpEngine.Proofs.Detection

/-!
The checksum as a sum in one's complement. Words may be added in any order and in groups of any kind,
and with every carry put back at once or all carries at the end: as long as the plain sum fits into 32
bits, only its residue modulo 65535 counts, and whether it is zero.
-/
namespace TcpEngine
namespace Checksum

/-- The big-endian words of a string. An odd last octet is followed by a zero octet. -/
def words : Octets → List UInt16
  | [] => []
  | [a] => [Octets.word16 a 0]
  | a :: b :: rest => Octets.word16 a b :: words rest

/-- Addition in one's complement: what is carried out at the top comes in again at the bottom. -/
def onesAdd (a b : UInt16) : UInt16 :=
  if a.toNat + b.toNat < 65536 then .ofNat (a.toNat + b.toNat) else .ofNat (a.toNat + b.toNat - 65535)

def onesSum (ws : List UInt16) : UInt16 := ws.foldl onesAdd 0

def plainSum (ws : List UInt16) : Nat := (ws.map UInt16.toNat).sum

theorem plainSum_nil : plainSum [] = 0 := rfl

theorem plainSum_cons (w : UInt16) (ws : List UInt16) : plainSum (w :: ws) = w.toNat + plainSum ws :=
  List.sum_cons

theorem plainSum_append (ws ws' : List UInt16) : plainSum (ws ++ ws') = plainSum ws + plainSum ws' := by
  rw [plainSum, List.map_append, List.sum_append]
  rfl

theorem plainSum_perm {ws ws' : List UInt16} (perm : ws.Perm ws') : plainSum ws = plainSum ws' :=
  (perm.map _).sum_eq

theorem plainSum_le (ws : List UInt16) : plainSum ws ≤ 65535 * ws.length := by
  induction ws with
  | nil => simp [plainSum]
  | cons w ws ih =>
    have bound := w.toNat_lt
    rw [plainSum_cons, List.length_cons]
    omega

theorem plainSum_small {ws : List UInt16} (few : ws.length ≤ 65537) : plainSum ws < UInt32.size := by
  have := plainSum_le ws
  simp only [UInt32.size]
  omega

theorem plainSum_eq_zero (ws : List UInt16) : plainSum ws = 0 ↔ ∀ w ∈ ws, w = 0 := by
  induction ws with
  | nil => simp [plainSum]
  | cons w ws ih =>
    have first : w = 0 ↔ w.toNat = 0 := UInt16.toNat_inj.symm
    rw [plainSum_cons, Nat.add_eq_zero_iff, ih, List.forall_mem_cons, first]

/- Words of strings. -/

theorem wordSum_cons (a b : UInt8) (rest : Octets) :
    wordSum (a :: b :: rest) = (Octets.word16 a b).toNat + wordSum rest := by
  change addWords (0 + (a.toNat * 256 + b.toNat)) rest = _
  rw [addWords_eq, Nat.zero_add, Octets.toNat_word16]

theorem plainSum_words (octets : Octets) : plainSum (words octets) = wordSum octets := by
  fun_induction words octets with
  | case1 => rfl
  | case2 a => simp [plainSum_cons, plainSum_nil, Octets.toNat_word16, wordSum, addWords]
  | case3 a b rest ih => rw [plainSum_cons, wordSum_cons, ih]

theorem plainSum_words_small {octets : Octets} (short : octets.length ≤ 131074) :
    plainSum (words octets) < UInt32.size :=
  plainSum_words octets ▸ wordSum_small short

theorem words_append {octets : Octets} (even : octets.length % 2 = 0) (more : Octets) :
    words (octets ++ more) = words octets ++ words more := by
  fun_induction words octets with
  | case1 => rfl
  | case2 a => simp at even
  | case3 a b rest ih =>
    simp only [List.length_cons] at even
    simp only [List.cons_append, words, ih (by omega)]

theorem word16_eq_zero (a b : UInt8) : Octets.word16 a b = 0 ↔ a = 0 ∧ b = 0 := by
  simp only [← UInt16.toNat_inj, ← UInt8.toNat_inj, Octets.toNat_word16, UInt16.toNat_zero, UInt8.toNat_zero]
  omega

theorem words_zero (octets : Octets) : (∀ w ∈ words octets, w = 0) ↔ ∀ octet ∈ octets, octet = 0 := by
  fun_induction words octets with
  | case1 => simp
  | case2 a => simp only [List.forall_mem_singleton, word16_eq_zero, and_true]
  | case3 a b rest ih => simp only [List.forall_mem_cons, word16_eq_zero, ih, and_assoc]

/- Folding. -/

theorem fold_eq_zero {sum : Nat} (small : sum < UInt32.size) : fold sum = 0 ↔ sum = 0 := by
  constructor
  · intro zero
    by_contra some
    exact fold_ne_zero small some zero
  · rintro rfl
    rfl

/-- The residue of a sum, and whether it is zero, determine what it is folded to. -/
theorem fold_congr {m n : Nat} (small : m < UInt32.size) (small' : n < UInt32.size)
    (residue : m % 65535 = n % 65535) (zero : m = 0 ↔ n = 0) : fold m = fold n := by
  have first := fold_toNat small
  have second := fold_toNat small'
  have left := fold_eq_zero small
  have right := fold_eq_zero small'
  have bound := (fold m).toNat_lt
  have bound' := (fold n).toNat_lt
  simp only [← UInt16.toNat_inj, UInt16.toNat_zero] at left right ⊢
  omega

theorem fold_le {sum : Nat} (small : sum < UInt32.size) : (fold sum).toNat ≤ sum := by
  have residue := fold_toNat small
  have zero := fold_eq_zero small
  have bound := (fold sum).toNat_lt
  simp only [← UInt16.toNat_inj, UInt16.toNat_zero] at zero
  omega

theorem fold_add {m n : Nat} (small : m + n < UInt32.size) :
    fold ((fold m).toNat + n) = fold (m + n) := by
  have fits : m < UInt32.size := by omega
  have residue := fold_toNat fits
  have zero := fold_eq_zero fits
  have less := fold_le fits
  rw [← UInt16.toNat_inj, UInt16.toNat_zero] at zero
  apply fold_congr <;> omega

theorem onesAdd_fold {sum : Nat} {w : UInt16} (small : sum + w.toNat < UInt32.size) :
    onesAdd (fold sum) w = fold (sum + w.toNat) := by
  have bound := w.toNat_lt
  have bound' := (fold sum).toNat_lt
  have fits : sum < UInt32.size := by omega
  have before := fold_toNat fits
  have after := fold_toNat small
  have zero := fold_eq_zero fits
  have zero' := fold_eq_zero small
  have bound'' := (fold (sum + w.toNat)).toNat_lt
  simp only [← UInt16.toNat_inj, UInt16.toNat_zero] at zero zero' ⊢
  unfold onesAdd
  split
  · rw [UInt16.toNat_ofNat']
    omega
  · rw [UInt16.toNat_ofNat']
    omega

theorem foldl_onesAdd (ws : List UInt16) (sum : Nat) (small : sum + plainSum ws < UInt32.size) :
    ws.foldl onesAdd (fold sum) = fold (sum + plainSum ws) := by
  induction ws generalizing sum with
  | nil => rfl
  | cons w ws ih =>
    rw [plainSum_cons, ← Nat.add_assoc] at small ⊢
    rw [List.foldl_cons, onesAdd_fold (by omega)]
    exact ih (sum + w.toNat) small

/-- Carries may be put back one by one or all at the end. -/
theorem onesSum_eq_fold {ws : List UInt16} (small : plainSum ws < UInt32.size) :
    onesSum ws = fold (plainSum ws) := by
  have folded := foldl_onesAdd ws 0 (by omega)
  rwa [Nat.zero_add] at folded

theorem combine_eq (ws : List UInt16) : combine ws = foldWide (plainSum ws) := by
  have added (sum : Nat) : ws.foldl (fun sum w => sum + w.toNat) sum = sum + plainSum ws := by
    induction ws generalizing sum with
    | nil => rfl
    | cons w ws ih => rw [List.foldl_cons, ih, plainSum_cons, Nat.add_assoc]
  rw [combine, added, Nat.zero_add]

/- Groups. -/

/-- Words to be combined, some of them in groups that are combined before. -/
inductive Grouping
  | nil
  | word (w : UInt16) (rest : Grouping)
  | group (inner rest : Grouping)

namespace Grouping

def words : Grouping → List UInt16
  | nil => []
  | word w rest => w :: rest.words
  | group inner rest => inner.words ++ rest.words

def parts : Grouping → Except Fault (List UInt16)
  | nil => .ok []
  | word w rest => do return w :: (← rest.parts)
  | group inner rest => do
    let first ← combine (← inner.parts)
    return first :: (← rest.parts)

def sum (g : Grouping) : Except Fault UInt16 := do combine (← g.parts)

/-- Combining a group never makes it larger. It keeps the residue, and whether there is anything. -/
theorem parts_ok (g : Grouping) (small : plainSum g.words < UInt32.size) :
    ∃ ws, g.parts = .ok ws ∧ plainSum ws ≤ plainSum g.words ∧
      plainSum ws % 65535 = plainSum g.words % 65535 ∧ (plainSum ws = 0 ↔ plainSum g.words = 0) := by
  induction g with
  | nil => exact ⟨[], rfl, Nat.le_refl _, rfl, Iff.rfl⟩
  | word w rest ih =>
    rw [words, plainSum_cons] at small ⊢
    obtain ⟨ws, ok, le, residue, zero⟩ := ih (by omega)
    refine ⟨w :: ws, by rw [parts, ok]; rfl, ?_, ?_, ?_⟩ <;> rw [plainSum_cons] <;> omega
  | group inner rest first later =>
    rw [words, plainSum_append] at small ⊢
    obtain ⟨ws, ok, le, residue, zero⟩ := first (by omega)
    obtain ⟨ws', ok', le', residue', zero'⟩ := later (by omega)
    have fits : plainSum ws < UInt32.size := by omega
    have combined : combine ws = .ok (fold (plainSum ws)) := by rw [combine_eq, foldWide_ok fits]
    have kept := fold_toNat fits
    have none := fold_eq_zero fits
    have less := fold_le fits
    rw [← UInt16.toNat_inj, UInt16.toNat_zero] at none
    refine ⟨fold (plainSum ws) :: ws', ?_, ?_, ?_, ?_⟩
    · rw [parts, ok, ok']
      change (combine ws >>= fun first => pure (first :: ws')) = _
      rw [combined]
      rfl
    all_goals rw [plainSum_cons]; omega

theorem sum_eq (g : Grouping) (small : plainSum g.words < UInt32.size) : g.sum = combine g.words := by
  obtain ⟨ws, ok, le, residue, zero⟩ := g.parts_ok small
  have fits : plainSum ws < UInt32.size := by omega
  rw [sum, ok]
  change combine ws = _
  rw [combine_eq, combine_eq, foldWide_ok fits, foldWide_ok small, fold_congr fits small residue zero]

end Grouping

/- The sum in words of a machine: every addition is refused where it does not fit. -/

def add16 (a b : UInt16) : Except Fault UInt16 :=
  if a.toNat + b.toNat < UInt16.size then .ok (a + b) else .error .overflow

def add32 (a b : UInt32) : Except Fault UInt32 :=
  if a.toNat + b.toNat < UInt32.size then .ok (a + b) else .error .overflow

def accumulate (sum : UInt32) : Octets → Except Fault UInt32
  | [] => .ok sum
  | [a] => add32 sum (a.toUInt32 <<< 8)
  | a :: b :: rest => do accumulate (← add32 sum (Octets.word16 a b).toUInt32) rest

def accumulatePieces (sum : UInt32) (octets : Octets) : Except Fault UInt32 :=
  if 32 ≤ octets.length then do
    accumulatePieces (← accumulate sum (octets.take 32)) (octets.drop 32)
  else accumulate sum octets
termination_by octets.length
decreasing_by simp; omega

def foldCarries (sum : UInt32) : Except Fault UInt16 := do
  let once ← add32 (sum >>> 16) (sum &&& 0xffff)
  add16 (once >>> 16).toUInt16 once.toUInt16

theorem add32_eq (a : UInt32) {b : UInt32} {n : Nat} (same : b.toNat = n) :
    add32 a b = if a.toNat + n < UInt32.size then .ok (.ofNat (a.toNat + n)) else .error .overflow := by
  subst same
  unfold add32
  split
  · rw [UInt32.ofNat_add, UInt32.ofNat_toNat, UInt32.ofNat_toNat]
  · rfl

theorem toNat_padded (a : UInt8) : (a.toUInt32 <<< 8).toNat = a.toNat * 256 := by
  have bound := a.toNat_lt
  simp only [UInt32.toNat_shiftLeft, UInt8.toNat_toUInt32, Nat.shiftLeft_eq]
  simp
  omega

/-- An accumulator is refused exactly if the sum does not fit, since sums only grow. -/
theorem accumulate_eq (sum : UInt32) (octets : Octets) :
    accumulate sum octets = if sum.toNat + wordSum octets < UInt32.size
      then .ok (.ofNat (sum.toNat + wordSum octets)) else .error .overflow := by
  fun_induction accumulate sum octets with
  | case1 sum =>
    have fits : sum.toNat + wordSum [] < UInt32.size := sum.toNat_lt
    rw [if_pos fits]
    exact congrArg Except.ok UInt32.ofNat_toNat.symm
  | case2 sum a => rw [add32_eq sum (toNat_padded a), wordSum, addWords, Nat.zero_add]
  | case3 sum a b rest ih =>
    rw [add32_eq sum (UInt16.toNat_toUInt32 _), wordSum_cons, ← Nat.add_assoc]
    by_cases fits : sum.toNat + (Octets.word16 a b).toNat < UInt32.size
    · rw [if_pos fits]
      change accumulate (.ofNat (sum.toNat + (Octets.word16 a b).toNat)) rest = _
      rw [ih, UInt32.toNat_ofNat_of_lt' fits]
    · rw [if_neg fits, if_neg (by omega)]
      rfl

/-- A piece has an even length, so that no word is torn. -/
theorem accumulatePieces_eq (sum : UInt32) (octets : Octets) :
    accumulatePieces sum octets = accumulate sum octets := by
  fun_induction accumulatePieces sum octets with
  | case1 sum octets long ih =>
    have even : (octets.take 32).length % 2 = 0 := by
      rw [List.length_take, Nat.min_eq_left long]
    have whole := wordSum_append even (octets.drop 32)
    rw [List.take_append_drop] at whole
    rw [accumulate_eq sum octets, accumulate_eq sum (octets.take 32), whole, ← Nat.add_assoc]
    by_cases fits : sum.toNat + wordSum (octets.take 32) < UInt32.size
    · rw [if_pos fits]
      change accumulatePieces (.ofNat (sum.toNat + wordSum (octets.take 32))) (octets.drop 32) = _
      rw [ih, accumulate_eq, UInt32.toNat_ofNat_of_lt' fits]
    · rw [if_neg fits, if_neg (by omega)]
      rfl
  | case2 => rfl

theorem foldCarries_eq (sum : UInt32) : foldCarries sum = .ok (fold sum.toNat) := by
  have bound := sum.toNat_lt
  have high : (sum >>> 16).toNat = sum.toNat / 65536 := by
    simp [UInt32.toNat_shiftRight, Nat.shiftRight_eq_div_pow]
  have low : (sum &&& 0xffff).toNat = sum.toNat % 65536 := by
    rw [UInt32.toNat_and]
    exact Nat.and_two_pow_sub_one_eq_mod _ 16
  have once : add32 (sum >>> 16) (sum &&& 0xffff)
      = .ok (.ofNat (sum.toNat / 65536 + sum.toNat % 65536)) := by
    rw [add32_eq _ low, high, if_pos (by simp only [UInt32.size]; omega)]
  unfold foldCarries fold
  rw [once]
  generalize folded : sum.toNat / 65536 + sum.toNat % 65536 = n
  have small : n ≤ 131070 := by omega
  change add16 (UInt32.ofNat n >>> 16).toUInt16 (UInt32.ofNat n).toUInt16 = _
  have value : (UInt32.ofNat n).toNat = n := UInt32.toNat_ofNat_of_lt' (by simp only [UInt32.size]; omega)
  have carry : (UInt32.ofNat n >>> 16).toUInt16.toNat = n / 65536 := by
    simp [UInt32.toNat_shiftRight, Nat.shiftRight_eq_div_pow, value]
    omega
  have rest : (UInt32.ofNat n).toUInt16.toNat = n % 65536 := by
    rw [UInt32.toNat_toUInt16, value]
  unfold add16
  rw [carry, rest, if_pos (by simp only [UInt16.size]; omega)]
  refine congrArg Except.ok (UInt16.toNat_inj.mp ?_)
  rw [UInt16.toNat_add, carry, rest, UInt16.toNat_ofNat']

theorem ofOctets_eq (octets : Octets) :
    ofOctets octets = accumulatePieces 0 octets >>= foldCarries := by
  rw [accumulatePieces_eq, accumulate_eq, UInt32.toNat_zero, Nat.zero_add]
  unfold ofOctets foldWide
  split
  · rename_i fits
    change _ = foldCarries (.ofNat (wordSum octets))
    rw [foldCarries_eq, UInt32.toNat_ofNat_of_lt' fits]
  · rfl

/- What a checksum is. -/

theorem ofOctets_onesSum {octets : Octets} (short : octets.length ≤ 131074) :
    ofOctets octets = .ok (onesSum (words octets)) := by
  rw [ofOctets_ok short, onesSum_eq_fold (plainSum_words_small short), plainSum_words]

theorem onesSum_residue {ws : List UInt16} (small : plainSum ws < UInt32.size) :
    (onesSum ws).toNat ≡ plainSum ws [MOD 65535] := by
  rw [onesSum_eq_fold small]
  exact fold_toNat small

theorem onesSum_zero {octets : Octets} (short : octets.length ≤ 131074) :
    onesSum (words octets) = 0 ↔ ∀ octet ∈ octets, octet = 0 := by
  have small := plainSum_words_small short
  rw [onesSum_eq_fold small, fold_eq_zero small, plainSum_eq_zero, words_zero]

theorem combine_strings {octets more : Octets} (even : octets.length % 2 = 0)
    (short : octets.length + more.length ≤ 131074) :
    combine [onesSum (words octets), onesSum (words more)] = ofOctets (octets ++ more) := by
  have whole : plainSum (words (octets ++ more)) = plainSum (words octets) + plainSum (words more) := by
    rw [words_append even, plainSum_append]
  have both : (octets ++ more).length ≤ 131074 := by rwa [List.length_append]
  have fits := plainSum_words_small both
  rw [ofOctets_onesSum both, onesSum_eq_fold fits]
  rw [whole] at fits ⊢
  have later : plainSum (words more) < UInt32.size := by omega
  have less := fold_le later
  rw [onesSum_eq_fold (by omega), onesSum_eq_fold (by omega), combine_pair, fold_add (by omega),
    Nat.add_comm, fold_add (by omega), Nat.add_comm]

/-- The checksum of a string that is not too long is the one's complement sum of its big-endian words,
    and the accumulator of 32 bits holds all that is added on the way. It has the residue of the plain
    sum modulo 65535, and is zero for zero octets only. The checksums of two strings, the first of whole
    words, are combined to that of the string of both. However words are ordered and grouped, they are
    combined to the same. -/
theorem checksum_ones_complement :
    (∀ octets : Octets, octets.length ≤ 131074 →
      ofOctets octets = .ok (onesSum (words octets)) ∧
      (∃ sum, accumulatePieces 0 octets = .ok sum ∧ foldCarries sum = .ok (onesSum (words octets))) ∧
      (onesSum (words octets)).toNat ≡ ((words octets).map UInt16.toNat).sum [MOD 65535] ∧
      (onesSum (words octets) = 0 ↔ ∀ octet ∈ octets, octet = 0)) ∧
    (∀ octets more : Octets, octets.length % 2 = 0 → octets.length + more.length ≤ 131074 →
      ∃ first second sum, ofOctets octets = .ok first ∧ ofOctets more = .ok second ∧
        combine [first, second] = .ok sum ∧ ofOctets (octets ++ more) = .ok sum) ∧
    ∀ g g' : Grouping, g.words.Perm g'.words → g.words.length ≤ 65537 →
      ∃ sum, g.sum = .ok sum ∧ g'.sum = .ok sum ∧ combine g.words = .ok sum := by
  refine ⟨?_, ?_, ?_⟩
  · intro octets short
    have machine := ofOctets_eq octets
    rw [ofOctets_onesSum short] at machine
    exact ⟨ofOctets_onesSum short, except_bind_ok.mp machine.symm,
      onesSum_residue (plainSum_words_small short), onesSum_zero short⟩
  · intro octets more even short
    have both : (octets ++ more).length ≤ 131074 := by rwa [List.length_append]
    refine ⟨_, _, _, ofOctets_onesSum (by omega), ofOctets_onesSum (by omega), ?_,
      ofOctets_onesSum both⟩
    rw [combine_strings even short, ofOctets_onesSum both]
  · intro g g' perm few
    have small := plainSum_small few
    have same := plainSum_perm perm
    have combined : combine g.words = .ok (fold (plainSum g.words)) := by
      rw [combine_eq, foldWide_ok small]
    refine ⟨_, (g.sum_eq small).trans combined, ?_, combined⟩
    rw [g'.sum_eq (same ▸ small), combine_eq, ← same, foldWide_ok small]

theorem carried_ones_complement :
    ofOctets [0x00, 0x01, 0xf2, 0x03, 0xf4, 0xf5, 0xf6, 0xf7, 0xab] = .ok 0x88f3 ∧
    (∃ first second, ofOctets [0x00, 0x01, 0xf2, 0x03] = .ok first ∧
      ofOctets [0xf4, 0xf5, 0xf6, 0xf7, 0xab] = .ok second ∧ combine [first, second] = .ok 0x88f3) ∧
    (Grouping.group (.word 0xf4f5 (.group (.word 0xab00 (.word 0xf203 .nil)) .nil))
      (.word 0x0001 (.group .nil (.word 0xf6f7 .nil)))).sum = .ok 0x88f3 := by
  obtain ⟨strings, joined, grouped⟩ := checksum_ones_complement
  have whole := (strings [0x00, 0x01, 0xf2, 0x03, 0xf4, 0xf5, 0xf6, 0xf7, 0xab] (by decide)).1
  obtain ⟨first, second, sum, ofFirst, ofSecond, combined, both⟩ :=
    joined [0x00, 0x01, 0xf2, 0x03] [0xf4, 0xf5, 0xf6, 0xf7, 0xab] (by decide) (by decide)
  obtain ⟨sum', inGroups, _, flat⟩ := grouped
    (.group (.word 0xf4f5 (.group (.word 0xab00 (.word 0xf203 .nil)) .nil))
      (.word 0x0001 (.group .nil (.word 0xf6f7 .nil))))
    (.word 0x0001 (.word 0xf203 (.word 0xf4f5 (.word 0xf6f7 (.word 0xab00 .nil)))))
    (by decide) (by decide)
  have value : onesSum (words [0x00, 0x01, 0xf2, 0x03, 0xf4, 0xf5, 0xf6, 0xf7, 0xab]) = 0x88f3 := by
    decide
  rw [value] at whole
  obtain rfl := Except.ok.inj (both.symm.trans whole)
  have value' : sum' = 0x88f3 := Except.ok.inj (flat.symm.trans (by decide))
  exact ⟨whole, ⟨first, second, ofFirst, ofSecond, combined⟩, value' ▸ inGroups⟩

end Checksum
end TcpEngine

import TcpEngine.Checksum
import TcpEngine.Proofs.Act

/-!
Sums of words. A sum that fits into 32 bits keeps its residue modulo 65535 when it is folded, so folding
early or late makes no difference to what a checksum verifies. The words of any string that fits into a
datagram fit as well.
-/
namespace TcpEngine
namespace Checksum

variable {octets : Octets} {src dst : Address}

theorem addWords_add (m n : Nat) (octets : Octets) :
    addWords (m + n) octets = m + addWords n octets := by
  fun_induction addWords n octets with
  | case1 => rfl
  | case2 n a => simp [addWords, Nat.add_assoc]
  | case3 n a b rest ih =>
    rw [← ih]
    simp [addWords, Nat.add_assoc]

theorem addWords_eq (sum : Nat) (octets : Octets) : addWords sum octets = sum + wordSum octets :=
  addWords_add sum 0 octets

theorem addWords_le (sum : Nat) (octets : Octets) :
    addWords sum octets ≤ sum + 65535 * ((octets.length + 1) / 2) := by
  fun_induction addWords sum octets with
  | case1 => omega
  | case2 sum a =>
    have := a.toNat_lt
    simp only [List.length_singleton]
    omega
  | case3 sum a b rest ih =>
    have := a.toNat_lt
    have := b.toNat_lt
    simp only [List.length_cons]
    omega

/-- The sum of up to 65537 words fits into 32 bits: `65535 * 65537` is the largest number that does. -/
theorem wordSum_small (short : octets.length ≤ 131074) : wordSum octets < UInt32.size := by
  have := addWords_le 0 octets
  simp only [UInt32.size, wordSum]
  omega

theorem fold_toNat {sum : Nat} (small : sum < UInt32.size) :
    (fold sum).toNat % 65535 = sum % 65535 := by
  simp only [UInt32.size] at small
  simp only [fold, UInt16.toNat_ofNat']
  have once : (sum / 65536 + sum % 65536) % 65535 = sum % 65535 := by omega
  have bound : sum / 65536 + sum % 65536 ≤ 131070 := by omega
  generalize sum / 65536 + sum % 65536 = folded at once bound ⊢
  have twice : folded / 65536 + folded % 65536 ≤ 65535 := by omega
  rw [Nat.mod_eq_of_lt (Nat.lt_succ_of_le twice)]
  omega

theorem fold_ne_zero {sum : Nat} (small : sum < UInt32.size) (some : sum ≠ 0) : fold sum ≠ 0 := by
  simp only [UInt32.size] at small
  rw [ne_eq, ← UInt16.toNat_inj]
  simp only [fold, UInt16.toNat_ofNat', UInt16.toNat_zero]
  omega

theorem isValid_not {word : UInt16} : isValid (~~~word) = true ↔ word.toNat % 65535 = 0 := by
  have bound := word.toNat_lt
  simp only [isValid, Bool.or_eq_true, beq_iff_eq, ← UInt16.toNat_inj, UInt16.toNat_not,
    UInt16.toNat_zero, UInt16.size, show UInt16.toNat 0xffff = 65535 from rfl]
  omega

theorem foldWide_ok {sum : Nat} (small : sum < UInt32.size) : foldWide sum = .ok (fold sum) :=
  if_pos small

theorem foldWide_eq_ok {sum : Nat} {word : UInt16} :
    foldWide sum = .ok word ↔ sum < UInt32.size ∧ fold sum = word := by
  unfold foldWide
  split
  · simp only [Except.ok.injEq, true_and, *]
  · simp only [reduceCtorEq, false_and, *]

theorem ofOctets_ok (short : octets.length ≤ 131074) : ofOctets octets = .ok (fold (wordSum octets)) :=
  foldWide_ok (wordSum_small short)

theorem combine_pair (a b : UInt16) : combine [a, b] = .ok (fold (a.toNat + b.toNat)) := by
  have := a.toNat_lt
  have := b.toNat_lt
  have small : 0 + a.toNat + b.toNat < UInt32.size := by
    simp only [UInt32.size]
    omega
  rw [← Nat.zero_add a.toNat]
  exact foldWide_ok small

theorem pseudoHeader_succeeds (src dst : Address) (protocol : Protocol) (length : Nat) :
    ∃ pseudo, pseudoHeader src dst protocol length = .ok pseudo := by
  have short (octets : Octets) (four : octets.length = 4) : ofOctets octets = .ok (fold (wordSum octets)) :=
    ofOctets_ok (by omega)
  unfold pseudoHeader
  rw [short _ (by rfl), short _ (by rfl), short _ (by rfl)]
  have first := (fold (wordSum src.octets)).toNat_lt
  have second := (fold (wordSum dst.octets)).toNat_lt
  have third := (fold (wordSum ([0, protocol.number] ++ Octets.ofWord16 (.ofNat length)))).toNat_lt
  refine ⟨_, foldWide_ok ?_⟩
  simp only [List.foldl_cons, List.foldl_nil, UInt32.size]
  omega

theorem pseudoHeader_ne_zero {protocol : Protocol} {length : Nat} {pseudo : UInt16}
    (known : protocol.number ≠ 0) (header : pseudoHeader src dst protocol length = .ok pseudo) :
    pseudo ≠ 0 := by
  simp only [pseudoHeader, except_bind_ok] at header
  obtain ⟨source, _, target, _, told, ofTold, combined⟩ := header
  have some : told.toNat ≠ 0 := by
    obtain ⟨small, rfl⟩ := foldWide_eq_ok.mp ofTold
    refine fun none => fold_ne_zero small ?_ (UInt16.toNat_inj.mp none)
    have counted : protocol.number.toNat ≠ 0 := fun none => known (UInt8.toNat_inj.mp none)
    simp only [wordSum, Octets.ofWord16, List.cons_append, List.nil_append, addWords]
    omega
  obtain ⟨small, rfl⟩ := foldWide_eq_ok.mp combined
  refine fold_ne_zero small ?_
  simp only [List.foldl_cons, List.foldl_nil]
  omega

theorem ofSegment_eq {pseudo : UInt16} (short : octets.length ≤ 131074)
    (header : pseudoHeader src dst .tcp octets.length = .ok pseudo) :
    ofSegment octets src dst = .ok (~~~ fold (pseudo.toNat + (fold (wordSum octets)).toNat)) := by
  unfold ofSegment complement
  rw [header, ofOctets_ok short]
  change (combine [pseudo, _]).map _ = _
  rw [combine_pair]
  rfl

theorem ofSegment_succeeds (src dst : Address) (short : octets.length ≤ 131074) :
    ∃ checksum, ofSegment octets src dst = .ok checksum := by
  obtain ⟨pseudo, header⟩ := pseudoHeader_succeeds src dst .tcp octets.length
  exact ⟨_, ofSegment_eq short header⟩

/-- A string verifies where the words of another one as long were raised by its checksum, in either form
of zero, and nowhere else. -/
theorem ofSegment_raised {raised : Octets} {checksum field : UInt16} (short : octets.length ≤ 131074)
    (long : raised.length = octets.length) (sum : ofSegment octets src dst = .ok checksum)
    (more : wordSum raised = wordSum octets + field.toNat) :
    ∃ left, ofSegment raised src dst = .ok left ∧
      (isValid left = true ↔ field.toNat % 65535 = checksum.toNat % 65535) := by
  obtain ⟨pseudo, header⟩ := pseudoHeader_succeeds src dst .tcp octets.length
  rw [ofSegment_eq short header, Except.ok.injEq] at sum
  have fits : raised.length ≤ 131074 := by omega
  refine ⟨_, ofSegment_eq fits (long ▸ header), isValid_not.trans ?_⟩
  have small := wordSum_small short
  have small' := wordSum_small fits
  have inner := fold_toNat small
  have inner' := fold_toNat small'
  have bound := pseudo.toNat_lt
  have bound' := (fold (wordSum octets)).toNat_lt
  have bound'' := (fold (wordSum raised)).toNat_lt
  have outer : (fold (pseudo.toNat + (fold (wordSum octets)).toNat)).toNat % 65535 = _ :=
    fold_toNat (by simp only [UInt32.size]; omega)
  rw [fold_toNat (by simp only [UInt32.size]; omega), ← sum, UInt16.toNat_not]
  have written := (fold (pseudo.toNat + (fold (wordSum octets)).toNat)).toNat_lt
  simp only [UInt16.size]
  omega

/-- The pseudo header always counts its protocol, so that no sum is zero: no checksum is `0xffff`. -/
theorem ofSegment_ne {checksum : UInt16} (sum : ofSegment octets src dst = .ok checksum) :
    checksum ≠ 0xffff := by
  simp only [ofSegment, complement, except_bind_ok] at sum
  obtain ⟨pseudo, header, total, ofTotal, complemented⟩ := sum
  rw [combine_pair] at complemented
  cases complemented
  have some : pseudo ≠ 0 := pseudoHeader_ne_zero (by decide) header
  have bound := pseudo.toNat_lt
  have bound' := total.toNat_lt
  have positive : pseudo.toNat ≠ 0 := fun none => some (UInt16.toNat_inj.mp none)
  have left : fold (pseudo.toNat + total.toNat) ≠ 0 :=
    fold_ne_zero (by simp only [UInt32.size]; omega) (by omega)
  intro zero
  exact left (UInt16.not_inj.mp zero)

end Checksum
end TcpEngine

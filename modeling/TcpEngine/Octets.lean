import TcpEngine.Fault

/-!
Octet strings and the big-endian words in them. Writing is refused as a whole where it would reach
beyond the end, so a buffer never changes its length.
-/
namespace TcpEngine

abbrev Octets := List UInt8

namespace Octets

/- Words, most significant octet first. -/

def ofWord16 (w : UInt16) : Octets :=
  [UInt8.ofNat (w.toNat / 256), UInt8.ofNat w.toNat]

def ofWord32 (w : UInt32) : Octets :=
  [UInt8.ofNat (w.toNat / 16777216), UInt8.ofNat (w.toNat / 65536),
   UInt8.ofNat (w.toNat / 256), UInt8.ofNat w.toNat]

def word16 (a b : UInt8) : UInt16 :=
  UInt16.ofNat (a.toNat * 256 + b.toNat)

def word32 (a b c d : UInt8) : UInt32 :=
  UInt32.ofNat (a.toNat * 16777216 + b.toNat * 65536 + c.toNat * 256 + d.toNat)

def overwrite (octets : Octets) (start : Nat) (value : Octets) : Except Fault Octets :=
  if start + value.length ≤ octets.length then
    .ok (octets.take start ++ value ++ octets.drop (start + value.length))
  else
    .error .outOfRange

theorem length_ofWord16 (w : UInt16) : (ofWord16 w).length = 2 := rfl

theorem word16_ofWord16 (w : UInt16) :
    word16 (UInt8.ofNat (w.toNat / 256)) (UInt8.ofNat w.toNat) = w := by
  have bound := w.toNat_lt
  apply UInt16.toNat_inj.mp
  simp only [word16, UInt8.toNat_ofNat', UInt16.toNat_ofNat']
  omega

theorem word32_ofWord32 (w : UInt32) :
    word32 (UInt8.ofNat (w.toNat / 16777216)) (UInt8.ofNat (w.toNat / 65536))
      (UInt8.ofNat (w.toNat / 256)) (UInt8.ofNat w.toNat) = w := by
  have bound := w.toNat_lt
  apply UInt32.toNat_inj.mp
  simp only [word32, UInt8.toNat_ofNat', UInt32.toNat_ofNat']
  omega

theorem ofWord16_word16 (a b : UInt8) : ofWord16 (word16 a b) = [a, b] := by
  have first := a.toNat_lt
  have second := b.toNat_lt
  simp only [ofWord16, word16, List.cons.injEq, and_true, ← UInt8.toNat_inj, UInt8.toNat_ofNat',
    UInt16.toNat_ofNat']
  omega

theorem ofWord32_word32 (a b c d : UInt8) : ofWord32 (word32 a b c d) = [a, b, c, d] := by
  have first := a.toNat_lt
  have second := b.toNat_lt
  have third := c.toNat_lt
  have fourth := d.toNat_lt
  simp only [ofWord32, word32, List.cons.injEq, and_true, ← UInt8.toNat_inj, UInt8.toNat_ofNat',
    UInt32.toNat_ofNat']
  omega

end Octets
end TcpEngine

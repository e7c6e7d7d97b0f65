/-!
SipHash-2-4, a keyed hash: two rounds for each 64-bit word absorbed, and four rounds at the end.
-/
namespace TcpEngine

structure SipHash where
  v0 : UInt64
  v1 : UInt64
  v2 : UInt64
  v3 : UInt64
deriving DecidableEq, Repr

namespace SipHash

def rotate (x : UInt64) (n : UInt64) : UInt64 := x <<< n ||| x >>> (64 - n)

def start (k0 k1 : UInt64) : SipHash where
  v0 := k0 ^^^ 0x736f6d6570736575
  v1 := k1 ^^^ 0x646f72616e646f6d
  v2 := k0 ^^^ 0x6c7967656e657261
  v3 := k1 ^^^ 0x7465646279746573

def round (s : SipHash) : SipHash :=
  let v0 := s.v0 + s.v1
  let v1 := rotate s.v1 13 ^^^ v0
  let v0 := rotate v0 32
  let v2 := s.v2 + s.v3
  let v3 := rotate s.v3 16 ^^^ v2
  let v0 := v0 + v3
  let v3 := rotate v3 21 ^^^ v0
  let v2 := v2 + v1
  let v1 := rotate v1 17 ^^^ v2
  let v2 := rotate v2 32
  ⟨v0, v1, v2, v3⟩

def absorb (s : SipHash) (word : UInt64) : SipHash :=
  let mixed := round (round { s with v3 := s.v3 ^^^ word })
  { mixed with v0 := mixed.v0 ^^^ word }

def finish (s : SipHash) : UInt64 :=
  let mixed := round (round (round (round { s with v2 := s.v2 ^^^ 0xff })))
  mixed.v0 ^^^ mixed.v1 ^^^ mixed.v2 ^^^ mixed.v3

/-- The hash of a message of whole words, to which a last word adds its length in octets. -/
def ofWords (k0 k1 : UInt64) (words : List UInt64) : UInt64 :=
  ((words.foldl absorb (start k0 k1)).absorb (UInt64.ofNat (8 * words.length) <<< 56)).finish

end SipHash
end TcpEngine

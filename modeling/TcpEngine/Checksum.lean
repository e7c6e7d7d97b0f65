import TcpEngine.Address

/-!
The internet checksum: one's complement sums of big-endian 16-bit words. A partial sum is folded
into 16 bits, partial sums are combined, and the complement of the total is written on the wire. A
sum is refused once it needs more than 32 bits before it is folded.
-/
namespace TcpEngine
namespace Checksum

/-- Adds the words of `octets` to `sum`; an odd last octet is followed by a zero octet. -/
def addWords (sum : Nat) : Octets → Nat
  | [] => sum
  | [a] => sum + a.toNat * 256
  | a :: b :: rest => addWords (sum + (a.toNat * 256 + b.toNat)) rest

def wordSum (octets : Octets) : Nat := addWords 0 octets

def fold (sum : Nat) : UInt16 :=
  let once := sum / 65536 + sum % 65536
  UInt16.ofNat (once / 65536 + once % 65536)

def foldWide (sum : Nat) : Except Fault UInt16 :=
  if sum < UInt32.size then .ok (fold sum) else .error .overflow

def ofOctets (octets : Octets) : Except Fault UInt16 := foldWide (wordSum octets)

/-- The checksum of strings one after the other, from theirs. All but the last have even length. -/
def combine (sums : List UInt16) : Except Fault UInt16 :=
  foldWide (sums.foldl (fun sum word => sum + word.toNat) 0)

/-- The checksum of the pseudo header: both addresses, the protocol and the low half of the length. -/
def pseudoHeader (src dst : Address) (protocol : Protocol) (length : Nat) :
    Except Fault UInt16 := do
  combine [← ofOctets src.octets, ← ofOctets dst.octets,
    ← ofOctets ([0, protocol.number] ++ Octets.ofWord16 (UInt16.ofNat length))]

def complement (sums : List UInt16) : Except Fault UInt16 :=
  (combine sums).map (~~~ ·)

/-- Zero has two forms in one's complement, and both are valid. -/
def isValid (word : UInt16) : Bool := word == 0 || word == 0xffff

def ofSegment (octets : Octets) (src dst : Address) : Except Fault UInt16 := do
  complement [← pseudoHeader src dst .tcp octets.length, ← ofOctets octets]

end Checksum
end TcpEngine

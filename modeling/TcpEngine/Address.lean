import TcpEngine.Octets

/-!
Network addresses, the transport protocols above them, and endpoints. Both addresses and endpoints
are ordered like the big-endian numbers that their octets spell.
-/
namespace TcpEngine

structure Address where
  a : UInt8
  b : UInt8
  c : UInt8
  d : UInt8
deriving DecidableEq, Repr

namespace Address

def unspecified : Address := ⟨0, 0, 0, 0⟩

def octets (address : Address) : Octets := [address.a, address.b, address.c, address.d]

def number (address : Address) : UInt32 :=
  Octets.word32 address.a address.b address.c address.d

def ofNumber (n : UInt32) : Address :=
  ⟨UInt8.ofNat (n.toNat / 16777216), UInt8.ofNat (n.toNat / 65536), UInt8.ofNat (n.toNat / 256),
    UInt8.ofNat n.toNat⟩

def isUnspecified (address : Address) : Bool := address == unspecified

def order (left right : Address) : Ordering := compare left.number.toNat right.number.toNat

def render (address : Address) : String :=
  ".".intercalate (address.octets.map fun octet => toString octet.toNat)

theorem number_ofNumber (n : UInt32) : (ofNumber n).number = n := Octets.word32_ofWord32 n

theorem number_injective {left right : Address} (same : left.number = right.number) : left = right := by
  have octets := congrArg Octets.ofWord32 same
  rw [number, number, Octets.ofWord32_word32, Octets.ofWord32_word32] at octets
  cases left
  cases right
  cases octets
  rfl

end Address

structure Endpoint where
  address : Address
  port : UInt16
deriving DecidableEq, Repr

namespace Endpoint

def rank (endpoint : Endpoint) : Nat :=
  endpoint.address.number.toNat * 65536 + endpoint.port.toNat

def order (left right : Endpoint) : Ordering := compare left.rank right.rank

def render (endpoint : Endpoint) : String :=
  endpoint.address.render ++ ":" ++ toString endpoint.port.toNat

end Endpoint

/-- What a datagram carries. -/
inductive Protocol
  | icmp
  | tcp
  | udp
  | other (number : UInt8)
deriving DecidableEq, Repr

namespace Protocol

def ofNumber (n : UInt8) : Protocol :=
  if n = 1 then .icmp
  else if n = 6 then .tcp
  else if n = 17 then .udp
  else .other n

def number : Protocol → UInt8
  | .icmp => 1
  | .tcp => 6
  | .udp => 17
  | .other n => n

def hexDigit (n : Nat) : Char := Nat.digitChar (n % 16)

def render : Protocol → String
  | .icmp => "ICMP"
  | .tcp => "TCP"
  | .udp => "UDP"
  | .other n => String.ofList ['0', 'x', hexDigit (n.toNat / 16), hexDigit n.toNat]

theorem number_ofNumber (n : UInt8) : (ofNumber n).number = n := by
  unfold ofNumber
  split
  · simp_all [number]
  · split
    · simp_all [number]
    · split <;> simp_all [number]

end Protocol
end TcpEngine

import TcpEngine.Address
import TcpEngine.Sequence
import TcpEngine.SipHash
import TcpEngine.Time.Instant

/-!
Initial sequence numbers: a clock of four microseconds a tick, plus a keyed hash of both endpoints
and of a count of the numbers drawn, so that repeated attempts start from different numbers.
-/
namespace TcpEngine

structure SeqGenerator where
  key0 : UInt64
  key1 : UInt64
  draws : Nat
deriving DecidableEq, Repr

namespace SeqGenerator

def ofKey (key0 key1 : UInt64) : SeqGenerator := ⟨key0, key1, 0⟩

def ticks (now : Instant) : UInt32 := UInt32.ofNat (now.millis * 250 % 0x100000000).toNat

def message (here there : Endpoint) (draw : Nat) : List UInt64 :=
  [here.address.number.toUInt64 ||| there.address.number.toUInt64 <<< 32,
   here.port.toUInt64 ||| there.port.toUInt64 <<< 16 ||| UInt64.ofNat (draw % UInt32.size) <<< 32]

def next (g : SeqGenerator) (here there : Endpoint) (now : Instant) : SeqNumber :=
  ⟨(SipHash.ofWords g.key0 g.key1 (message here there g.draws)).toUInt32 + ticks now⟩

def advance (g : SeqGenerator) : SeqGenerator := { g with draws := g.draws + 1 }

end SeqGenerator
end TcpEngine

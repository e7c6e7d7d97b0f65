import TcpEngine.Fault

/-!
Sequence numbers: 32-bit numbers on a circle. The order of two numbers is the sign of their
difference, so it is meaningful within half the circle. At a distance of exactly `2 ^ 31` each
number is before the other, and none is after.
-/
namespace TcpEngine

structure SeqNumber where
  val : UInt32
deriving DecidableEq, Repr, Inhabited

namespace SeqNumber

def halfCircle : Nat := 0x80000000

/-- How far `a` lies ahead of `b` on the circle. -/
def ahead (a b : SeqNumber) : Nat := (a.val - b.val).toNat

def advance (a : SeqNumber) (n : Nat) : SeqNumber := ⟨a.val + UInt32.ofNat n⟩

def order (a b : SeqNumber) : Ordering :=
  if a.ahead b = 0 then .eq
  else if a.ahead b < halfCircle then .gt
  else .lt

def before (a b : SeqNumber) : Bool := a.order b == .lt

def after (a b : SeqNumber) : Bool := a.order b == .gt

def atOrBefore (a b : SeqNumber) : Bool := a.order b != .gt

def atOrAfter (a b : SeqNumber) : Bool := a.order b != .lt

/-- The number `n` places further on, for `n` within half the circle. -/
def add (a : SeqNumber) (n : Nat) : Except Fault SeqNumber :=
  if n < halfCircle then .ok (a.advance n) else .error .sequenceAddOverflow

/-- The number `n` places back, for `n` within half the circle. -/
def sub (a : SeqNumber) (n : Nat) : Except Fault SeqNumber :=
  if n < halfCircle then .ok ⟨a.val - UInt32.ofNat n⟩ else .error .sequenceSubOverflow

/-- The distance of `a` from a number that is not after it. -/
def distance (a b : SeqNumber) : Except Fault Nat :=
  if a.ahead b < halfCircle then .ok (a.ahead b) else .error .sequenceUnderflow

def inWindow (a start : SeqNumber) (length : Nat) : Except Fault Bool :=
  if length = 0 then .ok false
  else if start.atOrBefore a then (start.add length).map a.before
  else .ok false

def signed (a : SeqNumber) : Int := Int.bmod a.val.toNat UInt32.size

def render (a : SeqNumber) : String := toString a.val.toNat

end SeqNumber
end TcpEngine

/-!
Faults: the ways in which an operation may refuse to go on. A fault is not an error reported to a
user of a connection. It marks a call outside the domain of the operation, and whatever was still to
be done is not done.
-/
namespace TcpEngine

inductive Fault
  /-- More was added to a sequence number than half the sequence space less one. -/
  | sequenceAddOverflow
  /-- More was taken from a sequence number than half the sequence space less one. -/
  | sequenceSubOverflow
  /-- The distance of a sequence number from a later one was asked for. -/
  | sequenceUnderflow
  /-- A header announces another text length than that of the text given with it. -/
  | textLengthDisagrees
  | outOfRange
  /-- A value was to be kept between bounds of which the lower exceeds the upper. -/
  | boundsCrossed
  | overflow
deriving DecidableEq, Repr

/-- The text of a fault, where it has one of its own. -/
def Fault.message? : Fault → Option String
  | .sequenceAddOverflow => some "attempt to add to sequence number with unsigned overflow"
  | .sequenceSubOverflow => some "attempt to subtract to sequence number with unsigned overflow"
  | .sequenceUnderflow => some "attempt to subtract sequence numbers with underflow"
  | .textLengthDisagrees => some "payload length disagrees with header"
  | .outOfRange => none
  | .boundsCrossed => none
  | .overflow => none

end TcpEngine

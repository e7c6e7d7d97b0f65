import TcpEngine.Fault
import TcpEngine.Time.Rounding

/-!
Durations: whole nanoseconds, fewer than `2 ^ 64` seconds of them. Operations that would leave this
range are refused, unless they say that they stop at its end.
-/
namespace TcpEngine

structure Duration where
  nanos : Nat
deriving DecidableEq, Repr

namespace Duration

def second : Nat := 1000000000

def limit : Nat := UInt64.size * second

def longest : Duration := ⟨limit - 1⟩

def zero : Duration := ⟨0⟩

def ofNanos (nanos : Nat) : Except Fault Duration :=
  if nanos < limit then .ok ⟨nanos⟩ else .error .overflow

def ofMillis (millis : Nat) : Duration := ⟨millis * 1000000⟩

def ofSeconds (seconds : Nat) : Duration := ⟨seconds * second⟩

def wholeSeconds (d : Duration) : Nat := d.nanos / second

def wholeMillis (d : Duration) : Nat := d.nanos / 1000000

def add (d e : Duration) : Except Fault Duration := ofNanos (d.nanos + e.nanos)

def times (d : Duration) (n : Nat) : Except Fault Duration := ofNanos (d.nanos * n)

def timesOrLongest (d : Duration) (n : Nat) : Duration :=
  if d.nanos * n < limit then ⟨d.nanos * n⟩ else longest

def clamp (d lower upper : Duration) : Except Fault Duration :=
  if upper.nanos < lower.nanos then .error .boundsCrossed
  else if d.nanos < lower.nanos then .ok lower
  else if upper.nanos < d.nanos then .ok upper
  else .ok d

/- Scaling works on seconds with 53 significant bits, in multiples of `Rounding.unit`. Seconds and the
   fraction of a second are rounded each, and so is their sum. -/

def seconds53 (d : Duration) : Nat :=
  let whole := Rounding.significant (d.wholeSeconds * Rounding.unit) 1
  let fraction := Rounding.significant (d.nanos % second * Rounding.unit) second
  Rounding.significant (whole + fraction) 1

/-- Multiplies by `factor / 2 ^ 53`. The product is rounded to 53 significant bits, and then to whole
    nanoseconds. -/
def scale (d : Duration) (factor : Nat) : Except Fault Duration :=
  let product := Rounding.significant (d.seconds53 * factor) (1 <<< 53)
  if product < UInt64.size * Rounding.unit then
    ofNanos (Rounding.nearest (product * second) Rounding.unit)
  else .error .overflow

def digits (width n : Nat) : String :=
  let text := toString n
  String.ofList (List.replicate (width - text.length) '0') ++ text

def render (d : Duration) : String :=
  toString d.wholeSeconds ++ "." ++ digits 9 (d.nanos % second)

end Duration
end TcpEngine

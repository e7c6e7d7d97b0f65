import TcpEngine.Time.Duration

/-!
Instants: signed 64-bit milliseconds since an arbitrary start. Moving an instant by a duration stops
at either end of the range, and takes only the whole milliseconds of the duration.
-/
namespace TcpEngine

structure Instant where
  millis : Int
deriving DecidableEq, Repr

namespace Instant

def first : Int := -0x8000000000000000

def last : Int := 0x7fffffffffffffff

def start : Instant := ⟨0⟩

def nearest (millis : Int) : Instant := ⟨max first (min last millis)⟩

def at? (millis : Int) : Except Fault Instant :=
  if first ≤ millis ∧ millis ≤ last then .ok ⟨millis⟩ else .error .overflow

def ofSeconds (seconds : Int) : Except Fault Instant := at? (seconds * 1000)

def seconds (t : Instant) : Int := t.millis.tdiv 1000

def subMillis (t : Instant) : Int := t.millis.tmod 1000

def step (d : Duration) : Int := min last d.wholeMillis

def later (t : Instant) (d : Duration) : Instant := nearest (t.millis + step d)

def earlier (t : Instant) (d : Duration) : Instant := nearest (t.millis - step d)

/-- The time that has passed from `s` to `t`, none if `s` is later. -/
def since (t s : Instant) : Duration := .ofMillis (nearest (t.millis - s.millis)).millis.toNat

def reached (now deadline : Instant) : Bool := deadline.millis ≤ now.millis

def order (t s : Instant) : Ordering := compare t.millis s.millis

/- Calendar time, counted from the epoch. It is kept as signed 64-bit seconds. -/

def afterEpoch (d : Duration) : Except Fault Instant :=
  if (d.wholeSeconds : Int) ≤ last then at? d.wholeMillis else .error .overflow

/-- A calendar time before the epoch counts as the epoch. -/
def beforeEpoch (d : Duration) : Except Fault Instant :=
  if d.nanos ≤ 0x8000000000000000 * Duration.second then .ok start else .error .overflow

def sinceEpoch (t : Instant) : Duration := .ofMillis t.millis.toNat

/-- Three places at least, a sign being one of them. -/
def render (t : Instant) : String :=
  let rest := t.subMillis
  toString t.seconds ++ "."
    ++ (if rest < 0 then "-" ++ Duration.digits 2 rest.natAbs else Duration.digits 3 rest.natAbs)
    ++ "s"

end Instant
end TcpEngine

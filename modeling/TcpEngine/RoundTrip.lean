import TcpEngine.Config

/-!
Round trip estimation. The smoothed round trip moves to each sample by three tenths of the way, and
the retransmission timeout is 1.7 times as long, between the bounds of the settings.
-/
namespace TcpEngine

structure RoundTrip where
  smoothed : Duration
  timeout : Duration
  lower : Duration
  upper : Duration
deriving DecidableEq, Repr

namespace RoundTrip

/- The factors are multiples of `2 ^ -53`: 0.7 and 1.7 are rounded to 53 significant bits, and the
   third is exactly one less the first. -/

def keep : Nat := 6305039478318694

def gain : Nat := (1 <<< 53) - keep

def margin : Nat := 15312238733059686

def start (config : Config) : RoundTrip where
  smoothed := config.initialTimeout
  timeout := config.initialTimeout
  lower := config.minTimeout
  upper := config.maxTimeout

def sample (r : RoundTrip) (measured : Duration) : Except Fault RoundTrip := do
  let smoothed ← (← r.smoothed.scale keep).add (← measured.scale gain)
  let timeout ← (← smoothed.scale margin).clamp r.lower r.upper
  return { r with smoothed, timeout }

/-- The timeout of a segment that was sent again `retries` times: twice as long for each. The factor
    has 32 bits, and all of them are ones where the power of two has more. -/
def backoff (r : RoundTrip) (retries : Nat) : Duration :=
  r.timeout.timesOrLongest (if retries < 32 then 1 <<< retries else UInt32.size - 1)

end RoundTrip
end TcpEngine

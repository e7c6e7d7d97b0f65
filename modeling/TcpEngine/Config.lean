import TcpEngine.Time.Instant

/-!
The settings that all connections of a table share.
-/
namespace TcpEngine

structure Config where
  /-- How long a segment may live in the network. -/
  maxSegmentLifetime : Duration := .ofSeconds 120
  /-- The retransmission timeout before the first round trip was measured. -/
  initialTimeout : Duration := .ofSeconds 10
  minTimeout : Duration := .ofSeconds 1
  maxTimeout : Duration := .ofSeconds 60
  /-- The expiry of its timer at which a segment is given up. -/
  maxRetransmits : Nat := 3
  /-- How often a user call tries to hand its segment to the network. -/
  transmitAttempts : Nat := 3
  /-- How long a segment may stay unacknowledged if `open` does not say. -/
  userTimeout : Duration := .ofSeconds 300
  /-- The room for received text, of which at most 65535 octets are used. -/
  receiveWindow : Nat := 65535
deriving DecidableEq, Repr

def Config.timeWait (config : Config) : Except Fault Duration := config.maxSegmentLifetime.times 2

end TcpEngine

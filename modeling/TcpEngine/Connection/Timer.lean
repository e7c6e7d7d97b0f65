import TcpEngine.Connection.Basic

/-!
The timers of a connection: the end of TIME-WAIT, the user timeout, and retransmission. A segment
whose timer runs out is sent again with fresh acknowledgment and window, until it is given up.
-/
namespace TcpEngine
namespace Connection

/-- What a look at the queue finds: the queue left, the segments to send again, and whether one of
    the segments left has outlived the user timeout. -/
structure Review where
  queue : List Unacked
  resend : List Unacked
  expired : Bool
deriving DecidableEq, Repr

/-- Looks at the segments in order, up to the first that has outlived the user timeout. -/
def review (c : Connection) (now : Instant) (config : Config) : List Unacked → Act Review
  | [] => return ⟨[], [], false⟩
  | e :: rest => do
    if now.reached (e.firstSent.later c.userTimeout) then
      return ⟨e :: rest, [], true⟩
    else if now.reached (e.lastSent.later (c.roundTrip.backoff e.retries)) then
      let retries ← if e.retries + 1 < UInt32.size then pure (e.retries + 1)
        else (Except.error .overflow : Except Fault Nat)
      if config.maxRetransmits ≤ retries then
        Act.signal? e.call (.failed .retransmissionTimeout)
        c.review now config rest
      else
        let again := { e with retries, lastSent := now }
        let later ← c.review now config rest
        return { later with queue := again :: later.queue, resend := again :: later.resend }
    else
      let later ← c.review now config rest
      return { later with queue := e :: later.queue }

def onTimer (c : Connection) (now : Instant) (config : Config) :
    Act (Connection × List Segment) := do
  if c.state = .timeWait then
    let period ← config.timeWait
    if now.reached (c.waitingSince.later period) then
      return (← c.terminate .userTimeout, [])
    else return (c, [])
  else
    let c ← c.releaseAcked now
    let found ← c.review now config c.queue
    let c := { c with queue := found.queue }
    if found.expired then
      return (← c.terminate .userTimeout, [])
    else
      return (c, found.resend.filterMap fun e => c.segment e.flags e.seq e.text)

end Connection
end TcpEngine

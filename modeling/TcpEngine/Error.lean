/-!
Reported errors: of reading a segment, of handing one to the network, and of a user call.
-/
namespace TcpEngine

inductive WireError
  | truncated
  | wrongChecksum
  | unrecognized
  | malformed
  | unsupported
deriving DecidableEq, Repr

def WireError.message : WireError → String
  | .truncated => "truncated packet"
  | .wrongChecksum => "checksum error"
  | .unrecognized => "unrecognized packet"
  | .malformed => "malformed packet"
  | .unsupported => "unsupported option"

inductive DeliveryError
  | illegal
  | unreachable
  | unresolved
  | exhausted
deriving DecidableEq, Repr

def DeliveryError.message : DeliveryError → String
  | .illegal => "operation not permitted"
  | .unreachable => "no route to destination"
  | .unresolved => "link-layer address unresolved"
  | .exhausted => "resources exhausted"

inductive CallError
  | connectionReset
  | connectionRefused
  | insufficientResources
  | connectionExists
  | connectionDoesNotExist
  | connectionClosing
  | foreignUnspecified
  | addressInUse
  | userTimeout
  | retransmissionTimeout
  | receivePending
  | transmit (cause : DeliveryError)
deriving DecidableEq, Repr

def CallError.message : CallError → String
  | .connectionReset => "connection reset"
  | .connectionRefused => "connection refused"
  | .insufficientResources => "insufficient resources"
  | .connectionExists => "connection already exists"
  | .connectionDoesNotExist => "connection does not exist"
  | .connectionClosing => "connection closing"
  | .foreignUnspecified => "foreign socket unspecified"
  | .addressInUse => "local address already used"
  | .userTimeout => "connection aborted due to user timeout"
  | .retransmissionTimeout => "retransmission time exceeded, network may be unreachable"
  | .receivePending => "receive already pending"
  | .transmit cause => "transmission failed: " ++ cause.message

end TcpEngine

/-!
The states of a connection.
-/
namespace TcpEngine

inductive State
  | closed
  | listen
  | synSent
  | synReceived
  | established
  | finWait1
  | finWait2
  | closeWait
  | closing
  | lastAck
  | timeWait
deriving DecidableEq, Repr

namespace State

def all : List State :=
  [.closed, .listen, .synSent, .synReceived, .established, .finWait1, .finWait2, .closeWait,
   .closing, .lastAck, .timeWait]

def render : State → String
  | .closed => "CLOSED"
  | .listen => "LISTEN"
  | .synSent => "SYN-SENT"
  | .synReceived => "SYN-RECEIVED"
  | .established => "ESTABLISHED"
  | .finWait1 => "FIN-WAIT-1"
  | .finWait2 => "FIN-WAIT-2"
  | .closeWait => "CLOSE-WAIT"
  | .closing => "CLOSING"
  | .lastAck => "LAST-ACK"
  | .timeWait => "TIME-WAIT"

def ofName? (name : String) : Option State := all.find? fun state => state.render == name

/-- The peer's initial sequence number is known. -/
def isSynchronized : State → Bool
  | .closed | .listen | .synSent => false
  | _ => true

def receivesText : State → Bool
  | .established | .finWait1 | .finWait2 => true
  | _ => false

end State
end TcpEngine

import TcpEngine.Host

/-!
Two hosts and the datagrams between them. A datagram in flight can be delivered, delivered and kept,
or lost, and in any order.
-/
namespace TcpEngine

structure Link where
  near : Host
  far : Host
  /-- The one address of the near host; all others are of the far host. -/
  home : Address
  flight : List Datagram
deriving DecidableEq, Repr

inductive Side
  | near
  | far
deriving DecidableEq, Repr

namespace Link

def join (near far : Host) (home : Address) : Link := ⟨near, far, home, []⟩

def host (l : Link) : Side → Host
  | .near => l.near
  | .far => l.far

def setHost (l : Link) (h : Host) : Side → Link
  | .near => { l with near := h }
  | .far => { l with far := h }

def owner (l : Link) (address : Address) : Side := if address = l.home then .near else .far

/-- Puts what the hosts have sent in flight, the near host's first, and tells what it was. -/
def launch (l : Link) : Link × List Datagram :=
  let near := l.near.sent
  let far := l.far.sent
  let sent := near.2 ++ far.2
  ({ l with near := near.1, far := far.1, flight := l.flight ++ sent }, sent)

def handle (l : Link) (side : Side) (event : Event) (now : Instant) (call : CallId) :
    Link × Except Fault Answer :=
  let handled := (l.host side).handle event now call
  (l.setHost handled.1 side, handled.2)

def hand (l : Link) (d : Datagram) (now : Instant) : Link × Except Fault Answer :=
  l.handle (l.owner d.dst) (.ingress d.octets d.src d.dst) now 0

def lose (l : Link) (i : Nat) : Link := { l with flight := l.flight.eraseIdx i }

/-- Delivers the oldest datagram, and what is sent in answer, until nothing is in flight or `limit`
    datagrams were delivered. Tells how many were. -/
def pump (now : Instant) : Nat → Link → Link × Except Fault Nat
  | 0, l => (l.launch.1, .ok 0)
  | limit + 1, l =>
    let launched := l.launch.1
    match launched.flight with
    | [] => (launched, .ok 0)
    | d :: rest =>
      match hand { launched with flight := rest } d now with
      | (l, .error fault) => (l, .error fault)
      | (l, .ok _) =>
        let pumped := pump now limit l
        (pumped.1, pumped.2.map (· + 1))

def sweep (l : Link) (now : Instant) : Link × Except Fault Answer :=
  match l.handle .near .sweep now 0 with
  | (l, .error fault) => (l, .error fault)
  | (l, .ok _) => l.handle .far .sweep now 0

end Link
end TcpEngine

import TcpEngine.Address
import TcpEngine.Error

/-!
The way down to the network: datagrams, an outbox that keeps them in memory, and an outlet, which
is an outbox behind a list of verdicts of the network on the datagrams to come.
-/
namespace TcpEngine

structure Datagram where
  protocol : Protocol
  src : Address
  dst : Address
  octets : Octets
deriving DecidableEq, Repr

/-- Keeps every datagram, oldest first, except that the next `failures` ones are refused. -/
structure Outbox where
  datagrams : List Datagram
  failures : Nat
  attempts : Nat
deriving DecidableEq, Repr

namespace Outbox

def empty : Outbox := ⟨[], 0, 0⟩

def failNext (box : Outbox) (count : Nat) : Outbox := { box with failures := count }

def transmit (box : Outbox) (datagram : Datagram) : Outbox × Except DeliveryError Unit :=
  let tried := { box with attempts := box.attempts + 1 }
  if box.failures > 0 then ({ tried with failures := box.failures - 1 }, .error .unresolved)
  else ({ tried with datagrams := box.datagrams ++ [datagram] }, .ok ())

def pop (box : Outbox) : Outbox × Option Datagram :=
  ({ box with datagrams := box.datagrams.tail }, box.datagrams.head?)

def drain (box : Outbox) : Outbox × List Datagram :=
  ({ box with datagrams := [] }, box.datagrams)

end Outbox

/-- What the network says to one datagram: nothing, or why it does not take it. -/
abbrev Verdict := Option DeliveryError

structure Outlet where
  verdicts : List Verdict
  outbox : Outbox
deriving DecidableEq, Repr

namespace Outlet

def empty : Outlet := ⟨[], .empty⟩

/-- Each attempt takes one verdict; where none is left, the outbox decides. -/
def transmit (outlet : Outlet) (datagram : Datagram) : Outlet × Except DeliveryError Unit :=
  match outlet.verdicts with
  | some refusal :: rest => ({ outlet with verdicts := rest }, .error refusal)
  | none :: rest =>
    let sent := outlet.outbox.transmit datagram
    (⟨rest, sent.1⟩, sent.2)
  | [] =>
    let sent := outlet.outbox.transmit datagram
    (⟨[], sent.1⟩, sent.2)

/-- Tries up to `attempts + 1` times, until the first success. The last refusal counts. -/
def transmitWithin (outlet : Outlet) (datagram : Datagram) :
    Nat → Outlet × Except DeliveryError Unit
  | 0 => outlet.transmit datagram
  | attempts + 1 =>
    match outlet.transmit datagram with
    | (tried, .ok ()) => (tried, .ok ())
    | (tried, .error _) => tried.transmitWithin datagram attempts

def drain (outlet : Outlet) : Outlet × List Datagram :=
  let drained := outlet.outbox.drain
  ({ outlet with outbox := drained.1 }, drained.2)

end Outlet
end TcpEngine

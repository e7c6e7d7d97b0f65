/-!
The control flags of a segment, one octet. SYN and FIN occupy a place of the sequence space each.
-/
namespace TcpEngine

inductive Flag
  | cwr | ece | urg | ack | psh | rst | syn | fin
deriving DecidableEq, Repr

namespace Flag

def all : List Flag := [.cwr, .ece, .urg, .ack, .psh, .rst, .syn, .fin]

def mask : Flag → UInt8
  | .cwr => 0x80
  | .ece => 0x40
  | .urg => 0x20
  | .ack => 0x10
  | .psh => 0x08
  | .rst => 0x04
  | .syn => 0x02
  | .fin => 0x01

def name : Flag → String
  | .cwr => "cwr"
  | .ece => "ece"
  | .urg => "urg"
  | .ack => "ack"
  | .psh => "psh"
  | .rst => "rst"
  | .syn => "syn"
  | .fin => "fin"

end Flag

structure Flags where
  bits : UInt8
deriving DecidableEq, Repr

namespace Flags

def has (flags : Flags) (flag : Flag) : Bool := flags.bits &&& flag.mask != 0

def put (flags : Flags) (flag : Flag) (raised : Bool) : Flags :=
  ⟨flags.bits &&& ~~~flag.mask ||| if raised then flag.mask else 0⟩

def union (left right : Flags) : Flags := ⟨left.bits ||| right.bits⟩

def ofList (flags : List Flag) : Flags :=
  flags.foldl (fun raised flag => raised.put flag true) ⟨0⟩

def toList (flags : Flags) : List Flag := Flag.all.filter flags.has

def sequenceLength (flags : Flags) : Nat :=
  (flags.has .syn).toNat + (flags.has .fin).toNat

def render (flags : Flags) : String :=
  if flags.toList.isEmpty then "-" else "|".intercalate (flags.toList.map Flag.name)

end Flags
end TcpEngine

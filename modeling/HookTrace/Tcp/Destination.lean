import HookTrace.Code
import HookTrace.Layout
import HookTrace.Field
import HookTrace.Fault

/-!
# HookTrace.Tcp.Destination

Where a connected socket leads to, as the kernel stores it: the IPv4 address as the number its
octets spell in the machine's order, the IPv6 address as its sixteen bytes, and the port as a
plain number.
-/

namespace HookTrace.Tcp

inductive Protocol where
  | ipv4
  | ipv6
deriving DecidableEq

instance : Coded Protocol where
  all := [.ipv4, .ipv6]
  code
    | .ipv4 => 0
    | .ipv6 => 1
  label
    | .ipv4 => "Ipv4"
    | .ipv6 => "Ipv6"

/-- The sixteen bytes of an IPv6 address. -/
abbrev AddressV6 := Field 16

structure Destination where
  v4 : UInt32 := 0
  v6 : AddressV6 := Field.zero 16
  port : UInt16 := 0
deriving DecidableEq

instance : Layout Destination where
  zero := {}
  members := [.word 4, .field 16, .word 2]

/-- Finds the destination of the socket at an address; a kernel reads only what the protocol
needs. -/
abbrev SocketReader := UInt64 → Protocol → Except Fault Destination

/-- Known sockets by address; of two with one address the first counts. -/
structure Sockets where
  entries : List (UInt64 × Destination)

namespace Sockets

def empty : Sockets := ⟨[]⟩

def insert (sockets : Sockets) (address : UInt64) (destination : Destination) : Sockets :=
  ⟨(address, destination) :: sockets.entries⟩

def find? (sockets : Sockets) (address : UInt64) : Option Destination :=
  sockets.entries.lookup address

/-- An unknown socket is an unreadable one. -/
def reader (sockets : Sockets) : SocketReader := fun address _ =>
  match sockets.find? address with
  | some destination => .ok destination
  | none => .error (.unreadableKernel "sock" address (recordSize Destination))

end Sockets

end HookTrace.Tcp

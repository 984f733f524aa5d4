import HookTrace.AddressSpace
import HookTrace.Limits

/-!
# HookTrace.SocketAddress

IPv4 socket addresses in a traced process: two bytes of address family in the machine's own
order (least significant first), two bytes of port in network order, and the four octets of the
address, which are kept as the number they spell in the machine's order.
-/

namespace HookTrace

/-- The peer that a descriptor is connected to. -/
structure InetAddress where
  addr : UInt32
  port : UInt16
deriving DecidableEq

namespace InetAddress

/-- The bytes of a socket address, as the caller of `connect` lays them out. -/
def encode (address : InetAddress) : Bytes :=
  Bytes.ofNatLE 2 Limits.inet.toNat
    ++ (Bytes.ofNatLE 2 address.port.toNat).reverse
    ++ Bytes.ofNatLE 4 address.addr.toNat

/-- The port and address behind the family. -/
def decodeRest (rest : Field 6) : InetAddress where
  port := UInt16.ofNat (Bytes.toNatBE (rest.bytes.take 2))
  addr := UInt32.ofNat (Bytes.toNatLE (rest.bytes.drop 2))

/-- Reads the socket address at `uaddr`; `none` if it is of another family, of which nothing more
is read. -/
def read? (memory : UserSpace) (uaddr : UInt64) : Except Fault (Option InetAddress) := do
  let family ← memory.read uaddr 2
  if UInt16.ofNat family.toNatLE ≠ Limits.inet then
    return none
  let rest ← memory.read (uaddr + 2) 6
  return some (decodeRest rest)

end InetAddress

end HookTrace

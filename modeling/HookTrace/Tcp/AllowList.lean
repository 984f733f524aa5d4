import HookTrace.Limits
import HookTrace.Fault
import HookTrace.Tcp.Destination

/-!
# HookTrace.Tcp.AllowList

Which destinations the connect hooks report. A list has 32 places of which a stored length says
how many count; a length of zero admits every address, and one beyond 32 counts as 32. The lists
of the two address families do not affect each other.

* `ConnectConfig`: the two lists as they are stored.
* `ConnectConfig.ofLists`: the stored form of lists of addresses, refused if one is too long.
* `ConnectConfig.Builder`: the same, from settings that are made one at a time.
-/

namespace HookTrace.Tcp

structure ConnectConfig where
  target : UInt32 := 0
  listV4 : Vector UInt32 Limits.allowed := Vector.replicate _ 0
  lengthV4 : UInt32 := 0
  listV6 : Vector AddressV6 Limits.allowed := Vector.replicate _ (Field.zero 16)
  lengthV6 : UInt32 := 0

namespace ConnectConfig

/-- The places of a list that count. -/
def counted {α : Type} (list : Vector α Limits.allowed) (length : UInt32) : List α :=
  list.toList.take length.toNat

def v4 (config : ConnectConfig) : List UInt32 :=
  counted config.listV4 config.lengthV4

def v6 (config : ConnectConfig) : List AddressV6 :=
  counted config.listV6 config.lengthV6

/-- Looks for an address among the first `length` places, one after the other. -/
def anyPlace {α : Type} [DecidableEq α] (address : α) : List α → (length : Nat) → Bool
  | [], _ => false
  | _, 0 => false
  | place :: rest, length + 1 => place == address || anyPlace address rest length

def admitsV4 (config : ConnectConfig) (address : UInt32) : Bool :=
  config.lengthV4 == 0 || anyPlace address config.listV4.toList config.lengthV4.toNat

def admitsV6 (config : ConnectConfig) (address : AddressV6) : Bool :=
  config.lengthV6 == 0 || anyPlace address config.listV6.toList config.lengthV6.toNat

/-- Whether the list of the destination's own family admits it. -/
def admits (config : ConnectConfig) (protocol : Protocol) (destination : Destination) : Bool :=
  match protocol with
  | .ipv4 => config.admitsV4 destination.v4
  | .ipv6 => config.admitsV6 destination.v6

/-- The addresses from the first place on, with `filler` in the places left over. -/
def places {α : Type} (filler : α) (addresses : List α) : Vector α Limits.allowed :=
  Vector.ofFn fun i => addresses.getD i filler

/-- The number that four octets spell in the machine's order. -/
def ofOctets (octets : Field 4) : UInt32 :=
  UInt32.ofNat octets.toNatLE

/-- The stored form of two allow-lists. -/
def ofLists (tgid : Option UInt32) (v4 : List (Field 4)) (v6 : List AddressV6) :
    Except ConfigFault ConnectConfig :=
  if v4.length > Limits.allowed then
    .error (.tooManyV4 v4.length Limits.allowed)
  else if v6.length > Limits.allowed then
    .error (.tooManyV6 v6.length Limits.allowed)
  else
    .ok {
      target := tgid.getD 0
      listV4 := places 0 (v4.map ofOctets)
      lengthV4 := UInt32.ofNat v4.length
      listV6 := places (Field.zero 16) v6
      lengthV6 := UInt32.ofNat v6.length
    }

inductive Setting where
  | target (tgid : UInt32)
  | allowV4 (octets : Field 4)
  | allowV6 (address : AddressV6)

/-- A configuration that is being put together. -/
structure Builder where
  target : Option UInt32 := none
  v4 : List (Field 4) := []
  v6 : List AddressV6 := []

namespace Builder

/-- A later target takes the place of an earlier one; addresses are added to their list. -/
def set (builder : Builder) : Setting → Builder
  | .target tgid => { builder with target := some tgid }
  | .allowV4 octets => { builder with v4 := builder.v4 ++ [octets] }
  | .allowV6 address => { builder with v6 := builder.v6 ++ [address] }

def ofSettings (settings : List Setting) : Builder :=
  settings.foldl set {}

def build (builder : Builder) : Except ConfigFault ConnectConfig :=
  ConnectConfig.ofLists builder.target builder.v4 builder.v6

end Builder

end ConnectConfig

end HookTrace.Tcp

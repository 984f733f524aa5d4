import HookTrace.Bytes

/-!
# HookTrace.Fault

Why a hook or a configuration is refused.

* `Fault`: what goes wrong while a hook runs. Each names the operation that failed, has a
  numeric `code` that becomes the hook's return code, a `label` it is listed under, a `message`,
  and the line a kernel program reports it with.
* `ConfigFault`: what a tracer's configuration is rejected for.
-/

namespace HookTrace

inductive Fault where
  /-- The context of the hook does not hold the argument. -/
  | missingArgument (op : String) (index : Nat)
  | unreadableKernel (op : String) (address : UInt64) (length : Nat)
  | unreadableUser (op : String) (address : UInt64) (length : Nat)
  /-- A path could not be resolved; `result` is the negative error number. -/
  | noPath (op : String) (result : Int64)
  | noBuffer (op : String)
  /-- A table or a channel has no room left. -/
  | outOfSpace (op : String)
  | unreachable (op : String)
deriving DecidableEq

namespace Fault

/-- The return code of a hook that fails; a hook that succeeds returns zero. -/
def code : Fault → UInt32
  | missingArgument .. => 1
  | unreadableKernel .. => 2
  | unreadableUser .. => 3
  | noPath .. => 4
  | noBuffer _ => 5
  | outOfSpace _ => 6
  | unreachable _ => 7

def label : Fault → String
  | missingArgument .. => "MissingArg"
  | unreadableKernel .. => "CouldntReadKernel"
  | unreadableUser .. => "CouldntReadUser"
  | noPath .. => "CouldntGetPath"
  | noBuffer _ => "CouldntAccessBuffer"
  | outOfSpace _ => "OutOfSpace"
  | unreachable _ => "Unreachable"

def message : Fault → String
  | missingArgument op index => s!"{op}: missing arg {index}"
  | unreadableKernel op address length =>
    s!"{op}: couldn't read kernel address 0x{hexadecimal address.toNat} ({length} bytes)"
  | unreadableUser op address length =>
    s!"{op}: couldn't read user address 0x{hexadecimal address.toNat} ({length} bytes)"
  | noPath op result => s!"{op}: couldn't get path ({result.toInt})"
  | noBuffer op => s!"{op}: couldn't access buffer"
  | outOfSpace op => s!"{op}: ran out of space"
  | unreachable op => s!"{op}: reached an unreachable state"

/-- The line that the kernel program `handler` reports the fault with. -/
def report (handler : String) : Fault → String
  | missingArgument op index => s!"{op}: Missing arg {index} while handling {handler}"
  | unreadableKernel op address length =>
    s!"{op}: Couldn't read kernel address 0x{hexadecimal address.toNat} ({length} bytes) while handling {handler}"
  | unreadableUser op address length =>
    s!"{op}: Couldn't read user address 0x{hexadecimal address.toNat} ({length} bytes) while handling {handler}"
  | noPath op result => s!"{op}: Couldn't get path ({result.toInt}) while handling {handler}"
  | noBuffer op => s!"{op}: Couldn't access buffer while handling {handler}"
  | outOfSpace op => s!"{op}: Ran out of space while handling {handler}"
  | unreachable op => s!"{op}: Encountered an unreachable code block while handling {handler}"

theorem code_ne_zero (fault : Fault) : fault.code ≠ 0 := by
  cases fault <;> simp [code]

end Fault

inductive ConfigFault where
  | tooManyV4 (got limit : Nat)
  | tooManyV6 (got limit : Nat)
  /-- An empty directory would match every deletion. -/
  | emptyDirectory
  | directoryTooLong (length limit : Nat)
  | directoryContainsNul
  | zeroPort
deriving DecidableEq

namespace ConfigFault

def label : ConfigFault → String
  | tooManyV4 .. => "TooManyV4"
  | tooManyV6 .. => "TooManyV6"
  | emptyDirectory => "EmptyDirectory"
  | directoryTooLong .. => "DirectoryTooLong"
  | directoryContainsNul => "DirectoryContainsNul"
  | zeroPort => "ZeroPort"

def message : ConfigFault → String
  | tooManyV4 got limit =>
    s!"{got} IPv4 destinations given, at most {limit} can be allow-listed"
  | tooManyV6 got limit =>
    s!"{got} IPv6 destinations given, at most {limit} can be allow-listed"
  | emptyDirectory => "unlink directory must not be empty"
  | directoryTooLong length limit => s!"unlink directory is {length} bytes, at most {limit} fit"
  | directoryContainsNul => "unlink directory contains a NUL byte"
  | zeroPort => "mysql port must be nonzero"

end ConfigFault

end HookTrace

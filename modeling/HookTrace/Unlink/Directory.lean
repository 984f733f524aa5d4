import HookTrace.Limits
import HookTrace.Field
import HookTrace.Fault

/-!
# HookTrace.Unlink.Directory

The directory whose deletions are intercepted. It is stored as a NUL-padded field; a pathname is
inside it if it starts with the bytes in front of the padding.
-/

namespace HookTrace.Unlink

structure UnlinkConfig where
  /-- The agent that owns the interceptor; it and its children are never intercepted. -/
  this : UInt32 := 0
  directory : Field Limits.directory := Field.zero _

namespace UnlinkConfig

/-- Compares byte by byte; the comparison ends at the directory's terminator. -/
def startsWith : (pathname directory : Bytes) → Bool
  | _, [] => true
  | [], d :: _ => d == 0
  | p :: pathname, d :: directory => d == 0 || (p == d && startsWith pathname directory)

/-- Whether a pathname lies in the configured directory. -/
def covers (config : UnlinkConfig) (pathname : Bytes) : Bool :=
  startsWith pathname config.directory.bytes

/-- Refuses a directory that would match everything or does not fit its field. -/
def ofDirectory (this : UInt32) (directory : Bytes) : Except ConfigFault UnlinkConfig :=
  if directory.isEmpty then
    .error .emptyDirectory
  else if directory.contains 0 then
    .error .directoryContainsNul
  else if directory.length ≥ Limits.directory then
    .error (.directoryTooLong directory.length (Limits.directory - 1))
  else
    .ok { this, directory := Field.ofBytes _ directory }

end UnlinkConfig

end HookTrace.Unlink
